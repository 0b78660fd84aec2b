-- What a subscriber learns from the polls of one etcd client (src/util/EtcdClient.h).
-- The client keeps one snapshot, whatever it polled last, so the lists of a poll
-- are changes of the polled keys only as long as every poll asks for the same ones.
import Mymuduo.Deltas
import Mymuduo.EtcdClient
import Mymuduo.Runs

open List bytes words json runs deltas

namespace mymuduo.etcd_client

/-! ## Base64, there and back -/

theorem idxOf_sextet (v shift : Nat) : tbl.idxOf? (sextet v shift) = some (v / 2 ^ shift % 64) := by
  have hall : ∀ d < 64, tbl.idxOf? (tbl.getD d 0) = some d := by decide +kernel
  unfold sextet
  rw [show (0x3F : Nat) = 2 ^ 6 - 1 from rfl, Nat.and_two_pow_sub_one_eq_mod,
    Nat.shiftRight_eq_div_pow]
  exact hall _ (Nat.mod_lt _ (by decide))

theorem unbase64From_sextet (val : Nat) (valb : Int) (v shift : Nat) (rest : Bytes) :
    unbase64From val valb (sextet v shift :: rest) =
      if 0 ≤ valb + 6 then
        UInt8.ofNat ((val * 64 + v / 2 ^ shift % 64) % 2 ^ 32 / 2 ^ (valb + 6).toNat % 256) ::
          unbase64From ((val * 64 + v / 2 ^ shift % 64) % 2 ^ 32) (valb + 6 - 8) rest
      else unbase64From ((val * 64 + v / 2 ^ shift % 64) % 2 ^ 32) (valb + 6) rest := by
  have hor : (val <<< 6) ||| (v / 2 ^ shift % 64) = val * 64 + v / 2 ^ shift % 64 := by
    rw [Nat.shiftLeft_eq, Nat.mul_comm, ← Nat.two_pow_add_eq_or_of_lt (Nat.mod_lt _ (by decide)),
      Nat.mul_comm]
  rw [unbase64From, idxOf_sextet]
  dsimp only
  rw [hor, show (0xFF : Nat) = 2 ^ 8 - 1 from rfl, Nat.and_two_pow_sub_one_eq_mod,
    Nat.shiftRight_eq_div_pow]

theorem unbase64From_first (val v : Nat) (rest : Bytes) :
    ∃ val', val' % 16 = v / 4096 % 16 ∧ unbase64From val (-8) (sextet v 18 :: sextet v 12 :: rest) =
      UInt8.ofNat (v / 65536 % 256) :: unbase64From val' (-4) rest := by
  refine ⟨((val * 64 + v / 2 ^ 18 % 64) % 2 ^ 32 * 64 + v / 2 ^ 12 % 64) % 2 ^ 32, by omega, ?_⟩
  rw [unbase64From_sextet, if_neg (by decide), unbase64From_sextet, if_pos (by decide)]
  have hbyte : ((val * 64 + v / 2 ^ 18 % 64) % 2 ^ 32 * 64 + v / 2 ^ 12 % 64) % 2 ^ 32 /
      2 ^ 4 % 256 = v / 65536 % 256 := by omega
  exact congrArg₂ _ (congrArg UInt8.ofNat hbyte) rfl

theorem unbase64From_second {val v : Nat} (h : val % 16 = v / 4096 % 16) (rest : Bytes) :
    ∃ val', val' % 4 = v / 64 % 4 ∧ unbase64From val (-4) (sextet v 6 :: rest) =
      UInt8.ofNat (v / 256 % 256) :: unbase64From val' (-6) rest := by
  refine ⟨(val * 64 + v / 2 ^ 6 % 64) % 2 ^ 32, by omega, ?_⟩
  rw [unbase64From_sextet, if_pos (by decide)]
  have hbyte : (val * 64 + v / 2 ^ 6 % 64) % 2 ^ 32 / 2 ^ 2 % 256 = v / 256 % 256 := by omega
  exact congrArg₂ _ (congrArg UInt8.ofNat hbyte) rfl

theorem unbase64From_third {val v : Nat} (h : val % 4 = v / 64 % 4) (rest : Bytes) :
    ∃ val', unbase64From val (-6) (sextet v 0 :: rest) =
      UInt8.ofNat (v % 256) :: unbase64From val' (-8) rest := by
  refine ⟨(val * 64 + v / 2 ^ 0 % 64) % 2 ^ 32, ?_⟩
  rw [unbase64From_sextet, if_pos (by decide)]
  have hbyte : (val * 64 + v / 2 ^ 0 % 64) % 2 ^ 32 / 2 ^ 0 % 256 = v % 256 := by omega
  exact congrArg₂ _ (congrArg UInt8.ofNat hbyte) rfl

theorem unbase64From_padding (val : Nat) (valb : Int) (rest : Bytes) :
    unbase64From val valb (61 :: rest) = unbase64From val valb rest := by
  have hnone : tbl.idxOf? 61 = none := by decide +kernel
  rw [unbase64From, hnone]

theorem shift16_or (a : UInt8) {n : Nat} (h : n < 65536) :
    (a.toNat <<< 16) ||| n = a.toNat * 65536 + n := by
  rw [Nat.shiftLeft_eq, Nat.mul_comm, ← Nat.two_pow_add_eq_or_of_lt (by omega), Nat.mul_comm]

theorem ofNat_byte {a : UInt8} {n : Nat} (h : n = a.toNat) : UInt8.ofNat n = a := by
  rw [h, UInt8.ofNat_toNat]

theorem unbase64From_base64 (data : Bytes) (val : Nat) :
    unbase64From val (-8) (base64 data) = data := by
  induction data using base64.induct generalizing val with
  | case1 a b c rest ih =>
    have ha := a.toNat_lt
    have hb := b.toNat_lt
    have hc := c.toNat_lt
    have hv : (a.toNat <<< 16) ||| (b.toNat <<< 8) ||| c.toNat =
        a.toNat * 65536 + (b.toNat * 256 + c.toNat) := by
      rw [Nat.or_assoc, shift_or_byte, shift16_or a (by omega)]
    rw [base64, hv]
    generalize hword : a.toNat * 65536 + (b.toNat * 256 + c.toNat) = v
    simp only [cons_append, nil_append]
    obtain ⟨val1, h1, heq1⟩ := unbase64From_first val v (sextet v 6 :: sextet v 0 :: base64 rest)
    obtain ⟨val2, h2, heq2⟩ := unbase64From_second h1 (sextet v 0 :: base64 rest)
    obtain ⟨val3, heq3⟩ := unbase64From_third h2 (base64 rest)
    rw [heq1, heq2, heq3, ih, ofNat_byte (a := a) (by omega), ofNat_byte (a := b) (by omega),
      ofNat_byte (a := c) (by omega)]
  | case2 a b =>
    have ha := a.toNat_lt
    have hb := b.toNat_lt
    have hv : (a.toNat <<< 16) ||| (b.toNat <<< 8) = a.toNat * 65536 + b.toNat * 256 := by
      rw [Nat.shiftLeft_eq b.toNat, shift16_or a (by omega)]
    rw [base64, hv]
    generalize hword : a.toNat * 65536 + b.toNat * 256 = v
    obtain ⟨val1, h1, heq1⟩ := unbase64From_first val v [sextet v 6, 61]
    obtain ⟨val2, h2, heq2⟩ := unbase64From_second h1 [61]
    rw [heq1, heq2, unbase64From_padding, unbase64From, ofNat_byte (a := a) (by omega),
      ofNat_byte (a := b) (by omega)]
  | case3 a =>
    have ha := a.toNat_lt
    have hv : a.toNat <<< 16 = a.toNat * 65536 := Nat.shiftLeft_eq ..
    rw [base64, hv]
    generalize hword : a.toNat * 65536 = v
    obtain ⟨val1, h1, heq1⟩ := unbase64From_first val v [61, 61]
    rw [heq1, unbase64From_padding, unbase64From_padding, unbase64From,
      ofNat_byte (a := a) (by omega)]
  | case4 => rfl

theorem unbase64_base64 (data : Bytes) : unbase64 (base64 data) = data := unbase64From_base64 data 0

/-! ## The polls of one client -/

namespace EtcdClient

/-- The pairs as a function of the key. -/
def contentOf (kvs : List KV) (key : Bytes) : Option Bytes :=
  (kvs.find? (fun kv => kv.key = key)).map KV.value

def Change.delta (change : Change) : Delta Bytes Bytes where
  added := change.added.map (fun kv => (kv.key, kv.value))
  removed := change.removed
  updated := change.updated.map (fun kv => (kv.key, kv.value))

/-- One call of `pollOnce`, and the pairs under the prefix at that time. -/
structure Poll where
  library : Library
  net : Network
  keyPrefix : Bytes
  content : List KV

/-- The request gets through, and the answer has the pairs under the prefix. -/
structure Poll.Succeeds (client : EtcdClient) (poll : Poll) : Prop where
  answer : client.getPrefix poll.library poll.net poll.keyPrefix = .ok poll.content
  distinct : (poll.content.map KV.key).Nodup
  under : ∀ kv ∈ poll.content, poll.keyPrefix <+: kv.key

/-- A client, and the content that each prefix had when it was polled last. -/
structure Watch where
  client : EtcdClient
  known : Bytes → Bytes → Option Bytes := fun _ _ => none

namespace Watch

def step (w : Watch) (poll : Poll) : Watch where
  client := (w.client.pollOnce poll.library poll.net poll.keyPrefix).2
  known := Function.update w.known poll.keyPrefix (contentOf poll.content)

/-- What the callback of the poll is called with, if it is. -/
def reported (w : Watch) (poll : Poll) : Option Change :=
  (w.client.pollOnce poll.library poll.net poll.keyPrefix).1

/-- The lists lead from the content that the prefix had to the one that it has, they name no
key twice, and the callback is silent exactly when nothing changed. -/
structure AddsUp (w : Watch) (poll : Poll) : Prop where
  exact : ((w.reported poll).elim ⟨[], [], []⟩ Change.delta).apply (w.known poll.keyPrefix) =
    contentOf poll.content
  disjoint : ∀ change, w.reported poll = some change → change.delta.Disjoint
  silent : w.reported poll = none ↔ contentOf poll.content = w.known poll.keyPrefix

end Watch

/-! ## One poll -/

theorem lookup_snapshot {kvs : List KV} (h : (kvs.map KV.key).Nodup) :
    (snapshot kvs).lookup = contentOf kvs := by
  have hfold : ∀ (cur : http_request.StringMap) (key : Bytes),
      (kvs.foldl (fun cur kv => cur.insert kv.key kv.value) cur).lookup key =
        (contentOf kvs key).or (cur.lookup key) := by
    induction kvs with
    | nil => intro cur key; simp [contentOf]
    | cons kv kvs ih =>
      rw [map_cons, List.nodup_cons] at h
      intro cur key
      rw [foldl_cons, ih h.2]
      by_cases hk : kv.key = key
      · subst hk
        have hnone : contentOf kvs kv.key = none := by
          unfold contentOf
          rw [Option.map_eq_none_iff, find?_eq_none]
          intro other hmem hkey
          exact h.1 (of_decide_eq_true hkey ▸ mem_map_of_mem hmem)
        rw [hnone, Option.none_or, AList.lookup_insert]
        simp [contentOf]
      · rw [AList.lookup_insert_ne (Ne.symm hk)]
        simp [contentOf, hk]
  funext key
  rw [snapshot, hfold]
  simp

theorem change_tells (last cur : http_request.StringMap) :
    (change last cur).delta.Tells last.lookup cur.lookup := by
  have hmem : ∀ (m : http_request.StringMap) (key value : Bytes),
      ⟨key, value⟩ ∈ m.entries ↔ m.lookup key = some value :=
    fun m key value => (AList.mem_lookup_iff).symm
  have hpair : ∀ (pairs : List ((_ : Bytes) × Bytes)) (key value : Bytes),
      (key, value) ∈ (pairs.map (fun e => (⟨e.1, e.2⟩ : KV))).map (fun kv => (kv.key, kv.value)) ↔
        ⟨key, value⟩ ∈ pairs := by
    intro pairs key value
    rw [map_map, mem_map]
    constructor
    · rintro ⟨e, he, heq⟩
      cases heq
      exact he
    · exact fun he => ⟨⟨key, value⟩, he, rfl⟩
  refine ⟨?_, ?_, ?_⟩
  · intro key value
    dsimp only [Change.delta, change]
    rw [hpair, mem_filter, hmem, decide_eq_true_eq]
  · intro key
    dsimp only [Change.delta, change]
    rw [mem_map]
    constructor
    · rintro ⟨⟨k, v⟩, he, rfl⟩
      rw [mem_filter, decide_eq_true_eq, hmem] at he
      exact ⟨he.2, by rw [he.1]; exact Option.some_ne_none v⟩
    · rintro ⟨hcur, hlast⟩
      obtain ⟨value, hvalue⟩ := Option.ne_none_iff_exists'.mp hlast
      refine ⟨⟨key, value⟩, ?_, rfl⟩
      rw [mem_filter, decide_eq_true_eq, hmem]
      exact ⟨hvalue, hcur⟩
  · intro key value
    dsimp only [Change.delta, change]
    rw [hpair, mem_filter, hmem, Bool.and_eq_true, decide_eq_true_eq, decide_eq_true_eq]

/-- A poll that gets through keeps what it read, and calls back unless this is what the last
poll read. -/
theorem pollOnce_of_succeeds {client : EtcdClient} {poll : Poll} (h : poll.Succeeds client) :
    (client.pollOnce poll.library poll.net poll.keyPrefix).2 =
        { client with lastSnapshot_ := snapshot poll.content } ∧
      ((client.pollOnce poll.library poll.net poll.keyPrefix).1 = none ∧
          client.lastSnapshot_.lookup = contentOf poll.content ∨
        ∃ change : Change, (client.pollOnce poll.library poll.net poll.keyPrefix).1 = some change ∧
          client.lastSnapshot_.lookup ≠ contentOf poll.content ∧
          change.delta.Tells client.lastSnapshot_.lookup (contentOf poll.content)) := by
  have htells := change_tells client.lastSnapshot_ (snapshot poll.content)
  rw [lookup_snapshot h.distinct] at htells
  have hempty : (change client.lastSnapshot_ (snapshot poll.content)).delta.IsEmpty ↔
      ¬((change client.lastSnapshot_ (snapshot poll.content)).added ≠ [] ∨
        (change client.lastSnapshot_ (snapshot poll.content)).removed ≠ [] ∨
        (change client.lastSnapshot_ (snapshot poll.content)).updated ≠ []) := by
    simp [Delta.IsEmpty, Change.delta]
  rw [htells.isEmpty_iff] at hempty
  unfold pollOnce
  rw [h.answer]
  dsimp only
  refine ⟨rfl, ?_⟩
  by_cases hsame : client.lastSnapshot_.lookup = contentOf poll.content
  · rw [if_neg (hempty.mp hsame)]
    exact Or.inl ⟨rfl, hsame⟩
  · rw [if_pos (not_not.mp (mt hempty.mpr hsame))]
    exact Or.inr ⟨_, rfl, hsame, htells⟩

namespace Watch

variable {w : Watch} {poll : Poll}

theorem addsUp_of_snapshot (h : poll.Succeeds w.client)
    (hknown : w.client.lastSnapshot_.lookup = w.known poll.keyPrefix) : w.AddsUp poll := by
  obtain ⟨-, ⟨hreport, hsame⟩ | ⟨change, hreport, hne, htells⟩⟩ := pollOnce_of_succeeds h
  · refine ⟨?_, ?_, ?_⟩
    · rw [reported, hreport, ← hknown, hsame]
      rfl
    · intro change hchange
      rw [reported, hreport] at hchange
      cases hchange
    · exact iff_of_true hreport (hsame.symm.trans hknown)
  · refine ⟨?_, ?_, ?_⟩
    · rw [reported, hreport, ← hknown]
      exact (htells.apply_eq_iff _).mpr (fun _ hkey => hkey)
    · intro change' hchange
      rw [reported, hreport] at hchange
      cases hchange
      exact htells.disjoint
    · rw [reported, hreport]
      exact iff_of_false (Option.some_ne_none change) (fun heq => hne (hknown.trans heq.symm))

/-- A poll of a prefix that did not change, behind a poll of something else, is not silent. -/
theorem not_addsUp_of_other (h : poll.Succeeds w.client)
    (hne : w.client.lastSnapshot_.lookup ≠ contentOf poll.content)
    (hknown : contentOf poll.content = w.known poll.keyPrefix) : ¬ w.AddsUp poll := by
  intro hadds
  obtain ⟨-, ⟨-, hsame⟩ | ⟨change, hreport, -, -⟩⟩ := pollOnce_of_succeeds h
  · exact hne hsame
  · have hnone := hadds.silent.mpr hknown
    rw [reported, hreport] at hnone
    cases hnone

theorem step_eq (h : poll.Succeeds w.client) :
    w.step poll = {
      client := { w.client with lastSnapshot_ := snapshot poll.content }
      known := Function.update w.known poll.keyPrefix (contentOf poll.content) } := by
  unfold step
  rw [(pollOnce_of_succeeds h).1]

end Watch

theorem Poll.Succeeds.of_snapshot {client : EtcdClient} {poll : Poll} (h : poll.Succeeds client)
    (last : http_request.StringMap) : poll.Succeeds { client with lastSnapshot_ := last } :=
  ⟨h.answer, h.distinct, h.under⟩

/-! ## An answer with any content -/

def kvJson (kv : KV) : Json :=
  .object [(text "key", .string (base64 kv.key)), (text "value", .string (base64 kv.value))]

def answerJson (kvs : List KV) : Json := .object [(text "kvs", .array (kvs.map kvJson))]

def answerLibrary (kvs : List KV) : Library := .reading [answerJson kvs]

/-- A poll whose answer arrives in one piece. -/
def answered (client : EtcdClient) (keyPrefix : Bytes) (content : List KV) : Poll where
  library := answerLibrary content
  net := ⟨true, true, true,
    (client.requestText (client.apiPrefix_ ++ text "/kv/range")
      (rangeJson keyPrefix).compact).length,
    [text "HTTP/1.0 200 OK\r\n\r\n" ++ (answerJson content).compact]⟩
  keyPrefix
  content

/-- The field has the text, encoded; etcd leaves out a field with the empty text. -/
def Carries (item : Json) (name value : Bytes) : Prop :=
  item.field name = some (.string (base64 value)) ∨ value = [] ∧ item.field name = none

theorem decodedField_of_carries (library : Library) {item : Json} {name value : Bytes}
    (h : Carries item name value) : decodedField library name item = .ok value := by
  rcases h with hfield | ⟨rfl, hfield⟩
  · rw [decodedField, hfield]
    dsimp only
    rw [library.getString_string]
    exact congrArg Except.ok (unbase64_base64 value)
  · rw [decodedField, hfield]

structure IsItem (kv : KV) (item : Json) : Prop where
  key : Carries item (text "key") kv.key
  value : Carries item (text "value") kv.value

theorem readKvs_of_items (library : Library) {kvs : List KV} {items : List Json}
    (h : List.Forall₂ IsItem kvs items) : readKvs library items = .ok kvs := by
  induction h with
  | nil => rfl
  | cons hitem _ ih =>
    rw [readKvs, decodedField_of_carries library hitem.key,
      decodedField_of_carries library hitem.value, ih]
    rfl

theorem isItem_kvJson (kv : KV) : IsItem kv (kvJson kv) := ⟨Or.inl rfl, Or.inl rfl⟩

theorem forall₂_isItem (kvs : List KV) : List.Forall₂ IsItem kvs (kvs.map kvJson) :=
  forall₂_map_right_iff.mpr (forall₂_same.mpr (fun kv _ => isItem_kvJson kv))

theorem post_answered (client : EtcdClient) (keyPrefix : Bytes) (content : List KV) :
    client.post (answered client keyPrefix content).net (client.apiPrefix_ ++ text "/kv/range")
      (rangeJson keyPrefix).compact = (answerJson content).compact := by
  have hend : find (text "\r\n\r\n") (text "HTTP/1.0 200 OK\r\n\r\n") = some 15 := by decide
  have hlength : (text "HTTP/1.0 200 OK\r\n\r\n").length = 15 + 4 := by decide
  unfold post answered
  dsimp only
  rw [if_neg (by decide), if_neg (by decide), if_neg (by decide), if_neg (lt_irrefl _),
    flatten_singleton, find_append hend]
  dsimp only
  rw [← hlength, drop_left]

theorem compact_answerJson_ne_nil (content : List KV) : (answerJson content).compact ≠ [] := by
  rw [answerJson, Json.compact]
  exact append_ne_nil_of_right_ne_nil _ (by decide)

theorem readRange_answered (content : List KV) :
    readRange (answerLibrary content) (answerJson content).compact = .ok content := by
  rw [readRange, if_neg (compact_answerJson_ne_nil content), answerLibrary, Library.reads_head]
  exact readKvs_of_items _ (forall₂_isItem content)

theorem answered_succeeds (client : EtcdClient) {keyPrefix : Bytes} {content : List KV}
    (hdistinct : (content.map KV.key).Nodup) (hunder : ∀ kv ∈ content, keyPrefix <+: kv.key) :
    (answered client keyPrefix content).Succeeds client := by
  refine ⟨?_, hdistinct, hunder⟩
  unfold getPrefix
  have hdump : (answered client keyPrefix content).library.dump
      (rangeJson (answered client keyPrefix content).keyPrefix) =
        some (rangeJson keyPrefix).compact := rfl
  rw [hdump]
  dsimp only
  rw [post_answered]
  exact readRange_answered content

/-! ## Runs of polls -/

def fresh (host_ : Bytes) (port_ : Int) (apiPrefix_ : Bytes) : EtcdClient where
  host_
  port_
  apiPrefix_

variable (client : EtcdClient)

theorem meets_addsUp (keyPrefix : Bytes) {polls : List Poll}
    (hall : ∀ poll ∈ polls, poll.Succeeds client ∧ poll.keyPrefix = keyPrefix) {w : Watch}
    (hclient : ∃ last, w.client = { client with lastSnapshot_ := last })
    (hknown : w.client.lastSnapshot_.lookup = w.known keyPrefix) :
    Meets Watch.step Watch.AddsUp w polls := by
  induction polls generalizing w with
  | nil => trivial
  | cons poll polls ih =>
    obtain ⟨last, hlast⟩ := hclient
    obtain ⟨hsucceeds, hstarts⟩ := hall poll mem_cons_self
    have hpoll : poll.Succeeds w.client := by
      rw [hlast]
      exact hsucceeds.of_snapshot last
    refine ⟨Watch.addsUp_of_snapshot hpoll (hstarts ▸ hknown), ?_⟩
    refine ih (fun p hp => hall p (mem_cons_of_mem _ hp)) ?_ ?_
    · rw [Watch.step_eq hpoll, hlast]
      exact ⟨_, rfl⟩
    · rw [Watch.step_eq hpoll, hstarts]
      dsimp only
      rw [Function.update_self, lookup_snapshot hsucceeds.distinct]

/-- The pair that the polls of `keyPrefix` read in the run below. -/
def onePair (keyPrefix : Bytes) : List KV := [⟨keyPrefix, text "1"⟩]

theorem nodup_onePair (keyPrefix : Bytes) : ((onePair keyPrefix).map KV.key).Nodup :=
  nodup_singleton keyPrefix

theorem onePair_succeeds (keyPrefix : Bytes) :
    (answered client keyPrefix (onePair keyPrefix)).Succeeds client := by
  refine answered_succeeds client (nodup_onePair keyPrefix) ?_
  intro kv hkv
  rw [onePair, mem_singleton] at hkv
  rw [hkv]

theorem empty_succeeds (keyPrefix : Bytes) : (answered client keyPrefix []).Succeeds client :=
  answered_succeeds client nodup_nil (fun _ hkv => absurd hkv not_mem_nil)

/-- A poll of `keyPrefix` reads the pair, and a poll of another prefix reads nothing. -/
def pairOnly (keyPrefix p : Bytes) : Poll :=
  answered client p (if p = keyPrefix then onePair p else [])

theorem pairOnly_succeeds (keyPrefix p : Bytes) :
    (pairOnly client keyPrefix p).Succeeds client := by
  unfold pairOnly
  split
  · exact onePair_succeeds client p
  · exact empty_succeeds client p

/-- Behind a poll of `keyPrefix` that read a pair, the first poll of another prefix does not
add up. -/
theorem not_meets_pairOnly {prefixes : List Bytes} {keyPrefix other : Bytes}
    (hother : other ∈ prefixes) (hne : other ≠ keyPrefix) {w : Watch}
    (hclient : w.client = { client with lastSnapshot_ := snapshot (onePair keyPrefix) })
    (hknown : ∀ p, p ≠ keyPrefix → w.known p = fun _ => none) :
    ¬ Meets Watch.step Watch.AddsUp w (prefixes.map (pairOnly client keyPrefix)) := by
  induction prefixes generalizing w with
  | nil => cases hother
  | cons p prefixes ih =>
    rintro ⟨hadds, hrest⟩
    have hpoll : (pairOnly client keyPrefix p).Succeeds w.client := by
      rw [hclient]
      exact (pairOnly_succeeds client keyPrefix p).of_snapshot _
    by_cases hp : p = keyPrefix
    · -- a poll of the same prefix reads the pair again
      subst hp
      refine ih ((mem_cons.mp hother).resolve_left hne) ?_ ?_ hrest
      · rw [Watch.step_eq hpoll, hclient, pairOnly, if_pos rfl]
        rfl
      · intro q hq
        rw [Watch.step_eq hpoll]
        exact (Function.update_of_ne hq _ _).trans (hknown q hq)
    · rw [pairOnly, if_neg hp] at hpoll hadds
      refine Watch.not_addsUp_of_other hpoll ?_ (hknown p hp).symm hadds
      rw [hclient, lookup_snapshot (nodup_onePair keyPrefix)]
      intro heq
      have hkey := congrFun heq keyPrefix
      simp [contentOf, onePair, answered] at hkey

/-- The lists of the polls of one client add up, whatever the store holds at each of them,
exactly when all polls ask for one prefix. -/
theorem deltas_add_up_iff (host_ : Bytes) (port_ : Int) (apiPrefix_ : Bytes)
    (prefixes : List Bytes) :
    (∀ polls : List Poll, polls.map Poll.keyPrefix = prefixes →
        (∀ poll ∈ polls, poll.Succeeds (fresh host_ port_ apiPrefix_)) →
        Meets Watch.step Watch.AddsUp { client := fresh host_ port_ apiPrefix_ } polls) ↔
      ∀ p ∈ prefixes, ∀ q ∈ prefixes, p = q := by
  constructor
  · intro hall
    cases prefixes with
    | nil =>
      intro p hp
      cases hp
    | cons first prefixes =>
      -- any prefix that is not the first one gives a run that does not add up
      have hfirst : ∀ p ∈ prefixes, p = first := by
        intro p hp
        by_contra hne
        have hone := pairOnly_succeeds (fresh host_ port_ apiPrefix_) first
        have hmeets := hall ((first :: prefixes).map (pairOnly _ first))
          (by rw [map_map]; exact map_id _)
          (forall_mem_map.mpr (fun q _ => hone q))
        refine not_meets_pairOnly _ hp hne ?_ ?_ hmeets.2
        · rw [Watch.step_eq (hone first), pairOnly, if_pos rfl]
          rfl
        · intro q hq
          rw [Watch.step_eq (hone first)]
          exact Function.update_of_ne hq _ _
      have hsame : ∀ p ∈ first :: prefixes, p = first := by
        intro p hp
        rcases mem_cons.mp hp with rfl | hp
        · rfl
        · exact hfirst p hp
      intro p hp q hq
      rw [hsame p hp, hsame q hq]
  · intro hone polls hmap hsucceed
    cases polls with
    | nil => trivial
    | cons poll polls =>
      refine meets_addsUp (fresh host_ port_ apiPrefix_) poll.keyPrefix ?_ ⟨_, rfl⟩ ?_
      · intro p hp
        refine ⟨hsucceed p hp, hone p.keyPrefix ?_ poll.keyPrefix ?_⟩
        · rw [← hmap]
          exact mem_map_of_mem hp
        · rw [← hmap]
          exact mem_map_of_mem mem_cons_self
      · funext key
        rfl

def localClient : EtcdClient := fresh (text "127.0.0.1") 2379 (text "/v3beta")

/-- A poll of one prefix, with a key under it, and the first poll of another one, with none. -/
def twoPrefixes : List Poll :=
  [answered localClient (text "/a/") [⟨text "/a/x", text "1"⟩],
    answered localClient (text "/b/") []]

/-- The second poll reports a key of the first prefix as removed, although nothing changed. -/
theorem poll_of_another_prefix_reports_a_removal :
    (∀ poll ∈ twoPrefixes, poll.Succeeds localClient) ∧
      (Watch.reported (run Watch.step { client := localClient } (twoPrefixes.take 1))
          (answered localClient (text "/b/") [])) = some ⟨[], [text "/a/x"], []⟩ ∧
      ¬ Meets Watch.step Watch.AddsUp { client := localClient } twoPrefixes := by
  have hfirst :
      (answered localClient (text "/a/") [⟨text "/a/x", text "1"⟩]).Succeeds localClient :=
    answered_succeeds localClient (by decide) (by decide)
  have hsecond := empty_succeeds localClient (text "/b/")
  refine ⟨?_, by decide +kernel, ?_⟩
  · intro poll hmem
    rcases mem_cons.mp hmem with rfl | hmem
    · exact hfirst
    · rw [mem_singleton.mp hmem]
      exact hsecond
  · rintro ⟨-, hadds, -⟩
    rw [Watch.step_eq hfirst] at hadds
    refine Watch.not_addsUp_of_other (hsecond.of_snapshot _) ?_ rfl hadds
    intro heq
    have hkey := congrFun heq (text "/a/x")
    revert hkey
    decide +kernel

end EtcdClient

end mymuduo.etcd_client
