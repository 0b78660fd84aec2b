-- The law of the protobuf RPC client (src/rpc/RpcClientPb.h): between two calls no
-- byte is on its way to the client, so the frame that a call reads is the response
-- to its own request.
import Mymuduo.RpcClientPb

open List bytes length_prefix runs words
open Function (update_self)

namespace mymuduo.rpc_client_pb

open rpc_server_pb

variable {σ β : Type}

/-! ## What holds of the client -/

/-- The response at the place of the call has code 0, and its result parses as what the
call filled in. -/
def Returned.Answered (e : Returned β) (l : Link) : Prop :=
  l.asked[e.call.position]? = some e.call.request ∧
    ∃ r, l.answers[e.call.position]? = some r ∧ r.code = 0 ∧
      e.call.args.parse r.result = some e.response

theorem getElem?_mono {α : Type} {l l' : List α} (h : l <+: l') {i : Nat} {x : α}
    (hx : l[i]? = some x) : l'[i]? = some x := by
  obtain ⟨more, rfl⟩ := h
  rw [getElem?_append_left (List.getElem?_eq_some_iff.mp hx).1, hx]

theorem Returned.Answered.mono {e : Returned β} {l l' : Link} (h : e.Answered l)
    (hasked : l.asked <+: l'.asked) (hanswers : l.answers <+: l'.answers) : e.Answered l' := by
  obtain ⟨hrequest, r, hr, hcode, hparse⟩ := h
  exact ⟨getElem?_mono hasked hrequest, r, getElem?_mono hanswers hr, hcode, hparse⟩

namespace System

variable (server : RpcServerPb σ)

def MessagesFit (s : System β) : Prop :=
  ∀ k < s.opened, (∀ q ∈ (s.links k).asked, RequestFits server.protobuf q) ∧
    ∀ r ∈ (s.links k).answers, ResponseFits server.protobuf r

instance (s : System β) : Decidable (s.MessagesFit server) :=
  inferInstanceAs (Decidable (∀ k < s.opened, _ ∧ _))

/-- The call in progress is the last one on the connection in use. -/
structure Busy (s : System β) (call : Pending β) : Prop where
  connected : s.connected_ = true
  sock : s.sock_ = some call.link
  opened : call.link < s.opened
  last : (s.links call.link).asked.length = call.position + 1
  asked : (s.links call.link).asked[call.position]? = some call.request
  first : ∀ e ∈ s.returned, e.call.link = call.link → e.call.position < call.position

/-- How far the connection in use is written and read. Between two calls no byte is on
its way to the client. -/
def InPhase (s : System β) : Option (Nat × Phase β) → Prop
  | none => s.connected_ = true → ∃ k, s.sock_ = some k ∧ k < s.opened ∧
      Link.Unsent server [] (s.links k) ∧
      Link.ReadTo server (s.links k).asked.length [] (s.links k)
  | some (_, .connecting _) => s.connected_ = false
  | some (_, .sending call rest later) => s.Busy call ∧
      Link.Unsent server (rest ++ later) (s.links call.link) ∧
      Link.ReadTo server call.position [] (s.links call.link)
  | some (_, .receiving call none got) => s.Busy call ∧
      Link.Unsent server [] (s.links call.link) ∧
      Link.ReadTo server call.position got (s.links call.link) ∧ got.length ≤ 4
  | some (_, .receiving call (some len) got) => s.Busy call ∧
      Link.Unsent server [] (s.links call.link) ∧ got.length ≤ len ∧
      ∃ header, header.length = 4 ∧ declared header = len ∧
        Link.ReadTo server call.position (header ++ got) (s.links call.link)

structure Kept (s : System β) : Prop where
  fresh : ∀ k, s.opened ≤ k → s.links k = {}
  links : ∀ k, (s.links k).Sound server
  messages : s.MessagesFit server
  answered : ∀ e ∈ s.returned, e.Answered (s.links e.call.link)
  distinct : s.returned.Pairwise fun a b =>
    a.call.link = b.call.link → a.call.position ≠ b.call.position

structure Sound (s : System β) : Prop where
  kept : s.Kept server
  phase : s.InPhase server s.running

variable {server}

@[simp] theorem setLink_links_self (s : System β) (k : Nat) (l : Link) :
    (s.setLink k l).links k = l := update_self ..

variable {s : System β} {k : Nat} {l : Link}

theorem forall_setLink {P : Nat → Link → Prop} (hself : P k l) (hold : ∀ j, P j (s.links j))
    (j : Nat) : P j ((s.setLink k l).links j) :=
  (Function.forall_update_iff s.links P).mpr ⟨hself, fun j _ => hold j⟩ j

/-- Later states have all connections, requests and responses of the earlier ones. -/
def Extends (s s' : System β) : Prop :=
  s.opened ≤ s'.opened ∧
    ∀ k, (s.links k).asked <+: (s'.links k).asked ∧ (s.links k).answers <+: (s'.links k).answers

theorem Extends.refl (s : System β) : Extends s s :=
  ⟨Nat.le_refl _, fun _ => ⟨prefix_refl _, prefix_refl _⟩⟩

theorem Extends.trans {s t u : System β} (hst : Extends s t) (htu : Extends t u) : Extends s u :=
  ⟨hst.1.trans htu.1, fun k => ⟨(hst.2 k).1.trans (htu.2 k).1, (hst.2 k).2.trans (htu.2 k).2⟩⟩

theorem Extends.setLink (hasked : (s.links k).asked <+: l.asked)
    (hanswers : (s.links k).answers <+: l.answers) : Extends s (s.setLink k l) :=
  ⟨Nat.le_refl _, forall_setLink
    (P := fun j m => (s.links j).asked <+: m.asked ∧ (s.links j).answers <+: m.answers)
    ⟨hasked, hanswers⟩ (Extends.refl s).2⟩

theorem Extends.messagesFit {s' : System β} (h : Extends s s') (hfit : s'.MessagesFit server) :
    s.MessagesFit server := by
  intro k hk
  obtain ⟨hasked, hanswers⟩ := hfit k (lt_of_lt_of_le hk h.1)
  exact ⟨fun q hq => hasked q ((h.2 k).1.subset hq), fun r hr => hanswers r ((h.2 k).2.subset hr)⟩

/-- A connection may change as long as its requests and responses only get more. -/
theorem Kept.setLink (h : s.Kept server) (hk : k < s.opened) (hl : l.Sound server)
    (hmore : Extends s (s.setLink k l)) (hfit : (s.setLink k l).MessagesFit server) :
    (s.setLink k l).Kept server where
  fresh := forall_setLink (P := fun j m => s.opened ≤ j → m = {})
    (fun hnew => absurd hk (not_lt.mpr hnew)) h.fresh
  links := forall_setLink (P := fun _ m => m.Sound server) hl h.links
  messages := hfit
  answered e he := (h.answered e he).mono (hmore.2 _).1 (hmore.2 _).2
  distinct := h.distinct

theorem Kept.setLink_same (h : s.Kept server) (hk : k < s.opened) (hl : l.Sound server)
    (hasked : l.asked = (s.links k).asked) (hanswers : l.answers = (s.links k).answers) :
    (s.setLink k l).Kept server := by
  have hmore : Extends s (s.setLink k l) := Extends.setLink (by rw [hasked]) (by rw [hanswers])
  have hless : Extends (s.setLink k l) s := ⟨Nat.le_refl _, forall_setLink
    (P := fun j m => m.asked <+: (s.links j).asked ∧ m.answers <+: (s.links j).answers)
    ⟨by rw [hasked], by rw [hanswers]⟩ (Extends.refl s).2⟩
  exact h.setLink hk hl hmore (hless.messagesFit h.messages)

theorem Kept.of_same {sock_ : Option Nat} {connected_ : Bool} {nextId_ : Int}
    {running : Option (Nat × Phase β)} (h : s.Kept server) :
    Kept server ⟨s.links, s.opened, sock_, connected_, nextId_, running, s.returned⟩ :=
  { h with }

variable {call : Pending β}

theorem Busy.setLink (h : s.Busy call) (hasked : l.asked = (s.links k).asked) :
    (s.setLink k l).Busy call := by
  have hsame := forall_setLink (P := fun j m => m.asked = (s.links j).asked) hasked
    (fun _ => rfl) call.link
  exact ⟨h.connected, h.sock, h.opened, by rw [hsame]; exact h.last, by rw [hsame]; exact h.asked,
    h.first⟩

theorem Busy.enter (h : s.Busy call) (p : Option (Nat × Phase β)) :
    Busy { s with running := p } call :=
  { h with }

theorem Kept.enter (h : s.Kept server) {p : Option (Nat × Phase β)} (hp : s.InPhase server p) :
    Sound server { s with running := p } := by
  refine ⟨h.of_same, ?_⟩
  match p with
  | none | some (_, .connecting _) => exact hp
  | some (_, .sending ..) | some (_, .receiving _ none _) | some (_, .receiving _ (some _) _) =>
    exact ⟨hp.1.enter _, hp.2⟩

/-! ## The steps of the server -/

theorem Sound.setLink_grows (h : s.Sound server) (hk : k < s.opened) (hl : l.Sound server)
    (hgrows : Link.Grows server (s.links k) l) (hfit : (s.setLink k l).MessagesFit server) :
    (s.setLink k l).Sound server := by
  have hkept : (s.setLink k l).Kept server :=
    h.kept.setLink hk hl (Extends.setLink (by rw [hgrows.asked]) hgrows.answers) hfit
  have hall : ∀ j, Link.Grows server (s.links j) ((s.setLink k l).links j) :=
    forall_setLink (P := fun j => Link.Grows server (s.links j)) hgrows
      (fun _ => ⟨rfl, rfl, prefix_refl _, fun _ hrest => hrest⟩)
  have hbusy : ∀ call, s.Busy call → (s.setLink k l).Busy call :=
    fun call hcall => hcall.setLink hgrows.asked
  refine ⟨hkept, ?_⟩
  have hphase := h.phase
  change (s.setLink k l).InPhase server s.running
  match hrunning : s.running with
  | none =>
    rw [hrunning] at hphase
    intro hconnected
    obtain ⟨j, hsock, hj, hunsent, hread⟩ := hphase hconnected
    refine ⟨j, hsock, hj, (hall j).unsent _ hunsent, ?_⟩
    rw [(hall j).asked]
    exact hread.grow (hall j)
  | some (thread, .connecting next) =>
    rw [hrunning] at hphase
    exact hphase
  | some (thread, .sending call rest later) =>
    rw [hrunning] at hphase
    obtain ⟨hcall, hunsent, hread⟩ := hphase
    exact ⟨hbusy call hcall, (hall call.link).unsent _ hunsent, hread.grow (hall call.link)⟩
  | some (thread, .receiving call none got) =>
    rw [hrunning] at hphase
    obtain ⟨hcall, hunsent, hread, hgot⟩ := hphase
    exact ⟨hbusy call hcall, (hall call.link).unsent _ hunsent, hread.grow (hall call.link), hgot⟩
  | some (thread, .receiving call (some len) got) =>
    rw [hrunning] at hphase
    obtain ⟨hcall, hunsent, hgot, header, hheader, hlen, hread⟩ := hphase
    exact ⟨hbusy call hcall, (hall call.link).unsent _ hunsent, hgot, header, hheader, hlen,
      hread.grow (hall call.link)⟩

/-! ## The steps of a call -/

theorem Sound.fail (h : s.Kept server) : s.fail.Sound server :=
  ⟨h.of_same, fun hconnected => nomatch hconnected⟩

/-- A request starts where all earlier ones on the connection are answered and read. -/
theorem Sound.begin (h : s.Sound server) (hidle : s.running = none)
    (hconnected : s.connected_ = true) (thread : Nat) (args : CallArgs β)
    (hfit : (s.begin server thread args).MessagesFit server) :
    (s.begin server thread args).Sound server := by
  have hphase := h.phase
  rw [hidle] at hphase
  obtain ⟨k, hsock, hk, hunsent, hread⟩ := hphase hconnected
  unfold System.begin at hfit ⊢
  rw [hsock] at hfit ⊢
  set call : Pending β := { args, id := s.nextId_, link := k, position := (s.links k).asked.length }
  have hask := hunsent.ask call.request
  have hlink : Link.Sound server { s.links k with asked := (s.links k).asked ++ [call.request] } :=
    ⟨⟨_, hask⟩, (h.kept.links k).small, (h.kept.links k).served, (h.kept.links k).closed,
      (h.kept.links k).received⟩
  have hkept := h.kept.setLink hk hlink (Extends.setLink (prefix_append _ _) (prefix_refl _)) hfit
  refine ⟨hkept.of_same, ?_, ?_, ?_⟩
  · refine ⟨hconnected, hsock, hk, ?_, ?_, ?_⟩
    · dsimp only [System.setLink]
      rw [update_self, length_append]
      rfl
    · dsimp only [System.setLink]
      rw [update_self, getElem?_append_right (Nat.le_refl _), Nat.sub_self]
      rfl
    · intro e he hlink
      obtain ⟨hrequest, -⟩ := h.kept.answered e he
      rw [hlink] at hrequest
      exact (List.getElem?_eq_some_iff.mp hrequest).1
  · dsimp only [System.setLink]
    rw [update_self]
    exact hask
  · dsimp only [System.setLink]
    rw [update_self]
    exact hread

theorem Sound.start (h : s.Sound server) (hidle : s.running = none) (thread : Nat) (op : Op β)
    (hfit : (s.start server thread op).MessagesFit server) :
    (s.start server thread op).Sound server := by
  cases op with
  | connect =>
    dsimp only [System.start]
    split
    · exact h
    · rename_i hconnected
      have hoffline : s.InPhase server (some (thread, .connecting none)) :=
        Bool.eq_false_iff.mpr hconnected
      exact h.kept.enter hoffline
  | disconnect =>
    refine ⟨h.kept.of_same, ?_⟩
    dsimp only [System.start]
    rw [hidle]
    exact fun hconnected => nomatch hconnected
  | call args =>
    dsimp only [System.start] at hfit ⊢
    split
    · rename_i hconnected
      rw [if_pos hconnected] at hfit
      exact h.begin hidle hconnected thread args hfit
    · rename_i hconnected
      have hoffline : s.InPhase server (some (thread, .connecting (some args))) :=
        Bool.eq_false_iff.mpr hconnected
      exact h.kept.enter hoffline

theorem Sound.connect (h : s.Kept server) (thread : Nat) (next : Option (CallArgs β)) (ok : Bool)
    (hoffline : s.connected_ = false)
    (hfit : (s.connect server thread next ok).MessagesFit server) :
    (s.connect server thread next ok).Sound server := by
  cases ok with
  | false =>
    refine ⟨h.of_same, ?_⟩
    intro hconnected
    rw [show (s.connect server thread next false).connected_ = s.connected_ from rfl, hoffline]
      at hconnected
    cases hconnected
  | true =>
    have hnew : s.links s.opened = {} := h.fresh _ (Nat.le_refl _)
    have hopen : Sound server { s with
        sock_ := some s.opened, connected_ := true, opened := s.opened + 1, running := none } := by
      refine ⟨⟨?_, h.links, ?_, h.answered, h.distinct⟩, ?_⟩
      · intro k hk
        exact h.fresh k (Nat.le_of_succ_le hk)
      · intro k hk
        rcases Nat.lt_succ_iff_lt_or_eq.mp hk with hk | rfl
        · exact h.messages k hk
        · rw [hnew]
          exact ⟨nofun, nofun⟩
      · intro _
        refine ⟨s.opened, rfl, Nat.lt_succ_self _, ?_⟩
        rw [hnew]
        exact ⟨rfl, Nat.le_refl _, rfl⟩
    cases next with
    | none => exact hopen
    | some args => exact hopen.begin rfl rfl thread args hfit

variable {thread : Nat}

theorem Sound.send (h : s.Sound server) {rest later : Bytes}
    (hrunning : s.running = some (thread, .sending call rest later)) {n : Nat}
    (hl : l = { s.links call.link with outbound := (s.links call.link).outbound ++ rest.take n }) :
    Sound server { s.setLink call.link l with
      running := some (thread, afterSend call (rest.drop n) later) } := by
  have hphase := h.phase
  rw [hrunning] at hphase
  obtain ⟨hcall, hunsent, hread⟩ := hphase
  have hwrite : Link.Unsent server (rest.drop n ++ later) l := by
    rw [hl]
    apply Link.Unsent.write
    rw [← append_assoc, take_append_drop]
    exact hunsent
  have hsound : l.Sound server := by
    have hold := h.kept.links call.link
    rw [hl] at hwrite ⊢
    exact ⟨⟨_, hwrite⟩, hold.small, hold.served, hold.closed, hold.received⟩
  have hread' : Link.ReadTo server call.position [] l := by
    rw [hl]
    exact hread
  have hkept := h.kept.setLink_same hcall.opened hsound (by rw [hl]) (by rw [hl])
  have hbusy : (s.setLink call.link l).Busy call := hcall.setLink (by rw [hl])
  refine hkept.enter ?_
  rw [← setLink_links_self s call.link l] at hwrite hread'
  unfold afterSend
  split
  · exact ⟨hbusy, hwrite, hread'⟩
  · rename_i hrest
    rw [not_not] at hrest
    rw [hrest, nil_append] at hwrite
    split
    · exact ⟨hbusy, by rw [append_nil]; exact hwrite, hread'⟩
    · rename_i hlater
      rw [not_not] at hlater
      rw [hlater] at hwrite
      exact ⟨hbusy, hwrite, hread', Nat.zero_le _⟩

/-- A whole frame is the response at the place of the call, so the connection is as
before the call, and what the call filled in comes from this response. -/
theorem Sound.finish (h : s.Kept server) (hcall : s.Busy call)
    (hunsent : Link.Unsent server [] (s.links call.link)) {header body : Bytes}
    (hheader : header.length = 4) (hbody : declared header = body.length)
    (hread : Link.ReadTo server call.position (header ++ body) (s.links call.link)) :
    (s.finish server thread call body).Sound server := by
  obtain ⟨r, hr, hdata, hnext⟩ :=
    hread.whole (h.links call.link) (h.messages call.link hcall.opened).2 hheader hbody
  have hparse : server.protobuf.parseResponse body = some r := by
    rw [hdata]
    exact ((h.messages call.link hcall.opened).2 r (mem_of_getElem? hr)).2
  have hidle : s.InPhase server none := by
    intro _
    refine ⟨call.link, hcall.sock, hcall.opened, hunsent, ?_⟩
    rw [hcall.last]
    exact hnext
  have hdone : Sound server { s with running := none } := h.enter hidle
  unfold System.finish
  rw [hparse]
  dsimp only
  split
  · exact hdone
  · rename_i hcode
    rw [not_not] at hcode
    cases hresponse : call.args.parse r.result with
    | none => exact hdone
    | some response =>
      refine ⟨⟨h.fresh, h.links, h.messages, ?_, ?_⟩, hidle⟩
      · exact forall_mem_append.mpr ⟨h.answered,
          forall_mem_singleton.mpr ⟨hcall.asked, r, hr, hcode, hresponse⟩⟩
      · rw [pairwise_append]
        refine ⟨h.distinct, pairwise_singleton _ _, ?_⟩
        intro e he e' he' hlink
        rw [mem_singleton.mp he'] at hlink ⊢
        exact Nat.ne_of_lt (hcall.first e he hlink)

theorem Sound.gotLength (h : s.Kept server) (hcall : s.Busy call)
    (hunsent : Link.Unsent server [] (s.links call.link)) {header : Bytes}
    (hheader : header.length = 4)
    (hread : Link.ReadTo server call.position header (s.links call.link)) :
    (s.gotLength thread call header).Sound server := by
  unfold System.gotLength
  dsimp only
  split
  · exact Sound.fail h
  · refine h.enter ⟨hcall, hunsent, Nat.zero_le _, header, hheader, by omega, ?_⟩
    rw [append_nil]
    exact hread

theorem Busy.readBytes (h : s.Kept server) (hcall : s.Busy call)
    (hunsent : Link.Unsent server [] (s.links call.link)) {chunk : Bytes}
    (hthere : chunk <+: (s.links call.link).available server) :
    (s.readBytes call.link chunk).Kept server ∧ (s.readBytes call.link chunk).Busy call ∧
      Link.Unsent server [] ((s.readBytes call.link chunk).links call.link) ∧
      ∀ got, Link.ReadTo server call.position got (s.links call.link) →
        Link.ReadTo server call.position (got ++ chunk)
          ((s.readBytes call.link chunk).links call.link) := by
  unfold System.readBytes
  refine ⟨h.setLink_same hcall.opened ((h.links call.link).read hthere) rfl rfl,
    hcall.setLink rfl, ?_, ?_⟩
  · rw [setLink_links_self]
    exact hunsent
  · intro got hread
    rw [setLink_links_self]
    exact hread.read chunk

theorem Sound.recv (h : s.Sound server) {len : Option Nat} {got : Bytes}
    (hrunning : s.running = some (thread, .receiving call len got)) (n : Nat) :
    (s.recv server thread call len got n).Sound server := by
  have hphase := h.phase
  rw [hrunning] at hphase
  unfold System.recv
  dsimp only
  generalize hchunk : ((s.links call.link).available server).take
    (min n (len.getD 4 - got.length)) = chunk
  have hthere : chunk <+: (s.links call.link).available server := by
    rw [← hchunk]
    exact List.take_prefix _ _
  have hsize : chunk.length ≤ len.getD 4 - got.length := by
    rw [← hchunk, length_take]
    omega
  split
  · exact h
  · cases len with
    | none =>
      obtain ⟨hcall, hunsent, hread, hgot⟩ := hphase
      obtain ⟨hkept, hbusy, hunsent', hnext⟩ := hcall.readBytes h.kept hunsent hthere
      dsimp only [Option.getD_none] at hsize ⊢
      split
      · exact hkept.enter ⟨hbusy, hunsent', hnext got hread, by omega⟩
      · rename_i hwhole
        rw [length_append] at hwhole
        exact Sound.gotLength hkept hbusy hunsent' (by rw [length_append]; omega)
          (hnext got hread)
    | some len =>
      obtain ⟨hcall, hunsent, hgot, header, hheader, hlen, hread⟩ := hphase
      obtain ⟨hkept, hbusy, hunsent', hnext⟩ := hcall.readBytes h.kept hunsent hthere
      have hread' := hnext _ hread
      rw [append_assoc] at hread'
      dsimp only [Option.getD_some] at hsize ⊢
      split
      · exact hkept.enter ⟨hbusy, hunsent', by omega, header, hheader, hlen, hread'⟩
      · rename_i hwhole
        rw [length_append] at hwhole
        have hbody : declared header = (got ++ chunk).length := by
          rw [hlen, length_append]
          omega
        exact Sound.finish hkept hbusy hunsent' hheader hbody hread'

theorem sound_step (s : System β) (e : Event σ β) (hfit : (s.step server e).MessagesFit server)
    (h : s.Sound server) : (s.step server e).Sound server := by
  cases e with
  | start thread op =>
    dsimp only [step] at hfit ⊢
    split at hfit
    · rename_i hidle
      exact h.start hidle thread op hfit
    · exact h
  | connected ok =>
    dsimp only [step] at hfit ⊢
    split at hfit
    · rename_i thread next hrunning
      have hoffline := h.phase
      rw [hrunning] at hoffline
      exact Sound.connect h.kept thread next ok hoffline hfit
    · exact h
  | send n =>
    dsimp only [step]
    split
    · rename_i hrunning
      split
      · exact h.send hrunning rfl
      · exact h
    · exact h
  | recv n =>
    dsimp only [step]
    split
    · rename_i hrunning
      exact h.recv hrunning n
    · exact h
  | fails =>
    dsimp only [step]
    split
    · exact Sound.fail h.kept
    · exact Sound.fail h.kept
    · exact h
  | deliver k n =>
    dsimp only [step] at hfit ⊢
    by_cases hk : k < s.opened
    · rw [if_pos hk] at hfit ⊢
      exact h.setLink_grows hk ((h.kept.links k).deliver n) (Link.deliver_grows _ n) hfit
    · rw [if_neg hk]
      exact h
  | serve k app =>
    dsimp only [step] at hfit ⊢
    by_cases hk : k < s.opened
    · rw [if_pos hk] at hfit ⊢
      have hlink := h.kept.links k
      exact h.setLink_grows hk (hlink.serve app) (Link.serve_grows hlink app) hfit
    · rw [if_neg hk]
      exact h

theorem sound_init : Sound server ({} : System β) := by
  refine ⟨⟨fun _ _ => rfl, fun _ => ?_, fun _ hk => absurd hk (Nat.not_lt_zero _), nofun,
    List.Pairwise.nil⟩, nofun⟩
  exact ⟨⟨[], rfl⟩, nofun, ⟨[], List.Forall₂.nil, rfl⟩, nofun, prefix_refl _⟩

end System

/-! ## Messages only get more -/

namespace System

theorem Extends.move (s : System β) (k : Nat) {outbound buf received : Bytes} :
    Extends s (s.setLink k { s.links k with outbound, buf, received }) :=
  Extends.setLink (prefix_refl (s.links k).asked) (prefix_refl (s.links k).answers)

variable (server : RpcServerPb σ)

theorem begin_extends (s : System β) (thread : Nat) (args : CallArgs β) :
    Extends s (s.begin server thread args) := by
  unfold System.begin
  split
  · exact Extends.refl s
  · rename_i k _
    exact Extends.setLink (prefix_append (s.links k).asked _) (prefix_refl (s.links k).answers)

theorem start_extends (s : System β) (thread : Nat) (op : Op β) :
    Extends s (s.start server thread op) := by
  cases op with
  | connect =>
    dsimp only [System.start]
    split <;> exact Extends.refl s
  | disconnect => exact Extends.refl s
  | call args =>
    dsimp only [System.start]
    split
    · exact begin_extends server s thread args
    · exact Extends.refl s

theorem connect_extends (s : System β) (thread : Nat) (next : Option (CallArgs β)) (ok : Bool) :
    Extends s (s.connect server thread next ok) := by
  unfold System.connect
  split
  · have hopen : Extends s { s with
        sock_ := some s.opened, connected_ := true, opened := s.opened + 1, running := none } :=
      ⟨Nat.le_succ _, (Extends.refl s).2⟩
    cases next with
    | none => exact hopen
    | some args => exact hopen.trans (begin_extends server _ thread args)
  · exact Extends.refl s

theorem finish_extends (s : System β) (thread : Nat) (call : Pending β) (respData : Bytes) :
    Extends s (s.finish server thread call respData) := by
  unfold System.finish
  split
  · exact Extends.refl s
  · split
    · exact Extends.refl s
    · split <;> exact Extends.refl s

theorem recv_extends (s : System β) (thread : Nat) (call : Pending β) (len : Option Nat)
    (got : Bytes) (n : Nat) : Extends s (s.recv server thread call len got n) := by
  have hread : ∀ chunk, Extends s (s.readBytes call.link chunk) :=
    fun chunk => Extends.move s call.link
  unfold System.recv
  dsimp only
  split
  · exact Extends.refl s
  · split
    · exact hread _
    · cases len with
      | none =>
        unfold System.gotLength
        dsimp only
        split <;> exact hread _
      | some len => exact (hread _).trans (finish_extends server _ thread call _)

theorem serve_answers (l : Link) (app : σ) :
    (l.serve server app).asked = l.asked ∧ l.answers <+: (l.serve server app).answers := by
  have hsend : ∀ (m : Link) (r : RpcResponse), (m.send r).asked = m.asked ∧
      m.answers <+: (m.send r).answers := by
    intro m r
    unfold Link.send
    split
    · exact ⟨rfl, prefix_append _ _⟩
    · exact ⟨rfl, prefix_refl _⟩
  unfold Link.serve
  split
  · exact ⟨rfl, prefix_refl _⟩
  · exact hsend l _
  · exact hsend { l with buf := _, processed := _ } _

theorem step_extends (s : System β) (e : Event σ β) : Extends s (s.step server e) := by
  cases e with
  | start thread op =>
    dsimp only [step]
    split
    · exact start_extends server s thread op
    · exact Extends.refl s
  | connected ok =>
    dsimp only [step]
    split
    · exact connect_extends server s _ _ ok
    · exact Extends.refl s
  | send n =>
    dsimp only [step]
    split
    · rename_i call _ _ _
      split
      · exact Extends.move s call.link
      · exact Extends.refl s
    · exact Extends.refl s
  | recv n =>
    dsimp only [step]
    split
    · exact recv_extends server s _ _ _ _ n
    · exact Extends.refl s
  | fails =>
    dsimp only [step]
    split <;> exact Extends.refl s
  | deliver k n => exact guarded (Extends.refl s) fun _ => Extends.move s k
  | serve k app =>
    obtain ⟨hasked, hanswers⟩ := serve_answers server (s.links k) app
    exact guarded (Extends.refl s) fun _ => Extends.setLink (by rw [hasked]) hanswers

end System

/-! ## Every call gets its own answer -/

theorem forall₂_getElem? {α γ : Type} {r : α → γ → Prop} {l : List α} {l' : List γ}
    (h : List.Forall₂ r l l') {i : Nat} {y : γ} (hy : l'[i]? = some y) :
    ∃ x, l[i]? = some x ∧ r x y := by
  induction h generalizing i with
  | nil => cases hy
  | cons hr _ ih =>
    cases i with
    | zero =>
      cases hy
      exact ⟨_, rfl, hr⟩
    | succ i => exact ih hy

theorem Link.Sound.processed_requests {server : RpcServerPb σ} {l : Link} (h : l.Sound server)
    (hfits : ∀ q ∈ l.asked, RequestFits server.protobuf q) :
    l.processed <+: l.asked.map server.protobuf.serializeRequest := by
  obtain ⟨rest, hrest⟩ := h.unsent
  refine frames_unique h.small ?_ hrest
  intro data hdata
  obtain ⟨q, hq, rfl⟩ := mem_map.mp hdata
  exact (hfits q hq).1

theorem Link.Sound.answer_of_code {server : RpcServerPb σ} {l : Link} (h : l.Sound server)
    (hfits : ∀ q ∈ l.asked, RequestFits server.protobuf q) {i : Nat} {q : RpcRequest}
    {r : RpcResponse} (hq : l.asked[i]? = some q) (hr : l.answers[i]? = some r)
    (hcode : r.code = 0) :
    l.processed[i]? = some (server.protobuf.serializeRequest q) ∧
      ∃ app, r = (server.answer (server.protobuf.serializeRequest q) app).1 := by
  obtain ⟨served, hserved, hanswers⟩ := h.served
  have hplace : served[i]? = some r := by
    rw [hanswers] at hr
    by_cases hi : i < served.length
    · rwa [getElem?_append_left hi] at hr
    · -- beyond the answers there is only the error for a bad length
      rw [getElem?_append_right (by omega)] at hr
      split at hr
      · cases hr
      · rw [mem_singleton.mp (mem_of_getElem? hr)] at hcode
        cases hcode
  obtain ⟨data, hdata, app, happ⟩ := forall₂_getElem? hserved hplace
  have hsame := getElem?_mono (h.processed_requests hfits) hdata
  rw [getElem?_map, hq, Option.map_some, Option.some.injEq] at hsame
  rw [hsame]
  exact ⟨hdata, app, happ⟩

/-- For any threads, failures and cuts: a call that returns true fills in what the
method returned for this very request. The request, its processing and the response
stand at the place of the call on its connection, and no two calls share a place. -/
theorem returned_call_has_its_own_answer (server : RpcServerPb σ) (events : List (Event σ β))
    (h : (run (System.step server) {} events).MessagesFit server) :
    (∀ e ∈ (run (System.step server) {} events).returned, ∃ method reqMsg app respMsg,
      server.methods_ (e.call.args.service ++ text "." ++ e.call.args.method) = some method ∧
      method.parse e.call.args.params = some reqMsg ∧
      (method.handler reqMsg app).1 = .ok respMsg ∧
      e.call.args.parse (method.serialize respMsg) = some e.response ∧
      ((run (System.step server) {} events).links e.call.link).asked[e.call.position]? =
        some e.call.request ∧
      ((run (System.step server) {} events).links e.call.link).processed[e.call.position]? =
        some (server.protobuf.serializeRequest e.call.request) ∧
      ((run (System.step server) {} events).links e.call.link).answers[e.call.position]? =
        some { id := e.call.id, code := 0, result := method.serialize respMsg }) ∧
    (run (System.step server) {} events).returned.Pairwise fun a b =>
      a.call.link = b.call.link → a.call.position ≠ b.call.position := by
  have hsound : System.Sound server (run (System.step server) {} events) :=
    invariant_run (fun s e hfit hs => System.sound_step s e hfit hs)
      (meets_of_end (System.step server)
        (fun s e => (System.step_extends server s e).messagesFit) h).2 System.sound_init
  generalize run (System.step server) {} events = s at hsound ⊢
  obtain ⟨hfresh, hlinks, hmessages, hanswered, hdistinct⟩ := hsound.kept
  refine ⟨?_, hdistinct⟩
  intro e he
  obtain ⟨hasked, r, hr, hcode, hresponse⟩ := hanswered e he
  have hlink : e.call.link < s.opened := by
    -- a connection without requests has none at the place of the call
    by_contra hnew
    rw [hfresh _ (not_lt.mp hnew)] at hasked
    cases hasked
  have hfits := (hmessages e.call.link hlink).1
  obtain ⟨hprocessed, app, happ⟩ := (hlinks e.call.link).answer_of_code hfits hasked hr hcode
  rw [happ] at hcode
  obtain ⟨request, method, reqMsg, respMsg, hrequest, hmethod, hparse, hcall, hanswer⟩ :=
    server.answer_code_eq_zero hcode
  have hsame : e.call.request = request := by
    rw [(hfits e.call.request (mem_of_getElem? hasked)).2] at hrequest
    exact Option.some.inj hrequest
  rw [← hsame] at hmethod hparse hanswer
  rw [happ, hanswer] at hresponse hr
  exact ⟨method, reqMsg, app, respMsg, hmethod, hparse, hcall, hresponse, hasked, hprocessed, hr⟩

/-! ## Two threads -/

def echoServer : RpcServerPb Unit :=
  RpcServerPb.registerMethod { protobuf := .short }
    (text "echo") (text "say")
    { Request := Bytes, Response := Bytes, parse := some,
      handler := fun request app => (.ok request, app), serialize := id }

def say (params : Bytes) : Op Bytes :=
  .call { service := text "echo", method := text "say", params, parse := some }

/-- The second thread waits for the mutex. The first call sends and reads in pieces, and
the second one breaks off and is repeated on a new connection. -/
def twoThreads : List (Event Unit Bytes) :=
  [.start 1 (say (text "one")), .start 2 (say (text "two")), .connected true, .send 3, .send 1,
    .send 18, .deliver 0 5, .serve 0 (), .deliver 0 17, .serve 0 (), .recv 1, .recv 9, .recv 9,
    .start 2 (say (text "two")), .send 4, .fails, .start 2 (say (text "two")), .connected true,
    .send 4, .send 18, .deliver 1 22, .serve 1 (), .recv 4, .recv 7]

theorem returned_call_has_its_own_answer_twoThreads :
    (run (System.step echoServer) {} twoThreads).MessagesFit echoServer ∧
      (run (System.step echoServer) {} twoThreads).returned.map (fun e => (e.thread, e.response)) =
        [(1, text "one"), (2, text "two")] ∧
      ∀ e ∈ (run (System.step echoServer) {} twoThreads).returned, ∃ method reqMsg app respMsg,
        echoServer.methods_ (e.call.args.service ++ text "." ++ e.call.args.method) = some method ∧
        method.parse e.call.args.params = some reqMsg ∧
        (method.handler reqMsg app).1 = .ok respMsg ∧
        e.call.args.parse (method.serialize respMsg) = some e.response := by
  have hfit : (run (System.step echoServer) {} twoThreads).MessagesFit echoServer := by
    decide +kernel
  refine ⟨hfit, by decide +kernel, ?_⟩
  intro e he
  obtain ⟨method, reqMsg, app, respMsg, hmethod, hparse, hcall, hresponse, -⟩ :=
    (returned_call_has_its_own_answer echoServer twoThreads hfit).1 e he
  exact ⟨method, reqMsg, app, respMsg, hmethod, hparse, hcall, hresponse⟩

end mymuduo.rpc_client_pb
