-- A query for a prefix against the content of the store (src/util/EtcdClient.h). The
-- query asks for an interval of keys. Its end is the prefix with the last byte plus
-- one, which is the end of the keys with that prefix, unless the last byte is 0xFF.
import Mymuduo.EtcdWatch
import Mymuduo.LexRanges

open List bytes json lex_ranges

namespace mymuduo.etcd_client.EtcdClient

/-! ## The store -/

/-- What etcd holds, with one pair for a key. -/
structure Store where
  pairs : List KV
  distinct : (pairs.map KV.key).Nodup

namespace Store

/-- The pairs from `key` on and before `rangeEnd`, in the order of unsigned bytes. -/
def range (store : Store) (key rangeEnd : Bytes) : List KV :=
  store.pairs.filter (fun kv => Between key rangeEnd kv.key)

def under (store : Store) (keyPrefix : Bytes) : List KV :=
  store.pairs.filter (fun kv => keyPrefix <+: kv.key)

/-- The answer has the pairs of the interval that the request names, in any order; the list
is left out when it is empty. -/
def Answers (store : Store) (request answer : Json) : Prop :=
  ∃ key rangeEnd kvs items, Carries request (text "key") key ∧
    Carries request (text "range_end") rangeEnd ∧
    kvs.Perm (store.range key rangeEnd) ∧ List.Forall₂ IsItem kvs items ∧
    (answer.field (text "kvs") = some (.array items) ∨
      items = [] ∧ answer.field (text "kvs") = none)

end Store

/-- The request of `getPrefix` gets through, and etcd answers it. -/
def Served (client : EtcdClient) (library : Library) (net : Network) (keyPrefix : Bytes)
    (store : Store) : Prop :=
  ∃ body answer, library.dump (rangeJson keyPrefix) = some body ∧
    client.post net (client.apiPrefix_ ++ text "/kv/range") body ≠ [] ∧
    library.parse (client.post net (client.apiPrefix_ ++ text "/kv/range") body) = some answer ∧
    store.Answers (rangeJson keyPrefix) answer

/-! ## The request and the answer -/

theorem carries_key_rangeJson (keyPrefix : Bytes) :
    Carries (rangeJson keyPrefix) (text "key") keyPrefix := by
  left
  dsimp only [rangeJson, Json.field]
  rw [getField_setField_of_ne (by decide), getField_setField_self]

theorem carries_rangeEnd_rangeJson (keyPrefix : Bytes) :
    Carries (rangeJson keyPrefix) (text "range_end") (rangeEnd keyPrefix) := by
  left
  dsimp only [rangeJson, Json.field]
  rw [getField_setField_self]

theorem eq_of_carries {item : Json} {name value value' : Bytes} (h : Carries item name value)
    (h' : Carries item name value') : value = value' :=
  Except.ok.inj ((decodedField_of_carries (.reading []) h).symm.trans
    (decodedField_of_carries (.reading []) h'))

variable {keyPrefix : Bytes}

theorem getPrefix_of_served {client : EtcdClient} {library : Library} {net : Network}
    {store : Store} (h : client.Served library net keyPrefix store) :
    ∃ kvs, client.getPrefix library net keyPrefix = .ok kvs ∧
      kvs.Perm (store.range keyPrefix (rangeEnd keyPrefix)) := by
  obtain ⟨body, answer, hdump, hpost, hparse, key, last, kvs, items, hkey, hlast, hperm, hitems,
    hkvs⟩ := h
  cases eq_of_carries hkey (carries_key_rangeJson keyPrefix)
  cases eq_of_carries hlast (carries_rangeEnd_rangeJson keyPrefix)
  refine ⟨kvs, ?_, hperm⟩
  unfold getPrefix
  rw [hdump]
  dsimp only
  rw [readRange, if_neg hpost, hparse]
  dsimp only
  rcases hkvs with hfield | ⟨rfl, hfield⟩
  · rw [hfield]
    exact readKvs_of_items library hitems
  · rw [hfield]
    cases hitems
    rfl

/-! ## The interval -/

theorem byte_successor {last : UInt8} (h : last ≠ 0xFF) :
    last < last + 1 ∧ ∀ c, last < c → ¬ c < last + 1 := by
  have hne : last.toNat ≠ 255 := fun heq => h (UInt8.toNat_inj.mp heq)
  have hlt := last.toNat_lt
  have hnext : (last + 1).toNat = last.toNat + 1 := by
    rw [UInt8.toNat_add]
    exact Nat.mod_eq_of_lt (by change last.toNat + 1 < 256; omega)
  simp only [UInt8.lt_iff_toNat_lt, hnext]
  exact ⟨Nat.lt_succ_self _, fun c hc => by omega⟩

theorem between_rangeEnd_iff (hne : keyPrefix ≠ []) (h : keyPrefix.getLast? ≠ some 0xFF)
    (key : Bytes) : Between keyPrefix (rangeEnd keyPrefix) key ↔ keyPrefix <+: key := by
  obtain ⟨init, last, rfl⟩ := eq_nil_or_concat' keyPrefix |>.resolve_left hne
  rw [getLast?_concat] at h
  have hlast : last ≠ 0xFF := fun heq => h (congrArg some heq)
  obtain ⟨hlt, hnext⟩ := byte_successor hlast
  have hend : rangeEnd (init ++ [last]) = init ++ [last + 1] := by
    unfold rangeEnd
    rw [getLast?_concat]
    dsimp only
    rw [if_neg hlast, dropLast_concat]
  rw [hend]
  exact between_successor_iff hlt hnext init

/-- Behind a last byte 0xFF the code puts a 0x00, so the prefix itself is all that is left. -/
theorem between_rangeEnd_of_ff (h : keyPrefix.getLast? = some 0xFF) (key : Bytes) :
    Between keyPrefix (rangeEnd keyPrefix) key ↔ key = keyPrefix := by
  have hend : rangeEnd keyPrefix = keyPrefix ++ [0] := by
    unfold rangeEnd
    rw [h]
    exact if_pos rfl
  rw [hend]
  exact between_least_iff (fun c => UInt8.not_lt_zero) keyPrefix

theorem range_eq_under (store : Store) (hne : keyPrefix ≠ [])
    (h : keyPrefix.getLast? ≠ some 0xFF ∨ ∀ kv ∈ store.pairs, keyPrefix <+: kv.key →
      kv.key = keyPrefix) :
    store.range keyPrefix (rangeEnd keyPrefix) = store.under keyPrefix := by
  unfold Store.range Store.under
  apply filter_congr
  intro kv hkv
  rw [decide_eq_decide]
  by_cases hlast : keyPrefix.getLast? = some 0xFF
  · have honly := h.resolve_left (fun hc => hc hlast)
    rw [between_rangeEnd_of_ff hlast]
    constructor
    · intro heq
      rw [heq]
    · exact honly kv hkv
  · exact between_rangeEnd_iff hne hlast kv.key

/-- A query returns the pairs with the prefix, each of them once and decoded, exactly when
the prefix does not end in 0xFF or no stored key goes on behind it. -/
theorem getPrefix_exact_iff (client : EtcdClient) (library : Library) (net : Network)
    {keyPrefix : Bytes} (hne : keyPrefix ≠ []) (store : Store)
    (hserved : client.Served library net keyPrefix store) :
    (∃ kvs, client.getPrefix library net keyPrefix = .ok kvs ∧ kvs.Perm (store.under keyPrefix)) ↔
      keyPrefix.getLast? ≠ some 0xFF ∨
        ∀ kv ∈ store.pairs, keyPrefix <+: kv.key → kv.key = keyPrefix := by
  obtain ⟨kvs, hget, hrange⟩ := getPrefix_of_served hserved
  constructor
  · rintro ⟨kvs', hget', hunder⟩
    rw [hget] at hget'
    cases hget'
    by_cases hlast : keyPrefix.getLast? = some 0xFF
    · right
      intro kv hkv hstarts
      have hmem : kv ∈ store.under keyPrefix := by simp [Store.under, hkv, hstarts]
      have hin := hrange.mem_iff.mp (hunder.mem_iff.mpr hmem)
      have hbetween : Between keyPrefix (rangeEnd keyPrefix) kv.key := by
        simpa using (mem_filter.mp hin).2
      exact (between_rangeEnd_of_ff hlast kv.key).mp hbetween
    · exact Or.inl hlast
  · intro h
    rw [range_eq_under store hne h] at hrange
    exact ⟨kvs, hget, hrange⟩

/-! ## A service behind a byte 0xFF -/

theorem served_answered (client : EtcdClient) (keyPrefix : Bytes) (store : Store) :
    let content := store.range keyPrefix (rangeEnd keyPrefix)
    client.Served (answerLibrary content) (answered client keyPrefix content).net keyPrefix
      store := by
  intro content
  refine ⟨(rangeJson keyPrefix).compact, answerJson content, rfl, ?_, ?_, keyPrefix,
    rangeEnd keyPrefix, content, content.map kvJson, carries_key_rangeJson keyPrefix,
    carries_rangeEnd_rangeJson keyPrefix, List.Perm.refl _, forall₂_isItem content, Or.inl rfl⟩
  · rw [post_answered]
    exact compact_answerJson_ne_nil content
  · rw [post_answered]
    exact Library.reads_head _ _

/-- Two keys, one of them with a letter behind a byte 0xFF. -/
def behindFf : Store := ⟨[⟨text "/a", text "2"⟩, ⟨[0xFF, 97], text "1"⟩], by decide⟩

theorem getPrefix_exact_iff_slash :
    let content : List KV := [⟨text "/a", text "2"⟩]
    let net := (answered localClient (text "/") content).net
    behindFf.under (text "/") = content ∧
      ∃ kvs, localClient.getPrefix (answerLibrary content) net (text "/") = .ok kvs ∧
        kvs.Perm (behindFf.under (text "/")) := by
  intro content net
  have hrange : behindFf.range (text "/") (rangeEnd (text "/")) = content := by decide
  have hserved := served_answered localClient (text "/") behindFf
  rw [hrange] at hserved
  have hlast : (text "/").getLast? ≠ some 0xFF := by decide
  exact ⟨by decide, (getPrefix_exact_iff localClient _ net (by decide) behindFf hserved).mpr
    (Or.inl hlast)⟩

/-- The key starts with the prefix, and the query for the prefix returns nothing. -/
theorem query_misses_key_behind_ff :
    let net := (answered localClient [0xFF] []).net
    localClient.Served (answerLibrary []) net [0xFF] behindFf ∧
      localClient.getPrefix (answerLibrary []) net [0xFF] = .ok [] ∧
      behindFf.under [0xFF] = [⟨[0xFF, 97], text "1"⟩] := by
  intro net
  have hrange : behindFf.range [0xFF] (rangeEnd [0xFF]) = [] := by decide
  have hserved := served_answered localClient [0xFF] behindFf
  rw [hrange] at hserved
  obtain ⟨kvs, hget, hperm⟩ := getPrefix_of_served hserved
  rw [hrange] at hperm
  rw [perm_nil.mp hperm] at hget
  exact ⟨hserved, hget, by decide⟩

end mymuduo.etcd_client.EtcdClient
