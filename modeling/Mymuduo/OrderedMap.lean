-- `std::map` as the list of its entries in order. The keys are compared
-- through a name, so two keys with one name are one key to the map, and the
-- key that came first stays in the entry.
import Mathlib.Data.List.Basic

open List

namespace ordered_map

variable {κ ν β : Type*} [DecidableEq ν] (name : κ → ν)

/-! ## The map -/

def get (n : ν) : List (κ × β) → Option β
  | [] => none
  | (k, v) :: entries => if name k = n then some v else get n entries

/-- A walk over the map that changes each value in place, and erases the entry where `f`
gives nothing. -/
def sweep (f : ν → β → Option β) : List (κ × β) → List (κ × β)
  | [] => []
  | (k, v) :: entries =>
    match f (name k) v with
    | some v' => (k, v') :: sweep f entries
    | none => sweep f entries

/-- The value under one name changed in place, or its entry erased. -/
def alter (n : ν) (f : β → Option β) (entries : List (κ × β)) : List (κ × β) :=
  sweep name (fun n' v => if n' = n then f v else some v) entries

variable [LT ν]

/-- `f` applied to `map[key]`: a key that is not there gets a place with `fresh` first. -/
def access [DecidableLT ν] (k : κ) (fresh : β) (f : β → β) : List (κ × β) → List (κ × β)
  | [] => [(k, f fresh)]
  | (k', v) :: entries =>
    if name k' = name k then (k', f v) :: entries
    else if name k < name k' then (k, f fresh) :: (k', v) :: entries
    else (k', v) :: access k fresh f entries

omit [DecidableEq ν] in
def Sorted (entries : List (κ × β)) : Prop := entries.Pairwise (fun e e' => name e.1 < name e'.1)

variable {name} {entries : List (κ × β)}

/-! ## Entries -/

variable {n : ν}

omit [LT ν] in
theorem mem_of_get {v : β} (h : get name n entries = some v) :
    ∃ k, name k = n ∧ (k, v) ∈ entries := by
  induction entries with
  | nil => cases h
  | cons e entries ih =>
    obtain ⟨k, w⟩ := e
    rw [get] at h
    split at h
    · rename_i hk
      cases h
      exact ⟨k, hk, mem_cons_self⟩
    · obtain ⟨k', hk', hmem⟩ := ih h
      exact ⟨k', hk', mem_cons_of_mem _ hmem⟩

omit [LT ν] in
theorem get_eq_none (h : ∀ e ∈ entries, name e.1 ≠ n) : get name n entries = none := by
  induction entries with
  | nil => rfl
  | cons e entries ih =>
    rw [get, if_neg (h e mem_cons_self)]
    exact ih (fun e' he' => h e' (mem_cons_of_mem _ he'))

omit [LT ν] [DecidableEq ν] in
theorem mem_sweep {f : ν → β → Option β} {e : κ × β} (h : e ∈ sweep name f entries) :
    ∃ v, (e.1, v) ∈ entries ∧ f (name e.1) v = some e.2 := by
  induction entries with
  | nil => exact absurd h not_mem_nil
  | cons e' entries ih =>
    obtain ⟨k, v⟩ := e'
    rw [sweep] at h
    split at h
    · rename_i v' hv'
      rcases mem_cons.mp h with rfl | hmem
      · exact ⟨v, mem_cons_self, hv'⟩
      · obtain ⟨w, hw, hfw⟩ := ih hmem
        exact ⟨w, mem_cons_of_mem _ hw, hfw⟩
    · obtain ⟨w, hw, hfw⟩ := ih h
      exact ⟨w, mem_cons_of_mem _ hw, hfw⟩

variable {k : κ}

theorem mem_access [DecidableLT ν] {fresh : β} {f : β → β} {e : κ × β}
    (h : e ∈ access name k fresh f entries) : e ∈ entries ∨ name e.1 = name k ∧ ∃ v, e.2 = f v := by
  induction entries with
  | nil =>
    cases mem_singleton.mp h
    exact Or.inr ⟨rfl, fresh, rfl⟩
  | cons e' entries ih =>
    obtain ⟨k', v⟩ := e'
    rw [access] at h
    split at h
    · rename_i heq
      rcases mem_cons.mp h with rfl | hmem
      · exact Or.inr ⟨heq, v, rfl⟩
      · exact Or.inl (mem_cons_of_mem _ hmem)
    · split at h
      · rcases mem_cons.mp h with rfl | hmem
        · exact Or.inr ⟨rfl, fresh, rfl⟩
        · exact Or.inl hmem
      · rcases mem_cons.mp h with rfl | hmem
        · exact Or.inl mem_cons_self
        · exact (ih hmem).imp_left (mem_cons_of_mem _)

theorem get_access_of_ne [DecidableLT ν] (hne : n ≠ name k) (fresh : β)
    (f : β → β) : get name n (access name k fresh f entries) = get name n entries := by
  induction entries with
  | nil => simp [access, get, Ne.symm hne]
  | cons e entries ih =>
    rw [access]
    split
    · rename_i heq
      simp [get, heq, Ne.symm hne]
    · split
      · simp [get, Ne.symm hne]
      · rw [get, get, ih]

/-! ## The order of the entries -/

omit [DecidableEq ν] in
theorem name_ne_of_sorted [Std.Irrefl (α := ν) (· < ·)] {v : β}
    (h : Sorted name ((k, v) :: entries)) : ∀ e ∈ entries, name e.1 ≠ name k := by
  intro e he heq
  have hlt := rel_of_pairwise_cons h he
  rw [heq] at hlt
  exact Std.Irrefl.irrefl _ hlt

omit [DecidableEq ν] in
theorem sorted_sweep {f : ν → β → Option β} (h : Sorted name entries) :
    Sorted name (sweep name f entries) := by
  induction entries with
  | nil => exact h
  | cons e entries ih =>
    rw [sweep]
    split
    · refine pairwise_cons.mpr ⟨?_, ih h.of_cons⟩
      intro e he
      obtain ⟨w, hw, -⟩ := mem_sweep he
      have hlt := rel_of_pairwise_cons h hw
      exact hlt
    · exact ih h.of_cons

section order

variable [Std.Irrefl (α := ν) (· < ·)]

theorem get_of_mem (hsorted : Sorted name entries) {v : β} (h : (k, v) ∈ entries) :
    get name (name k) entries = some v := by
  induction entries with
  | nil => exact absurd h not_mem_nil
  | cons e entries ih =>
    rcases mem_cons.mp h with heq | hmem
    · cases heq
      rw [get, if_pos rfl]
    · have hne := name_ne_of_sorted hsorted _ hmem
      rw [get, if_neg (Ne.symm hne)]
      exact ih hsorted.of_cons hmem

theorem get_sweep (hsorted : Sorted name entries) (f : ν → β → Option β) (n : ν) :
    get name n (sweep name f entries) = (get name n entries).bind (f n) := by
  induction entries with
  | nil => rfl
  | cons e entries ih =>
    obtain ⟨k, v⟩ := e
    rw [get]
    by_cases hk : name k = n
    · subst hk
      rw [if_pos rfl, sweep, Option.bind_some]
      cases hv : f (name k) v with
      | some v' => simp [get]
      | none =>
        -- no other entry has the name of the one that goes
        refine get_eq_none ?_
        intro e he
        obtain ⟨w, hw, -⟩ := mem_sweep he
        have hne := name_ne_of_sorted hsorted _ hw
        exact hne
    · rw [if_neg hk, ← ih hsorted.of_cons, sweep]
      split
      · rw [get, if_neg hk]
      · rfl

variable [Trans (α := ν) (β := ν) (γ := ν) (· < ·) (· < ·) (· < ·)] [DecidableLT ν]

theorem get_access (hsorted : Sorted name entries) (k : κ) (fresh : β) (f : β → β) :
    get name (name k) (access name k fresh f entries) =
      some (f ((get name (name k) entries).getD fresh)) := by
  induction entries with
  | nil => simp [access, get]
  | cons e entries ih =>
    obtain ⟨k', v⟩ := e
    rw [access]
    split
    · rename_i heq
      simp [get, heq]
    · rename_i hne
      split
      · rename_i hlt
        -- nothing behind a greater name has the name
        have hnone : get name (name k) ((k', v) :: entries) = none := by
          refine get_eq_none ?_
          intro e he heq
          rcases mem_cons.mp he with rfl | hmem
          · exact hne heq
          · have hgt := Trans.trans hlt (rel_of_pairwise_cons hsorted hmem)
            rw [heq] at hgt
            exact Std.Irrefl.irrefl _ hgt
        rw [hnone]
        simp [get]
      · rw [get, if_neg hne, get, if_neg hne]
        exact ih hsorted.of_cons

omit [Std.Irrefl (α := ν) (· < ·)] in
theorem sorted_access [Std.Trichotomous (α := ν) (· < ·)] (hsorted : Sorted name entries) (k : κ)
    (fresh : β) (f : β → β) : Sorted name (access name k fresh f entries) := by
  induction entries with
  | nil => exact pairwise_singleton _ _
  | cons e entries ih =>
    rw [access]
    split
    · exact pairwise_cons.mpr ⟨fun e he => rel_of_pairwise_cons hsorted he, hsorted.of_cons⟩
    · rename_i hne
      split
      · rename_i hlt
        refine pairwise_cons.mpr ⟨?_, hsorted⟩
        intro e he
        rcases mem_cons.mp he with rfl | hmem
        · exact hlt
        · exact Trans.trans hlt (rel_of_pairwise_cons hsorted hmem)
      · rename_i hge
        refine pairwise_cons.mpr ⟨?_, ih hsorted.of_cons⟩
        intro e he
        rcases mem_access he with hmem | ⟨heq, -⟩
        · exact rel_of_pairwise_cons hsorted hmem
        · rw [heq]
          by_contra hlt
          exact hne (Std.Trichotomous.trichotomous _ _ hlt hge)

end order

/-! ## Maps of lists -/

section buckets

variable {α : Type*} {buckets : List (κ × List α)}

/-- The list under a name; a name without an entry has the empty one. -/
def bucket (name : κ → ν) (n : ν) (buckets : List (κ × List α)) : List α :=
  (get name n buckets).getD []

/-- A list that is left empty gives up its entry. -/
def keepFull (l : List α) : Option (List α) := if l = [] then none else some l

def Full (buckets : List (κ × List α)) : Prop := ∀ e ∈ buckets, e.2 ≠ []

theorem getD_keepFull (l : List α) : (keepFull l).getD [] = l := by
  unfold keepFull
  split
  · rename_i h
    exact h.symm
  · rfl

theorem keepFull_ne_nil {l l' : List α} (h : keepFull l = some l') : l' ≠ [] := by
  unfold keepFull at h
  split at h
  · cases h
  · rename_i hne
    cases h
    exact hne

omit [LT ν] in
theorem mem_bucket {x : α} (h : x ∈ bucket name n buckets) :
    ∃ k l, name k = n ∧ (k, l) ∈ buckets ∧ x ∈ l := by
  unfold bucket at h
  cases hget : get name n buckets with
  | none =>
    rw [hget] at h
    exact absurd h not_mem_nil
  | some l =>
    rw [hget] at h
    obtain ⟨k, hk, hmem⟩ := mem_of_get hget
    exact ⟨k, l, hk, hmem, h⟩

omit [DecidableEq ν] [LT ν] in
theorem full_sweep {f : ν → List α → List α} :
    Full (sweep name (fun n l => keepFull (f n l)) buckets) := by
  intro e he
  obtain ⟨l, -, hl⟩ := mem_sweep he
  exact keepFull_ne_nil hl

omit [LT ν] in
theorem full_alter (h : Full buckets) (n : ν) (f : List α → List α) :
    Full (alter name n (fun l => keepFull (f l)) buckets) := by
  intro e he
  obtain ⟨l, hl, hf⟩ := mem_sweep he
  split at hf
  · exact keepFull_ne_nil hf
  · cases hf
    exact h _ hl

theorem full_access [DecidableLT ν] (h : Full buckets) (k : κ) {f : List α → List α}
    (hf : ∀ l, f l ≠ []) : Full (access name k [] f buckets) := by
  intro e he
  rcases mem_access he with hmem | ⟨-, l, hl⟩
  · exact h e hmem
  · rw [hl]
    exact hf l

theorem bucket_access_of_ne [DecidableLT ν] (hne : n ≠ name k) (f : List α → List α) :
    bucket name n (access name k [] f buckets) = bucket name n buckets := by
  unfold bucket
  rw [get_access_of_ne hne]

variable [Std.Irrefl (α := ν) (· < ·)]

theorem bucket_of_mem (hsorted : Sorted name buckets) {l : List α} (h : (k, l) ∈ buckets) :
    bucket name (name k) buckets = l := by
  unfold bucket
  rw [get_of_mem hsorted h]
  rfl

theorem bucket_sweep (hsorted : Sorted name buckets) {f : ν → List α → List α}
    (hf : ∀ n, f n [] = []) (n : ν) :
    bucket name n (sweep name (fun n l => keepFull (f n l)) buckets) =
      f n (bucket name n buckets) := by
  unfold bucket
  rw [get_sweep hsorted]
  cases get name n buckets with
  | none => exact (hf n).symm
  | some l => exact getD_keepFull _

theorem bucket_alter (hsorted : Sorted name buckets) {f : List α → List α}
    (hf : f [] = []) (n' : ν) :
    bucket name n' (alter name n (fun l => keepFull (f l)) buckets) =
      if n' = n then f (bucket name n' buckets) else bucket name n' buckets := by
  unfold bucket alter
  rw [get_sweep hsorted]
  split
  · cases get name n' buckets with
    | none => exact hf.symm
    | some l => exact getD_keepFull _
  · simp

theorem bucket_access [Trans (α := ν) (β := ν) (γ := ν) (· < ·) (· < ·) (· < ·)] [DecidableLT ν]
    (hsorted : Sorted name buckets) (k : κ) (f : List α → List α) :
    bucket name (name k) (access name k [] f buckets) = f (bucket name (name k) buckets) := by
  unfold bucket
  rw [get_access hsorted]
  rfl

end buckets

end ordered_map
