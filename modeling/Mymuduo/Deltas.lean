-- What changed between two contents of a map, as three lists: the pairs that are
-- new, the keys that are gone, and the pairs that have another value. The lists
-- turn a content into the later one as far as the content agrees with the earlier.
import Mathlib.Data.List.Basic

open List

namespace deltas

variable {κ β : Type*} [DecidableEq κ]

structure Delta (κ β : Type*) where
  added : List (κ × β)
  removed : List κ
  updated : List (κ × β)

namespace Delta

def put (content : κ → Option β) (pairs : List (κ × β)) : κ → Option β :=
  pairs.foldl (fun c pair => Function.update c pair.1 (some pair.2)) content

def drop (content : κ → Option β) (keys : List κ) : κ → Option β :=
  keys.foldl (fun c key => Function.update c key none) content

def apply (d : Delta κ β) (content : κ → Option β) : κ → Option β :=
  put (put (drop content d.removed) d.added) d.updated

/-- No key is in two of the lists. -/
def Disjoint (d : Delta κ β) : Prop :=
  (∀ key ∈ d.added.map Prod.fst, key ∉ d.removed ∧ key ∉ d.updated.map Prod.fst) ∧
    ∀ key ∈ d.updated.map Prod.fst, key ∉ d.removed

def IsEmpty (d : Delta κ β) : Prop := d.added = [] ∧ d.removed = [] ∧ d.updated = []

/-- The lists are what changed from `last` to `cur`. -/
structure Tells (d : Delta κ β) (last cur : κ → Option β) : Prop where
  added : ∀ key value, (key, value) ∈ d.added ↔ cur key = some value ∧ last key = none
  removed : ∀ key, key ∈ d.removed ↔ cur key = none ∧ last key ≠ none
  updated : ∀ key value, (key, value) ∈ d.updated ↔
    cur key = some value ∧ last key ≠ none ∧ last key ≠ some value

/-! ## One key -/

variable {key : κ}

variable (content : κ → Option β)

theorem put_of_notMem {pairs : List (κ × β)}
    (h : key ∉ pairs.map Prod.fst) : put content pairs key = content key := by
  induction pairs generalizing content with
  | nil => rfl
  | cons pair pairs ih =>
    rw [map_cons, mem_cons, not_or] at h
    have hput : put content (pair :: pairs) =
        put (Function.update content pair.1 (some pair.2)) pairs := rfl
    rw [hput, ih _ h.2, Function.update_of_ne h.1]

theorem put_of_mem {pairs : List (κ × β)} {value : β} (hall : ∀ v, (key, v) ∈ pairs → v = value)
    (h : key ∈ pairs.map Prod.fst) : put content pairs key = some value := by
  induction pairs generalizing content with
  | nil => cases h
  | cons pair pairs ih =>
    have hrest : ∀ v, (key, v) ∈ pairs → v = value := fun v hv =>
      hall v (mem_cons_of_mem _ hv)
    have hput : put content (pair :: pairs) =
        put (Function.update content pair.1 (some pair.2)) pairs := rfl
    rw [hput]
    by_cases hlater : key ∈ pairs.map Prod.fst
    · exact ih _ hrest hlater
    · rw [map_cons, mem_cons] at h
      have hkey := h.resolve_right hlater
      subst hkey
      rw [put_of_notMem _ hlater, Function.update_self, hall pair.2 mem_cons_self]

theorem drop_of_notMem {keys : List κ} (h : key ∉ keys) : drop content keys key = content key := by
  induction keys generalizing content with
  | nil => rfl
  | cons k keys ih =>
    rw [mem_cons, not_or] at h
    have hdrop : drop content (k :: keys) = drop (Function.update content k none) keys := rfl
    rw [hdrop, ih _ h.2, Function.update_of_ne h.1]

theorem drop_of_mem {keys : List κ} (h : key ∈ keys) : drop content keys key = none := by
  induction keys generalizing content with
  | nil => cases h
  | cons k keys ih =>
    have hdrop : drop content (k :: keys) = drop (Function.update content k none) keys := rfl
    rw [hdrop]
    by_cases hlater : key ∈ keys
    · exact ih _ hlater
    · have hkey := (mem_cons.mp h).resolve_right hlater
      subst hkey
      rw [drop_of_notMem _ hlater, Function.update_self]

variable {d : Delta κ β} {last cur : κ → Option β}

section

omit [DecidableEq κ]

theorem Tells.mem_added (h : d.Tells last cur) (key : κ) :
    key ∈ d.added.map Prod.fst ↔ cur key ≠ none ∧ last key = none := by
  rw [mem_map]
  constructor
  · rintro ⟨⟨k, v⟩, hmem, rfl⟩
    obtain ⟨hcur, hlast⟩ := (h.added k v).mp hmem
    exact ⟨by rw [hcur]; exact Option.some_ne_none v, hlast⟩
  · rintro ⟨hcur, hlast⟩
    obtain ⟨value, hvalue⟩ := Option.ne_none_iff_exists'.mp hcur
    exact ⟨(key, value), (h.added key value).mpr ⟨hvalue, hlast⟩, rfl⟩

theorem Tells.mem_updated (h : d.Tells last cur) (key : κ) :
    key ∈ d.updated.map Prod.fst ↔ cur key ≠ none ∧ last key ≠ none ∧ last key ≠ cur key := by
  rw [mem_map]
  constructor
  · rintro ⟨⟨k, v⟩, hmem, rfl⟩
    obtain ⟨hcur, hlast, hne⟩ := (h.updated k v).mp hmem
    rw [hcur]
    exact ⟨Option.some_ne_none v, hlast, hne⟩
  · rintro ⟨hcur, hlast, hne⟩
    obtain ⟨value, hvalue⟩ := Option.ne_none_iff_exists'.mp hcur
    rw [hvalue] at hne
    exact ⟨(key, value), (h.updated key value).mpr ⟨hvalue, hlast, hne⟩, rfl⟩

theorem Tells.disjoint (h : d.Tells last cur) : d.Disjoint := by
  refine ⟨?_, ?_⟩
  · intro key hadded
    obtain ⟨hcur, hlast⟩ := (h.mem_added key).mp hadded
    exact ⟨fun hmem => hcur ((h.removed key).mp hmem).1,
      fun hmem => ((h.mem_updated key).mp hmem).2.1 hlast⟩
  · intro key hupdated hremoved
    exact ((h.mem_updated key).mp hupdated).1 ((h.removed key).mp hremoved).1

theorem Tells.isEmpty_iff (h : d.Tells last cur) : d.IsEmpty ↔ last = cur := by
  constructor
  · rintro ⟨hadded, hremoved, hupdated⟩
    funext key
    by_contra hne
    by_cases hcur : cur key = none
    · have hmem := (h.removed key).mpr ⟨hcur, fun hlast => hne (hlast.trans hcur.symm)⟩
      rw [hremoved] at hmem
      cases hmem
    · by_cases hlast : last key = none
      · have hmem := (h.mem_added key).mpr ⟨hcur, hlast⟩
        rw [hadded] at hmem
        cases hmem
      · have hmem := (h.mem_updated key).mpr ⟨hcur, hlast, hne⟩
        rw [hupdated] at hmem
        cases hmem
  · rintro rfl
    refine ⟨?_, ?_, ?_⟩ <;> rw [eq_nil_iff_forall_not_mem]
    · rintro ⟨key, value⟩ hmem
      obtain ⟨hsome, hnone⟩ := (h.added key value).mp hmem
      rw [hnone] at hsome
      cases hsome
    · intro key hmem
      exact ((h.removed key).mp hmem).2 ((h.removed key).mp hmem).1
    · rintro ⟨key, value⟩ hmem
      exact ((h.updated key value).mp hmem).2.2 ((h.updated key value).mp hmem).1

end

/-! ## The laws of a delta -/

theorem Tells.apply_of_eq (h : d.Tells last cur) (content : κ → Option β)
    (hsame : last key = cur key) : d.apply content key = content key := by
  unfold apply
  rw [put_of_notMem, put_of_notMem, drop_of_notMem]
  · intro hmem
    obtain ⟨hcur, hlast⟩ := (h.removed key).mp hmem
    exact hlast (hsame.trans hcur)
  · intro hmem
    obtain ⟨hcur, hlast⟩ := (h.mem_added key).mp hmem
    exact hcur (hsame.symm.trans hlast)
  · exact fun hmem => ((h.mem_updated key).mp hmem).2.2 hsame

theorem Tells.apply_of_ne (h : d.Tells last cur) (content : κ → Option β)
    (hne : last key ≠ cur key) : d.apply content key = cur key := by
  unfold apply
  cases hcur : cur key with
  | none =>
    rw [put_of_notMem, put_of_notMem, drop_of_mem]
    · exact (h.removed key).mpr ⟨hcur, fun hlast => hne (hlast.trans hcur.symm)⟩
    · exact fun hmem => ((h.mem_added key).mp hmem).1 hcur
    · exact fun hmem => ((h.mem_updated key).mp hmem).1 hcur
  | some value =>
    have hsome : cur key ≠ none := by
      rw [hcur]
      exact Option.some_ne_none value
    by_cases hlast : last key = none
    · rw [put_of_notMem, put_of_mem]
      · intro v hmem
        exact Option.some.inj (((h.added key v).mp hmem).1.symm.trans hcur)
      · exact (h.mem_added key).mpr ⟨hsome, hlast⟩
      · exact fun hmem => ((h.mem_updated key).mp hmem).2.1 hlast
    · rw [put_of_mem]
      · intro v hmem
        exact Option.some.inj (((h.updated key v).mp hmem).1.symm.trans hcur)
      · exact (h.mem_updated key).mpr ⟨hsome, hlast, hne⟩

/-- Applied to any content, the delta gives the current one exactly when the content has the
current value wherever nothing changed. -/
theorem Tells.apply_eq_iff (h : d.Tells last cur) (content : κ → Option β) :
    d.apply content = cur ↔ ∀ key, last key = cur key → content key = cur key := by
  constructor
  · intro happly key hsame
    rw [← h.apply_of_eq content hsame, happly]
  · intro hsame
    funext key
    by_cases hkey : last key = cur key
    · rw [h.apply_of_eq content hkey]
      exact hsame key hkey
    · exact h.apply_of_ne content hkey

end Delta

end deltas
