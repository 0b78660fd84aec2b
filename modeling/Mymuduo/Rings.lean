-- Rings of points with owners. The ring is an ordered map that sources write their
-- points into one after the other, so a point belongs to the last source that
-- wrote it. A key goes to the first point from it on, or to the first point of all.
import Mathlib.Data.List.Induction
import Mathlib.Data.Set.Basic
import Mymuduo.OrderedMap

open List ordered_map

namespace rings

variable {κ ν σ : Type*} [LinearOrder κ]

/-! ## The next point -/

/-- The first of the points from `key` on, or the first of all when none is left. -/
structure Next (points : Set κ) (key p : κ) : Prop where
  mem : p ∈ points
  first : (key ≤ p ∧ ∀ q ∈ points, key ≤ q → p ≤ q) ∨
    (∀ q ∈ points, q < key) ∧ ∀ q ∈ points, p ≤ q

variable {points points' : Set κ} {key p q : κ}

theorem Next.unique (hp : Next points key p) (hq : Next points key q) : p = q := by
  rcases hp.first with ⟨hkp, hp'⟩ | ⟨hkp, hp'⟩ <;> rcases hq.first with ⟨hkq, hq'⟩ | ⟨hkq, hq'⟩
  · exact le_antisymm (hp' q hq.mem hkq) (hq' p hp.mem hkp)
  · exact absurd (hkq p hp.mem) (not_lt.mpr hkp)
  · exact absurd (hkp q hq.mem) (not_lt.mpr hkq)
  · exact le_antisymm (hp' q hq.mem) (hq' p hp.mem)

theorem Next.of_subset (h : Next points key p) (hsub : points' ⊆ points) (hp : p ∈ points') :
    Next points' key p := by
  refine ⟨hp, ?_⟩
  rcases h.first with ⟨hkey, hfirst⟩ | ⟨hkey, hfirst⟩
  · exact Or.inl ⟨hkey, fun q hq => hfirst q (hsub hq)⟩
  · exact Or.inr ⟨fun q hq => hkey q (hsub hq), fun q hq => hfirst q (hsub hq)⟩

theorem next_self (h : p ∈ points) : Next points p p := ⟨h, Or.inl ⟨le_rfl, fun _ _ hq => hq⟩⟩

/-! ## The search -/

/-- `lower_bound`, and the beginning of the map behind its end. -/
def seek (ring : List (κ × ν)) (key : κ) : Option ν :=
  match ring.find? (fun node => key ≤ node.1) with
  | some node => some node.2
  | none => ring.head?.map Prod.snd

def pointsOf (ring : List (κ × ν)) : Set κ := {p | ∃ v, get id p ring = some v}

variable {ring : List (κ × ν)} {node : κ × ν} {v : ν}

theorem mem_pointsOf_of_mem (hsorted : Sorted id ring) (h : node ∈ ring) :
    node.1 ∈ pointsOf ring := ⟨node.2, get_of_mem hsorted h⟩

theorem forall_pointsOf {P : κ → Prop} (h : ∀ node ∈ ring, P node.1) :
    ∀ q ∈ pointsOf ring, P q := by
  rintro q ⟨v, hv⟩
  obtain ⟨q, rfl, hmem⟩ := mem_of_get hv
  exact h _ hmem

theorem le_of_head {e : κ × ν} (hsorted : Sorted id (node :: ring)) (h : e ∈ node :: ring) :
    node.1 ≤ e.1 := by
  rcases mem_cons.mp h with rfl | h
  · exact le_rfl
  · exact le_of_lt (rel_of_pairwise_cons hsorted h)

theorem exists_seek (hsorted : Sorted id ring) (hne : ring ≠ []) (key : κ) :
    ∃ node ∈ ring, seek ring key = some node.2 ∧ Next (pointsOf ring) key node.1 := by
  unfold seek
  cases hfind : ring.find? (fun node => decide (key ≤ node.1)) with
  | some node =>
    obtain ⟨hkey, before, after, rfl, hbefore⟩ := find?_eq_some_iff_append.mp hfind
    have hmem : node ∈ before ++ node :: after := by simp
    refine ⟨node, hmem, rfl, mem_pointsOf_of_mem hsorted hmem,
      Or.inl ⟨of_decide_eq_true hkey, forall_pointsOf fun e he hle => ?_⟩⟩
    rcases mem_append.mp he with hin | hin
    · -- the nodes before it are below the key
      have hbelow := hbefore e hin
      simp only [Bool.not_eq_true', decide_eq_false_iff_not] at hbelow
      exact absurd hle hbelow
    · exact le_of_head (pairwise_append.mp hsorted).2.1 hin
  | none =>
    have hbelow : ∀ e ∈ ring, e.1 < key := by simpa using find?_eq_none.mp hfind
    obtain ⟨node, ring, rfl⟩ := exists_cons_of_ne_nil hne
    exact ⟨node, mem_cons_self, rfl, mem_pointsOf_of_mem hsorted mem_cons_self,
      Or.inr ⟨forall_pointsOf hbelow, forall_pointsOf fun _ he => le_of_head hsorted he⟩⟩

theorem seek_eq_some_iff (hsorted : Sorted id ring) :
    seek ring key = some v ↔ ∃ p, Next (pointsOf ring) key p ∧ get id p ring = some v := by
  constructor
  · intro h
    have hne : ring ≠ [] := by
      rintro rfl
      cases h
    obtain ⟨node, hmem, hseek, hnext⟩ := exists_seek hsorted hne key
    obtain rfl := Option.some.inj (hseek.symm.trans h)
    exact ⟨node.1, hnext, get_of_mem hsorted hmem⟩
  · rintro ⟨p, hnext, hget⟩
    obtain ⟨q, rfl, hmem⟩ := mem_of_get hget
    obtain ⟨node, hnode, hseek, hnext'⟩ := exists_seek hsorted (ne_nil_of_mem hmem) key
    rw [hnext.unique hnext'] at hget
    exact hseek.trans ((get_of_mem hsorted hnode).symm.trans hget)

/-! ## Writing the points -/

/-- `ring[p] = v` for each of the points. -/
def write (points : List κ) (v : ν) (ring : List (κ × ν)) : List (κ × ν) :=
  points.foldl (fun ring p => access id p v (fun _ => v) ring) ring

theorem write_spec (points : List κ) (v : ν) {ring : List (κ × ν)} (hsorted : Sorted id ring) :
    Sorted id (write points v ring) ∧
      ∀ p, get id p (write points v ring) = if p ∈ points then some v else get id p ring := by
  induction points generalizing ring with
  | nil => exact ⟨hsorted, fun p => by simp [write]⟩
  | cons p points ih =>
    obtain ⟨hsorted', hget⟩ := ih (sorted_access hsorted p v (fun _ => v))
    refine ⟨hsorted', ?_⟩
    intro q
    change get id q (write points v (access id p v (fun _ => v) ring)) = _
    rw [hget]
    by_cases hq : q ∈ points
    · rw [if_pos hq, if_pos (mem_cons_of_mem p hq)]
    · rw [if_neg hq]
      by_cases hqp : q = p
      · subst hqp
        rw [if_pos mem_cons_self]
        exact get_access hsorted q v (fun _ => v)
      · rw [get_access_of_ne hqp, if_neg (by simp [hq, hqp])]

variable (own : σ → List κ) (value : σ → ν)

/-- The sources write their points, in order. -/
def build (sources : List σ) : List (κ × ν) :=
  sources.foldl (fun ring s => write (own s) (value s) ring) []

def lastWriter (p : κ) (sources : List σ) : Option σ := sources.reverse.find? (fun s => p ∈ own s)

theorem lastWriter_concat (p : κ) (sources : List σ) (s : σ) :
    lastWriter own p (sources ++ [s]) = if p ∈ own s then some s else lastWriter own p sources := by
  unfold lastWriter
  rw [reverse_append, reverse_singleton, singleton_append, find?_cons]
  split <;> simp_all

variable {own value} {sources : List σ}

theorem lastWriter_isSome_iff :
    (∃ s, lastWriter own p sources = some s) ↔ ∃ s ∈ sources, p ∈ own s := by
  rw [← Option.isSome_iff_exists, lastWriter, find?_isSome]
  simp

theorem lastWriter_spec {s : σ} (h : lastWriter own p sources = some s) :
    s ∈ sources ∧ p ∈ own s := by
  have hhas := find?_some h
  exact ⟨mem_reverse.mp (mem_of_find?_eq_some h), of_decide_eq_true hhas⟩

theorem lastWriter_remove {before after : List σ} {x s : σ}
    (h : lastWriter own p (before ++ x :: after) = some s) (hne : s ≠ x) :
    lastWriter own p (before ++ after) = some s := by
  unfold lastWriter at h ⊢
  rw [reverse_append, reverse_cons, append_assoc, singleton_append, find?_append, find?_cons] at h
  rw [reverse_append, find?_append]
  split at h
  · -- the source has the point, so one behind it was found
    cases hafter : after.reverse.find? (fun s => decide (p ∈ own s)) with
    | none =>
      rw [hafter] at h
      cases h
      exact absurd rfl hne
    | some t =>
      rw [hafter] at h
      exact h
  · exact h

theorem build_spec (sources : List σ) :
    Sorted id (build own value sources) ∧
      ∀ p, get id p (build own value sources) = (lastWriter own p sources).map value := by
  induction sources using List.reverseRecOn with
  | nil => exact ⟨List.Pairwise.nil, fun _ => rfl⟩
  | append_singleton sources s ih =>
    obtain ⟨hsorted, hget⟩ := write_spec (own s) (value s) ih.1
    have hbuild : build own value (sources ++ [s]) =
        write (own s) (value s) (build own value sources) := by
      simp [build]
    rw [hbuild]
    refine ⟨hsorted, ?_⟩
    intro p
    rw [hget, lastWriter_concat, ih.2]
    split <;> rfl

theorem mem_pointsOf_build : p ∈ pointsOf (build own value sources) ↔ ∃ s ∈ sources, p ∈ own s := by
  rw [← lastWriter_isSome_iff, pointsOf, Set.mem_ofPred_eq, (build_spec sources).2]
  simp

/-- A key keeps its value where no new point comes in and the next point keeps it. -/
theorem seek_build_of_subset {sources sources' : List σ}
    (h : seek (build own value sources) key = some v)
    (hsub : ∀ s ∈ sources', ∀ q ∈ own s, ∃ t ∈ sources, q ∈ own t)
    (hkept : ∀ p s, lastWriter own p sources = some s → value s = v →
      ∃ t, lastWriter own p sources' = some t ∧ value t = v) :
    seek (build own value sources') key = some v := by
  obtain ⟨p, hnext, hget⟩ := (seek_eq_some_iff (build_spec sources).1).mp h
  rw [(build_spec sources).2] at hget
  obtain ⟨s, hs, hv⟩ := Option.map_eq_some_iff.mp hget
  obtain ⟨t, ht, hv⟩ := hkept p s hs hv
  refine (seek_eq_some_iff (build_spec sources').1).mpr ⟨p, hnext.of_subset (fun q hq => ?_) ?_, ?_⟩
  · obtain ⟨u, hu, hq⟩ := mem_pointsOf_build.mp hq
    exact mem_pointsOf_build.mpr (hsub u hu q hq)
  · exact mem_pointsOf_build.mpr ⟨t, lastWriter_spec ht⟩
  · rw [(build_spec sources').2, ht, Option.map_some, hv]

/-! ## Other sources -/

/-- A source that is left out takes with it only the keys that were its own. -/
theorem seek_build_remove {before after : List σ} {x : σ}
    (h : seek (build own value (before ++ x :: after)) key = some v) (hne : v ≠ value x) :
    seek (build own value (before ++ after)) key = some v := by
  refine seek_build_of_subset h ?_ ?_
  · intro s hs q hq
    refine ⟨s, ?_, hq⟩
    rcases mem_append.mp hs with hs | hs
    · exact mem_append_left _ hs
    · exact mem_append_right _ (mem_cons_of_mem x hs)
  · rintro p s hs rfl
    exact ⟨s, lastWriter_remove hs (fun heq => hne (congrArg value heq)), rfl⟩

section order

variable {sources sources' : List σ} (hperm : sources.Perm sources')
  (hapart : ∀ s ∈ sources, ∀ t ∈ sources, ∀ p, p ∈ own s → p ∈ own t → value s = value t)

include hperm hapart

theorem seek_build_of_perm (h : seek (build own value sources) key = some v) :
    seek (build own value sources') key = some v := by
  refine seek_build_of_subset h (fun s hs q hq => ⟨s, hperm.mem_iff.mpr hs, hq⟩) ?_
  rintro p s hs rfl
  obtain ⟨hmem, hps⟩ := lastWriter_spec hs
  obtain ⟨t, ht⟩ := lastWriter_isSome_iff.mpr ⟨s, hperm.mem_iff.mp hmem, hps⟩
  obtain ⟨hmemt, hpt⟩ := lastWriter_spec ht
  exact ⟨t, ht, hapart t (hperm.mem_iff.mpr hmemt) s hmem p hpt hps⟩

/-- Where sources share points only with sources of the same value, the order in which they
write makes no difference. -/
theorem seek_build_perm (key : κ) :
    seek (build own value sources) key = seek (build own value sources') key := by
  ext v
  refine ⟨seek_build_of_perm hperm hapart, seek_build_of_perm hperm.symm ?_⟩
  intro s hs t ht
  exact hapart s (hperm.mem_iff.mpr hs) t (hperm.mem_iff.mpr ht)

end order

theorem seek_build_concat (sources : List σ) {s : σ} (h : p ∈ own s) :
    seek (build own value (sources ++ [s])) p = some (value s) := by
  have hlast : lastWriter own p (sources ++ [s]) = some s := by rw [lastWriter_concat, if_pos h]
  refine (seek_eq_some_iff (build_spec _).1).mpr
    ⟨p, next_self (mem_pointsOf_build.mpr ⟨s, by simp, h⟩), ?_⟩
  rw [(build_spec _).2, hlast, Option.map_some]

end rings
