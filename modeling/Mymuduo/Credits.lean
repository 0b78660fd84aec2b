-- Rounds of credits. In a round each party gains its weight, and one of the richest pays
-- the total weight. The credits then sum to what they were, none falls to minus the total,
-- and in as many rounds as the total is large, from credits 0, each party pays exactly as
-- often as its weight says.
import Mathlib.Algebra.BigOperators.Ring.Finset
import Mathlib.Algebra.Order.BigOperators.Group.Finset
import Mathlib.Tactic.Linarith
import Mathlib.Tactic.Ring
import Mymuduo.Runs

open runs

namespace credits

variable {ι : Type*}

def total (S : Finset ι) (w : ι → ℤ) : ℤ := ∑ i ∈ S, w i

theorem sum_gain {S : Finset ι} {w c : ι → ℤ} (h : ∑ i ∈ S, c i = 0) :
    ∑ i ∈ S, (c i + w i) = total S w := by
  rw [Finset.sum_add_distrib, h, zero_add]
  rfl

theorem exists_pos {S : Finset ι} {w c : ι → ℤ} (hpos : 0 < total S w) (h : ∑ i ∈ S, c i = 0) :
    ∃ i ∈ S, 0 < c i + w i := by
  by_contra hnone
  push Not at hnone
  have hsum := Finset.sum_nonpos hnone
  rw [sum_gain h] at hsum
  omega

variable [DecidableEq ι] (S : Finset ι) (w : ι → ℤ)

def pay (c : ι → ℤ) (p : ι) : ι → ℤ := fun i => c i + w i - if i = p then total S w else 0

def Richest (c : ι → ℤ) (p : ι) : Prop := p ∈ S ∧ ∀ i ∈ S, c i + w i ≤ c p + w p

/-- The credits are spread around 0, and none is as low as minus the total. -/
structure Balanced (c : ι → ℤ) : Prop where
  sum : ∑ i ∈ S, c i = 0
  low : ∀ i ∈ S, -total S w < c i

variable {S w} {c : ι → ℤ} {p : ι} {picks : List ι}

/-! ## One round -/

theorem sum_pay (h : Richest S w c p) : ∑ i ∈ S, pay S w c p i = ∑ i ∈ S, c i := by
  have hpaid : ∑ i ∈ S, (if i = p then total S w else 0) = total S w := by
    rw [Finset.sum_ite_eq', if_pos h.1]
  unfold pay
  rw [Finset.sum_sub_distrib, Finset.sum_add_distrib, hpaid]
  unfold total
  ring

theorem balanced_pay (hw : ∀ i ∈ S, 0 ≤ w i) (hpos : 0 < total S w) (hp : Richest S w c p)
    (h : Balanced S w c) : Balanced S w (pay S w c p) where
  sum := by rw [sum_pay hp, h.sum]
  low := by
    intro i hi
    unfold pay
    split
    · -- the one that pays had at least 1
      rename_i hip
      subst hip
      obtain ⟨j, hj, hgain⟩ := exists_pos hpos h.sum
      have hrich := hp.2 j hj
      linarith
    · have hlow := h.low i hi
      have hgain := hw i hi
      linarith

/-! ## Rounds in a row -/

theorem balanced_run (hw : ∀ i ∈ S, 0 ≤ w i) (hpos : 0 < total S w)
    (hpicks : Meets (pay S w) (Richest S w) c picks) (h : Balanced S w c) :
    Balanced S w (run (pay S w) c picks) :=
  invariant_run (fun _ _ hp hc => balanced_pay hw hpos hp hc) hpicks h

theorem run_pay (c : ι → ℤ) (picks : List ι) (i : ι) :
    run (pay S w) c picks i = c i + picks.length * w i - picks.count i * total S w := by
  induction picks generalizing c with
  | nil => simp
  | cons p picks ih =>
    rw [run_cons, ih, pay, List.length_cons, List.count_cons]
    by_cases hip : i = p
    · subst hip
      rw [if_pos rfl, if_pos (beq_self_eq_true i)]
      push_cast
      ring
    · have hne : ¬(p == i) = true := by simpa using fun h => hip h.symm
      rw [if_neg hip, if_neg hne]
      push_cast
      ring

theorem mem_of_meets (h : Meets (pay S w) (Richest S w) c picks) : ∀ p ∈ picks, p ∈ S := by
  induction picks generalizing c with
  | nil => simp
  | cons p picks ih =>
    intro q hq
    rcases List.mem_cons.mp hq with rfl | hq
    · exact h.1.1
    · exact ih h.2 q hq

theorem count_of_returns (hpos : 0 < total S w) (hlength : (picks.length : ℤ) = total S w) {i : ι}
    (hi : run (pay S w) c picks i = c i) : (picks.count i : ℤ) = w i := by
  rw [run_pay, hlength] at hi
  have hsame : total S w * w i = total S w * picks.count i := by linarith
  exact (mul_left_cancel₀ hpos.ne' hsame).symm

theorem run_whole (hw : ∀ i ∈ S, 0 ≤ w i) (hpos : 0 < total S w) (hzero : ∀ i ∈ S, c i = 0)
    (hpicks : Meets (pay S w) (Richest S w) c picks) (hlength : (picks.length : ℤ) = total S w) :
    ∀ i ∈ S, run (pay S w) c picks i = 0 := by
  have hstart : Balanced S w c :=
    ⟨Finset.sum_eq_zero hzero, fun i hi => by rw [hzero i hi]; omega⟩
  have hend := balanced_run hw hpos hpicks hstart
  -- nobody paid more often than the weight says, and together they paid as often
  have hle : ∀ i ∈ S, (picks.count i : ℤ) ≤ w i := by
    intro i hi
    have hlow := hend.low i hi
    rw [run_pay, hzero i hi, hlength] at hlow
    have hfactor : total S w * (picks.count i - w i) < total S w * 1 := by linarith
    have hless := lt_of_mul_lt_mul_left hfactor hpos.le
    omega
  have hsum : ∑ i ∈ S, (picks.count i : ℤ) = ∑ i ∈ S, w i := by
    have hcount := Multiset.sum_count_eq_card (s := S) (m := picks)
      (by simpa using mem_of_meets hpicks)
    rw [← Nat.cast_sum]
    simp only [Multiset.coe_count, Multiset.coe_card] at hcount
    rw [hcount, hlength]
    rfl
  have heach := (Finset.sum_eq_sum_iff_of_le hle).mp hsum
  intro i hi
  rw [run_pay, hzero i hi, hlength, heach i hi]
  ring

end credits
