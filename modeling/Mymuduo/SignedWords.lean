-- Signed words of 64 bits that hold a natural number. The operations of such
-- words, the shifts and masks of packed fields with them, are the operations of
-- the numbers while the sign bit stays free.
import Mathlib.Data.Nat.Bitwise

namespace signed_words

/-- The word is the number, with a free sign bit. -/
structure Holds (a : Int64) (n : Nat) : Prop where
  toNat : a.toBitVec.toNat = n
  lt : n < 2 ^ 63

variable {a b : Int64} {n m : Nat}

theorem Holds.toInt (h : Holds a n) : a.toInt = n := by
  have hlt : 2 * a.toBitVec.toNat < 2 ^ 64 := by
    rw [h.toNat]
    have := h.lt
    omega
  change a.toBitVec.toInt = n
  rw [BitVec.toInt_eq_toNat_of_lt hlt, h.toNat]

theorem holds_of_toInt (h : a.toInt = n) : Holds a n := by
  have hint : a.toBitVec.toInt = n := h
  rw [BitVec.toInt_eq_toNat_cond] at hint
  split at hint
  · exact ⟨by omega, by omega⟩
  · omega

theorem holds_zero : Holds 0 0 := ⟨by decide, by decide⟩

theorem holds_one : Holds 1 1 := ⟨by decide, by decide⟩

theorem exists_holds (h : 0 ≤ a.toInt) : ∃ n, Holds a n :=
  ⟨a.toInt.toNat, holds_of_toInt (Int.toNat_of_nonneg h).symm⟩

theorem Holds.unique (h : Holds a n) (h' : Holds b n) : a = b :=
  Int64.toInt_inj.mp (h.toInt.trans h'.toInt.symm)

theorem Holds.eq_iff (h : Holds a n) (h' : Holds b m) : a = b ↔ n = m := by
  rw [← Int64.toInt_inj, h.toInt, h'.toInt]
  exact Int.ofNat_inj

theorem Holds.lt_iff (h : Holds a n) (h' : Holds b m) : a < b ↔ n < m := by
  rw [Int64.lt_iff_toInt_lt, h.toInt, h'.toInt]
  exact Int.ofNat_lt

theorem Holds.le_iff (h : Holds a n) (h' : Holds b m) : a ≤ b ↔ n ≤ m := by
  rw [Int64.le_iff_toInt_le, h.toInt, h'.toInt]
  exact Int.ofNat_le

theorem Holds.add (h : Holds a n) (h' : Holds b m) (hlt : n + m < 2 ^ 63) :
    Holds (a + b) (n + m) := by
  refine ⟨?_, hlt⟩
  rw [Int64.toBitVec_add, BitVec.toNat_add, h.toNat, h'.toNat, Nat.mod_eq_of_lt (by omega)]

theorem Holds.sub (h : Holds a n) (h' : Holds b m) (hle : m ≤ n) : Holds (a - b) (n - m) := by
  have hn := h.lt
  refine ⟨?_, by omega⟩
  rw [Int64.toBitVec_sub,
    BitVec.toNat_sub_of_le (by rw [BitVec.le_def, h.toNat, h'.toNat]; exact hle),
    h.toNat, h'.toNat]

/-! ## Fields -/

/-- The count of a shift, which the operation takes modulo the width. -/
structure Shifts (k : Int64) (j : Nat) : Prop where
  count : (k.toBitVec.smod 64).toNat = j

variable {k : Int64} {j : Nat}

theorem Holds.shiftLeft (h : Holds a n) (hk : Shifts k j) (hlt : n * 2 ^ j < 2 ^ 63) :
    Holds (a <<< k) (n * 2 ^ j) := by
  refine ⟨?_, hlt⟩
  rw [Int64.toBitVec_shiftLeft, BitVec.shiftLeft_eq', hk.count, BitVec.toNat_shiftLeft, h.toNat,
    Nat.shiftLeft_eq, Nat.mod_eq_of_lt (by omega)]

theorem Holds.shiftRight (h : Holds a n) (hk : Shifts k j) : Holds (a >>> k) (n / 2 ^ j) := by
  have hn := h.lt
  have hmsb : a.toBitVec.msb = false := by
    rw [BitVec.msb_eq_false_iff_two_mul_lt, h.toNat]
    omega
  refine ⟨?_, Nat.lt_of_le_of_lt (Nat.div_le_self _ _) hn⟩
  rw [Int64.toBitVec_shiftRight, BitVec.sshiftRight', hk.count,
    BitVec.sshiftRight_eq_of_msb_false hmsb, BitVec.toNat_ushiftRight, h.toNat,
    Nat.shiftRight_eq_div_pow]

theorem Holds.or (h : Holds a (n * 2 ^ j)) (h' : Holds b m) (hm : m < 2 ^ j)
    (hlt : n * 2 ^ j + m < 2 ^ 63) : Holds (a ||| b) (n * 2 ^ j + m) := by
  refine ⟨?_, hlt⟩
  rw [Int64.toBitVec_or, BitVec.toNat_or, h.toNat, h'.toNat, ← Nat.shiftLeft_eq,
    ← Nat.shiftLeft_add_eq_or_of_lt hm]

theorem Holds.and_mask (h : Holds a n) (h' : Holds b (2 ^ j - 1)) :
    Holds (a &&& b) (n % 2 ^ j) := by
  refine ⟨?_, Nat.lt_of_le_of_lt (Nat.mod_le _ _) h.lt⟩
  rw [Int64.toBitVec_and, BitVec.toNat_and, h.toNat, h'.toNat, Nat.and_two_pow_sub_one_eq_mod]

end signed_words
