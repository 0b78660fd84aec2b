-- Unsigned 64-bit arithmetic over natural numbers, as `size_t` and `uint64_t`
-- compute it, and big-endian byte strings. Each operation reduces its result
-- modulo 2^64, and a lemma says when the reduction changes nothing.
import Mathlib.Data.Nat.ModEq
import Mathlib.Tactic.Ring

namespace words

def add64 (a b : Nat) : Nat := (a + b) % 2 ^ 64

/-- `a - b` on 64-bit words: a negative difference comes back at the top of the range. -/
def sub64 (a b : Nat) : Nat := (a + (2 ^ 64 - b % 2 ^ 64)) % 2 ^ 64

/-- The signed value of a 64-bit word. -/
def signed64 (a : Nat) : Int := if a < 2 ^ 63 then a else (a : Int) - 2 ^ 64

/-- The signed value of the lowest 32 bits. -/
def signed32 (a : Nat) : Int :=
  if a % 2 ^ 32 < 2 ^ 31 then (a % 2 ^ 32 : Nat) else ((a % 2 ^ 32 : Nat) : Int) - 2 ^ 32

/-- An `int`: the value modulo `2 ^ 32`, in the signed range. -/
def int32 (a : Int) : Int := a.bmod (2 ^ 32)

/-- An `int64_t`: the value modulo `2 ^ 64`, in the signed range. -/
def int64 (a : Int) : Int := a.bmod (2 ^ 64)

/-- A signed number as a `size_t`. -/
def sizeT (a : Int) : Nat := (a % 2 ^ 64).toNat

theorem int32_eq {a : Int} (hlow : -2 ^ 31 ≤ a) (hhigh : a < 2 ^ 31) : int32 a = a := by
  unfold int32
  exact Int.bmod_eq_of_le (by omega) (by omega)

theorem int64_eq {a : Int} (hlow : -2 ^ 63 ≤ a) (hhigh : a < 2 ^ 63) : int64 a = a := by
  unfold int64
  exact Int.bmod_eq_of_le (by omega) (by omega)

theorem sizeT_eq {a : Int} (hlow : 0 ≤ a) (hhigh : a < 2 ^ 64) : (sizeT a : Int) = a := by
  unfold sizeT
  omega

theorem add64_eq {a b : Nat} (h : a + b < 2 ^ 64) : add64 a b = a + b := by
  unfold add64
  exact Nat.mod_eq_of_lt h

theorem sub64_eq {a b : Nat} (hle : b ≤ a) (h : a < 2 ^ 64) : sub64 a b = a - b := by
  unfold sub64
  omega

theorem signed64_eq {a : Nat} (h : a < 2 ^ 63) : signed64 a = a := by
  unfold signed64
  rw [if_pos h]

/-! ## Big-endian numbers -/

/-- The lowest `k` bytes of `n`, the highest of them first. -/
def bigEndian : Nat → Nat → List UInt8
  | 0, _ => []
  | k + 1, n => UInt8.ofNat ((n >>> (8 * k)) &&& 0xFF) :: bigEndian k n

/-- One byte more at the low end of a 64-bit word. -/
def pushByte (acc : Nat) (b : UInt8) : Nat := ((acc <<< 8) % 2 ^ 64) ||| b.toNat

/-- The number that the bytes stand for, behind the bytes of `acc`. -/
def bigEndianValue (acc : Nat) (bs : List UInt8) : Nat :=
  bs.foldl (fun acc b => acc * 256 + b.toNat) acc

@[simp] theorem length_bigEndian (k n : Nat) : (bigEndian k n).length = k := by
  induction k with
  | zero => rfl
  | succ k ih => simp [bigEndian, ih]

theorem shift_or_byte (acc : Nat) (b : UInt8) : (acc <<< 8) ||| b.toNat = acc * 256 + b.toNat := by
  rw [Nat.shiftLeft_eq, Nat.mul_comm, ← Nat.two_pow_add_eq_or_of_lt b.toNat_lt, Nat.mul_comm]

theorem foldl_pushByte (acc : Nat) (bs : List UInt8) (h : (acc + 1) * 256 ^ bs.length ≤ 2 ^ 64) :
    bs.foldl pushByte acc = bigEndianValue acc bs := by
  induction bs generalizing acc with
  | nil => rfl
  | cons b bs ih =>
    rw [List.length_cons, Nat.pow_succ] at h
    have hpos : 0 < 256 ^ bs.length := Nat.pow_pos (by omega)
    have hfit : acc * 256 < 2 ^ 64 := by
      have : (acc + 1) * 256 ≤ (acc + 1) * (256 ^ bs.length * 256) :=
        Nat.mul_le_mul_left _ (Nat.le_mul_of_pos_left _ hpos)
      omega
    have hstep : pushByte acc b = acc * 256 + b.toNat := by
      unfold pushByte
      rw [Nat.mod_eq_of_lt (by rw [Nat.shiftLeft_eq]; omega), shift_or_byte]
    have hb := b.toNat_lt
    rw [List.foldl_cons, hstep]
    apply ih
    calc (acc * 256 + b.toNat + 1) * 256 ^ bs.length
        ≤ ((acc + 1) * 256) * 256 ^ bs.length := Nat.mul_le_mul_right _ (by omega)
      _ = (acc + 1) * (256 ^ bs.length * 256) := by ring
      _ ≤ 2 ^ 64 := h

theorem bigEndianValue_lt (acc : Nat) (bs : List UInt8) :
    bigEndianValue acc bs < (acc + 1) * 256 ^ bs.length := by
  induction bs generalizing acc with
  | nil => simp [bigEndianValue]
  | cons b bs ih =>
    have hb := b.toNat_lt
    calc bigEndianValue (acc * 256 + b.toNat) bs
        < (acc * 256 + b.toNat + 1) * 256 ^ bs.length := ih _
      _ ≤ ((acc + 1) * 256) * 256 ^ bs.length := Nat.mul_le_mul_right _ (by omega)
      _ = (acc + 1) * 256 ^ (b :: bs).length := by rw [List.length_cons, Nat.pow_succ]; ring

theorem bigEndianValue_bigEndian (acc k n : Nat) :
    bigEndianValue acc (bigEndian k n) = acc * 256 ^ k + n % 256 ^ k := by
  induction k generalizing acc with
  | zero => simp [bigEndian, bigEndianValue, Nat.mod_one]
  | succ k ih =>
    have hbyte : (UInt8.ofNat ((n >>> (8 * k)) &&& 0xFF)).toNat = n / 256 ^ k % 256 := by
      rw [show (0xFF : Nat) = 2 ^ 8 - 1 from rfl, Nat.and_two_pow_sub_one_eq_mod,
        Nat.shiftRight_eq_div_pow, Nat.pow_mul, UInt8.toNat_ofNat', Nat.mod_mod]
    have hunfold : bigEndianValue acc (bigEndian (k + 1) n) =
        bigEndianValue (acc * 256 + n / 256 ^ k % 256) (bigEndian k n) := by
      rw [← hbyte]
      rfl
    rw [hunfold, ih, Nat.mod_pow_succ]
    ring

theorem bigEndianValue_of_lt {k n : Nat} (h : n < 256 ^ k) :
    bigEndianValue 0 (bigEndian k n) = n := by
  rw [bigEndianValue_bigEndian, Nat.mod_eq_of_lt h]
  omega

theorem bigEndianValue_eq_add (acc : Nat) (bs : List UInt8) :
    bigEndianValue acc bs = acc * 256 ^ bs.length + bigEndianValue 0 bs := by
  induction bs generalizing acc with
  | nil => simp [bigEndianValue]
  | cons b bs ih =>
    have hacc : bigEndianValue acc (b :: bs) = bigEndianValue (acc * 256 + b.toNat) bs := rfl
    have hzero : bigEndianValue 0 (b :: bs) = bigEndianValue (0 * 256 + b.toNat) bs := rfl
    rw [hacc, hzero, ih, ih (0 * 256 + b.toNat), List.length_cons, Nat.pow_succ]
    ring

theorem eq_of_bigEndianValue_eq {bs cs : List UInt8} (hlength : bs.length = cs.length)
    (hvalue : bigEndianValue 0 bs = bigEndianValue 0 cs) : bs = cs := by
  induction bs generalizing cs with
  | nil => exact (List.eq_nil_of_length_eq_zero hlength.symm).symm
  | cons b bs ih =>
    cases cs with
    | nil => cases hlength
    | cons c cs =>
      rw [List.length_cons, List.length_cons, Nat.add_right_cancel_iff] at hlength
      have hb := bigEndianValue_lt 0 bs
      have hc := bigEndianValue_lt 0 cs
      have hsplit : ∀ (d : UInt8) (ds : List UInt8),
          bigEndianValue 0 (d :: ds) = d.toNat * 256 ^ ds.length + bigEndianValue 0 ds := by
        intro d ds
        have hcons : bigEndianValue 0 (d :: ds) = bigEndianValue (0 * 256 + d.toNat) ds := rfl
        rw [hcons, bigEndianValue_eq_add, Nat.zero_mul, Nat.zero_add]
      rw [hsplit, hsplit, hlength] at hvalue
      rw [Nat.zero_add, Nat.one_mul, hlength] at hb
      rw [Nat.zero_add, Nat.one_mul] at hc
      -- the remainders are below the power, so quotients and remainders agree
      have hquot : b.toNat = c.toNat := by
        have := congrArg (· / 256 ^ cs.length) hvalue
        simpa [Nat.mul_comm, Nat.mul_add_div (Nat.pow_pos (by omega : 0 < 256)),
          Nat.div_eq_of_lt hb, Nat.div_eq_of_lt hc] using this
      have hrest : bigEndianValue 0 bs = bigEndianValue 0 cs := by
        rw [hquot] at hvalue
        omega
      rw [ih hlength hrest, UInt8.toNat_inj.mp hquot]

theorem bigEndian_bigEndianValue {bs : List UInt8} {k : Nat} (h : bs.length = k) :
    bigEndian k (bigEndianValue 0 bs) = bs := by
  have hlt := bigEndianValue_lt 0 bs
  rw [Nat.zero_add, Nat.one_mul, h] at hlt
  refine eq_of_bigEndianValue_eq ?_ (bigEndianValue_of_lt hlt)
  rw [length_bigEndian, h]

end words
