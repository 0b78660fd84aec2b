-- `std::vector` over lists: element access, `resize` and `std::copy`. An access
-- outside the vector is a fault, and so is a size above `max_size()`. The
-- copies go element by element, and a lemma says when that moves the block.
import Mathlib.Algebra.Group.Nat.Defs
import Mathlib.Tactic.Common

open List

namespace vectors

variable {α : Type*}

inductive Fault
  /-- a read or a write outside the vector -/
  | outOfRange
  /-- `std::length_error` -/
  | lengthError
  deriving DecidableEq, Repr

/-- `max_size()` for elements of one byte -/
def maxSize : Nat := 2 ^ 63 - 1

/-- `v.resize(n, fill)`: cuts the vector, or fills it up. -/
def resize (v : List α) (fill : α) (n : Nat) : Except Fault (List α) :=
  if maxSize < n then .error .lengthError
  else .ok (v.take n ++ replicate (n - v.length) fill)

def readAt (v : List α) (i : Nat) : Except Fault α :=
  match v[i]? with
  | some x => .ok x
  | none => .error .outOfRange

def readFrom (v : List α) (src len : Nat) : Except Fault (List α) :=
  if src + len ≤ v.length then .ok ((v.drop src).take len) else .error .outOfRange

/-- `std::copy` of `n` elements of the vector from `src` on to `dst` on, first
element first. -/
def copyWithin (v : List α) (src dst : Nat) : Nat → Except Fault (List α)
  | 0 => .ok v
  | n + 1 =>
    match v[src]? with
    | some x =>
      if dst < v.length then copyWithin (v.set dst x) (src + 1) (dst + 1) n
      else .error .outOfRange
    | none => .error .outOfRange

def copyInto (v : List α) (dst : Nat) : List α → Except Fault (List α)
  | [] => .ok v
  | x :: xs =>
    if dst < v.length then copyInto (v.set dst x) (dst + 1) xs else .error .outOfRange

theorem readAt_eq {v : List α} {i : Nat} (h : i < v.length) : readAt v i = .ok v[i] := by
  unfold readAt
  rw [getElem?_eq_getElem h]

theorem readFrom_eq {v : List α} {src len : Nat} (h : src + len ≤ v.length) :
    readFrom v src len = .ok ((v.drop src).take len) := by
  unfold readFrom
  rw [if_pos h]

theorem take_succ_set (v : List α) {i : Nat} (h : i < v.length) (x : α) :
    (v.set i x).take (i + 1) = v.take i ++ [x] := by
  rw [take_succ_eq_append_getElem (by simpa using h), take_set_of_le (Nat.le_refl i)]
  simp

/-- A copy to the front goes over elements that it still has to read, and yet it
moves the whole block. -/
theorem copyWithin_eq (v : List α) (src dst n : Nat) (hle : dst ≤ src) (hin : src + n ≤ v.length) :
    copyWithin v src dst n = .ok (v.take dst ++ (v.drop src).take n ++ v.drop (dst + n)) := by
  induction n generalizing v src dst with
  | zero => simp [copyWithin]
  | succ n ih =>
    have hsrc : src < v.length := by omega
    unfold copyWithin
    rw [getElem?_eq_getElem hsrc]
    dsimp only
    rw [if_pos (by omega), ih (v.set dst v[src]) (src + 1) (dst + 1) (by omega) (by simp; omega)]
    -- the element just written lies before everything that is still to be read
    have hdrop : ∀ k, dst < k → (v.set dst v[src]).drop k = v.drop k := by
      intro k hk
      rw [drop_set_of_lt hk]
    have hend : dst + 1 + n = dst + (n + 1) := by omega
    rw [take_succ_set v (by omega), hdrop _ (by omega), hdrop _ (by omega),
      drop_eq_getElem_cons hsrc, take_succ_cons, hend]
    simp

theorem copyInto_eq (v : List α) (dst : Nat) (data : List α) (hin : dst + data.length ≤ v.length) :
    copyInto v dst data = .ok (v.take dst ++ data ++ v.drop (dst + data.length)) := by
  induction data generalizing v dst with
  | nil => simp [copyInto]
  | cons x xs ih =>
    rw [length_cons] at hin
    unfold copyInto
    rw [if_pos (by omega), ih (v.set dst x) (dst + 1) (by simp; omega)]
    have hend : dst + 1 + xs.length = dst + (xs.length + 1) := by omega
    rw [take_succ_set v (by omega), drop_set_of_lt (by omega), length_cons, hend]
    simp

end vectors
