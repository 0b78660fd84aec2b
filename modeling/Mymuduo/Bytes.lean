-- Byte strings: constants, letters, numbers, and the search for a substring as
-- `std::string::find` and `memmem` do it, with what the search gives in a longer
-- and in a shorter string.
import Mathlib.Data.List.Infix
import Mathlib.Data.List.TakeWhile
import Mymuduo.Words

open List words

namespace bytes

abbrev Bytes := List UInt8

/-- The bytes of a text with characters below 256. -/
def text (s : String) : Bytes := s.toList.map (fun c => UInt8.ofNat c.toNat)

def crlf : Bytes := [13, 10]

theorem length_crlf_crlf : (text "\r\n\r\n").length = 4 := by decide

/-- `std::tolower` in the C locale. -/
def toLower (c : UInt8) : UInt8 := if 65 ≤ c ∧ c ≤ 90 then c + 32 else c

def lower (s : Bytes) : Bytes := s.map toLower

/-- `std::isspace` in the C locale. -/
def isSpace (c : UInt8) : Bool := c = 32 || (9 ≤ c && c ≤ 13)

def isDigit (c : UInt8) : Bool := 48 ≤ c && c ≤ 57

/-- The number in decimal digits, as `std::to_string` writes it. -/
def decimal (n : Nat) : Bytes := text (toString n)

/-- The number in hexadecimal digits, as `%zx` writes it. -/
def hex (n : Nat) : Bytes := (Nat.toDigits 16 n).map (fun c => UInt8.ofNat c.toNat)

def hexDigitValue (c : UInt8) : Option Nat :=
  if 48 ≤ c ∧ c ≤ 57 then some (c.toNat - 48)
  else if 97 ≤ c ∧ c ≤ 102 then some (c.toNat - 87)
  else if 65 ≤ c ∧ c ≤ 70 then some (c.toNat - 55)
  else none

/-- The value of hexadecimal digits in either case. `none` for other bytes and for no
digits at all. -/
def hexValue (digits : Bytes) : Option Nat :=
  if digits = [] then none
  else digits.foldl (fun acc c => acc.bind (fun n => (hexDigitValue c).map (16 * n + ·))) (some 0)

/-- What `strtol` reads: spaces, a sign, digits. The flag says that the sign is minus. -/
def signAndDigits (s : Bytes) : Bool × Bytes :=
  match s.dropWhile isSpace with
  | 45 :: t => (true, t.takeWhile isDigit)
  | 43 :: t => (false, t.takeWhile isDigit)
  | t => (false, t.takeWhile isDigit)

def digitsValue (digits : Bytes) : Nat := digits.foldl (fun acc c => acc * 10 + (c.toNat - 48)) 0

/-- `std::stoul`. A negative number wraps. `none` is an exception, for no digits or
a number above the range. -/
def stoul (s : Bytes) : Option Nat :=
  let read := signAndDigits s
  let n := digitsValue read.2
  if read.2 = [] ∨ 2 ^ 64 ≤ n then none else some (if read.1 then sub64 0 n else n)

/-- `std::stoi`, with an exception outside the range of `int`. -/
def stoi (s : Bytes) : Option Int :=
  let read := signAndDigits s
  let n : Int := if read.1 then -digitsValue read.2 else digitsValue read.2
  if read.2 = [] ∨ n < -2 ^ 31 ∨ 2 ^ 31 ≤ n then none else some n

variable {n : Nat}

theorem stoul_lt {s : Bytes} (h : stoul s = some n) : n < 2 ^ 64 := by
  unfold stoul at h
  dsimp only at h
  split at h
  · cases h
  · cases h
    split
    · exact Nat.mod_lt _ (by norm_num)
    · omega

/-! ## Numbers -/

theorem decimal_eq (n : Nat) :
    decimal n = (if n < 10 then [] else decimal (n / 10)) ++ [UInt8.ofNat (48 + n % 10)] := by
  have hdigit : ∀ d < 10, UInt8.ofNat (Nat.digitChar d).toNat = UInt8.ofNat (48 + d) := by decide
  have hdec : ∀ m, decimal m = (Nat.toDigits 10 m).map (fun c => UInt8.ofNat c.toNat) := by
    intro m
    unfold decimal text
    simp [toString, Nat.repr]
  rw [hdec, hdec, Nat.toDigits_eq_if (by omega)]
  split
  · rename_i h
    rw [Nat.mod_eq_of_lt h, nil_append, map_singleton, hdigit n h]
  · rw [map_append, map_singleton, hdigit (n % 10) (Nat.mod_lt n (by omega))]

theorem decimal_ne_nil (n : Nat) : decimal n ≠ [] := by
  rw [decimal_eq]
  simp

theorem isDigit_of_mem_decimal {c : UInt8} (h : c ∈ decimal n) : isDigit c = true := by
  have hdigit : ∀ d < 10, isDigit (UInt8.ofNat (48 + d)) = true := by decide
  induction n using Nat.strongRecOn with
  | ind n ih =>
    rw [decimal_eq] at h
    rcases mem_append.mp h with hc | hc
    · by_cases hn : n < 10
      · rw [if_pos hn] at hc
        cases hc
      · rw [if_neg hn] at hc
        exact ih (n / 10) (by omega) hc
    · rw [mem_singleton.mp hc]
      exact hdigit (n % 10) (Nat.mod_lt n (by omega))

theorem digitsValue_append (s : Bytes) (c : UInt8) :
    digitsValue (s ++ [c]) = digitsValue s * 10 + (c.toNat - 48) := by
  unfold digitsValue
  rw [foldl_append]
  rfl

theorem digitsValue_decimal (n : Nat) : digitsValue (decimal n) = n := by
  have hdigit : ∀ d < 10, (UInt8.ofNat (48 + d)).toNat - 48 = d := by decide
  induction n using Nat.strongRecOn with
  | ind n ih =>
    rw [decimal_eq, digitsValue_append, hdigit (n % 10) (Nat.mod_lt n (by omega))]
    split
    · simp only [digitsValue, foldl_nil]
      omega
    · rw [ih (n / 10) (by omega)]
      omega

theorem isDigit_spec {c : UInt8} (h : isDigit c = true) : isSpace c = false ∧ c ≠ 45 ∧ c ≠ 43 := by
  have h48 : (48 : UInt8) ≤ c := by simp [isDigit] at h; exact h.1
  rw [UInt8.le_iff_toNat_le] at h48
  refine ⟨?_, ?_, ?_⟩
  · simp only [isSpace, Bool.or_eq_false_iff, Bool.and_eq_false_iff, decide_eq_false_iff_not,
      UInt8.le_iff_toNat_le, ← UInt8.toNat_inj]
    simp at h48 ⊢
    omega
  · rintro rfl
    simp at h48
  · rintro rfl
    simp at h48

theorem signAndDigits_of_digits {s : Bytes} (h : ∀ c ∈ s, isDigit c = true) :
    signAndDigits s = (false, s) := by
  have htake : s.takeWhile isDigit = s := takeWhile_eq_self_iff.mpr h
  cases s with
  | nil => rfl
  | cons c t =>
    obtain ⟨hspace, hminus, hplus⟩ := isDigit_spec (h c (mem_cons_self ..))
    unfold signAndDigits
    rw [dropWhile_cons_of_neg (by simp [hspace])]
    split
    · rename_i heq
      cases heq
      exact absurd rfl hminus
    · rename_i heq
      cases heq
      exact absurd rfl hplus
    · rw [htake]

theorem signAndDigits_decimal (n : Nat) : signAndDigits (decimal n) = (false, decimal n) :=
  signAndDigits_of_digits (fun _ h => isDigit_of_mem_decimal h)

theorem stoul_of_digits {s : Bytes} (hs : s ≠ []) (hdigits : ∀ c ∈ s, isDigit c = true)
    (hlt : digitsValue s < 2 ^ 64) : stoul s = some (digitsValue s) := by
  unfold stoul
  rw [signAndDigits_of_digits hdigits]
  dsimp only
  rw [if_neg (not_or.mpr ⟨hs, by omega⟩)]
  rfl

theorem stoul_decimal (h : n < 2 ^ 64) : stoul (decimal n) = some n := by
  rw [stoul_of_digits (decimal_ne_nil n) (fun _ hc => isDigit_of_mem_decimal hc)
    (by rwa [digitsValue_decimal]), digitsValue_decimal]

theorem stoi_decimal (h : n < 2 ^ 31) : stoi (decimal n) = some (n : Int) := by
  unfold stoi
  rw [signAndDigits_decimal]
  dsimp only
  rw [digitsValue_decimal, if_neg Bool.false_ne_true,
    if_neg (not_or.mpr ⟨decimal_ne_nil n, by omega⟩)]

theorem hex_eq (n : Nat) :
    hex n = (if n < 16 then [] else hex (n / 16)) ++
      [UInt8.ofNat (Nat.digitChar (n % 16)).toNat] := by
  unfold hex
  rw [Nat.toDigits_eq_if (by omega)]
  split
  · rename_i h
    rw [Nat.mod_eq_of_lt h]
    rfl
  · rw [map_append, map_singleton]

theorem hex_ne_nil (n : Nat) : hex n ≠ [] := by
  rw [hex_eq]
  simp

theorem forall_mem_hex {p : UInt8 → Prop}
    (hdigit : ∀ d < 16, p (UInt8.ofNat (Nat.digitChar d).toNat)) (n : Nat) : ∀ c ∈ hex n, p c := by
  induction n using Nat.strongRecOn with
  | ind n ih =>
    intro c h
    rw [hex_eq] at h
    rcases mem_append.mp h with hc | hc
    · by_cases hn : n < 16
      · rw [if_pos hn] at hc
        cases hc
      · rw [if_neg hn] at hc
        exact ih (n / 16) (by omega) c hc
    · rw [mem_singleton.mp hc]
      exact hdigit (n % 16) (Nat.mod_lt n (by omega))

theorem hexDigit_of_mem_hex {c : UInt8} (h : c ∈ hex n) : c ≠ 13 ∧ c ≠ 10 ∧ c ≠ 59 :=
  forall_mem_hex (p := fun c => c ≠ 13 ∧ c ≠ 10 ∧ c ≠ 59) (by decide) n c h

theorem hexValue_hex (n : Nat) : hexValue (hex n) = some n := by
  have hdigit : ∀ d < 16, hexDigitValue (UInt8.ofNat (Nat.digitChar d).toNat) = some d := by decide
  unfold hexValue
  rw [if_neg (hex_ne_nil n)]
  induction n using Nat.strongRecOn with
  | ind n ih =>
    rw [hex_eq, foldl_append, foldl_cons, foldl_nil, hdigit (n % 16) (Nat.mod_lt n (by omega))]
    split
    · rename_i h
      rw [Nat.mod_eq_of_lt h]
      simp
    · rw [ih (n / 16) (by omega), Option.bind_some, Option.map_some, Nat.div_add_mod]

/-! ## Parts -/

theorem take_drop_append {α : Type*} {l : List α} {i : Nat} (h : i + n ≤ l.length) (more : List α) :
    ((l ++ more).drop i).take n = (l.drop i).take n := by
  rw [drop_append_of_le_length (by omega), take_append_of_le_length (by rw [length_drop]; omega)]

/-! ## Search -/

section Search

variable {α : Type*} [DecidableEq α]

/-- The first position of `needle`. -/
def find (needle : List α) : List α → Option Nat
  | [] => if needle = [] then some 0 else none
  | x :: xs =>
    if needle.isPrefixOf (x :: xs) then some 0 else (find needle xs).map (· + 1)

/-- The first position of `needle` from `pos` on. -/
def findFrom (needle hay : List α) (pos : Nat) : Option Nat :=
  if pos ≤ hay.length then (find needle (hay.drop pos)).map (· + pos) else none

/-- The loop over the lines of `s` from `pos` on, which skips empty lines. Each
round moves `pos`, so the length of `s` is fuel enough. -/
def foldLines {σ : Type*} (f : σ → Bytes → σ) (s : Bytes) : Nat → Nat → σ → σ
  | 0, _, acc => acc
  | fuel + 1, pos, acc =>
    if pos < s.length then
      let lineEnd := (findFrom crlf s pos).getD s.length
      let line := (s.drop pos).take (lineEnd - pos)
      foldLines f s fuel (lineEnd + 2) (if line = [] then acc else f acc line)
    else acc

variable {i : Nat}

theorem find_split {needle hay : List α} (h : find needle hay = some i) :
    ∃ before behind, hay = before ++ needle ++ behind ∧ before.length = i := by
  induction hay generalizing i with
  | nil =>
    unfold find at h
    split at h
    · rename_i hn
      cases h
      exact ⟨[], [], by simp [hn], rfl⟩
    · cases h
  | cons x xs ih =>
    unfold find at h
    split at h
    · rename_i hp
      cases h
      obtain ⟨behind, hxs⟩ := List.isPrefixOf_iff_prefix.mp hp
      exact ⟨[], behind, hxs.symm, rfl⟩
    · obtain ⟨j, hj, rfl⟩ := Option.map_eq_some_iff.mp h
      obtain ⟨before, behind, rfl, rfl⟩ := ih hj
      exact ⟨x :: before, behind, rfl, rfl⟩

theorem find_add_length_le {needle hay : List α} (h : find needle hay = some i) :
    i + needle.length ≤ hay.length := by
  obtain ⟨before, behind, rfl, rfl⟩ := find_split h
  simp only [length_append]
  omega

theorem find_starts {needle hay : List α} (h : find needle hay = some i) :
    needle <+: hay.drop i := by
  obtain ⟨before, behind, rfl, rfl⟩ := find_split h
  rw [append_assoc, drop_left]
  exact prefix_append needle behind

theorem find_le {needle hay : List α} {j : Nat} (hj : j ≤ hay.length)
    (h : needle <+: hay.drop j) : ∃ i, find needle hay = some i ∧ i ≤ j := by
  induction hay generalizing j with
  | nil =>
    have hnil : needle = [] := prefix_nil.mp (by simpa using h)
    exact ⟨0, by simp [find, hnil], Nat.zero_le j⟩
  | cons x xs ih =>
    unfold find
    by_cases hp : needle.isPrefixOf (x :: xs) = true
    · exact ⟨0, by rw [if_pos hp], Nat.zero_le j⟩
    · cases j with
      | zero => exact absurd (List.isPrefixOf_iff_prefix.mpr h) hp
      | succ j =>
        obtain ⟨i, hi, hle⟩ := ih (by simpa using hj) h
        exact ⟨i + 1, by rw [if_neg hp, hi]; rfl, by omega⟩

theorem find_eq_some_iff {needle hay : List α} : find needle hay = some i ↔
    i ≤ hay.length ∧ needle <+: hay.drop i ∧ ∀ j < i, ¬needle <+: hay.drop j := by
  constructor
  · intro h
    have hlength := find_add_length_le h
    refine ⟨by omega, find_starts h, fun j hj hmatch => ?_⟩
    obtain ⟨k, hk, hle⟩ := find_le (by omega) hmatch
    rw [h] at hk
    cases hk
    omega
  · rintro ⟨hi, hmatch, hfirst⟩
    obtain ⟨k, hk, hle⟩ := find_le hi hmatch
    rcases Nat.lt_or_eq_of_le hle with hlt | rfl
    · exact absurd (find_starts hk) (hfirst k hlt)
    · exact hk

/-- A position found in a string is found in every longer string: what comes
later cannot give an earlier match, because a match of the needle before the
position would have ended before it too. -/
theorem find_append {needle hay : List α} (h : find needle hay = some i) (more : List α) :
    find needle (hay ++ more) = some i := by
  obtain ⟨-, hmatch, hfirst⟩ := find_eq_some_iff.mp h
  have hlength := find_add_length_le h
  have hdrop : ∀ j ≤ i, (hay ++ more).drop j = hay.drop j ++ more :=
    fun j hj => drop_append_of_le_length (by omega)
  refine find_eq_some_iff.mpr ⟨by rw [length_append]; omega, ?_, fun j hj hearlier => ?_⟩
  · rw [hdrop i le_rfl]
    exact hmatch.trans (prefix_append ..)
  · rw [hdrop j hj.le] at hearlier
    refine hfirst j hj (prefix_of_prefix_length_le hearlier (prefix_append ..) ?_)
    rw [length_drop]
    omega

theorem find_take {needle hay : List α} {n : Nat} (h : find needle hay = some i)
    (hn : i + needle.length ≤ n) : find needle (hay.take n) = some i := by
  obtain ⟨hi, hmatch, hfirst⟩ := find_eq_some_iff.mp h
  refine find_eq_some_iff.mpr ⟨by rw [length_take]; omega, ?_, fun j hj hearlier => ?_⟩
  · rw [drop_take]
    exact prefix_take_iff.mpr ⟨hmatch, by omega⟩
  · rw [drop_take] at hearlier
    exact hfirst j hj (hearlier.trans (List.take_prefix ..))

end Search

end bytes
