-- Regular expressions in the grammar of ECMAScript, for the patterns that have no
-- operator: no group, no bracket, no repetition, no alternative, no dot and no
-- anchor. What is left are characters, escapes and word boundaries, so that each
-- item of a pattern takes at most one character.
import Mymuduo.Bytes

open List bytes

namespace regex

/-! ## Syntax -/

/-- The characters with a meaning of their own outside an escape. -/
def isOperator (c : UInt8) : Bool := (text "()[]\x7b\x7d.*+?|^$").contains c

inductive ClassName
  | digit
  | word
  | space
  deriving DecidableEq

/-- A term of a pattern: the character with a code, `\d`, `\w`, `\s` and their
complements, `\b` and `\B`. -/
inductive Item
  | unit (code : Nat)
  | cls (name : ClassName) (negated : Bool)
  | boundary (negated : Bool)
  deriving DecidableEq

def isLetter (c : UInt8) : Bool := (65 ≤ c && c ≤ 90) || (97 ≤ c && c ≤ 122)

def classEscape (c : UInt8) : Option Item :=
  if c = 100 then some (.cls .digit false)
  else if c = 68 then some (.cls .digit true)
  else if c = 119 then some (.cls .word false)
  else if c = 87 then some (.cls .word true)
  else if c = 115 then some (.cls .space false)
  else if c = 83 then some (.cls .space true)
  else if c = 98 then some (.boundary false)
  else if c = 66 then some (.boundary true)
  else none

/-- `\f`, `\n`, `\r`, `\t` and `\v`. -/
def controlEscape (c : UInt8) : Option Nat :=
  if c = 102 then some 12
  else if c = 110 then some 10
  else if c = 114 then some 13
  else if c = 116 then some 9
  else if c = 118 then some 11
  else none

def hexEscape (digits : Nat) (rest : Bytes) : Option (Item × Bytes) :=
  if rest.length < digits then none
  else (hexValue (rest.take digits)).map fun code => (.unit code, rest.drop digits)

/-- The escape behind a backslash. `none` is an error: nothing follows, digits are
missing, or a number refers to a group, and there are no groups. -/
def escape : Bytes → Option (Item × Bytes)
  | [] => none
  | c :: rest =>
    match classEscape c, controlEscape c with
    | some item, _ => some (item, rest)
    | none, some code => some (.unit code, rest)
    | none, none =>
      if c = 99 then
        match rest with
        | [] => none
        | letter :: rest => if isLetter letter then some (.unit (letter.toNat % 32), rest) else none
      else if c = 120 then hexEscape 2 rest
      else if c = 117 then hexEscape 4 rest
      else if c = 48 then
        -- a zero, unless more digits make it a number
        if rest.head?.any isDigit then none else some (.unit 0, rest)
      else if isDigit c then none
      else some (.unit c.toNat, rest)

def itemsFrom : Nat → Bytes → Option (List Item)
  | _, [] => some []
  | 0, _ :: _ => none
  | fuel + 1, c :: rest =>
    if c = 92 then do
      let (item, rest) ← escape rest
      let items ← itemsFrom fuel rest
      return item :: items
    else do
      let items ← itemsFrom fuel rest
      return .unit c.toNat :: items

/-- The items of a pattern without operators. Each one is written with a character at
least, so the length is fuel enough. `none` is a pattern that is not valid. -/
def items (pattern : Bytes) : Option (List Item) := itemsFrom pattern.length pattern

/-! ## Matching -/

def ClassName.contains : ClassName → UInt8 → Bool
  | .digit, c => isDigit c
  | .word, c => isLetter c || isDigit c || c = 95
  | .space, c => isSpace c

/-- Exactly one of the two neighbours is a character of a word. -/
def atBoundary (before : Option UInt8) (rest : Bytes) : Bool :=
  before.any ClassName.word.contains != rest.head?.any ClassName.word.contains

/-- The items match all of the rest, behind the character `before`. -/
def matchItems : List Item → Option UInt8 → Bytes → Bool
  | [], _, rest => rest = []
  | .unit code :: items, _, c :: rest => c.toNat = code && matchItems items (some c) rest
  | .cls name negated :: items, _, c :: rest =>
    name.contains c != negated && matchItems items (some c) rest
  | .boundary negated :: items, before, rest =>
    atBoundary before rest != negated && matchItems items before rest
  | _ :: _, _, [] => false

/-- The pattern matches the whole text. No text matches a pattern that is not valid. -/
def fullMatch (pattern s : Bytes) : Bool := (items pattern).any (matchItems · none s)

/-! ## Lengths -/

def Item.width : Item → Nat
  | .unit _ => 1
  | .cls _ _ => 1
  | .boundary _ => 0

theorem Item.width_le_one (item : Item) : item.width ≤ 1 := by
  cases item <;> simp [Item.width]

theorem length_of_matchItems {items : List Item} {before : Option UInt8} {s : Bytes}
    (h : matchItems items before s = true) : s.length = (items.map Item.width).sum := by
  induction items generalizing before s with
  | nil =>
    rw [matchItems, decide_eq_true_eq] at h
    simp [h]
  | cons item items ih =>
    cases item with
    | boundary negated =>
      rw [matchItems, Bool.and_eq_true] at h
      simpa [Item.width] using ih h.2
    | unit code | cls name negated =>
      cases s with
      | nil => cases h
      | cons c rest =>
        rw [matchItems, Bool.and_eq_true] at h
        simp [Item.width, ih h.2, Nat.add_comm]

theorem escape_shrinks {rest rest' : Bytes} {item : Item} (h : escape rest = some (item, rest')) :
    rest'.length < rest.length := by
  cases rest with
  | nil => cases h
  | cons c rest =>
    have hhex : ∀ digits, hexEscape digits rest = some (item, rest') →
        rest'.length < (c :: rest).length := by
      intro digits hdigits
      unfold hexEscape at hdigits
      split at hdigits
      · cases hdigits
      · obtain ⟨code, -, hcode⟩ := Option.map_eq_some_iff.mp hdigits
        cases hcode
        rw [length_drop, length_cons]
        omega
    dsimp only [escape] at h
    split at h
    · cases h
      exact Nat.lt_succ_self _
    · cases h
      exact Nat.lt_succ_self _
    · split at h
      · split at h
        · cases h
        · split at h
          · cases h
            simp only [length_cons]
            omega
          · cases h
      · split at h
        · exact hhex 2 h
        · split at h
          · exact hhex 4 h
          · split at h
            · split at h
              · cases h
              · cases h
                exact Nat.lt_succ_self _
            · split at h
              · cases h
              · cases h
                exact Nat.lt_succ_self _

variable {pattern : Bytes}

/-- The items take no more characters than the pattern is written with, and fewer if
there is an escape. -/
theorem width_itemsFrom {fuel : Nat} {items : List Item} (h : itemsFrom fuel pattern = some items) :
    (items.map Item.width).sum ≤ pattern.length ∧
      (92 ∈ pattern → (items.map Item.width).sum < pattern.length) := by
  induction fuel generalizing pattern items with
  | zero =>
    cases pattern with
    | nil =>
      cases h
      exact ⟨Nat.le_refl _, fun hmem => nomatch hmem⟩
    | cons c rest => cases h
  | succ fuel ih =>
    cases pattern with
    | nil =>
      cases h
      exact ⟨Nat.le_refl _, fun hmem => nomatch hmem⟩
    | cons c rest =>
      rw [itemsFrom] at h
      split at h
      · simp only [Option.bind_eq_bind, Option.bind_eq_some_iff] at h
        obtain ⟨⟨item, rest'⟩, hescape, items', hitems, h⟩ := h
        cases h
        have hone := item.width_le_one
        have hshorter := escape_shrinks hescape
        have hbound : (items'.map Item.width).sum ≤ rest'.length := (ih hitems).1
        simp only [map_cons, sum_cons, length_cons]
        exact ⟨by omega, fun _ => by omega⟩
      · rename_i hplain
        simp only [Option.bind_eq_bind, Option.bind_eq_some_iff] at h
        obtain ⟨items', hitems, h⟩ := h
        cases h
        obtain ⟨hbound, hless⟩ := ih hitems
        simp only [map_cons, sum_cons, length_cons, Item.width]
        refine ⟨by omega, fun hmem => ?_⟩
        have := hless ((mem_cons.mp hmem).resolve_left (Ne.symm hplain))
        omega

/-! ## When a pattern matches only itself -/

theorem itemsFrom_plain (h : 92 ∉ pattern) {fuel : Nat} (hfuel : pattern.length ≤ fuel) :
    itemsFrom fuel pattern = some (pattern.map fun c => .unit c.toNat) := by
  induction pattern generalizing fuel with
  | nil => cases fuel <;> rfl
  | cons c rest ih =>
    rw [length_cons] at hfuel
    obtain ⟨fuel, rfl⟩ : ∃ n, fuel = n + 1 := ⟨fuel - 1, by omega⟩
    have hc : c ≠ 92 := fun hc => h (hc ▸ mem_cons_self ..)
    rw [itemsFrom, if_neg hc, ih (fun hmem => h (mem_cons_of_mem c hmem)) (by omega)]
    rfl

theorem matchItems_plain (pattern : Bytes) (before : Option UInt8) (s : Bytes) :
    matchItems (pattern.map fun c => .unit c.toNat) before s = true ↔ s = pattern := by
  induction pattern generalizing before s with
  | nil => simp [matchItems]
  | cons c rest ih =>
    cases s with
    | nil => simp [matchItems]
    | cons d s =>
      rw [map_cons, matchItems, Bool.and_eq_true, ih, decide_eq_true_eq, List.cons.injEq,
        UInt8.toNat_inj]

theorem fullMatch_plain (h : 92 ∉ pattern) (s : Bytes) :
    fullMatch pattern s = true ↔ s = pattern := by
  unfold fullMatch items
  rw [itemsFrom_plain h (Nat.le_refl _)]
  exact matchItems_plain pattern none s

/-- A pattern with an escape does not match itself: what it matches is shorter. -/
theorem fullMatch_self_of_escape (h : 92 ∈ pattern) : fullMatch pattern pattern = false := by
  unfold fullMatch
  cases hitems : items pattern with
  | none => rfl
  | some its =>
    have hless := (width_itemsFrom hitems).2 h
    rw [Option.any_some, Bool.eq_false_iff]
    intro hmatch
    have hlength := length_of_matchItems hmatch
    omega

end regex
