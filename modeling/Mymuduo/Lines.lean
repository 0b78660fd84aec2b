-- Texts made of lines that end in CRLF. A search for a needle skips the bytes that
-- are not its first one, so it finds the break behind a line, and the blank line
-- behind a list of lines. The loop over lines folds exactly the lines that were
-- written, whatever stands before them.
import Mymuduo.Bytes

open List

namespace bytes

/-- The text has no CR and no LF. -/
def NoBreak (s : Bytes) : Prop := 13 ∉ s ∧ 10 ∉ s

instance (s : Bytes) : Decidable (NoBreak s) := inferInstanceAs (Decidable (13 ∉ s ∧ 10 ∉ s))

/-- A line that the loop over lines neither skips nor cuts. -/
def IsLine (s : Bytes) : Prop := s ≠ [] ∧ 13 ∉ s

theorem noBreak_decimal (n : Nat) : NoBreak (decimal n) :=
  ⟨fun h => absurd (isDigit_spec (isDigit_of_mem_decimal h)).1 (by decide),
    fun h => absurd (isDigit_spec (isDigit_of_mem_decimal h)).1 (by decide)⟩

@[simp]
theorem noBreak_append_iff (s t : Bytes) : NoBreak (s ++ t) ↔ NoBreak s ∧ NoBreak t := by
  unfold NoBreak
  simp only [mem_append, not_or]
  exact and_and_and_comm

/-! ## Search behind bytes that cannot match -/

section Search

variable {α : Type*} [DecidableEq α]

theorem find_self_append (needle rest : List α) : find needle (needle ++ rest) = some 0 := by
  obtain ⟨i, hi, hle⟩ := find_le (Nat.zero_le _) (prefix_append needle rest)
  rw [hi, Nat.le_zero.mp hle]

theorem find_append_of_notMem {c : α} {front : List α} (h : c ∉ front) (needle rest : List α) :
    find (c :: needle) (front ++ rest) = (find (c :: needle) rest).map (· + front.length) := by
  induction front with
  | nil => simp
  | cons x xs ih =>
    have hx : c ≠ x := fun e => h (by simp [e])
    rw [cons_append, find, if_neg (by simp [hx]), ih (fun hm => h (mem_cons_of_mem x hm)),
      Option.map_map]
    rfl

theorem find_behind {c : α} {front : List α} (h : c ∉ front) (needle rest : List α) :
    find (c :: needle) (front ++ (c :: needle ++ rest)) = some front.length := by
  rw [find_append_of_notMem h, find_self_append]
  simp

theorem find_eq_none_of_notMem {c : α} {s : List α} (h : c ∉ s) (needle : List α) :
    find (c :: needle) s = none := by
  have hnil := find_append_of_notMem h needle []
  rw [append_nil] at hnil
  rw [hnil]
  rfl

theorem findFrom_append (needle front rest : List α) :
    findFrom needle (front ++ rest) front.length = (find needle rest).map (· + front.length) := by
  unfold findFrom
  rw [if_pos (by simp), drop_left]

theorem find_isSome_iff {needle hay : List α} : (find needle hay).isSome ↔ needle <:+: hay := by
  constructor
  · intro h
    obtain ⟨i, hi⟩ := Option.isSome_iff_exists.mp h
    obtain ⟨before, behind, hhay, -⟩ := find_split hi
    exact ⟨before, behind, hhay.symm⟩
  · rintro ⟨before, behind, rfl⟩
    have hthere : needle <+: (before ++ needle ++ behind).drop before.length := by
      rw [append_assoc, drop_left]
      exact prefix_append ..
    obtain ⟨i, hi, -⟩ := find_le (by simp) hthere
    rw [hi]
    rfl

theorem find_eq_none_iff {needle hay : List α} : find needle hay = none ↔ ¬needle <:+: hay := by
  rw [← find_isSome_iff, Bool.not_eq_true, Option.isSome_eq_false_iff, Option.isNone_iff_eq_none]

theorem find_past {c : α} {needle front rest : List α}
    (h : ∀ j ≤ front.length, ¬needle <+: front.drop j ++ c :: rest) :
    find needle (front ++ c :: rest) = (find needle rest).map (· + (front.length + 1)) := by
  induction front with
  | nil =>
    have hhere : ¬needle <+: c :: rest := h 0 le_rfl
    rw [nil_append, find, if_neg (mt List.isPrefixOf_iff_prefix.mp hhere)]
    rfl
  | cons x front ih =>
    have hhere : ¬needle <+: x :: (front ++ c :: rest) := h 0 (Nat.zero_le _)
    rw [cons_append, find, if_neg (mt List.isPrefixOf_iff_prefix.mp hhere),
      ih (fun j hj => h (j + 1) (Nat.succ_le_succ hj)), Option.map_map]
    rfl

theorem find_append_cons_of_notMem {c : α} {needle front : List α} (hc : c ∉ needle)
    (hfront : ¬needle <:+: front) (rest : List α) :
    find needle (front ++ c :: rest) = (find needle rest).map (· + (front.length + 1)) := by
  refine find_past fun j _ hmatch => ?_
  rcases Nat.lt_or_ge (front.drop j).length needle.length with hlt | hle
  · have hover : front.drop j ++ [c] <+: needle :=
      prefix_of_prefix_length_le ⟨rest, by simp⟩ hmatch (by rw [length_append]; exact hlt)
    exact hc (hover.subset (by simp))
  · have hinside := prefix_of_prefix_length_le hmatch (prefix_append ..) hle
    exact hfront (hinside.isInfix.trans (drop_suffix j front).isInfix)

theorem append_cons_eq_of_notMem {c : α} {a b a' b' : List α} (ha : c ∉ a) (ha' : c ∉ a')
    (h : a ++ c :: b = a' ++ c :: b') : a = a' := by
  have hfirst : find [c] (a ++ c :: b) = some a.length := find_behind ha [] b
  have hsecond : find [c] (a' ++ c :: b') = some a'.length := find_behind ha' [] b'
  rw [h, hsecond, Option.some.injEq] at hfirst
  exact (append_inj h hfirst.symm).1

/-- Up to the first `c` of a text, a needle that ends in `c` can only stand right before it. -/
theorem eq_drop_of_closed {c : α} {needle front rest : List α} {j : Nat} (hneedle : c ∉ needle)
    (hfront : c ∉ front) (h : needle ++ [c] <+: front.drop j ++ c :: rest) :
    needle = front.drop j := by
  obtain ⟨behind, hbehind⟩ := h
  rw [append_assoc] at hbehind
  exact append_cons_eq_of_notMem hneedle (fun hmem => hfront (mem_of_mem_drop hmem)) hbehind

theorem find_closed {c : α} {needle front : List α} (hfront : c ∉ front) (h : needle <:+ front)
    (rest : List α) :
    find (needle ++ [c]) (front ++ c :: rest) = some (front.length - needle.length) := by
  have hneedle : c ∉ needle := fun hmem => hfront (h.subset hmem)
  have hdrop : ∀ j ≤ front.length - needle.length,
      (front ++ c :: rest).drop j = front.drop j ++ c :: rest :=
    fun j hj => drop_append_of_le_length (by omega)
  refine find_eq_some_iff.mpr ⟨by rw [length_append]; omega, ?_, fun j hj hmatch => ?_⟩
  · rw [hdrop _ le_rfl, ← suffix_iff_eq_drop.mp h]
    exact ⟨rest, by simp⟩
  · rw [hdrop j hj.le] at hmatch
    have hlength := congrArg List.length (eq_drop_of_closed hneedle hfront hmatch)
    rw [length_drop] at hlength
    omega

theorem find_closed_behind {c : α} {needle front : List α} (hneedle : c ∉ needle)
    (hfront : c ∉ front) (h : ¬needle <:+ front) (rest : List α) :
    find (needle ++ [c]) (front ++ c :: rest) =
      (find (needle ++ [c]) rest).map (· + (front.length + 1)) := by
  refine find_past fun j _ hmatch => h ?_
  rw [eq_drop_of_closed hneedle hfront hmatch]
  exact drop_suffix j front

theorem find_drop {needle hay : List α} {i a : Nat} (h : find needle hay = some i) (ha : a ≤ i) :
    find needle (hay.drop a) = some (i - a) := by
  obtain ⟨hi, hmatch, hfirst⟩ := find_eq_some_iff.mp h
  refine find_eq_some_iff.mpr ⟨by rw [length_drop]; omega, ?_, fun j hj => ?_⟩
  · rwa [drop_drop, Nat.add_sub_cancel' ha]
  · rw [drop_drop]
    exact hfirst (a + j) (by omega)

theorem find_piece {needle hay : List α} {i a n : Nat} (h : find needle hay = some i)
    (hneedle : needle ≠ []) (hn : a + n ≤ i) : find needle ((hay.drop a).take n) = none := by
  by_contra hsome
  obtain ⟨j, hj⟩ := Option.ne_none_iff_exists'.mp hsome
  have hpos := length_pos_iff.mpr hneedle
  have hinside := find_add_length_le hj
  rw [length_take] at hinside
  have hthere : needle <+: hay.drop (a + j) := by
    rw [← drop_drop]
    exact (find_starts hj).trans (by rw [drop_take]; exact List.take_prefix ..)
  exact (find_eq_some_iff.mp h).2.2 (a + j) (by omega) hthere

end Search

/-! ## Lines -/

theorem text_crlf_crlf : text "\r\n\r\n" = crlf ++ crlf := by decide

theorem length_append_crlf (s : Bytes) : (s ++ crlf).length = s.length + 2 := by
  simp [crlf]

variable {line : Bytes}

theorem find_crlf (h : 13 ∉ line) (rest : Bytes) :
    find crlf (line ++ (crlf ++ rest)) = some line.length := find_behind h [10] rest

theorem find_crlf_eq_none (h : 13 ∉ line) : find crlf line = none :=
  find_eq_none_of_notMem h [10]

theorem find_blank_skips {c : UInt8} (hline : 13 ∉ line) (hc : c ≠ 13) (rest : Bytes) :
    find (text "\r\n\r\n") (line ++ (crlf ++ (c :: rest))) =
      (find (text "\r\n\r\n") (c :: rest)).map (· + (line ++ crlf).length) := by
  rw [text_crlf_crlf]
  simp only [crlf, cons_append, nil_append]
  rw [find_append_of_notMem hline, find, if_neg (by simp [hc.symm]), find, if_neg (by simp),
    Option.map_map, Option.map_map]
  congr 1
  funext n
  simp only [Function.comp_apply, length_append, length_cons, length_nil]
  omega

theorem intercalate_eq_cons {sep : Bytes} {c : UInt8} (lines : List Bytes) :
    sep.intercalate ((c :: line) :: lines) = c :: sep.intercalate (line :: lines) := by
  cases lines with
  | nil => simp
  | cons next lines => simp [intercalate_cons_cons]

theorem length_le_length_intercalate_succ (c : UInt8) (pieces : List Bytes) :
    pieces.length ≤ ([c].intercalate pieces).length + 1 := by
  induction pieces with
  | nil => simp
  | cons piece pieces ih =>
    cases pieces with
    | nil => simp
    | cons next pieces =>
      rw [intercalate_cons_cons, length_append, length_append, length_cons]
      simp only [length_singleton]
      omega

variable {lines : List Bytes}

theorem length_le_length_intercalate (h : ∀ l ∈ lines, IsLine l) :
    lines.length ≤ (crlf.intercalate lines).length := by
  induction lines with
  | nil => simp
  | cons line lines ih =>
    have hpos := length_pos_iff.mpr (h line (mem_cons_self ..)).1
    have hrest := ih (fun l hl => h l (mem_cons_of_mem line hl))
    cases lines with
    | nil =>
      rw [intercalate_singleton, length_singleton]
      omega
    | cons next lines =>
      rw [intercalate_cons_cons, length_append, length_append, length_cons]
      omega

theorem intercalate_append_crlf (line : Bytes) (lines : List Bytes) :
    crlf.intercalate (line :: lines) ++ crlf = (line :: lines).flatMap (· ++ crlf) := by
  induction lines generalizing line with
  | nil => simp
  | cons next lines ih =>
    rw [intercalate_cons_cons, append_assoc, ih next]
    rfl

theorem find_blank_line (hne : lines ≠ []) (h : ∀ l ∈ lines, IsLine l) (rest : Bytes) :
    find (text "\r\n\r\n") (crlf.intercalate lines ++ (text "\r\n\r\n" ++ rest)) =
      some (crlf.intercalate lines).length := by
  induction lines with
  | nil => exact absurd rfl hne
  | cons line lines ih =>
    have hline := (h line (mem_cons_self ..)).2
    cases lines with
    | nil =>
      rw [intercalate_singleton, text_crlf_crlf]
      exact find_behind hline [10, 13, 10] rest
    | cons next lines =>
      have hrest := ih (by simp) (fun l hl => h l (mem_cons_of_mem line hl))
      obtain ⟨hnext, hcr⟩ := h next (by simp)
      obtain ⟨c, cs, rfl⟩ := exists_cons_of_ne_nil hnext
      have hc : c ≠ 13 := fun e => hcr (by simp [e])
      rw [intercalate_eq_cons] at hrest
      rw [intercalate_cons_cons, intercalate_eq_cons, append_assoc, append_assoc,
        cons_append, find_blank_skips hline hc, ← cons_append, hrest, Option.map_some]
      simp only [length_append, length_cons]
      congr 1
      omega

variable {σ : Type*}

variable (f : σ → Bytes → σ)

theorem foldLines_past {s : Bytes} {pos : Nat} (h : s.length ≤ pos)
    (fuel : Nat) (acc : σ) : foldLines f s fuel pos acc = acc := by
  cases fuel with
  | zero => rfl
  | succ fuel => rw [foldLines, if_neg (by omega)]

def linesFrom (s : Bytes) (fuel pos : Nat) : List Bytes :=
  foldLines (fun lines line => lines ++ [line]) s fuel pos []

theorem foldLines_eq_foldl (s : Bytes) (fuel pos : Nat) (acc : σ) :
    foldLines f s fuel pos acc = (linesFrom s fuel pos).foldl f acc := by
  have hlines : ∀ (fuel pos : Nat) (lines : List Bytes),
      foldLines f s fuel pos (lines.foldl f acc) =
        (foldLines (fun lines line => lines ++ [line]) s fuel pos lines).foldl f acc := by
    intro fuel
    induction fuel with
    | zero =>
      intro pos lines
      rfl
    | succ fuel ih =>
      intro pos lines
      rw [foldLines, foldLines]
      split
      · dsimp only
        rw [← ih]
        split_ifs
        · rfl
        · rw [foldl_append]
          rfl
      · rfl
  exact hlines fuel pos []

theorem foldLines_keeps {f : σ → Bytes → σ} {keeps : σ → Prop}
    (h : ∀ acc line, keeps acc → keeps (f acc line)) (s : Bytes) (fuel pos : Nat) {acc : σ}
    (hacc : keeps acc) : keeps (foldLines f s fuel pos acc) := by
  induction fuel generalizing pos acc with
  | zero => exact hacc
  | succ fuel ih =>
    rw [foldLines]
    split
    · refine ih _ ?_
      split
      · exact hacc
      · exact h acc _ hacc
    · exact hacc

theorem foldLines_line (before : Bytes) (h : IsLine line) (rest : Bytes) (fuel : Nat) (acc : σ) :
    foldLines f (before ++ (line ++ (crlf ++ rest))) (fuel + 1) before.length acc =
      foldLines f ((before ++ line ++ crlf) ++ rest) fuel (before ++ line ++ crlf).length
        (f acc line) := by
  have hpos := length_pos_iff.mpr h.1
  have hend : findFrom crlf (before ++ (line ++ (crlf ++ rest))) before.length =
      some (line.length + before.length) := by
    rw [findFrom_append, find_crlf h.2, Option.map_some]
  have hnext : (before ++ line ++ crlf).length = line.length + before.length + 2 := by
    simp only [length_append, crlf, length_cons, length_nil]
    omega
  rw [foldLines, if_pos (by simp only [length_append]; omega), hend]
  dsimp only [Option.getD_some]
  rw [drop_left, Nat.add_sub_cancel, take_left, if_neg h.1, hnext]
  simp only [append_assoc]

theorem foldLines_last_line (before : Bytes) (h : IsLine line) (fuel : Nat)
    (acc : σ) : foldLines f (before ++ line) (fuel + 1) before.length acc = f acc line := by
  have hpos := length_pos_iff.mpr h.1
  have hend : findFrom crlf (before ++ line) before.length = none := by
    rw [findFrom_append, find_crlf_eq_none h.2]
    rfl
  rw [foldLines, if_pos (by rw [length_append]; omega), hend]
  dsimp only [Option.getD_none]
  rw [drop_left, take_of_length_le (by rw [length_append]; omega), if_neg h.1]
  exact foldLines_past f (by omega) fuel _

theorem foldLines_intercalate (before : Bytes) (h : ∀ l ∈ lines, IsLine l)
    {fuel : Nat} (hfuel : lines.length ≤ fuel) (acc : σ) :
    foldLines f (before ++ crlf.intercalate lines) fuel before.length acc = lines.foldl f acc := by
  induction lines generalizing before fuel acc with
  | nil => exact foldLines_past f (by simp) fuel acc
  | cons line lines ih =>
    have hline := h line (mem_cons_self ..)
    have hlines : ∀ l ∈ lines, IsLine l := fun l hl => h l (mem_cons_of_mem line hl)
    rw [length_cons] at hfuel
    obtain ⟨fuel, rfl⟩ : ∃ n, fuel = n + 1 := ⟨fuel - 1, by omega⟩
    cases lines with
    | nil =>
      rw [intercalate_singleton]
      exact foldLines_last_line f before hline fuel acc
    | cons next lines =>
      rw [intercalate_cons_cons, append_assoc, foldLines_line f before hline,
        ih _ hlines (by omega)]
      rfl

end bytes
