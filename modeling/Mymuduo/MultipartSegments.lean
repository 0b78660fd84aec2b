-- The parts of a multipart body (src/http/MultipartParser.h) against the encoding that
-- puts each part between two delimiter lines. The parser looks for the delimiter anywhere
-- and not only at the start of a line, so data with the delimiter in it is cut there.
import Mymuduo.Multipart

open List bytes

namespace mymuduo.multipart

open http_request (substr substr_append)
open MultipartParser Disposition

/-! ## The encoding -/

structure FormPart where
  name : Bytes
  filename : Option Bytes := none
  contentType : Option Bytes := none
  data : Bytes
  deriving DecidableEq

def delimiterOf (boundary : Bytes) : Bytes := text "--" ++ boundary

namespace FormPart

def disposition (p : FormPart) : Disposition :=
  match p.filename with
  | none => .nameOnly p.name
  | some f => .nameFirst p.name f

def typeLines (p : FormPart) : List Bytes :=
  (p.contentType.map (text "Content-Type: " ++ ·)).toList

def header (p : FormPart) : Bytes := crlf.intercalate (p.disposition.line 1 :: p.typeLines)

def content (p : FormPart) : Bytes := p.header ++ (text "\r\n\r\n" ++ p.data)

/-- The texts fit in quotes, the name is there, and no line of the data begins with the
delimiter. -/
structure Valid (boundary : Bytes) (p : FormPart) : Prop where
  name_ne : p.name ≠ []
  name : Quotable p.name
  filename : ∀ f, p.filename = some f → Quotable f
  contentType : ∀ t, p.contentType = some t → Quotable t
  data : ¬crlf ++ delimiterOf boundary <:+: p.data
  start : ¬delimiterOf boundary <+: p.data

end FormPart

/-- What is left of a header line behind its last delimiter. There is nothing left where one
of them has two dashes behind it, as the closing delimiter has. -/
def behindDelimiters (boundary : Bytes) : Nat → Bytes → Option Bytes
  | 0, line => some line
  | fuel + 1, line =>
    match find (delimiterOf boundary) line with
    | none => some line
    | some i =>
      let rest := line.drop (i + (delimiterOf boundary).length)
      if rest.take 2 = text "--" then none else behindDelimiters boundary fuel rest

/-- The line is a `Content-Disposition` with a name. -/
def Named (line : Bytes) : Prop :=
  text "Content-Disposition:" <:+: line ∧ extractHeaderParam line (text "name") ≠ []

instance (line : Bytes) : Decidable (Named line) := inferInstanceAs (Decidable (_ ∧ _))

/-- The delimiter is neither in the data nor in the type line, the type line is no disposition
line, and the disposition line still has a name behind the delimiters in it. -/
structure FormPart.Readable (boundary : Bytes) (p : FormPart) : Prop where
  data : ¬delimiterOf boundary <:+: p.data
  typeLines : ∀ l ∈ p.typeLines,
    ¬delimiterOf boundary <:+: l ∧ ¬text "Content-Disposition:" <:+: l
  disposition : ∃ rest, Named rest ∧
    behindDelimiters boundary (p.disposition.line 1).length (p.disposition.line 1) = some rest

/-- Each part behind a delimiter line, and the closing delimiter. -/
def encode (boundary : Bytes) (parts : List FormPart) : Bytes :=
  parts.flatMap (fun p => delimiterOf boundary ++ crlf ++ p.content ++ crlf) ++
    (delimiterOf boundary ++ text "--" ++ crlf)

/-- What follows a delimiter, up to the end of the body. -/
def behindDelimiter (boundary : Bytes) : List FormPart → Bytes
  | [] => text "--" ++ crlf
  | p :: parts =>
    crlf ++ (p.content ++ crlf ++ (delimiterOf boundary ++ behindDelimiter boundary parts))

theorem encode_eq (boundary : Bytes) (parts : List FormPart) :
    encode boundary parts = delimiterOf boundary ++ behindDelimiter boundary parts := by
  induction parts with
  | nil => simp [encode, behindDelimiter]
  | cons p parts ih =>
    unfold encode at ih ⊢
    rw [flatMap_cons, append_assoc, ih]
    simp [behindDelimiter]

/-! ## One part -/

theorem trimBreak_append_crlf (data : Bytes) : trimBreak (data ++ crlf) = data := by
  unfold trimBreak
  rw [length_append_crlf, Nat.add_sub_cancel, drop_left, take_left,
    if_pos ⟨Nat.le_add_left .., rfl⟩]

theorem trimBreak_shortens (data : Bytes) : trimBreak data <+: data := by
  unfold trimBreak
  split
  · exact List.take_prefix ..
  · exact prefix_refl _

namespace FormPart

variable {boundary : Bytes} {p : FormPart}

theorem Valid.disposition (h : p.Valid boundary) : p.disposition.Valid := by
  have hfilename := h.filename
  unfold FormPart.disposition
  cases hf : p.filename with
  | none =>
    have hempty : Quotable [] := by decide
    exact ⟨h.name, hempty⟩
  | some f => exact ⟨h.name, hfilename f hf⟩

theorem Valid.typeLines (h : p.Valid boundary) : ∀ l ∈ p.typeLines, l ≠ [] ∧ Quotable l := by
  intro l hl
  unfold FormPart.typeLines at hl
  cases ht : p.contentType with
  | none => simp [ht] at hl
  | some t =>
    simp only [ht, Option.map_some, Option.toList_some, mem_singleton] at hl
    obtain ⟨hquote, hbreak⟩ := h.contentType t ht
    rw [hl, Quotable, noBreak_append_iff, mem_append, not_or]
    exact ⟨by simp [text], ⟨by decide, hquote⟩, by decide, hbreak⟩

theorem content_append (p : FormPart) (rest : Bytes) :
    p.content ++ rest =
      (p.disposition.line 1 :: p.typeLines).flatMap (· ++ crlf) ++ (crlf ++ (p.data ++ rest)) := by
  rw [← intercalate_append_crlf, FormPart.content, FormPart.header, text_crlf_crlf]
  simp

end FormPart

/-! ## The loop on the rest of the body -/

theorem delimiterOf_ne_nil (boundary : Bytes) : delimiterOf boundary ≠ [] := by
  simp [delimiterOf, text]

theorem find_delimiter_nil (boundary : Bytes) : find (delimiterOf boundary) [] = none := by
  rw [find, if_neg (delimiterOf_ne_nil boundary)]

/-- The part that a piece between two delimiters gives, if it has a name. -/
def received (content : Bytes) : Option MultipartPart :=
  if (parsePart content).name ≠ [] then some (parsePart content) else none

def skipBreak (behind : Bytes) : Bytes := if behind.take 2 = crlf then behind.drop 2 else behind

theorem length_skipBreak_le (behind : Bytes) : (skipBreak behind).length ≤ behind.length := by
  unfold skipBreak
  split
  · exact (drop_sublist 2 behind).length_le
  · exact le_rfl

variable {boundary rest : Bytes}

theorem length_behind_lt {i : Nat} (h : find (delimiterOf boundary) rest = some i) :
    (skipBreak (rest.drop (i + (delimiterOf boundary).length))).length < rest.length := by
  have hskip := length_skipBreak_le (rest.drop (i + (delimiterOf boundary).length))
  have hpos := length_pos_iff.mpr (delimiterOf_ne_nil boundary)
  have hinside := find_add_length_le h
  rw [length_drop] at hskip
  omega

/-- What `parseLoop` finds in the rest of the body. -/
def pieces (boundary rest : Bytes) : List MultipartPart :=
  match _h : find (delimiterOf boundary) rest with
  | none => []
  | some i =>
    let behind := rest.drop (i + (delimiterOf boundary).length)
    (received (rest.take i)).toList ++
      if behind.take 2 = text "--" then [] else pieces boundary (skipBreak behind)
termination_by rest.length
decreasing_by exact length_behind_lt _h

/-- The parts behind a delimiter: none if it is the closing one. -/
def next (boundary behind : Bytes) : List MultipartPart :=
  if behind.take 2 = text "--" then [] else pieces boundary (skipBreak behind)

theorem pieces_of_find {i : Nat} (hfind : find (delimiterOf boundary) rest = some i) :
    pieces boundary rest = (received (rest.take i)).toList ++
      next boundary (rest.drop (i + (delimiterOf boundary).length)) := by
  rw [pieces]
  split
  · rename_i hnone
    rw [hnone] at hfind
    cases hfind
  · rename_i j hj
    rw [hj, Option.some.injEq] at hfind
    rw [hfind]
    rfl

theorem pieces_of_find_none
    (hfind : find (delimiterOf boundary) rest = none) : pieces boundary rest = [] := by
  rw [pieces]
  split
  · rfl
  · rename_i i hi
    rw [hi] at hfind
    cases hfind

theorem two_bytes_iff (body : Bytes) (pos : Nat) (mark : Bytes) (hmark : mark.length = 2) :
    pos + 2 ≤ body.length ∧ substr body pos 2 = mark ↔ (body.drop pos).take 2 = mark := by
  constructor
  · exact fun h => h.2
  · intro h
    have hlength := congrArg List.length h
    rw [length_take, length_drop, hmark] at hlength
    exact ⟨by omega, h⟩

theorem parseLoop_eq_pieces {boundary body : Bytes} {fuel pos : Nat}
    (hfuel : (body.drop pos).length < fuel) (parts : List MultipartPart) :
    parseLoop body (delimiterOf boundary) fuel pos parts =
      parts ++ pieces boundary (body.drop pos) := by
  induction fuel generalizing pos parts with
  | zero => omega
  | succ fuel ih =>
    rw [parseLoop]
    split
    case isFalse hpos =>
      rw [drop_eq_nil_of_le (by omega), pieces_of_find_none (find_delimiter_nil boundary),
        append_nil]
    case isTrue hpos =>
      unfold findFrom
      rw [if_pos hpos.le]
      cases hfind : find (delimiterOf boundary) (body.drop pos) with
      | none => rw [pieces_of_find_none hfind, append_nil, Option.map_none]
      | some i =>
        have hshort := length_behind_lt hfind
        have hdrop : (body.drop pos).drop (i + (delimiterOf boundary).length) =
            body.drop (i + pos + (delimiterOf boundary).length) := by
          rw [drop_drop]
          congr 1
          omega
        have hpush : (if (parsePart (substr body pos i)).name ≠ [] then
            parts ++ [parsePart (substr body pos i)] else parts) =
              parts ++ (received ((body.drop pos).take i)).toList := by
          unfold received substr
          split <;> simp
        have hskip :
            body.drop (if (body.drop (i + pos + (delimiterOf boundary).length)).take 2 = crlf
            then i + pos + (delimiterOf boundary).length + 2
            else i + pos + (delimiterOf boundary).length) =
              skipBreak (body.drop (i + pos + (delimiterOf boundary).length)) := by
          unfold skipBreak
          split
          · rw [drop_drop]
          · rfl
        rw [hdrop, ← hskip] at hshort
        dsimp only [Option.map_some]
        simp only [two_bytes_iff body _ (text "--") rfl, two_bytes_iff body _ crlf rfl]
        rw [Nat.add_sub_cancel, hpush, pieces_of_find hfind, hdrop, next, ← append_assoc,
          ih (by omega), hskip]
        split
        · rw [append_nil]
        · rfl

theorem pieces_round {boundary content behind : Bytes}
    (hfind : find (delimiterOf boundary) (content ++ (delimiterOf boundary ++ behind)) =
      some content.length) :
    pieces boundary (content ++ (delimiterOf boundary ++ behind)) =
      (received content).toList ++ next boundary behind := by
  have hdrop : (content ++ (delimiterOf boundary ++ behind)).drop
      (content.length + (delimiterOf boundary).length) = behind := by
    rw [← append_assoc, ← length_append, drop_left]
  rw [pieces_of_find hfind, take_left, hdrop]

/-! ## Delimiters in a header line -/

variable {line : Bytes}

section Loop

variable {boundary : Bytes}

theorem noBreak_delimiterOf (h : NoBreak boundary) : NoBreak (delimiterOf boundary) := by
  unfold delimiterOf
  rw [noBreak_append_iff]
  exact ⟨by decide, h⟩

theorem find_delimiter_line (h : NoBreak boundary) {front : Bytes}
    (hfront : ¬delimiterOf boundary <:+: front) (rest : Bytes) :
    find (delimiterOf boundary) (front ++ (crlf ++ rest)) =
      (find (delimiterOf boundary) rest).map (· + (front ++ crlf).length) := by
  obtain ⟨hcr, hlf⟩ := noBreak_delimiterOf h
  have hnil : ¬delimiterOf boundary <:+: [] := by simpa using delimiterOf_ne_nil boundary
  have hsecond := find_append_cons_of_notMem hlf hnil rest
  rw [nil_append] at hsecond
  have hjoin : front ++ (crlf ++ rest) = front ++ 13 :: 10 :: rest := rfl
  rw [hjoin, find_append_cons_of_notMem hcr hfront, hsecond, Option.map_map]
  congr 1
  funext n
  simp only [Function.comp_apply, length_nil, length_append_crlf]
  omega

theorem find_delimiter_lines (h : NoBreak boundary) {lines : List Bytes}
    (hlines : ∀ l ∈ lines, ¬delimiterOf boundary <:+: l) (rest : Bytes) :
    find (delimiterOf boundary) (lines.flatMap (· ++ crlf) ++ rest) =
      (find (delimiterOf boundary) rest).map (· + (lines.flatMap (· ++ crlf)).length) := by
  induction lines with
  | nil => simp
  | cons l lines ih =>
    rw [forall_mem_cons] at hlines
    rw [flatMap_cons, append_assoc, append_assoc, find_delimiter_line h hlines.1, ih hlines.2,
      Option.map_map]
    congr 1
    funext n
    simp only [Function.comp_apply, length_append]
    omega

theorem received_of_count {content : Bytes} (h : content.count 13 < 2) :
    received content = none := by
  have hblank : ¬text "\r\n\r\n" <:+: content := by
    intro hinside
    have htwo : (text "\r\n\r\n").count 13 = 2 := by decide
    have hle := hinside.sublist.count_le 13
    omega
  unfold received parsePart
  rw [find_eq_none_iff.mpr hblank]
  rfl

theorem pieces_header (front : Bytes) (hcount : (front ++ line).count 13 < 2)
    (hline : 13 ∉ line) {i : Nat} (hi : find (delimiterOf boundary) line = some i) (more : Bytes)
    (hfront : find (delimiterOf boundary) (front ++ (line ++ (crlf ++ more))) =
      some (front.length + i)) :
    pieces boundary (front ++ (line ++ (crlf ++ more))) =
      let rest := line.drop (i + (delimiterOf boundary).length)
      if rest.take 2 = text "--" then []
      else pieces boundary (if rest = [] then more else rest ++ (crlf ++ more)) := by
  obtain ⟨before, behind, rfl, rfl⟩ := find_split hi
  have hdrop : (before ++ delimiterOf boundary ++ behind).drop
      (before.length + (delimiterOf boundary).length) = behind := by
    rw [← length_append, drop_left]
  have hsplit : front ++ (before ++ delimiterOf boundary ++ behind ++ (crlf ++ more)) =
      (front ++ before) ++ (delimiterOf boundary ++ (behind ++ (crlf ++ more))) := by simp
  have hdropped : received (front ++ before) = none := by
    apply received_of_count
    simp only [count_append] at hcount ⊢
    omega
  have hbehind : 13 ∉ behind := fun hmem => hline (mem_append_right _ hmem)
  rw [← length_append, hsplit] at hfront
  rw [hsplit, pieces_round hfront, hdropped, hdrop]
  -- the two bytes behind the delimiter are in the line, or the break is one of them
  rcases behind with _ | ⟨a, _ | ⟨b, rest⟩⟩
  · simp [next, skipBreak, crlf, text]
  all_goals
    have ha : a ≠ 13 := fun e => hbehind (by simp [e])
    simp [next, skipBreak, crlf, text, ha]

theorem pieces_line (hline : 13 ∉ line) {i : Nat} (hi : find (delimiterOf boundary) line = some i)
    (more : Bytes) :
    pieces boundary (line ++ (crlf ++ more)) =
      let rest := line.drop (i + (delimiterOf boundary).length)
      if rest.take 2 = text "--" then []
      else pieces boundary (if rest = [] then more else rest ++ (crlf ++ more)) :=
  pieces_header [] (by rw [nil_append, count_eq_zero_of_not_mem hline]; decide) hline hi more
    (by rw [nil_append, find_append hi, length_nil, Nat.zero_add])

/-! ## What one part gives -/

variable {data behind rest : Bytes}

/-- The empty line behind the header, the data, and the delimiter that was written behind it. -/
def block (boundary data behind : Bytes) : Bytes :=
  crlf ++ (data ++ (crlf ++ (delimiterOf boundary ++ behind)))

/-- From `rest` on the loop finds one part or none before the next written delimiter, with the
data exactly when `good` holds; or it ends. -/
def Gives (boundary data behind rest : Bytes) (good : Prop) : Prop :=
  ∃ part : Option MultipartPart, (part.map MultipartPart.data = some data ↔ good) ∧
    (pieces boundary rest = part.toList ++ next boundary behind ∨
      part = none ∧ pieces boundary rest = [])

theorem gives_ended (h : pieces boundary rest = []) : Gives boundary data behind rest False :=
  ⟨none, by simp, Or.inr ⟨rfl, h⟩⟩

theorem Gives.congr {rest' : Bytes} {good good' : Prop}
    (hgives : Gives boundary data behind rest good)
    (hrest : pieces boundary rest' = pieces boundary rest) (hgood : good' ↔ good) :
    Gives boundary data behind rest' good' := by
  unfold Gives
  rwa [hrest, hgood]

/-- A header line gives what is given by the part of it behind its last delimiter. -/
theorem gives_line (good : Bytes → Prop) {fuel : Nat} (hfuel : line.length ≤ fuel)
    (hline : IsLine line) {more : Bytes} (hnil : Gives boundary data behind more (good []))
    (hrest : ∀ rest, rest <:+ line → rest ≠ [] → ¬delimiterOf boundary <:+: rest →
      Gives boundary data behind (rest ++ (crlf ++ more)) (good rest)) :
    Gives boundary data behind (line ++ (crlf ++ more))
      (∃ rest, good rest ∧ behindDelimiters boundary fuel line = some rest) := by
  induction fuel generalizing line with
  | zero => exact absurd (length_eq_zero_iff.mp (Nat.le_zero.mp hfuel)) hline.1
  | succ fuel ih =>
    rw [behindDelimiters]
    cases hi : find (delimiterOf boundary) line with
    | none =>
      exact (hrest line (suffix_refl _) hline.1 (find_eq_none_iff.mp hi)).congr rfl (by simp)
    | some i =>
      have hround := pieces_line hline.2 hi more
      have hpos := length_pos_iff.mpr (delimiterOf_ne_nil boundary)
      have hinside := find_add_length_le hi
      have hsuffix := drop_suffix (i + (delimiterOf boundary).length) line
      have hlength := length_drop (i := i + (delimiterOf boundary).length) (l := line)
      dsimp only at hround ⊢
      generalize line.drop (i + (delimiterOf boundary).length) = rest at hround hsuffix hlength ⊢
      split_ifs at hround ⊢ with hend hempty
      · exact (gives_ended hround).congr rfl (by simp)
      · subst hempty
        refine hnil.congr hround ?_
        cases fuel <;> simp [behindDelimiters, find_delimiter_nil]
      · refine (ih (by omega) ⟨hempty, fun hmem => hline.2 (hsuffix.subset hmem)⟩ ?_).congr hround
          Iff.rfl
        exact fun rest' hrest' => hrest rest' (hrest'.trans hsuffix)

section Piece

variable (h : NoBreak boundary) (hdata : ¬delimiterOf boundary <:+: data)
include h hdata

theorem pieces_last (lines : List Bytes) (hlines : ∀ l ∈ lines, ¬delimiterOf boundary <:+: l) :
    pieces boundary (lines.flatMap (· ++ crlf) ++ block boundary data behind) =
      (received (lines.flatMap (· ++ crlf) ++ (crlf ++ (data ++ crlf)))).toList ++
        next boundary behind := by
  have hnil : ¬delimiterOf boundary <:+: [] := by simpa using delimiterOf_ne_nil boundary
  have hblank := find_delimiter_line h hnil (data ++ (crlf ++ (delimiterOf boundary ++ behind)))
  have hsplit : lines.flatMap (· ++ crlf) ++ block boundary data behind =
      (lines.flatMap (· ++ crlf) ++ (crlf ++ (data ++ crlf))) ++
        (delimiterOf boundary ++ behind) := by
    simp [block]
  rw [nil_append] at hblank
  rw [hsplit]
  apply pieces_round
  rw [← hsplit, block, find_delimiter_lines h hlines, hblank, find_delimiter_line h hdata,
    find_self_append]
  simp only [Option.map_some, length_append, length_nil]
  congr 1
  omega

theorem gives_lines (line : Bytes) (lines : List Bytes) (hread : ∀ l ∈ line :: lines, IsLine l)
    (hlines : ∀ l ∈ line :: lines, ¬delimiterOf boundary <:+: l) :
    Gives boundary data behind
      ((line :: lines).flatMap (· ++ crlf) ++ block boundary data behind)
      (((line :: lines).foldl parsePartLine { data }).name ≠ []) := by
  refine ⟨_, ?_, Or.inl (pieces_last h hdata _ hlines)⟩
  have hpart : parsePart ((line :: lines).flatMap (· ++ crlf) ++ (crlf ++ (data ++ crlf))) =
      (line :: lines).foldl parsePartLine { data } := by
    have hwritten := parsePart_written (cons_ne_nil line lines) hread (data ++ crlf)
    rw [trimBreak_append_crlf, text_crlf_crlf] at hwritten
    rw [← hwritten, ← intercalate_append_crlf]
    simp
  unfold received
  rw [hpart]
  split
  · rename_i hname
    rw [Option.map_some, foldl_parsePartLine_data]
    exact iff_of_true rfl hname
  · rename_i hname
    exact iff_of_false (by simp) hname

/-- A header that begins with an empty line gives no name, or shorter data. -/
theorem gives_blank : Gives boundary data behind (block boundary data behind) False := by
  refine ⟨_, ?_, Or.inl (pieces_last h hdata [] (by simp))⟩
  rw [iff_false, flatMap_nil, nil_append]
  unfold received
  split
  case isFalse => simp
  case isTrue hname =>
    intro hsame
    rw [Option.map_some, Option.some.injEq] at hsame
    unfold parsePart at hname hsame
    cases hend : find (text "\r\n\r\n") (crlf ++ (data ++ crlf)) with
    | none =>
      rw [hend] at hname
      exact hname rfl
    | some headerEnd =>
      have hinside := find_add_length_le hend
      have hshort := (trimBreak_shortens ((crlf ++ (data ++ crlf)).drop (headerEnd + 4))).length_le
      rw [hend] at hname hsame
      dsimp only at hname hsame
      rw [parsePartLines_eq_foldLines, foldLines_eq_foldl] at hname hsame
      rw [foldl_parsePartLine_data] at hsame
      have hlength := congrArg List.length hsame
      dsimp only at hlength
      rw [hlength] at hshort
      simp only [length_drop, length_append, crlf, length_cons, length_nil,
        length_crlf_crlf] at hshort hinside
      obtain rfl : headerEnd = 0 := by omega
      exact hname rfl

end Piece

theorem name_parsePartLine (part : MultipartPart) (line : Bytes) :
    (parsePartLine part line).name =
      if text "Content-Disposition:" <:+: line then extractHeaderParam line (text "name")
      else part.name := by
  split
  · rename_i hdisposition
    rw [parsePartLine_disposition hdisposition]
  · rename_i hdisposition
    exact (parsePartLine_other hdisposition part).1

theorem name_foldl_quotable {lines : List Bytes} (hquotable : ∀ l ∈ lines, 34 ∉ l)
    (part : MultipartPart) :
    (lines.foldl parsePartLine part).name ≠ [] ↔
      part.name ≠ [] ∧ ∀ l ∈ lines, ¬text "Content-Disposition:" <:+: l := by
  induction lines generalizing part with
  | nil => simp
  | cons l lines ih =>
    rw [forall_mem_cons] at hquotable
    rw [foldl_cons, ih hquotable.2, name_parsePartLine, forall_mem_cons]
    by_cases hdisposition : text "Content-Disposition:" <:+: l
    · simp [hdisposition, extractHeaderParam_of_notMem hquotable.1]
    · simp [hdisposition]

theorem named_iff (line : Bytes) : (parsePartLine { data } line).name ≠ [] ↔ Named line := by
  rw [name_parsePartLine, Named]
  by_cases hdisposition : text "Content-Disposition:" <:+: line <;> simp [hdisposition]

section Part

variable (h : NoBreak boundary) (hdata : ¬delimiterOf boundary <:+: data)
include h

theorem pieces_drop_line (hcr : 13 ∉ rest) (hfree : ¬delimiterOf boundary <:+: rest)
    (hline : 13 ∉ line) (hinside : delimiterOf boundary <:+: line) (more : Bytes) :
    pieces boundary (rest ++ (crlf ++ (line ++ (crlf ++ more)))) =
      pieces boundary (line ++ (crlf ++ more)) := by
  obtain ⟨i, hi⟩ := Option.isSome_iff_exists.mp (find_isSome_iff.mpr hinside)
  have hcount := count_eq_zero_of_not_mem hline
  have hcount' := count_eq_zero_of_not_mem hcr
  have hcrlf : crlf.count 13 = 1 := by decide
  have hbehind := pieces_header (rest ++ crlf)
    (by rw [count_append, count_append, hcount, hcount', hcrlf]; decide) hline hi more
    (by
      rw [append_assoc, find_delimiter_line h hfree, find_append hi, Option.map_some, Nat.add_comm])
  rw [pieces_line hline hi, ← hbehind, append_assoc]

include hdata

/-- From a line without a quote on there is no name, whatever delimiters are in it. -/
theorem gives_quotable (hne : line ≠ []) (hline : Quotable line) :
    Gives boundary data behind (line ++ (crlf ++ block boundary data behind)) False := by
  refine (gives_line (fun _ => False) le_rfl ⟨hne, hline.2.1⟩ (gives_blank h hdata)
    fun rest hsuffix hnil hfree => ?_).congr rfl (by simp)
  have hcr : 13 ∉ rest := fun hmem => hline.2.1 (hsuffix.subset hmem)
  have hunnamed : ¬(parsePartLine { data } rest).name ≠ [] := by
    rw [named_iff, Named, extractHeaderParam_of_notMem fun hmem => hline.1 (hsuffix.subset hmem)]
    simp
  refine (gives_lines h hdata rest [] (by simp [IsLine, hnil, hcr]) (by simpa using hfree)).congr ?_
    (iff_of_false id hunnamed)
  simp

theorem gives_rest (hrest : IsLine rest) (hfree : ¬delimiterOf boundary <:+: rest)
    {line : Option Bytes} (hline : ∀ l ∈ line.toList, l ≠ [] ∧ Quotable l) :
    Gives boundary data behind (rest ++ (crlf ++ (line.toList.flatMap (· ++ crlf) ++
        block boundary data behind)))
      (Named rest ∧ ∀ l ∈ line.toList,
        ¬delimiterOf boundary <:+: l ∧ ¬text "Content-Disposition:" <:+: l) := by
  by_cases hinside : ∃ l ∈ line, delimiterOf boundary <:+: l
  · obtain ⟨l, rfl, hinside⟩ := hinside
    obtain ⟨hne, hquotable⟩ := hline l (by simp)
    refine (gives_quotable h hdata hne hquotable).congr ?_ (iff_of_false ?_ id)
    · simpa using pieces_drop_line h hrest.2 hfree hquotable.2.1 hinside _
    · exact fun hread => (hread.2 l (by simp)).1 hinside
  · have houtside : ∀ l ∈ line.toList, ¬delimiterOf boundary <:+: l :=
      fun l hl hin => hinside ⟨l, by simpa using hl, hin⟩
    refine (gives_lines h hdata rest line.toList ?_ ?_).congr ?_ ?_
    · rw [forall_mem_cons]
      exact ⟨hrest, fun l hl => ⟨(hline l hl).1, (hline l hl).2.2.1⟩⟩
    · rw [forall_mem_cons]
      exact ⟨hfree, houtside⟩
    · rw [flatMap_cons, append_assoc, append_assoc]
    · rw [foldl_cons, name_foldl_quotable (fun l hl => (hline l hl).2.1), named_iff]
      exact and_congr_right' (forall₂_congr fun l hl => and_iff_right (houtside l hl))

end Part

theorem gives_part (h : NoBreak boundary) {p : FormPart} (hvalid : p.Valid boundary)
    (hdata : ¬delimiterOf boundary <:+: p.data) :
    Gives boundary p.data behind (p.content ++ (crlf ++ (delimiterOf boundary ++ behind)))
      (p.Readable boundary) := by
  have hline := isLine_line hvalid.disposition 1
  have hreadable : p.Readable boundary ↔ ∃ rest, (Named rest ∧ ∀ l ∈ p.typeLines,
      ¬delimiterOf boundary <:+: l ∧ ¬text "Content-Disposition:" <:+: l) ∧
        behindDelimiters boundary (p.disposition.line 1).length (p.disposition.line 1) =
          some rest :=
    ⟨fun ⟨_, htype, rest, hnamed, hrest⟩ => ⟨rest, ⟨hnamed, htype⟩, hrest⟩,
      fun ⟨rest, ⟨hnamed, htype⟩, hrest⟩ => ⟨hdata, htype, rest, hnamed, hrest⟩⟩
  rw [p.content_append, flatMap_cons, append_assoc, append_assoc, ← block, hreadable]
  refine gives_line _ le_rfl hline ?_ fun rest hsuffix hnil hfree =>
    gives_rest h hdata ⟨hnil, fun hmem => hline.2 (hsuffix.subset hmem)⟩ hfree hvalid.typeLines
  -- the whole line is gone, and the type line has no name
  have hunnamed : ¬Named [] := by decide
  cases ht : p.typeLines with
  | nil => exact (gives_blank h hdata).congr rfl (iff_of_false (fun hread => hunnamed hread.1) id)
  | cons l ls =>
    obtain ⟨hne, hquotable⟩ := hvalid.typeLines l (by simp [ht])
    obtain rfl : ls = [] := by
      cases hc : p.contentType <;> simp_all [FormPart.typeLines]
    refine (gives_quotable h hdata hne hquotable).congr (by simp) ?_
    exact iff_of_false (fun hread => hunnamed hread.1) id

end Loop

/-! ## The data of the parts that are found -/

theorem parsePart_data_in_content (content : Bytes) : (parsePart content).data <:+: content := by
  unfold parsePart
  split
  · exact nil_infix
  · rw [parsePartLines_eq_foldLines, foldLines_eq_foldl, foldl_parsePartLine_data]
    exact (trimBreak_shortens _).isInfix.trans (drop_suffix ..).isInfix

/-- No part that the loop finds has the delimiter in its data. -/
theorem pieces_data (boundary rest : Bytes) :
    ∀ part ∈ pieces boundary rest, ¬delimiterOf boundary <:+: part.data := by
  induction hn : rest.length using Nat.strong_induction_on generalizing rest with
  | _ n ih =>
    cases hfind : find (delimiterOf boundary) rest with
    | none => simp [pieces_of_find_none hfind]
    | some i =>
      have hcontent : ¬delimiterOf boundary <:+: rest.take i := by
        rw [← find_eq_none_iff]
        exact find_piece (a := 0) hfind (delimiterOf_ne_nil boundary) (by omega)
      rw [pieces_of_find hfind]
      intro part hpart
      rcases mem_append.mp hpart with hhere | hbehind
      · unfold received at hhere
        split at hhere
        · rw [Option.toList_some, mem_singleton] at hhere
          rw [hhere]
          exact fun hinside => hcontent (hinside.trans (parsePart_data_in_content _))
        · simp at hhere
      · unfold next at hbehind
        split at hbehind
        · simp at hbehind
        · exact ih _ (hn ▸ length_behind_lt hfind) _ rfl part hbehind

theorem parse_data (body boundary : Bytes) :
    ∀ part ∈ parse body boundary, ¬delimiterOf boundary <:+: part.data := by
  unfold parse
  split
  · simp
  · dsimp only
    split
    · simp
    · split
      · simp
      · rw [← delimiterOf, parseLoop_eq_pieces (by rw [length_drop]; omega), nil_append]
        exact pieces_data boundary _

/-! ## The law -/

theorem parse_first_line {boundary : Bytes} (hne : boundary ≠ []) (h : NoBreak boundary)
    (hline : 13 ∉ line) (rest : Bytes) :
    parse (delimiterOf boundary ++ (line ++ (crlf ++ rest))) boundary =
      pieces boundary rest := by
  have hbody : delimiterOf boundary ++ (line ++ (crlf ++ rest)) ≠ [] :=
    append_ne_nil_of_left_ne_nil (delimiterOf_ne_nil boundary) _
  have hfirst : find (text "--" ++ boundary) (delimiterOf boundary ++ (line ++ (crlf ++ rest))) =
      some 0 := find_self_append ..
  have hcr : 13 ∉ delimiterOf boundary ++ line := by
    rw [mem_append, not_or]
    exact ⟨(noBreak_delimiterOf h).1, hline⟩
  have hbreak : findFrom crlf (delimiterOf boundary ++ (line ++ (crlf ++ rest))) 0 =
      some (delimiterOf boundary ++ line).length := by
    unfold findFrom
    rw [if_pos (Nat.zero_le _), drop_zero, ← append_assoc, find_crlf hcr]
    rfl
  have hdrop : (delimiterOf boundary ++ (line ++ (crlf ++ rest))).drop
      (delimiterOf boundary ++ line ++ crlf).length = rest := by
    rw [← append_assoc, ← append_assoc, drop_left]
  unfold parse
  rw [if_neg (not_or.mpr ⟨hbody, hne⟩)]
  dsimp only
  rw [hfirst]
  dsimp only
  rw [hbreak]
  dsimp only
  rw [← length_append_crlf, ← delimiterOf, parseLoop_eq_pieces (by rw [length_drop]; omega), hdrop,
    nil_append]

theorem next_behindDelimiter_cons (boundary : Bytes) (p : FormPart) (parts : List FormPart) :
    next boundary (behindDelimiter boundary (p :: parts)) =
      pieces boundary
        (p.content ++ (crlf ++ (delimiterOf boundary ++ behindDelimiter boundary parts))) := by
  simp [next, behindDelimiter, skipBreak, crlf, text]

theorem parse_encode {boundary : Bytes} (hne : boundary ≠ []) (h : NoBreak boundary)
    (parts : List FormPart) :
    parse (encode boundary parts) boundary = next boundary (behindDelimiter boundary parts) := by
  rw [encode_eq]
  cases parts with
  | nil =>
    have hend := parse_first_line hne h (by decide : 13 ∉ text "--") []
    rwa [pieces_of_find_none (find_delimiter_nil boundary)] at hend
  | cons p parts =>
    rw [next_behindDelimiter_cons, ← parse_first_line hne h not_mem_nil]
    simp [behindDelimiter]

/-- The parts that are found are no more than those that were written. They have the same data
when each part was read, and then only. -/
theorem next_behindDelimiter {boundary : Bytes} (h : NoBreak boundary) {parts : List FormPart}
    (hvalid : ∀ p ∈ parts, p.Valid boundary)
    (hdata : ∀ p ∈ parts, ¬delimiterOf boundary <:+: p.data) :
    let found := next boundary (behindDelimiter boundary parts)
    found.length ≤ parts.length ∧
      (found.map MultipartPart.data = parts.map FormPart.data ↔
        ∀ p ∈ parts, p.Readable boundary) := by
  induction parts with
  | nil => simp [next, behindDelimiter, text]
  | cons p parts ih =>
    rw [forall_mem_cons] at hvalid hdata
    obtain ⟨hcount, hsame⟩ := ih hvalid.2 hdata.2
    obtain ⟨part, hread, hfound⟩ := gives_part h hvalid.1 hdata.1
    rw [next_behindDelimiter_cons, forall_mem_cons, ← hsame, ← hread]
    dsimp only
    rcases hfound with hfound | ⟨rfl, hfound⟩
    · rw [hfound]
      cases part with
      | none =>
        refine ⟨by simpa using Nat.le_succ_of_le hcount, ?_⟩
        refine iff_of_false (fun hmap => ?_) (by simp)
        have hlength := congrArg List.length hmap
        simp only [Option.toList_none, nil_append, length_map, length_cons] at hlength
        omega
      | some part => simp [hcount]
    · rw [hfound]
      simp

/-- For every boundary and every list of parts, the parts come back with their data, in order,
exactly when every part is readable. -/
theorem multipart_segmentation_iff {boundary : Bytes} (hne : boundary ≠ []) (h : NoBreak boundary)
    {parts : List FormPart} (hvalid : ∀ p ∈ parts, p.Valid boundary) :
    (parse (encode boundary parts) boundary).map MultipartPart.data = parts.map FormPart.data ↔
      ∀ p ∈ parts, p.Readable boundary := by
  have hlaw : (∀ p ∈ parts, ¬delimiterOf boundary <:+: p.data) → _ :=
    fun hdata => (next_behindDelimiter h hvalid hdata).2
  rw [← parse_encode hne h] at hlaw
  constructor
  · intro hsame
    refine (hlaw fun p hp => ?_).mp hsame
    have hmem : p.data ∈ (parse (encode boundary parts) boundary).map MultipartPart.data := by
      rw [hsame]
      exact mem_map_of_mem hp
    obtain ⟨part, hpart, hdata⟩ := mem_map.mp hmem
    rw [← hdata]
    exact parse_data _ _ part hpart
  · exact fun hreadable => (hlaw fun p hp => (hreadable p hp).data).mpr hreadable

/-- Three parts: line breaks, dashes and the first letters of the delimiter are data as any other.
The name of the last part has the delimiter in it, and a name that is found behind it. -/
def upload : List FormPart :=
  [{ name := text "note", data := text "a\r\n--\r\n-b" },
    { name := text "f", filename := some (text "x.bin"), contentType := some (text "image/png"),
      data := text "\r\n--bounc" },
    { name := text "--boundContent-Disposition: name=", filename := some (text "g"), data := [] }]

theorem multipart_segmentation_iff_upload :
    (∀ p ∈ upload, p.Valid (text "bound") ∧ p.Readable (text "bound")) ∧
      (parse (encode (text "bound") upload) (text "bound")).map MultipartPart.data =
        upload.map FormPart.data := by
  have hvalid : ∀ p ∈ upload, p.Valid (text "bound") := by
    intro p hp
    simp only [upload, mem_cons, not_mem_nil, or_false] at hp
    rcases hp with rfl | rfl | rfl
    · exact ⟨by decide, by decide, by simp, by simp, by decide, by decide⟩
    · exact ⟨by decide, by decide, by simp; decide, by simp; decide, by decide, by decide⟩
    · exact ⟨by decide, by decide, by simp; decide, by simp, by decide, by decide⟩
  have hreadable : ∀ p ∈ upload, p.Readable (text "bound") := by
    intro p hp
    simp only [upload, mem_cons, not_mem_nil, or_false] at hp
    rcases hp with rfl | rfl | rfl
    · exact ⟨by decide, by decide, text "Content-Disposition: form-data; name=\"note\"",
        by decide +kernel, by decide +kernel⟩
    · exact ⟨by decide, by decide,
        text "Content-Disposition: form-data; name=\"f\"; filename=\"x.bin\"",
        by decide +kernel, by decide +kernel⟩
    · exact ⟨by decide, by decide, text "Content-Disposition: name=\"; filename=\"g\"",
        by decide +kernel, by decide +kernel⟩
  exact ⟨fun p hp => ⟨hvalid p hp, hreadable p hp⟩,
    (multipart_segmentation_iff (by decide) (by decide) hvalid).mpr hreadable⟩

/-- A part whose data has the delimiter in the middle of a line, and one with it in its name. -/
def midLine : FormPart := { name := text "f", data := text "x--by" }

def midName : FormPart := { name := text "a--by", data := text "x" }

/-- The delimiter ends the part there: the rest of the data is lost, or all of the part. -/
theorem data_is_cut_at_a_delimiter_in_a_line :
    (midLine.Valid (text "b") ∧
      (parse (encode (text "b") [midLine]) (text "b")).map MultipartPart.data = [text "x"] ∧
      midLine.data = text "x--by") ∧
    midName.Valid (text "b") ∧ parse (encode (text "b") [midName]) (text "b") = [] := by
  refine ⟨⟨?_, by decide, rfl⟩, ?_, by decide⟩
  · exact ⟨by decide, by decide, by simp [midLine], by simp [midLine], by decide, by decide⟩
  · exact ⟨by decide, by decide, by simp [midName], by simp [midName], by decide, by decide⟩

end mymuduo.multipart
