-- The multipart parser (src/http/MultipartParser.h): the loop over the delimiters, the
-- header lines of a part, and the quoted parameters of `Content-Disposition`. A parameter
-- is found by a plain search for its key, and `name` is the end of `filename`.
import Mymuduo.HttpRequest

open List bytes

namespace mymuduo.multipart

open http_request (substr substr_append)

structure MultipartPart where
  name : Bytes := []
  filename : Bytes := []
  contentType : Bytes := []
  data : Bytes := []
  deriving DecidableEq

namespace MultipartParser

def extractHeaderParam (line param : Bytes) : Bytes :=
  let key := param ++ text "=\""
  match find key line with
  | none => []
  | some pos =>
    let pos := pos + key.length
    match findFrom (text "\"") line pos with
    | none => []
    | some last => substr line pos (last - pos)

/-- One header line. A type of only spaces is not stored. -/
def parsePartLine (part : MultipartPart) (line : Bytes) : MultipartPart :=
  if (find (text "Content-Disposition:") line).isSome then
    { part with
      name := extractHeaderParam line (text "name")
      filename := extractHeaderParam line (text "filename") }
  else if (find (text "Content-Type:") line).isSome then
    match find (text ":") line with
    | none => part
    | some colonPos =>
      let value := line.drop (colonPos + 1)
      if value.all (· = 32) then part else { part with contentType := value.dropWhile (· = 32) }
  else part

/-- The loop over the header lines. Each round moves `pos`, so the length of the headers is
fuel enough. -/
def parsePartLines (headers : Bytes) : Nat → Nat → MultipartPart → MultipartPart
  | 0, _, part => part
  | fuel + 1, pos, part =>
    if pos < headers.length then
      match findFrom crlf headers pos with
      | none => parsePartLine part (headers.drop pos)
      | some lineEnd =>
        parsePartLines headers fuel (lineEnd + 2)
          (parsePartLine part (substr headers pos (lineEnd - pos)))
    else part

/-- The line break before the delimiter does not belong to the data. -/
def trimBreak (data : Bytes) : Bytes :=
  if 2 ≤ data.length ∧ data.drop (data.length - 2) = crlf then data.take (data.length - 2) else data

def parsePart (partContent : Bytes) : MultipartPart :=
  match find (text "\r\n\r\n") partContent with
  | none => {}
  | some headerEnd =>
    let headers := substr partContent 0 headerEnd
    let data := partContent.drop (headerEnd + 4)
    parsePartLines headers (headers.length + 1) 0 { data := trimBreak data }

/-- The loop over the delimiters. Each round moves `pos` by a delimiter or more. -/
def parseLoop (body delimiter : Bytes) : Nat → Nat → List MultipartPart → List MultipartPart
  | 0, _, parts => parts
  | fuel + 1, pos, parts =>
    if pos < body.length then
      match findFrom delimiter body pos with
      | none => parts
      | some nextDelim =>
        let part := parsePart (substr body pos (nextDelim - pos))
        let parts := if part.name ≠ [] then parts ++ [part] else parts
        let pos := nextDelim + delimiter.length
        if pos + 2 ≤ body.length ∧ substr body pos 2 = text "--" then parts
        else
          let pos := if pos + 2 ≤ body.length ∧ substr body pos 2 = crlf then pos + 2 else pos
          parseLoop body delimiter fuel pos parts
    else parts

def parse (body boundary : Bytes) : List MultipartPart :=
  if body = [] ∨ boundary = [] then []
  else
    let delimiter := text "--" ++ boundary
    match find delimiter body with
    | none => []
    | some pos =>
      match findFrom crlf body pos with
      | none => []
      | some pos => parseLoop body delimiter (body.length + 1) (pos + 2) []

/-! ## Quoted parameters -/

section Param

variable {param : Bytes}

theorem key_eq (param : Bytes) : param ++ text "=\"" = (param ++ text "=") ++ [34] := by
  rw [append_assoc]
  rfl

theorem extractHeaderParam_of_notMem {line : Bytes} (h : 34 ∉ line) :
    extractHeaderParam line param = [] := by
  have hnone : find (param ++ text "=\"") line = none := by
    rw [find_eq_none_iff]
    intro hinside
    exact h (hinside.subset (by simp [text]))
  unfold extractHeaderParam
  dsimp only
  rw [hnone]

/-- The key ends in the first quote: the value is what stands before the next one. -/
theorem extractHeaderParam_closed {front : Bytes} (hfront : 34 ∉ front)
    (hkey : param ++ text "=" <:+ front) (rest : Bytes) :
    extractHeaderParam (front ++ 34 :: rest) param = (find (text "\"") rest).elim [] rest.take := by
  have hlength := hkey.length_le
  have hpos : front.length - (param ++ text "=").length + ((param ++ text "=") ++ [34]).length =
      (front ++ [34]).length := by
    simp only [length_append, length_singleton] at hlength ⊢
    omega
  have hsplit : front ++ 34 :: rest = front ++ [34] ++ rest := by simp
  unfold extractHeaderParam
  dsimp only
  rw [key_eq, find_closed hfront hkey]
  dsimp only
  rw [hpos, hsplit, findFrom_append]
  cases find (text "\"") rest with
  | none => rfl
  | some n => simp [substr]

theorem extractHeaderParam_quoted {front value : Bytes} (hfront : 34 ∉ front)
    (hkey : param ++ text "=" <:+ front) (hvalue : 34 ∉ value) (rest : Bytes) :
    extractHeaderParam (front ++ 34 :: (value ++ 34 :: rest)) param = value := by
  have hquote : find (text "\"") (value ++ 34 :: rest) = some value.length :=
    find_behind hvalue [] rest
  rw [extractHeaderParam_closed hfront hkey, hquote]
  exact take_left

theorem extractHeaderParam_unclosed {front rest : Bytes} (hfront : 34 ∉ front)
    (hkey : param ++ text "=" <:+ front) (hrest : 34 ∉ rest) :
    extractHeaderParam (front ++ 34 :: rest) param = [] := by
  have hquote : find (text "\"") rest = none := find_eq_none_of_notMem hrest []
  rw [extractHeaderParam_closed hfront hkey, hquote]
  rfl

/-- The key does not end in the first quote: the search goes on behind it. -/
theorem extractHeaderParam_behind (hparam : 34 ∉ param) {front : Bytes} (hfront : 34 ∉ front)
    (hkey : ¬param ++ text "=" <:+ front) (rest : Bytes) :
    extractHeaderParam (front ++ 34 :: rest) param = extractHeaderParam rest param := by
  have hneedle : 34 ∉ param ++ text "=" := by
    rw [mem_append, not_or]
    exact ⟨hparam, by decide⟩
  have hsplit : front ++ 34 :: rest = front ++ [34] ++ rest := by simp
  have hfind := find_closed_behind hneedle hfront hkey rest
  rw [← key_eq] at hfind
  unfold extractHeaderParam
  dsimp only
  rw [hfind]
  cases hrest : find (param ++ text "=\"") rest with
  | none => rfl
  | some pos =>
    have hinside := find_add_length_le hrest
    have hmove : pos + (front.length + 1) + (param ++ text "=\"").length =
        (pos + (param ++ text "=\"").length) + (front ++ [34]).length := by
      simp only [length_append, length_singleton]
      omega
    have hdrop : (front ++ [34] ++ rest).drop
        (pos + (param ++ text "=\"").length + (front ++ [34]).length) =
          rest.drop (pos + (param ++ text "=\"").length) := by
      rw [Nat.add_comm, ← drop_drop, drop_left]
    have hbound : pos + (param ++ text "=\"").length + (front ++ [34]).length ≤
        (front ++ [34] ++ rest).length := by
      have hlength : (front ++ [34] ++ rest).length = (front ++ [34]).length + rest.length :=
        length_append
      omega
    dsimp only [Option.map_some]
    rw [hmove, hsplit]
    unfold findFrom
    rw [if_pos hbound, if_pos hinside, hdrop]
    cases find (text "\"") (rest.drop (pos + (param ++ text "=\"").length)) with
    | none => rfl
    | some last =>
      dsimp only [Option.map_some]
      unfold substr
      rw [hdrop, Nat.add_sub_cancel, Nat.add_sub_cancel]

end Param

/-! ## The header lines -/

theorem parsePartLine_nil (part : MultipartPart) : parsePartLine part [] = part := by
  have hdisposition : find (text "Content-Disposition:") [] = none := by decide
  have htype : find (text "Content-Type:") [] = none := by decide
  simp [parsePartLine, hdisposition, htype]

/-- An empty line changes nothing, so the loop is the one that skips it. -/
theorem parsePartLines_eq_foldLines (headers : Bytes) (fuel pos : Nat) (part : MultipartPart) :
    parsePartLines headers fuel pos part = foldLines parsePartLine headers fuel pos part := by
  induction fuel generalizing pos part with
  | zero => rfl
  | succ fuel ih =>
    rw [parsePartLines, foldLines]
    split
    · cases findFrom crlf headers pos with
      | none =>
        have hline : headers.drop pos ≠ [] := by
          rw [ne_eq, drop_eq_nil_iff]
          omega
        dsimp only [Option.getD_none]
        rw [take_of_length_le (by rw [length_drop]), if_neg hline, foldLines_past _ (by omega)]
      | some lineEnd =>
        dsimp only [Option.getD_some]
        rw [ih]
        congr 1
        split
        · rename_i hnil
          rw [substr, hnil, parsePartLine_nil]
        · rfl
    · rfl

theorem parsePart_written {lines : List Bytes} (hne : lines ≠ []) (hlines : ∀ l ∈ lines, IsLine l)
    (data : Bytes) :
    parsePart (crlf.intercalate lines ++ (text "\r\n\r\n" ++ data)) =
      lines.foldl parsePartLine { data := trimBreak data } := by
  have hfuel : lines.length ≤ (crlf.intercalate lines).length + 1 := by
    have := length_le_length_intercalate hlines
    omega
  have hdrop : (crlf.intercalate lines ++ (text "\r\n\r\n" ++ data)).drop
      ((crlf.intercalate lines).length + 4) = data := by
    rw [← append_assoc, ← length_crlf_crlf, ← length_append, drop_left]
  have hloop := foldLines_intercalate parsePartLine [] hlines hfuel { data := trimBreak data }
  unfold parsePart
  rw [find_blank_line hne hlines]
  dsimp only
  rw [hdrop, substr, drop_zero, take_left, parsePartLines_eq_foldLines]
  exact hloop

/-- A line that is no `Content-Disposition` leaves the name, the filename and the data. -/
theorem parsePartLine_other {line : Bytes} (h : ¬text "Content-Disposition:" <:+: line)
    (part : MultipartPart) :
    (parsePartLine part line).name = part.name ∧
      (parsePartLine part line).filename = part.filename := by
  unfold parsePartLine
  rw [if_neg (by rwa [find_isSome_iff])]
  split
  · split
    · exact ⟨rfl, rfl⟩
    · dsimp only
      split <;> exact ⟨rfl, rfl⟩
  · exact ⟨rfl, rfl⟩

theorem foldl_parsePartLine_other {lines : List Bytes}
    (h : ∀ l ∈ lines, ¬text "Content-Disposition:" <:+: l) (part : MultipartPart) :
    (lines.foldl parsePartLine part).name = part.name ∧
      (lines.foldl parsePartLine part).filename = part.filename := by
  induction lines generalizing part with
  | nil => exact ⟨rfl, rfl⟩
  | cons line lines ih =>
    obtain ⟨hname, hfilename⟩ := parsePartLine_other (h line (mem_cons_self ..)) part
    rw [foldl_cons, ← hname, ← hfilename]
    exact ih (fun l hl => h l (mem_cons_of_mem line hl)) _

theorem parsePartLine_disposition {line : Bytes} (h : text "Content-Disposition:" <:+: line)
    (part : MultipartPart) :
    parsePartLine part line =
      { part with
        name := extractHeaderParam line (text "name")
        filename := extractHeaderParam line (text "filename") } := by
  unfold parsePartLine
  rw [if_pos (by rwa [find_isSome_iff])]

theorem parsePartLine_data (part : MultipartPart) (line : Bytes) :
    (parsePartLine part line).data = part.data := by
  unfold parsePartLine
  split
  · rfl
  · split
    · split
      · rfl
      · dsimp only
        split <;> rfl
    · rfl

theorem foldl_parsePartLine_data (lines : List Bytes) (part : MultipartPart) :
    (lines.foldl parsePartLine part).data = part.data := by
  induction lines generalizing part with
  | nil => rfl
  | cons line lines ih => rw [foldl_cons, ih, parsePartLine_data]

end MultipartParser

/-! ## Content-Disposition -/

/-- The parameters of a form field, in the order in which they are written. -/
inductive Disposition
  | nameOnly (n : Bytes)
  | nameFirst (n f : Bytes)
  | filenameFirst (f n : Bytes)
  deriving DecidableEq

namespace Disposition

def name : Disposition → Bytes
  | .nameOnly n => n
  | .nameFirst n _ => n
  | .filenameFirst _ n => n

/-- An absent filename is the empty one. -/
def filename : Disposition → Bytes
  | .nameOnly _ => []
  | .nameFirst _ f => f
  | .filenameFirst f _ => f

/-- The text of a value in quotes: no quote and no line break. -/
def Quotable (value : Bytes) : Prop := 34 ∉ value ∧ NoBreak value

instance (value : Bytes) : Decidable (Quotable value) := inferInstanceAs (Decidable (_ ∧ _))

def Valid (d : Disposition) : Prop := Quotable d.name ∧ Quotable d.filename

instance (d : Disposition) : Decidable d.Valid := inferInstanceAs (Decidable (_ ∧ _))

/-- A semicolon and any number of spaces. -/
def separator (spaces : Nat) : Bytes := 59 :: List.replicate spaces 32

def param (key value : Bytes) : Bytes := key ++ text "=\"" ++ value ++ text "\""

def formData : Bytes := text "Content-Disposition: form-data"

def line (spaces : Nat) : Disposition → Bytes
  | .nameOnly n => formData ++ separator spaces ++ param (text "name") n
  | .nameFirst n f =>
    formData ++ separator spaces ++ param (text "name") n ++
      (separator spaces ++ param (text "filename") f)
  | .filenameFirst f n =>
    formData ++ separator spaces ++ param (text "filename") f ++
      (separator spaces ++ param (text "name") n)

/-- When both values are found: the name is looked for in the filename first, and the filename
is found too early where the name ends in its key. -/
def Found (spaces : Nat) : Disposition → Prop
  | .nameOnly _ => True
  | .nameFirst n f => text "filename=" <:+ n → f = separator spaces ++ text "filename="
  | .filenameFirst f n => n = f

end Disposition

open MultipartParser Disposition

theorem quote_notMem_separator (spaces : Nat) : 34 ∉ separator spaces := by
  simp [separator]

theorem noBreak_separator (spaces : Nat) : NoBreak (separator spaces) := by
  simp [NoBreak, separator]

theorem quote_notMem_front {key : Bytes} (hkey : 34 ∉ key) (spaces : Nat) :
    34 ∉ formData ++ separator spaces ++ key := by
  simp only [mem_append, not_or]
  exact ⟨⟨by decide, quote_notMem_separator spaces⟩, hkey⟩

theorem filename_key_not_suffix (front : Bytes) (spaces : Nat) :
    ¬text "filename" ++ text "=" <:+ front ++ separator spaces ++ text "name=" := by
  rintro ⟨before, hbefore⟩
  have hsplit : text "filename" ++ text "=" = text "file" ++ text "name=" := by decide
  rw [hsplit, ← append_assoc, append_cancel_right_eq] at hbefore
  have hlast := congrArg List.getLast? hbefore
  have he : (before ++ text "file").getLast? = some 101 := by
    rw [getLast?_append]
    rfl
  have hsep : (front ++ separator spaces).getLast? ≠ some 101 := by
    rw [getLast?_append]
    cases spaces with
    | zero => simp [separator]
    | succ n => simp [separator, getLast?_cons, getLast?_replicate]
  rw [he] at hlast
  exact hsep hlast.symm

theorem param_append (front key value rest : Bytes) :
    front ++ param key value ++ rest =
      (front ++ (key ++ text "=")) ++ 34 :: (value ++ 34 :: rest) := by
  simp [param, text]

theorem extract_name_of_nameFirst {n : Bytes} (hn : 34 ∉ n) (spaces : Nat) (rest : Bytes) :
    extractHeaderParam (formData ++ separator spaces ++ param (text "name") n ++ rest)
      (text "name") = n := by
  rw [param_append]
  exact extractHeaderParam_quoted (quote_notMem_front (by decide) spaces) (suffix_append ..) hn rest

theorem extract_filename_of_nameFirst (spaces : Nat) (n rest : Bytes) :
    extractHeaderParam (formData ++ separator spaces ++ param (text "name") n ++ rest)
        (text "filename") =
      extractHeaderParam (n ++ 34 :: rest) (text "filename") := by
  rw [param_append]
  exact extractHeaderParam_behind (by decide) (quote_notMem_front (by decide) spaces)
    (filename_key_not_suffix formData spaces) _

theorem extract_of_filenameFirst {f : Bytes} (hf : 34 ∉ f) (spaces : Nat) (rest : Bytes) :
    extractHeaderParam (formData ++ separator spaces ++ param (text "filename") f ++ rest)
        (text "name") = f ∧
      extractHeaderParam (formData ++ separator spaces ++ param (text "filename") f ++ rest)
        (text "filename") = f := by
  have hkey : text "name" ++ text "=" <:+ text "filename" ++ text "=" := by decide
  rw [param_append]
  refine ⟨extractHeaderParam_quoted (quote_notMem_front (by decide) spaces) ?_ hf rest,
    extractHeaderParam_quoted (quote_notMem_front (by decide) spaces) (suffix_append ..) hf rest⟩
  exact hkey.trans (suffix_append ..)

theorem extract_nameOnly {n : Bytes} (hn : 34 ∉ n) (spaces : Nat) :
    extractHeaderParam (Disposition.line spaces (.nameOnly n)) (text "name") = n ∧
      extractHeaderParam (Disposition.line spaces (.nameOnly n)) (text "filename") = [] := by
  have hline : Disposition.line spaces (.nameOnly n) =
      formData ++ separator spaces ++ param (text "name") n ++ [] := by simp [Disposition.line]
  rw [hline]
  refine ⟨extract_name_of_nameFirst hn spaces [], ?_⟩
  rw [extract_filename_of_nameFirst]
  by_cases hkey : text "filename" ++ text "=" <:+ n
  · exact extractHeaderParam_unclosed hn hkey (by simp)
  · rw [extractHeaderParam_behind (by decide) hn hkey]
    exact extractHeaderParam_of_notMem (by simp)

theorem extract_nameFirst {n f : Bytes} (hn : 34 ∉ n) (hf : 34 ∉ f) (spaces : Nat) :
    extractHeaderParam (Disposition.line spaces (.nameFirst n f)) (text "name") = n ∧
      extractHeaderParam (Disposition.line spaces (.nameFirst n f)) (text "filename") =
        if text "filename=" <:+ n then separator spaces ++ text "filename=" else f := by
  have hfront : 34 ∉ separator spaces ++ (text "filename" ++ text "=") := by
    rw [mem_append, not_or]
    exact ⟨quote_notMem_separator spaces, by decide⟩
  have hparam : separator spaces ++ param (text "filename") f =
      (separator spaces ++ (text "filename" ++ text "=")) ++ 34 :: (f ++ 34 :: []) := by
    have hsplit := param_append (separator spaces) (text "filename") f []
    rwa [append_nil] at hsplit
  refine ⟨extract_name_of_nameFirst hn spaces _, ?_⟩
  rw [Disposition.line, extract_filename_of_nameFirst, hparam]
  split
  · rename_i hkey
    exact extractHeaderParam_quoted hn hkey hfront _
  · rename_i hkey
    rw [extractHeaderParam_behind (by decide) hn hkey]
    exact extractHeaderParam_quoted hfront (suffix_append ..) hf []

theorem disposition_infix_line (d : Disposition) (spaces : Nat) :
    text "Content-Disposition:" <:+: d.line spaces := by
  have hform : text "Content-Disposition:" <+: formData := by decide
  have hline : formData <+: d.line spaces := by
    cases d <;> simp only [Disposition.line, append_assoc] <;> exact prefix_append ..
  exact (hform.trans hline).isInfix

variable {d : Disposition}

theorem extract_line_iff (hd : d.Valid) (spaces : Nat) :
    (extractHeaderParam (d.line spaces) (text "name") = d.name ∧
      extractHeaderParam (d.line spaces) (text "filename") = d.filename) ↔ d.Found spaces := by
  obtain ⟨⟨hn, -⟩, hf, -⟩ := hd
  cases d with
  | nameOnly n => exact iff_of_true (extract_nameOnly hn spaces) trivial
  | nameFirst n f =>
    obtain ⟨hname, hfilename⟩ := extract_nameFirst (n := n) (f := f) hn hf spaces
    rw [hname, hfilename]
    simp only [Disposition.name, Disposition.filename, Disposition.Found, true_and]
    by_cases hkey : text "filename=" <:+ n
    · simp [hkey, eq_comm]
    · simp [hkey]
  | filenameFirst f n =>
    obtain ⟨hname, hfilename⟩ := extract_of_filenameFirst (f := f) hf spaces
      (separator spaces ++ param (text "name") n)
    rw [Disposition.line, hname, hfilename]
    simp [Disposition.name, Disposition.filename, Disposition.Found, eq_comm]

def OtherLine (l : Bytes) : Prop := l ≠ [] ∧ NoBreak l ∧ ¬text "Content-Disposition:" <:+: l

instance (l : Bytes) : Decidable (OtherLine l) := inferInstanceAs (Decidable (_ ∧ _))

theorem noBreak_line (hd : d.Valid) (spaces : Nat) : NoBreak (d.line spaces) := by
  have hform : NoBreak formData := by decide
  have hsep := noBreak_separator spaces
  have hparam : ∀ key value, NoBreak key → NoBreak value → NoBreak (param key value) := by
    intro key value hkey hvalue
    simp only [param, noBreak_append_iff]
    exact ⟨⟨⟨hkey, by decide⟩, hvalue⟩, by decide⟩
  obtain ⟨⟨-, hn⟩, -, hf⟩ := hd
  have hname := hparam (text "name") d.name (by decide) hn
  have hfilename := hparam (text "filename") d.filename (by decide) hf
  cases d with
  | nameOnly n | nameFirst n f | filenameFirst f n =>
    simp only [Disposition.line, noBreak_append_iff]
    tauto

theorem isLine_line (hd : d.Valid) (spaces : Nat) : IsLine (d.line spaces) := by
  refine ⟨?_, (noBreak_line hd spaces).1⟩
  intro hnil
  have hinside := disposition_infix_line d spaces
  rw [hnil, infix_nil] at hinside
  exact absurd hinside (by decide)

theorem parsePart_disposition (hd : d.Valid) (spaces : Nat) {before after : List Bytes}
    (hbefore : ∀ l ∈ before, OtherLine l) (hafter : ∀ l ∈ after, OtherLine l) (data : Bytes) :
    let part := parsePart (crlf.intercalate (before ++ d.line spaces :: after) ++
      (text "\r\n\r\n" ++ data))
    part.name = extractHeaderParam (d.line spaces) (text "name") ∧
      part.filename = extractHeaderParam (d.line spaces) (text "filename") ∧
      part.data = trimBreak data := by
  have hlines : ∀ l ∈ before ++ d.line spaces :: after, IsLine l := by
    intro l hl
    rcases mem_append.mp hl with hl | hl
    · exact ⟨(hbefore l hl).1, (hbefore l hl).2.1.1⟩
    · rcases mem_cons.mp hl with rfl | hl
      · exact isLine_line hd spaces
      · exact ⟨(hafter l hl).1, (hafter l hl).2.1.1⟩
  intro part
  have hpart :
      part = (before ++ d.line spaces :: after).foldl parsePartLine { data := trimBreak data } :=
    parsePart_written (by simp) hlines data
  have hdata : part.data = trimBreak data := by rw [hpart, foldl_parsePartLine_data]
  rw [foldl_append, foldl_cons, parsePartLine_disposition (disposition_infix_line d spaces)]
    at hpart
  obtain ⟨hname, hfilename⟩ := foldl_parsePartLine_other (fun l hl => (hafter l hl).2.2)
    { before.foldl parsePartLine { data := trimBreak data } with
      name := extractHeaderParam (d.line spaces) (text "name")
      filename := extractHeaderParam (d.line spaces) (text "filename") }
  refine ⟨?_, ?_, hdata⟩
  · rw [hpart, hname]
  · rw [hpart, hfilename]

/-- For every line with the parameters in either order, among any other header lines and before
any data, `parsePart` gives the two values exactly under the condition. -/
theorem parameter_extraction_iff {d : Disposition} (hd : d.Valid) (spaces : Nat)
    (before after : List Bytes) (hbefore : ∀ l ∈ before, OtherLine l)
    (hafter : ∀ l ∈ after, OtherLine l) (data : Bytes) :
    let part := parsePart (crlf.intercalate (before ++ d.line spaces :: after) ++
      (text "\r\n\r\n" ++ data))
    (part.name = d.name ∧ part.filename = d.filename) ↔ d.Found spaces := by
  intro part
  obtain ⟨hname, hfilename, -⟩ := parsePart_disposition hd spaces hbefore hafter data
  rw [hname, hfilename]
  exact extract_line_iff hd spaces

/-- A field with a file, and the type of the file in a line of its own. -/
theorem parameter_extraction_iff_upload :
    let part := parsePart (crlf.intercalate
      [Disposition.line 1 (.nameFirst (text "file") (text "a.txt")),
        text "Content-Type: text/plain"] ++
        (text "\r\n\r\n" ++ text "hi\r\n"))
    part.name = text "file" ∧ part.filename = text "a.txt" :=
  (parameter_extraction_iff (d := .nameFirst (text "file") (text "a.txt")) (by decide) 1 []
    [text "Content-Type: text/plain"] (by simp) (by decide) (text "hi\r\n")).mpr
    (fun h => absurd h (by decide))

/-- The filename comes first, and is taken for the name. -/
theorem a_filename_is_taken_for_the_name :
    let part := parsePart (text
      "Content-Disposition: form-data; filename=\"a.txt\"; name=\"file\"\r\n\r\nhi\r\n")
    part.name = text "a.txt" ∧ part.name ≠ text "file" := by
  decide +kernel

end mymuduo.multipart
