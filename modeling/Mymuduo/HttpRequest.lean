-- `HttpRequest` (src/http/HttpRequest.h): the request line with its query, the
-- header lines, and what the server asks a parsed request.
import Mathlib.Data.List.AList
import Mathlib.Data.List.DropRight
import Mymuduo.Lines

open List bytes words

namespace mymuduo.http_request

inductive HttpMethod
  | GET
  | POST
  | PUT
  | DELETE
  | HEAD
  | UNKNOWN
  deriving DecidableEq, Repr

inductive HttpVersion
  | HTTP_10
  | HTTP_11
  | UNKNOWN
  deriving DecidableEq, Repr

/-- A `std::unordered_map<std::string, std::string>`. -/
abbrev StringMap := AList (fun _ : Bytes => Bytes)

-- the instance for `AList` rewrites along an equality of propositions and does not evaluate
instance : DecidableEq StringMap :=
  fun s t => decidable_of_iff (s.entries = t.entries) AList.ext_iff.symm

/-- The weak pointer to the connection is left out: no parser reads it. -/
structure HttpRequest where
  method : HttpMethod := .UNKNOWN
  version : HttpVersion := .UNKNOWN
  path : Bytes := []
  query : Bytes := []
  headers : StringMap := ∅
  params : StringMap := ∅
  body : Bytes := []
  deriving DecidableEq

def stringToMethod (s : Bytes) : HttpMethod :=
  if s = text "GET" then .GET
  else if s = text "POST" then .POST
  else if s = text "PUT" then .PUT
  else if s = text "DELETE" then .DELETE
  else if s = text "HEAD" then .HEAD
  else .UNKNOWN

def stringToVersion (s : Bytes) : HttpVersion :=
  if s = text "HTTP/1.0" then .HTTP_10
  else if s = text "HTTP/1.1" then .HTTP_11
  else .UNKNOWN

/-- `key: value`, with the key in lower case. A value of only spaces stays as it
is, and a line without a colon changes nothing. -/
def insertHeaderLine (headers : StringMap) (line : Bytes) : StringMap :=
  match find (text ":") line with
  | none => headers
  | some colon =>
    let value := line.drop (colon + 1)
    let value := if value.all (· = 32) then value else value.dropWhile (· = 32)
    headers.insert (lower (line.take colon)) value

/-- `s.substr(from, count)`, for a `from` inside `s` -/
def substr (s : Bytes) (start count : Nat) : Bytes := (s.drop start).take count

theorem substr_append (before piece rest : Bytes) :
    substr (before ++ (piece ++ rest)) before.length piece.length = piece := by
  rw [substr, drop_left, take_left]

/-- The loop of `parseQuery`. An `&` before the `=` makes the length of the value
wrap, so that the value is the whole rest. -/
def parseQueryFrom (q : Bytes) : Nat → Nat → StringMap → StringMap
  | 0, _, params => params
  | fuel + 1, start, params =>
    if start < q.length then
      match findFrom (text "=") q start with
      | none => params
      | some eq =>
        let key := substr q start (eq - start)
        match findFrom (text "&") q start with
        | none => params.insert key (q.drop (eq + 1))
        | some amp =>
          let value := substr q (eq + 1) (sub64 (sub64 amp eq) 1)
          parseQueryFrom q fuel (amp + 1) (params.insert key value)
    else params

/-- Each round of the loop moves `start`, so the length of `q` is fuel enough. -/
def parseQuery (q : Bytes) (params : StringMap) : StringMap :=
  parseQueryFrom q (q.length + 1) 0 params

namespace HttpRequest

/-- `METHOD SP path[?query] SP version`. `none` is `false`. -/
def parseRequestLine (r : HttpRequest) (line : Bytes) : Option HttpRequest := do
  let methodEnd ← find (text " ") line
  let method := stringToMethod (line.take methodEnd)
  let pathStart := methodEnd + 1
  let pathEnd ← findFrom (text " ") line pathStart
  let fullPath := substr line pathStart (pathEnd - pathStart)
  let version := stringToVersion (line.drop (pathEnd + 1))
  match find (text "?") fullPath with
  | some queryPos =>
    let query := fullPath.drop (queryPos + 1)
    return { r with
      method, version, path := fullPath.take queryPos, query
      params := parseQuery query r.params }
  | none => return { r with method, version, path := fullPath }

def parseHeader (r : HttpRequest) (line : Bytes) : HttpRequest :=
  { r with headers := insertHeaderLine r.headers line }

def getHeader (r : HttpRequest) (key : Bytes) : Bytes := (r.headers.lookup (lower key)).getD []

def keepAlive (r : HttpRequest) : Bool :=
  if r.version = .HTTP_10 then r.getHeader (text "connection") = text "keep-alive"
  else r.getHeader (text "connection") ≠ text "close"

def contentLength (r : HttpRequest) : Nat :=
  let len := r.getHeader (text "content-length")
  if len = [] then 0 else (stoul len).getD 0

end HttpRequest

/-! ## Written header lines -/

/-- `key: value`, as both ends write it. -/
def headerLine (field : Bytes × Bytes) : Bytes := field.1 ++ text ": " ++ field.2

/-- A field that fills exactly one line, with its key up to the first colon. -/
def FieldText (field : Bytes × Bytes) : Prop :=
  NoBreak field.1 ∧ NoBreak field.2 ∧ 58 ∉ field.1

instance (field : Bytes × Bytes) : Decidable (FieldText field) :=
  inferInstanceAs (Decidable (NoBreak field.1 ∧ NoBreak field.2 ∧ 58 ∉ field.1))

/-- The first line of a message and its fields, up to the blank line. -/
def head (line : Bytes) (fields : List (Bytes × Bytes)) : Bytes :=
  crlf.intercalate (line :: fields.map headerLine)

/-- A message with its first line, its fields and its body. -/
def message (line : Bytes) (fields : List (Bytes × Bytes)) (body : Bytes) : Bytes :=
  head line fields ++ (text "\r\n\r\n" ++ body)

/-- The value that the parser keeps of a written one. -/
def keptValue (value : Bytes) : Bytes :=
  if (32 :: value).all (· = 32) then 32 :: value else (32 :: value).dropWhile (· = 32)

def insertField (headers : StringMap) (field : Bytes × Bytes) : StringMap :=
  headers.insert (lower field.1) (keptValue field.2)

theorem fieldText_mk {key value : Bytes} (hkey : NoBreak key ∧ 58 ∉ key) (hvalue : NoBreak value) :
    FieldText (key, value) := ⟨hkey.1, hvalue, hkey.2⟩

variable {field : Bytes × Bytes}

theorem isLine_headerLine (h : FieldText field) : IsLine (headerLine field) := by
  obtain ⟨⟨hkey, -⟩, ⟨hvalue, -⟩, -⟩ := h
  unfold headerLine
  refine ⟨by simp [text], ?_⟩
  simp only [mem_append, not_or]
  exact ⟨⟨hkey, by decide⟩, hvalue⟩

theorem isLine_words {a b c : Bytes} (ha : 13 ∉ a) (hb : 13 ∉ b) (hc : 13 ∉ c) :
    IsLine (a ++ text " " ++ b ++ text " " ++ c) := by
  refine ⟨by simp [text], ?_⟩
  simp only [mem_append, not_or]
  exact ⟨⟨⟨⟨ha, by decide⟩, hb⟩, by decide⟩, hc⟩

theorem isLine_of_fields {fields : List (Bytes × Bytes)} (h : ∀ field ∈ fields, FieldText field) :
    ∀ l ∈ fields.map headerLine, IsLine l :=
  forall_mem_map.mpr (fun field hfield => isLine_headerLine (h field hfield))

theorem intercalate_headerLines (line : Bytes) (field : Bytes × Bytes)
    (fields : List (Bytes × Bytes)) :
    crlf.intercalate (line :: (field :: fields).map headerLine) =
      line ++ (crlf ++ crlf.intercalate ((field :: fields).map headerLine)) := by
  rw [intercalate_cons_of_ne_nil (by simp), append_assoc]

theorem message_eq_flatMap (line : Bytes) (fields : List (Bytes × Bytes)) (body : Bytes) :
    message line fields body =
      line ++ crlf ++ fields.flatMap (fun field => headerLine field ++ crlf) ++ crlf ++ body := by
  unfold message head
  rw [text_crlf_crlf, append_assoc crlf, ← append_assoc, intercalate_append_crlf,
    flatMap_cons, flatMap_map]
  simp only [append_assoc]

variable {fields : List (Bytes × Bytes)}

theorem message_parts {line : Bytes} (hline : IsLine line)
    (hfields : ∀ field ∈ fields, FieldText field) (body : Bytes) :
    find (text "\r\n\r\n") (message line fields body) = some (head line fields).length ∧
      (message line fields body).take (head line fields).length = head line fields ∧
      (message line fields body).drop ((head line fields).length + 4) = body ∧
      (message line fields body).length = (head line fields).length + 4 + body.length := by
  have hlines : ∀ l ∈ line :: fields.map headerLine, IsLine l :=
    forall_mem_cons.mpr ⟨hline, isLine_of_fields hfields⟩
  unfold message
  refine ⟨find_blank_line (by simp) hlines body, take_left .., ?_, ?_⟩
  · rw [← append_assoc, ← length_crlf_crlf, ← length_append, drop_left]
  · rw [length_append, length_append, length_crlf_crlf]
    omega

theorem keptValue_of_head {c : UInt8} (h : c ≠ 32) (value : Bytes) :
    keptValue (c :: value) = c :: value := by
  simp [keptValue, h]

theorem keptValue_decimal (n : Nat) : keptValue (decimal n) = decimal n := by
  obtain ⟨c, t, hc⟩ := exists_cons_of_ne_nil (decimal_ne_nil n)
  have hdigit : isDigit c = true := isDigit_of_mem_decimal (n := n) (by rw [hc]; simp)
  rw [hc]
  refine keptValue_of_head ?_ t
  rintro rfl
  revert hdigit
  decide

theorem dropWhile_keptValue (value : Bytes) :
    (keptValue value).dropWhile (· = 32) = value.dropWhile (· = 32) := by
  unfold keptValue
  split
  · rfl
  · rw [dropWhile_idempotent]
    rfl

theorem headerLine_eq (field : Bytes × Bytes) :
    headerLine field = field.1 ++ (58 :: 32 :: field.2) := by
  unfold headerLine
  rw [append_assoc]
  rfl

theorem find_headerLine (h : 58 ∉ field.1) :
    find (text ":") (headerLine field) = some field.1.length := by
  rw [headerLine_eq]
  exact find_behind h [] (32 :: field.2)

variable (headers : StringMap)

theorem insertHeaderLine_headerLine (h : 58 ∉ field.1) :
    insertHeaderLine headers (headerLine field) = insertField headers field := by
  unfold insertHeaderLine insertField
  rw [find_headerLine h, headerLine_eq]
  dsimp only
  rw [take_left, drop_append, drop_eq_nil_of_le (by omega)]
  simp [keptValue]

theorem foldl_insertHeaderLine (h : ∀ field ∈ fields, 58 ∉ field.1) :
    (fields.map headerLine).foldl insertHeaderLine headers = fields.foldl insertField headers := by
  rw [foldl_map]
  exact foldl_ext _ _ _ fun headers field hf => insertHeaderLine_headerLine headers (h field hf)

theorem lookup_insertFields_last (fields : List (Bytes × Bytes)) (key : Bytes) :
    (fields.foldl insertField headers).lookup key =
      match (fields.filter (fun field => lower field.1 = key)).getLast? with
      | some field => some (keptValue field.2)
      | none => headers.lookup key := by
  induction fields using reverseRecOn with
  | nil => rfl
  | append_singleton fields field ih =>
    rw [foldl_append, foldl_cons, foldl_nil, insertField, filter_append]
    by_cases hkey : lower field.1 = key
    · rw [← hkey, AList.lookup_insert]
      simp
    · rw [AList.lookup_insert_ne (Ne.symm hkey), ih]
      simp [hkey]

theorem lookup_insertFields_of_absent {key : Bytes} (h : ∀ field ∈ fields, lower field.1 ≠ key) :
    (fields.foldl insertField headers).lookup key = headers.lookup key := by
  have hnone : fields.filter (fun field => lower field.1 = key) = [] := by simpa using h
  rw [lookup_insertFields_last, hnone]
  rfl

theorem lookup_insertFields {key value : Bytes} (hsome : ∃ field ∈ fields, lower field.1 = key)
    (hsame : ∀ field ∈ fields, lower field.1 = key → field.2 = value) :
    (fields.foldl insertField headers).lookup key = some (keptValue value) := by
  obtain ⟨field, hmem, hkey⟩ := hsome
  rw [lookup_insertFields_last]
  cases hlast : (fields.filter (fun field => lower field.1 = key)).getLast? with
  | none =>
    have hno := filter_eq_nil_iff.mp (getLast?_eq_none_iff.mp hlast) field hmem
    exact absurd hkey (by simpa using hno)
  | some last =>
    obtain ⟨hin, hlast⟩ := mem_filter.mp (mem_of_getLast? hlast)
    rw [← hsame last hin (by simpa using hlast)]

theorem first_line_words {a b : Bytes} (c : Bytes) (ha : 32 ∉ a) (hb : 32 ∉ b) :
    find (text " ") (a ++ text " " ++ b ++ text " " ++ c) = some a.length ∧
      findFrom (text " ") (a ++ text " " ++ b ++ text " " ++ c) (a.length + 1) =
        some (b.length + (a.length + 1)) ∧
      (a ++ text " " ++ b ++ text " " ++ c).take a.length = a ∧
      substr (a ++ text " " ++ b ++ text " " ++ c) (a.length + 1) b.length = b ∧
      (a ++ text " " ++ b ++ text " " ++ c).drop (b.length + (a.length + 1) + 1) = c := by
  have hspace : text " " = [32] := rfl
  have hsecond : a.length + 1 = (a ++ [32]).length := by simp
  have hthird : b.length + (a.length + 1) + 1 = (a ++ [32] ++ b ++ [32]).length := by
    simp only [length_append, length_cons, length_nil]
    omega
  rw [hspace]
  refine ⟨?_, ?_, ?_, ?_, ?_⟩
  · simp only [append_assoc]
    exact find_behind ha [] _
  · rw [hsecond, append_assoc, append_assoc (a ++ [32]), findFrom_append,
      find_behind hb [] c, Option.map_some]
  · simp only [append_assoc, take_left]
  · rw [hsecond, append_assoc, append_assoc (a ++ [32]), substr_append]
  · rw [hthird, drop_left]

namespace HttpRequest

variable (r : HttpRequest)

theorem foldl_parseHeader (lines : List Bytes) :
    lines.foldl parseHeader r = { r with headers := lines.foldl insertHeaderLine r.headers } := by
  induction lines generalizing r with
  | nil => rfl
  | cons line lines ih =>
    rw [foldl_cons, ih]
    rfl

theorem parseRequestLine_keeps {r parsed : HttpRequest} {line : Bytes}
    (h : r.parseRequestLine line = some parsed) :
    parsed.headers = r.headers ∧ parsed.body = r.body := by
  unfold parseRequestLine at h
  simp only [Option.bind_eq_bind, Option.bind_eq_some_iff] at h
  obtain ⟨methodEnd, -, pathEnd, -, h⟩ := h
  split at h <;> cases h <;> exact ⟨rfl, rfl⟩

theorem parseRequestLine_written {method path : Bytes} (version : Bytes)
    (hmethod : 32 ∉ method) (hpath : 32 ∉ path) (hquery : 63 ∉ path) :
    r.parseRequestLine (method ++ text " " ++ path ++ text " " ++ version) =
      some { r with
        method := stringToMethod method
        version := stringToVersion version
        path } := by
  obtain ⟨hfirst, hsecond, hmethod', hpath', hversion⟩ := first_line_words version hmethod hpath
  have hnoQuery : find (text "?") path = none := find_eq_none_of_notMem hquery []
  unfold parseRequestLine
  rw [hfirst]
  simp only [Option.bind_eq_bind, Option.bind_some, hsecond, Nat.add_sub_cancel, hpath', hversion,
    hnoQuery, hmethod']
  rfl

theorem parseRequestLine_query {method path query : Bytes} (version : Bytes)
    (hmethod : 32 ∉ method) (hpath : 32 ∉ path) (hquery : 32 ∉ query) (hmark : 63 ∉ path) :
    r.parseRequestLine (method ++ text " " ++ (path ++ text "?" ++ query) ++ text " " ++ version) =
      some { r with
        method := stringToMethod method
        version := stringToVersion version
        path, query
        params := parseQuery query r.params } := by
  have htarget : 32 ∉ path ++ text "?" ++ query := by
    simp only [mem_append, not_or]
    exact ⟨⟨hpath, by decide⟩, hquery⟩
  obtain ⟨hfirst, hsecond, hmethod', hpath', hversion⟩ := first_line_words version hmethod htarget
  have hfind : find (text "?") (path ++ text "?" ++ query) = some path.length := by
    rw [append_assoc]
    exact find_behind hmark [] query
  have hdrop : (path ++ text "?" ++ query).drop (path.length + 1) = query := by
    rw [show path.length + 1 = (path ++ text "?").length by simp [text], drop_left]
  unfold parseRequestLine
  rw [hfirst]
  simp only [Option.bind_eq_bind, Option.bind_some, hsecond, Nat.add_sub_cancel, hpath', hversion,
    hfind, hdrop, hmethod']
  rw [append_assoc, take_left]
  rfl

theorem parseRequestLine_words {method path : Bytes} (version : Bytes)
    (hmethod : 32 ∉ method) (hpath : 32 ∉ path) :
    ∃ parsed,
      r.parseRequestLine (method ++ text " " ++ path ++ text " " ++ version) = some parsed := by
  obtain ⟨hfirst, hsecond, hmethod', hpath', hversion⟩ := first_line_words version hmethod hpath
  unfold parseRequestLine
  rw [hfirst]
  simp only [Option.bind_eq_bind, Option.bind_some, hsecond]
  split <;> exact ⟨_, rfl⟩

end HttpRequest

end mymuduo.http_request
