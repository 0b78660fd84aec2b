-- How a request says where its body ends. The parser keeps the last Content-Length
-- line, reads it as `std::stoul` does and takes what cannot be read for zero.
import Mymuduo.HttpCore

open bytes

namespace mymuduo.http_core

open http_request

/-! ## The fields of a header section -/

/-- The key and the value of a header line, as the parser keeps them. -/
def fieldOf (line : Bytes) : Option (Bytes × Bytes) :=
  (find (text ":") line).map fun colon =>
    let value := line.drop (colon + 1)
    (lower (line.take colon), if value.all (· = 32) then value else value.dropWhile (· = 32))

theorem insertHeaderLine_eq (headers : StringMap) (line : Bytes) :
    insertHeaderLine headers line =
      match fieldOf line with
      | none => headers
      | some field => headers.insert field.1 field.2 := by
  unfold insertHeaderLine fieldOf
  cases find (text ":") line <;> rfl

def headerLines (header : Bytes) : List Bytes :=
  match find crlf header with
  | none => []
  | some lineEnd => linesFrom header (header.length + 1) (lineEnd + 2)

def valuesOf (key : Bytes) (lines : List Bytes) : List Bytes :=
  ((lines.filterMap fieldOf).filter (fun field => field.1 = key)).map Prod.snd

theorem lookup_headerLines (key : Bytes) (lines : List Bytes) :
    (lines.foldl insertHeaderLine ∅).lookup key = (valuesOf key lines).getLast? := by
  induction lines using List.reverseRecOn with
  | nil => rfl
  | append_singleton lines line ih =>
    rw [List.foldl_append, List.foldl_cons, List.foldl_nil, insertHeaderLine_eq]
    cases hfield : fieldOf line with
    | none =>
      rw [ih]
      simp [valuesOf, hfield]
    | some field =>
      dsimp only
      by_cases hkey : field.1 = key
      · rw [hkey, AList.lookup_insert]
        simp [valuesOf, hfield, hkey]
      · rw [AList.lookup_insert_ne (Ne.symm hkey), ih]
        simp [valuesOf, hfield, hkey]

theorem parseHeader_headers {header : Bytes} {parsed : HttpRequest}
    (h : parseHeader header {} = some parsed) :
    parsed.headers = (headerLines header).foldl insertHeaderLine ∅ := by
  unfold parseHeader at h
  unfold headerLines
  cases hfind : find crlf header with
  | none =>
    rw [hfind] at h
    dsimp only at h ⊢
    split at h
    · cases h
    · exact (HttpRequest.parseRequestLine_keeps h).1
  | some lineEnd =>
    rw [hfind] at h
    dsimp only at h ⊢
    split at h
    · cases h
    · simp only [Option.bind_eq_bind, Option.bind_eq_some_iff] at h
      obtain ⟨first, hfirst, h⟩ := h
      cases h
      unfold parseHeaderLines
      rw [foldLines_eq_foldl, HttpRequest.foldl_parseHeader,
        (HttpRequest.parseRequestLine_keeps hfirst).1]

/-! ## The length of the body -/

/-- The values of the Content-Length lines of a header section. -/
def contentLengths (header : Bytes) : List Bytes :=
  valuesOf (text "content-length") (headerLines header)

/-- The number that the parser takes from the values: the last one decides. -/
def lengthRead (values : List Bytes) : Nat :=
  match values.getLast? with
  | none => 0
  | some value => (stoul value).getD 0

theorem contentLength_eq {header : Bytes} {parsed : HttpRequest}
    (h : parseHeader header {} = some parsed) :
    parsed.contentLength = lengthRead (contentLengths header) := by
  have hkey : lower (text "content-length") = text "content-length" := by decide
  have hempty : (stoul []).getD 0 = 0 := by decide
  unfold HttpRequest.contentLength HttpRequest.getHeader lengthRead contentLengths
  rw [hkey, parseHeader_headers h, lookup_headerLines]
  cases hlast : (valuesOf (text "content-length") (headerLines header)).getLast? with
  | none => simp
  | some value =>
    rw [Option.getD_some]
    dsimp only
    split
    · rename_i hnil
      rw [hnil, hempty]
    · rfl

/-! ## Strict framing -/

/-- All values are one non-empty row of digits for the number `n`, which is within the limit. -/
structure Declares (values : List Bytes) (n : Nat) : Prop where
  present : values ≠ []
  digits : ∃ value, (∀ v ∈ values, v = value) ∧ value ≠ [] ∧ (∀ c ∈ value, isDigit c = true) ∧
    digitsValue value = n
  fits : n ≤ kMaxBodySize

/-- The parser of a buffer whose header section ends at `headerEnd` completes only a request
without a Content-Length or with a good one, whose number of body bytes it takes, and refuses
every Content-Length that is not good. -/
structure Strict (decompress : Bytes → Bytes) (buf : Bytes) (headerEnd : Nat) : Prop where
  completes : ∀ request rest, parseRequest decompress buf = .complete request rest →
    contentLengths (buf.take headerEnd) = [] ∨
    ∃ (n : Nat) (parsed : HttpRequest), Declares (contentLengths (buf.take headerEnd)) n ∧
      headerEnd + 4 + n ≤ buf.length ∧
      request = maybeDecompressRequestBody decompress
        { parsed with body := (buf.drop (headerEnd + 4)).take n } ∧
      rest = (buf.drop (headerEnd + 4)).drop n
  refuses : contentLengths (buf.take headerEnd) ≠ [] →
    (∀ n, ¬ Declares (contentLengths (buf.take headerEnd)) n) → parseRequest decompress buf = .error

theorem Declares.lengthRead {values : List Bytes} {n : Nat} (h : Declares values n) :
    lengthRead values = n := by
  obtain ⟨value, hall, hne, hdigits, rfl⟩ := h.digits
  have hfits := h.fits
  have hlast : values.getLast? = some value := by
    rw [List.getLast?_eq_some_getLast h.present, hall _ (List.getLast_mem h.present)]
  have hlt : digitsValue value < 2 ^ 64 := by
    unfold kMaxBodySize at hfits
    omega
  unfold http_core.lengthRead
  rw [hlast]
  dsimp only
  rw [stoul_of_digits hne hdigits hlt, Option.getD_some]

section
variable (decompress : Bytes → Bytes) {buf : Bytes} {headerEnd : Nat}

theorem completes_of_declares {n : Nat} (hfind : find (text "\r\n\r\n") buf = some headerEnd)
    (hdeclares : Declares (contentLengths (buf.take headerEnd)) n) {request : HttpRequest}
    {rest : Bytes} (h : parseRequest decompress buf = .complete request rest) :
    ∃ parsed : HttpRequest, headerEnd + 4 + n ≤ buf.length ∧
      request = maybeDecompressRequestBody decompress
        { parsed with body := (buf.drop (headerEnd + 4)).take n } ∧
      rest = (buf.drop (headerEnd + 4)).drop n := by
  obtain ⟨end', parsed, hfind', hparse, -, hlen, hrequest, hrest⟩ :=
    (parseRequest_complete_iff decompress buf rest request).mp h
  rw [hfind, Option.some.injEq] at hfind'
  subst hfind'
  have hcontent : parsed.contentLength = n := by
    rw [contentLength_eq hparse, hdeclares.lengthRead]
  rw [hcontent] at hlen hrequest hrest
  refine ⟨parsed, hlen, ?_, hrest⟩
  rw [hrequest]
  split
  · rfl
  · rename_i hzero
    -- without a body the parser leaves the field alone, and nothing was there
    have hbody : parsed.body = [] := parseHeader_body hparse
    have hn : n = 0 := by omega
    rw [hn, List.take_zero, ← hbody]

/-- For every buffer with a complete header section: the framing is strict exactly when the
header section is refused, or has no Content-Length, or a good one, or one whose last line
`std::stoul` reads as a number above the limit. -/
theorem strict_framing_iff (hfind : find (text "\r\n\r\n") buf = some headerEnd) :
    Strict decompress buf headerEnd ↔
      parseHeader (buf.take headerEnd) {} = none ∨ contentLengths (buf.take headerEnd) = [] ∨
      (∃ n, Declares (contentLengths (buf.take headerEnd)) n) ∨
      kMaxBodySize < lengthRead (contentLengths (buf.take headerEnd)) := by
  constructor
  · intro h
    by_cases hnone : parseHeader (buf.take headerEnd) {} = none
    · exact Or.inl hnone
    · by_cases habsent : contentLengths (buf.take headerEnd) = []
      · exact Or.inr (Or.inl habsent)
      · by_cases hgood : ∃ n, Declares (contentLengths (buf.take headerEnd)) n
        · exact Or.inr (Or.inr (Or.inl hgood))
        · obtain ⟨parsed, hparse⟩ := Option.ne_none_iff_exists'.mp hnone
          have herror := h.refuses habsent (not_exists.mp hgood)
          have hlarge := (parseRequest_error_iff decompress hfind).mp herror parsed hparse
          rw [contentLength_eq hparse] at hlarge
          exact Or.inr (Or.inr (Or.inr hlarge))
  · have hrefused : parseRequest decompress buf = .error → Strict decompress buf headerEnd := by
      refine fun herror => ⟨?_, fun _ _ => herror⟩
      intro request rest h
      rw [herror] at h
      cases h
    rintro (hnone | habsent | ⟨n, hgood⟩ | hlarge)
    · exact hrefused ((parseRequest_error_iff decompress hfind).mpr (by simp [hnone]))
    · exact ⟨fun _ _ _ => Or.inl habsent, fun hpresent => absurd habsent hpresent⟩
    · refine ⟨?_, fun _ hbad => absurd hgood (hbad n)⟩
      intro request rest h
      obtain ⟨parsed, hlen, hrequest, hrest⟩ := completes_of_declares decompress hfind hgood h
      exact Or.inr ⟨n, parsed, hgood, hlen, hrequest, hrest⟩
    · refine hrefused ((parseRequest_error_iff decompress hfind).mpr fun parsed hparse => ?_)
      rw [contentLength_eq hparse]
      exact hlarge

end

def framedRequest : Bytes := text "POST / HTTP/1.1\r\nContent-Length: 2\r\n\r\nhi"

theorem strict_framing_framedRequest : Strict id framedRequest 34 := by
  have hfind : find (text "\r\n\r\n") framedRequest = some 34 := by decide +kernel
  have hvalues : contentLengths (framedRequest.take 34) = [text "2"] := by decide +kernel
  refine (strict_framing_iff id hfind).mpr (Or.inr (Or.inr (Or.inl ⟨2, ?_⟩)))
  rw [hvalues]
  exact ⟨by decide, ⟨text "2", by decide +kernel, by decide +kernel, by decide +kernel,
    by decide +kernel⟩, by decide⟩

/-- Two Content-Length lines that differ. The last one has a sign and junk behind a zero, so the
five bytes of the first one are left for the next request. -/
def smuggledRequest : Bytes :=
  text "POST / HTTP/1.1\r\nContent-Length: 5\r\nContent-Length: +0x\r\n\r\nhello"

theorem conflicting_lengths_complete_without_a_body :
    find (text "\r\n\r\n") smuggledRequest = some 55 ∧
      contentLengths (smuggledRequest.take 55) = [text "5", text "+0x"] ∧
      (parseRequest id smuggledRequest).isComplete = true ∧
      ¬ Strict id smuggledRequest 55 := by
  have hfind : find (text "\r\n\r\n") smuggledRequest = some 55 := by decide +kernel
  have hvalues :
      contentLengths (smuggledRequest.take 55) = [text "5", text "+0x"] := by decide +kernel
  have hcomplete : (parseRequest id smuggledRequest).isComplete = true := by decide +kernel
  refine ⟨hfind, hvalues, hcomplete, ?_⟩
  intro hstrict
  have herror : parseRequest id smuggledRequest = .error := by
    refine hstrict.refuses (by rw [hvalues]; decide) ?_
    rintro n ⟨-, ⟨value, hall, -⟩, -⟩
    have hfirst := hall (text "5") (by decide)
    have hsecond := hall (text "+0x") (by decide)
    exact absurd (hfirst.trans hsecond.symm) (by decide)
  rw [herror] at hcomplete
  cases hcomplete

end mymuduo.http_core
