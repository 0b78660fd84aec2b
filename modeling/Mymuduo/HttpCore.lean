-- The request parser of `HttpCore` (src/http/HttpCore.h). It looks at the bytes
-- of the buffer without taking them, and takes a request only when all of it is
-- there. As a reader of the stream it is stable: more bytes behind a request
-- change nothing, and no byte behind it is needed.
import Mymuduo.HttpRequest
import Mymuduo.Segments

open List hiding head
open bytes segments

namespace mymuduo.http_core

open http_request

def kMaxBodySize : Nat := 10 * 1024 * 1024

def kMaxRequestLine : Nat := 8192

/-- A complete request comes with the bytes that stay in the buffer. -/
inductive ParseResult
  | complete (request : HttpRequest) (rest : Bytes)
  | incomplete
  | error
  deriving DecidableEq

def ParseResult.isComplete : ParseResult → Bool
  | .complete _ _ => true
  | _ => false

def parseHeaderLines (header : Bytes) (pos : Nat) (request : HttpRequest) : HttpRequest :=
  foldLines HttpRequest.parseHeader header (header.length + 1) pos request

/-- The request line and the header lines. `none` is `false`. -/
def parseHeader (header : Bytes) (request : HttpRequest) : Option HttpRequest :=
  match find crlf header with
  | none =>
    if kMaxRequestLine < header.length then none else request.parseRequestLine header
  | some lineEnd =>
    let requestLine := header.take lineEnd
    if kMaxRequestLine < requestLine.length then none
    else do
      let request ← request.parseRequestLine requestLine
      return parseHeaderLines header (lineEnd + 2) request

theorem parseHeader_written {line : Bytes} {fields : List (Bytes × Bytes)} {request : HttpRequest}
    (hline : 13 ∉ line) (hmax : line.length ≤ kMaxRequestLine)
    (hfields : ∀ field ∈ fields, FieldText field)
    (hrequest : ({} : HttpRequest).parseRequestLine line = some request) :
    parseHeader (head line fields) {} =
      some { request with headers := fields.foldl insertField request.headers } := by
  have hcolon : ∀ field ∈ fields, 58 ∉ field.1 := fun field hf => (hfields field hf).2.2
  unfold parseHeader head
  cases fields with
  | nil =>
    rw [map_nil, intercalate_singleton, find_crlf_eq_none hline]
    rw [if_neg (by omega), hrequest]
    rfl
  | cons field fields =>
    have hlines := isLine_of_fields hfields
    have hfuel : ((field :: fields).map headerLine).length ≤
        (line ++ crlf ++ crlf.intercalate ((field :: fields).map headerLine)).length + 1 := by
      have := length_le_length_intercalate hlines
      rw [length_append]
      omega
    rw [intercalate_headerLines, find_crlf hline]
    dsimp only
    rw [take_left, if_neg (by omega), hrequest]
    unfold parseHeaderLines
    rw [← length_append_crlf, ← append_assoc line crlf, Option.bind_eq_bind, Option.bind_some,
      foldLines_intercalate _ _ hlines hfuel, HttpRequest.foldl_parseHeader,
      foldl_insertHeaderLine _ hcolon]
    rfl

theorem parseHeader_body {header : Bytes} {request parsed : HttpRequest}
    (h : parseHeader header request = some parsed) : parsed.body = request.body := by
  unfold parseHeader at h
  split at h
  · split at h
    · cases h
    · exact (HttpRequest.parseRequestLine_keeps h).2
  · dsimp only at h
    split at h
    · cases h
    · simp only [Option.bind_eq_bind, Option.bind_eq_some_iff] at h
      obtain ⟨first, hfirst, h⟩ := h
      cases h
      unfold parseHeaderLines
      have hline : ∀ (acc : HttpRequest) (line : Bytes), acc.body = request.body →
          (acc.parseHeader line).body = request.body := fun _ _ hacc => hacc
      exact foldLines_keeps hline _ _ _ (HttpRequest.parseRequestLine_keeps hfirst).2

section Parser

-- `GzipCodec::decompress`; it gives the empty string for what is not gzip
variable (decompress : Bytes → Bytes)

def maybeDecompressRequestBody (request : HttpRequest) : HttpRequest :=
  if request.body = [] then request
  else if find (text "gzip") (request.getHeader (text "content-encoding")) = none then request
  else
    let decompressed := decompress request.body
    if decompressed = [] then request else { request with body := decompressed }

variable {request : HttpRequest}

theorem maybeDecompressRequestBody_plain (h : request.getHeader (text "content-encoding") = []) :
    maybeDecompressRequestBody decompress request = request := by
  unfold maybeDecompressRequestBody
  rw [h]
  split <;> rfl

/-- `parseRequest(Buffer*, HttpRequest&)` on the readable bytes. The sum of the two
lengths is far below `2 ^ 64`, because the content length is limited first. -/
def parseRequest (buf : Bytes) : ParseResult :=
  match find (text "\r\n\r\n") buf with
  | none => if kMaxRequestLine < buf.length then .error else .incomplete
  | some headerEnd =>
    let headerLen := headerEnd + 4
    match parseHeader (buf.take (headerLen - 4)) {} with
    | none => .error
    | some request =>
      let contentLen := request.contentLength
      if kMaxBodySize < contentLen then .error
      else if buf.length < headerLen + contentLen then .incomplete
      else
        let afterHeader := buf.drop headerLen
        let request :=
          if 0 < contentLen then { request with body := afterHeader.take contentLen } else request
        .complete (maybeDecompressRequestBody decompress request) (afterHeader.drop contentLen)

/-- `parseRequest(std::string&, HttpRequest&)`, which erases the request from the text. -/
def parseRequestString (data : Bytes) (request : HttpRequest := {}) : ParseResult :=
  match find (text "\r\n\r\n") data with
  | none => if kMaxRequestLine < data.length then .error else .incomplete
  | some headerEnd =>
    let headerLen := headerEnd + 4
    match parseHeader (substr data 0 headerEnd) request with
    | none => .error
    | some request =>
      let contentLen := request.contentLength
      if kMaxBodySize < contentLen then .error
      else
        let totalLen := headerLen + contentLen
        if data.length < totalLen then .incomplete
        else
          let request :=
            if 0 < contentLen then { request with body := substr data headerLen contentLen }
            else request
          .complete (maybeDecompressRequestBody decompress request) (data.drop totalLen)

theorem parseRequestString_eq (data : Bytes) :
    parseRequestString decompress data = parseRequest decompress data := by
  unfold parseRequestString parseRequest substr
  simp only [drop_zero, Nat.add_sub_cancel, drop_drop]

/-! ## The parser as a reader -/

/-- What makes a request complete: the header parses, the body is within the
limit, and all of both is there. -/
theorem parseRequest_complete_iff (buf rest : Bytes) (request : HttpRequest) :
    parseRequest decompress buf = .complete request rest ↔
      ∃ headerEnd parsed, find (text "\r\n\r\n") buf = some headerEnd ∧
        parseHeader (buf.take headerEnd) {} = some parsed ∧
        parsed.contentLength ≤ kMaxBodySize ∧
        headerEnd + 4 + parsed.contentLength ≤ buf.length ∧
        request = maybeDecompressRequestBody decompress
          (if 0 < parsed.contentLength then
            { parsed with body := (buf.drop (headerEnd + 4)).take parsed.contentLength }
          else parsed) ∧
        rest = (buf.drop (headerEnd + 4)).drop parsed.contentLength := by
  unfold parseRequest
  cases hfind : find (text "\r\n\r\n") buf with
  | none =>
    dsimp only
    constructor
    · intro h
      split at h <;> cases h
    · rintro ⟨headerEnd, parsed, h, -⟩
      cases h
  | some headerEnd =>
    dsimp only
    rw [Nat.add_sub_cancel]
    cases hparse : parseHeader (buf.take headerEnd) {} with
    | none =>
      constructor
      · intro h
        cases h
      · rintro ⟨_, parsed, ⟨⟩, h, -⟩
        rw [hparse] at h
        cases h
    | some parsed =>
      dsimp only
      constructor
      · intro h
        split at h
        · cases h
        · split at h
          · cases h
          · cases h
            exact ⟨headerEnd, parsed, rfl, hparse, by omega, by omega, rfl, rfl⟩
      · rintro ⟨_, parsed', ⟨⟩, hparse', hmax, hlen, rfl, rfl⟩
        rw [hparse] at hparse'
        cases hparse'
        rw [if_neg (by omega), if_neg (by omega)]

/-- What makes an error behind a blank line: the header does not parse, or the body is
above the limit. -/
theorem parseRequest_error_iff {buf : Bytes} {headerEnd : Nat}
    (hfind : find (text "\r\n\r\n") buf = some headerEnd) :
    parseRequest decompress buf = .error ↔
      ∀ parsed, parseHeader (buf.take headerEnd) {} = some parsed →
        kMaxBodySize < parsed.contentLength := by
  unfold parseRequest
  rw [hfind]
  dsimp only
  rw [Nat.add_sub_cancel]
  cases hparse : parseHeader (buf.take headerEnd) {} with
  | none => simp
  | some parsed =>
    dsimp only
    by_cases hmax : kMaxBodySize < parsed.contentLength
    · simp [hmax]
    · rw [if_neg hmax]
      constructor
      · intro herror
        split at herror <;> cases herror
      · intro hall
        exact absurd (hall parsed rfl) hmax

/-- A message that was written as a first line and fields gives as much of its body as its fields
say. -/
theorem parseRequest_message_iff {line : Bytes} {fields : List (Bytes × Bytes)}
    {parsed : HttpRequest} (hline : IsLine line) (hfields : ∀ field ∈ fields, FieldText field)
    (hparse : parseHeader (head line fields) {} = some parsed) (body rest : Bytes)
    (request : HttpRequest) :
    parseRequest decompress (message line fields body) = .complete request rest ↔
      parsed.contentLength ≤ kMaxBodySize ∧ parsed.contentLength ≤ body.length ∧
        request = maybeDecompressRequestBody decompress
          { parsed with body := body.take parsed.contentLength } ∧
        rest = body.drop parsed.contentLength := by
  obtain ⟨hfind, htake, hdrop, hlen⟩ := message_parts hline hfields body
  have hempty : parsed.body = [] := parseHeader_body hparse
  have hbody : (if 0 < parsed.contentLength then
      { parsed with body := body.take parsed.contentLength } else parsed) =
        { parsed with body := body.take parsed.contentLength } := by
    split
    · rfl
    · rename_i hzero
      rw [Nat.eq_zero_of_not_pos hzero, take_zero, ← hempty]
  rw [parseRequest_complete_iff]
  constructor
  · rintro ⟨headerEnd, parsed', hfind', hparse', hmax, htotal, hrequest, hrest⟩
    rw [hfind] at hfind'
    cases hfind'
    rw [htake, hparse] at hparse'
    cases hparse'
    rw [hdrop, hbody] at hrequest
    rw [hdrop] at hrest
    exact ⟨hmax, by omega, hrequest, hrest⟩
  · rintro ⟨hmax, hshort, hrequest, hrest⟩
    refine ⟨_, parsed, hfind, by rw [htake]; exact hparse, hmax, by omega, ?_, ?_⟩
    · rw [hdrop, hbody]
      exact hrequest
    · rw [hdrop]
      exact hrest

theorem parseRequest_append {buf rest : Bytes}
    (h : parseRequest decompress buf = .complete request rest) (more : Bytes) :
    parseRequest decompress (buf ++ more) = .complete request (rest ++ more) := by
  obtain ⟨headerEnd, parsed, hfind, hparse, hmax, hlen, hreq, hrest⟩ :=
    (parseRequest_complete_iff decompress buf rest request).mp h
  rw [parseRequest_complete_iff]
  refine ⟨headerEnd, parsed, find_append hfind more, ?_, hmax, ?_, ?_, ?_⟩
  · rw [take_append_of_le_length (by omega)]
    exact hparse
  · rw [length_append]
    omega
  · rw [take_drop_append (by omega)]
    exact hreq
  · rw [drop_append_of_le_length (by omega),
      drop_append_of_le_length (by rw [length_drop]; omega), hrest]

theorem parseRequest_front {buf rest : Bytes}
    (h : parseRequest decompress buf = .complete request rest) :
    ∃ front, buf = front ++ rest ∧ 4 ≤ front.length ∧
      parseRequest decompress front = .complete request [] := by
  obtain ⟨headerEnd, parsed, hfind, hparse, hmax, hlen, hreq, hrest⟩ :=
    (parseRequest_complete_iff decompress buf rest request).mp h
  have hfront : (buf.take (headerEnd + 4 + parsed.contentLength)).length =
      headerEnd + 4 + parsed.contentLength := by
    rw [length_take]
    omega
  refine ⟨buf.take (headerEnd + 4 + parsed.contentLength), ?_, ?_, ?_⟩
  · rw [hrest, drop_drop, take_append_drop]
  · omega
  · rw [parseRequest_complete_iff]
    refine ⟨headerEnd, parsed, find_take hfind ?_, ?_, hmax, ?_, ?_, ?_⟩
    · rw [length_crlf_crlf]
      omega
    · rw [take_take, min_eq_left (by omega)]
      exact hparse
    · omega
    · rw [drop_take, take_take, min_eq_left (by omega)]
      exact hreq
    · rw [drop_drop, drop_of_length_le (by omega)]

def requestReader : Reader UInt8 HttpRequest where
  next buf :=
    match parseRequest decompress buf with
    | .complete request rest => some (request, rest)
    | _ => none
  shrinks := by
    intro buf request rest h
    split at h
    · rename_i hparse
      cases h
      obtain ⟨front, hbuf, hlen, -⟩ := parseRequest_front decompress hparse
      rw [hbuf, length_append]
      omega
    · cases h
  stable := by
    intro buf request rest h more
    split at h
    · rename_i hparse
      cases h
      rw [parseRequest_append decompress hparse more]
    · cases h
  exact := by
    intro buf request rest h
    split at h
    · rename_i hparse
      cases h
      obtain ⟨front, hbuf, -, hfront⟩ := parseRequest_front decompress hparse
      refine ⟨front, hbuf, ?_⟩
      rw [hfront]
    · cases h

/-! ## The limit on the body -/

/-- What came over the wire is within the limit and is also the body, unless the
header names gzip and the decompressor finds something in it. -/
theorem maybeDecompress_body (request : HttpRequest) :
    (maybeDecompressRequestBody decompress request).body =
      if request.body ≠ [] ∧
        find (text "gzip") (request.getHeader (text "content-encoding")) ≠ none ∧
        decompress request.body ≠ [] then decompress request.body else request.body := by
  unfold maybeDecompressRequestBody
  by_cases hbody : request.body = []
  · simp [hbody]
  · by_cases hgzip : find (text "gzip") (request.getHeader (text "content-encoding")) = none
    · simp [hbody, hgzip]
    · by_cases hout : decompress request.body = [] <;> simp [hbody, hgzip, hout]

/-- A body within the limit stays there exactly when what it inflates to is within it. -/
theorem maybeDecompress_body_length_le_iff (hmax : request.body.length ≤ kMaxBodySize) :
    (maybeDecompressRequestBody decompress request).body.length ≤ kMaxBodySize ↔
      (request.body ≠ [] →
        find (text "gzip") (request.getHeader (text "content-encoding")) ≠ none →
        (decompress request.body).length ≤ kMaxBodySize) := by
  rw [maybeDecompress_body]
  split
  · rename_i hcond
    exact ⟨fun hle _ _ => hle, fun hle => hle hcond.1 hcond.2.1⟩
  · rename_i hcond
    refine ⟨fun _ hbody hgzip => ?_, fun _ => hmax⟩
    by_cases hout : decompress request.body = []
    · rw [hout]
      exact Nat.zero_le _
    · exact absurd ⟨hbody, hgzip, hout⟩ hcond

/-- If the header section of the input names gzip, the transferred body inflates to
at most `kMaxBodySize` bytes. -/
def InflatesWithinLimit (buf : Bytes) : Prop :=
  ∀ headerEnd parsed, find (text "\r\n\r\n") buf = some headerEnd →
    parseHeader (buf.take headerEnd) {} = some parsed → 0 < parsed.contentLength →
    find (text "gzip") (parsed.getHeader (text "content-encoding")) ≠ none →
    (decompress ((buf.drop (headerEnd + 4)).take parsed.contentLength)).length ≤ kMaxBodySize

/-- The limit is checked before the body is inflated. So the body that a handler
sees is within the limit exactly when the inflated body happens to be. -/
theorem complete_body_within_limit_iff {buf rest : Bytes} {request : HttpRequest}
    (h : parseRequest decompress buf = .complete request rest ∨
      parseRequestString decompress buf = .complete request rest) :
    request.body.length ≤ kMaxBodySize ↔ InflatesWithinLimit decompress buf := by
  rw [parseRequestString_eq, or_self] at h
  obtain ⟨headerEnd, parsed, hfind, hparse, hmax, hlen, hreq, -⟩ :=
    (parseRequest_complete_iff decompress buf rest request).mp h
  have hempty : parsed.body = [] := parseHeader_body hparse
  have hlimit : InflatesWithinLimit decompress buf ↔ (0 < parsed.contentLength →
      find (text "gzip") (parsed.getHeader (text "content-encoding")) ≠ none →
      (decompress ((buf.drop (headerEnd + 4)).take parsed.contentLength)).length ≤
        kMaxBodySize) := by
    constructor
    · intro hall
      exact hall headerEnd parsed hfind hparse
    · intro hone headerEnd' parsed' hfind' hparse'
      obtain rfl : headerEnd = headerEnd' := by simpa [hfind] using hfind'
      obtain rfl : parsed = parsed' := by simpa [hparse] using hparse'
      exact hone
  rw [hlimit, hreq]
  by_cases hbody : 0 < parsed.contentLength
  · have hsize : ((buf.drop (headerEnd + 4)).take parsed.contentLength).length =
        parsed.contentLength := by
      rw [length_take, length_drop]
      omega
    have hsent : (buf.drop (headerEnd + 4)).take parsed.contentLength ≠ [] := by
      intro hnil
      rw [hnil, length_nil] at hsize
      omega
    rw [if_pos hbody, maybeDecompress_body_length_le_iff decompress (hsize.trans_le hmax)]
    exact ⟨fun hle _ => hle hsent, fun hle _ => hle hbody⟩
  · rw [if_neg hbody,
      maybeDecompress_body_length_le_iff decompress (by rw [hempty]; exact Nat.zero_le _)]
    exact ⟨fun _ hpos => absurd hpos hbody, fun _ hne => absurd hempty hne⟩

/-- A POST that names gzip, with a body of one byte. -/
def gzipUpload : Bytes :=
  text "POST / HTTP/1.1\r\nContent-Encoding: gzip\r\nContent-Length: 1\r\n\r\n!"

def gzipUploadHeader : HttpRequest where
  method := .POST
  version := .HTTP_11
  path := text "/"
  headers := ((∅ : StringMap).insert (text "content-encoding") (text "gzip")).insert
    (text "content-length") (text "1")

theorem complete_body_within_limit_iff_gzipUpload :
    parseRequest (fun _ => text "hi") gzipUpload =
        .complete { gzipUploadHeader with body := text "hi" } [] ∧
      ((text "hi").length ≤ kMaxBodySize ↔
        InflatesWithinLimit (fun _ => text "hi") gzipUpload) := by
  have h : parseRequest (fun _ => text "hi") gzipUpload =
      .complete { gzipUploadHeader with body := text "hi" } [] := by decide +kernel
  exact ⟨h, complete_body_within_limit_iff _ (Or.inl h)⟩

/-- A stand-in for zlib that writes one long run of zeros as one byte. -/
def deflateZeros (data : Bytes) : Bytes :=
  if data = replicate (kMaxBodySize + 1) 0 then text "!" else 0 :: data

def inflateZeros : Bytes → Bytes
  | 0 :: data => data
  | _ => replicate (kMaxBodySize + 1) 0

theorem inflateZeros_deflateZeros (data : Bytes) : inflateZeros (deflateZeros data) = data := by
  unfold deflateZeros
  split
  · rename_i hdata
    rw [hdata]
    rfl
  · rfl

/-- With a codec that inflates what it deflated, one byte becomes a body above the limit. -/
theorem gzipUpload_exceeds_limit :
    ∃ compress decompress : Bytes → Bytes, (∀ data, decompress (compress data) = data) ∧
      ∃ request, parseRequest decompress gzipUpload = .complete request [] ∧
        ¬request.body.length ≤ kMaxBodySize := by
  refine ⟨deflateZeros, inflateZeros, inflateZeros_deflateZeros, ?_⟩
  have hparse : parseHeader (gzipUpload.take 58) {} = some gzipUploadHeader := by decide +kernel
  have hlength : gzipUploadHeader.contentLength = 1 := by decide +kernel
  refine ⟨_, (parseRequest_complete_iff inflateZeros _ _ _).mpr
    ⟨58, gzipUploadHeader, by decide +kernel, hparse, by rw [hlength]; decide,
      by rw [hlength]; decide, rfl, by rw [hlength]; decide⟩, ?_⟩
  have hinflated : inflateZeros ((gzipUpload.drop (58 + 4)).take 1) =
      replicate (kMaxBodySize + 1) 0 := rfl
  rw [maybeDecompress_body, hlength, if_pos Nat.one_pos, if_pos ?_]
  · rw [hinflated, length_replicate]
    omega
  · refine ⟨by decide, by decide +kernel, ?_⟩
    rw [hinflated]
    exact cons_ne_nil _ _

end Parser

end mymuduo.http_core
