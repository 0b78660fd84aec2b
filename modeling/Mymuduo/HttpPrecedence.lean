-- The headers that `buildRequest` (src/http/HttpClient.h) writes itself, against the
-- default headers of the client. The default headers come last, and the parser of
-- the server keeps the last line of each key in lower case.
import Mymuduo.HttpDelivery

open List hiding head
open bytes

namespace mymuduo.http_delivery

open http_core http_request

namespace RequestCall

/-! ## Generated and default headers -/

/-- The headers that `buildRequest` writes itself. -/
def generated (host : Bytes) (r : RequestCall) : List (Bytes × Bytes) :=
  (text "Host", host) :: (text "Connection", text "keep-alive") :: r.contentFields

theorem fields_eq (host : Bytes) (r : RequestCall) :
    r.fields host = r.generated host ++ r.defaultFields := rfl

/-- The texts fill their lines, and no default header names a coding of the body. -/
structure Writable (host : Bytes) (r : RequestCall) : Prop where
  host : NoBreak host
  method : 32 ∉ r.method ∧ NoBreak r.method
  path : 32 ∉ r.path ∧ NoBreak r.path
  contentType : NoBreak r.contentType
  headers : ∀ field ∈ r.defaultFields, FieldText field
  encoding : ∀ field ∈ r.defaultFields, lower field.1 ≠ text "content-encoding"
  body : r.body.length ≤ kMaxBodySize

def lastDefault (r : RequestCall) (key : Bytes) : Option (Bytes × Bytes) :=
  (r.defaultFields.filter (fun field => lower field.1 = key)).getLast?

/-- The length that the server takes from the value of `Content-Length`. -/
def lengthOf (value : Bytes) : Nat := if value = [] then 0 else (stoul value).getD 0

/-- The request line is not too long, a default header with the name of a generated one
repeats its value, and one for the length of an empty body says zero. -/
structure Yields (host : Bytes) (r : RequestCall) : Prop where
  line : r.requestLine.length ≤ kMaxRequestLine
  values : ∀ field ∈ r.generated host, ∀ other, r.lastDefault (lower field.1) = some other →
    keptValue other.2 = keptValue field.2
  length : r.body = [] → ∀ other, r.lastDefault (text "content-length") = some other →
    lengthOf (keptValue other.2) = 0

/-- The request is complete with the body, and has each generated header with the value
that was written. -/
def Arrives (decompress : Bytes → Bytes) (host : Bytes) (r : RequestCall) : Prop :=
  ∃ request, parseRequest decompress (r.built host) = .complete request [] ∧
    request.body = r.body ∧
    ∀ field ∈ r.generated host, request.getHeader field.1 = keptValue field.2

variable {host : Bytes} {r : RequestCall}

theorem generated_keys (host : Bytes) (r : RequestCall) :
    ((r.generated host).map (fun field => lower field.1)).Nodup ∧
      text "content-encoding" ∉ (r.generated host).map (fun field => lower field.1) := by
  unfold generated
  rcases r.contentFields_cases with ⟨-, hr⟩ | ⟨-, hr⟩ | ⟨-, hr⟩ <;> rw [hr] <;>
    simp only [map_cons, map_nil] <;> decide +kernel

theorem filter_generated {field : Bytes × Bytes} (hfield : field ∈ r.generated host) :
    (r.generated host).filter (fun f => lower f.1 = lower field.1) = [field] := by
  obtain ⟨before, after, hsplit⟩ := append_of_mem hfield
  have hnodup := (generated_keys host r).1
  rw [hsplit, map_append, map_cons, nodup_append, nodup_cons] at hnodup
  obtain ⟨-, ⟨hafter, -⟩, hbefore⟩ := hnodup
  have hnone : ∀ l : List (Bytes × Bytes), lower field.1 ∉ l.map (fun f => lower f.1) →
      l.filter (fun f => lower f.1 = lower field.1) = [] := by
    intro l hl
    rw [filter_eq_nil_iff]
    intro f hf heq
    exact hl (mem_map.mpr ⟨f, hf, by simpa using heq⟩)
  rw [hsplit, filter_append, filter_cons_of_pos (by simp), hnone after hafter,
    hnone before (fun hmem => hbefore _ hmem _ (mem_cons_self ..) rfl)]
  rfl

/-! ## What the server reads -/

def readHeaders (host : Bytes) (r : RequestCall) : StringMap := (r.fields host).foldl insertField ∅

theorem lookup_readHeaders (host : Bytes) (r : RequestCall) (key : Bytes) :
    (r.readHeaders host).lookup key =
      ((r.lastDefault key).or ((r.generated host).filter (fun f => lower f.1 = key)).getLast?).map
        (fun field => keptValue field.2) := by
  unfold readHeaders lastDefault
  rw [lookup_insertFields_last, fields_eq, filter_append, getLast?_append]
  cases (r.defaultFields.filter (fun field => lower field.1 = key)).getLast?.or
    ((r.generated host).filter (fun f => lower f.1 = key)).getLast? <;> rfl

theorem lookup_generated {field : Bytes × Bytes} (hfield : field ∈ r.generated host) :
    (r.readHeaders host).lookup (lower field.1) =
      some (keptValue ((r.lastDefault (lower field.1)).getD field).2) := by
  rw [lookup_readHeaders, filter_generated hfield]
  cases r.lastDefault (lower field.1) <;> rfl

theorem lookup_encoding (h : r.Writable host) :
    (r.readHeaders host).lookup (text "content-encoding") = none := by
  refine lookup_insertFields_of_absent ∅ ?_
  intro field hfield
  rw [fields_eq] at hfield
  rcases mem_append.mp hfield with hfield | hfield
  · intro heq
    exact (generated_keys host r).2 (mem_map.mpr ⟨field, hfield, heq⟩)
  · exact h.encoding field hfield

theorem Writable.isLine (h : r.Writable host) : IsLine r.requestLine :=
  isLine_words h.method.2.1 h.path.2.1 (by decide)

theorem Writable.fieldText (h : r.Writable host) : ∀ field ∈ r.fields host, FieldText field :=
  fieldText_fields h.host h.contentType h.headers

theorem parseRequest_long_line (decompress : Bytes → Bytes) (h : r.Writable host)
    (hlong : kMaxRequestLine < r.requestLine.length) :
    parseRequest decompress (r.built host) = .error := by
  obtain ⟨hfind, htake, -, -⟩ :=
    message_parts h.isLine h.fieldText r.body
  have hheader : parseHeader (head r.requestLine (r.fields host)) {} = none := by
    unfold parseHeader head fields
    rw [map_cons, intercalate_cons_of_ne_nil (by simp), append_assoc, find_crlf h.isLine.2]
    dsimp only
    rw [take_left, if_pos hlong]
  rw [built_eq_message]
  unfold parseRequest
  rw [hfind]
  dsimp only
  rw [Nat.add_sub_cancel, htake, hheader]

theorem parseHeader_fields (h : r.Writable host) (hline : r.requestLine.length ≤ kMaxRequestLine) :
    ∃ parsed, parseHeader (head r.requestLine (r.fields host)) {} = some parsed ∧
      parsed.headers = r.readHeaders host := by
  obtain ⟨first, hfirst⟩ :=
    HttpRequest.parseRequestLine_words {} (text "HTTP/1.1") h.method.1 h.path.1
  refine ⟨_, parseHeader_written h.isLine.2 hline h.fieldText hfirst, ?_⟩
  rw [(HttpRequest.parseRequestLine_keeps hfirst).1]
  rfl

/-- The length that the server takes from the headers. -/
def readLength (host : Bytes) (r : RequestCall) : Nat :=
  lengthOf (((r.readHeaders host).lookup (text "content-length")).getD [])

theorem arrives_iff_read (decompress : Bytes → Bytes) (h : r.Writable host)
    (hline : r.requestLine.length ≤ kMaxRequestLine) :
    r.Arrives decompress host ↔ r.readLength host = r.body.length ∧
      ∀ field ∈ r.generated host,
        ((r.readHeaders host).lookup (lower field.1)).getD [] = keptValue field.2 := by
  obtain ⟨parsed, hparse, hheaders⟩ := parseHeader_fields h hline
  have hlength : parsed.contentLength = r.readLength host := by
    unfold HttpRequest.contentLength HttpRequest.getHeader readLength lengthOf
    rw [hheaders]
    rfl
  have hplain : ∀ body, maybeDecompressRequestBody decompress { parsed with body } =
      { parsed with body } := by
    intro body
    refine maybeDecompressRequestBody_plain decompress ?_
    unfold HttpRequest.getHeader
    rw [hheaders, show lower (text "content-encoding") = text "content-encoding" by decide,
      lookup_encoding h]
    rfl
  have hcomplete := parseRequest_message_iff decompress h.isLine
    h.fieldText hparse r.body []
  simp only [← built_eq_message, hlength, hplain] at hcomplete
  constructor
  · rintro ⟨request, hrequest, -, hvalues⟩
    obtain ⟨-, hshort, rfl, hrest⟩ := (hcomplete request).mp hrequest
    have hall : r.body.length ≤ r.readLength host := drop_eq_nil_iff.mp hrest.symm
    refine ⟨by omega, ?_⟩
    intro field hfield
    have hvalue := hvalues field hfield
    rwa [HttpRequest.getHeader, hheaders] at hvalue
  · rintro ⟨hread, hvalues⟩
    refine ⟨{ parsed with body := r.body }, ?_, rfl, ?_⟩
    · rw [hcomplete, hread, take_length, drop_length]
      exact ⟨h.body, le_rfl, rfl, rfl⟩
    · intro field hfield
      unfold HttpRequest.getHeader
      rw [hheaders]
      exact hvalues field hfield

/-! ## Which value arrives -/

theorem readLength_of_body (h : r.Writable host) (hbody : r.body ≠ [])
    (hvalues : ∀ field ∈ r.generated host,
      ((r.readHeaders host).lookup (lower field.1)).getD [] = keptValue field.2) :
    r.readLength host = r.body.length := by
  have hmax := h.body
  unfold kMaxBodySize at hmax
  have hfield : (text "Content-Length", decimal r.body.length) ∈ r.generated host := by
    simp [generated, contentFields, hbody]
  have hvalue := hvalues _ hfield
  rw [keptValue_decimal, show lower (text "Content-Length") = text "content-length" by decide]
    at hvalue
  unfold readLength lengthOf
  rw [hvalue, if_neg (decimal_ne_nil _), stoul_decimal (by omega)]
  rfl

theorem readLength_of_empty (host : Bytes) (hbody : r.body = []) :
    r.readLength host = 0 ↔ ∀ other, r.lastDefault (text "content-length") = some other →
      lengthOf (keptValue other.2) = 0 := by
  have hnone : ((r.generated host).filter (fun f => lower f.1 = text "content-length")) = [] := by
    have hhost : lower (text "Host") ≠ text "content-length" := by decide
    have hconnection : lower (text "Connection") ≠ text "content-length" := by decide
    unfold generated contentFields
    rw [if_pos hbody]
    simp [hhost, hconnection]
  unfold readLength
  rw [lookup_readHeaders, hnone]
  cases hlast : r.lastDefault (text "content-length") with
  | none => exact iff_of_true rfl (fun _ hother => nomatch hother)
  | some field =>
    constructor
    · rintro hzero _ ⟨⟩
      exact hzero
    · intro hall
      exact hall field rfl

/-- The generated headers take precedence exactly when no default header contradicts
them, and then the request arrives with its body. -/
theorem generated_headers_arrive_iff (decompress : Bytes → Bytes) {host : Bytes} {r : RequestCall}
    (h : r.Writable host) : r.Arrives decompress host ↔ r.Yields host := by
  have hvalues : (∀ field ∈ r.generated host,
      ((r.readHeaders host).lookup (lower field.1)).getD [] = keptValue field.2) ↔
      ∀ field ∈ r.generated host, ∀ other, r.lastDefault (lower field.1) = some other →
        keptValue other.2 = keptValue field.2 := by
    refine forall₂_congr fun field hfield => ?_
    rw [lookup_generated hfield]
    cases r.lastDefault (lower field.1) with
    | none => exact iff_of_true rfl (fun _ hother => nomatch hother)
    | some field' =>
      constructor
      · rintro hsame _ ⟨⟩
        exact hsame
      · intro hall
        exact hall field' rfl
  by_cases hline : r.requestLine.length ≤ kMaxRequestLine
  · rw [arrives_iff_read decompress h hline]
    constructor
    · rintro ⟨hlength, hread⟩
      refine ⟨hline, hvalues.mp hread, fun hbody => (readLength_of_empty host hbody).mp ?_⟩
      rw [hlength, hbody]
      rfl
    · intro hyields
      have hread := hvalues.mpr hyields.values
      refine ⟨?_, hread⟩
      by_cases hbody : r.body = []
      · rw [(readLength_of_empty host hbody).mpr (hyields.length hbody), hbody]
        rfl
      · exact readLength_of_body h hbody hread
  · constructor
    · rintro ⟨request, hcomplete, -⟩
      rw [parseRequest_long_line decompress h (not_le.mp hline)] at hcomplete
      cases hcomplete
    · intro hyields
      exact absurd hyields.line hline

end RequestCall

def acceptCall : RequestCall where
  defaultHeaders_ := (∅ : StringMap).insert (text "Accept") (text "text/html")
  method := text "POST"
  path := text "/items?all=1"
  body := text "hi"
  contentType := text "text/plain"

theorem generated_headers_arrive_iff_accept :
    acceptCall.Writable (text "10.0.0.1:80") ∧
      (acceptCall.Arrives id (text "10.0.0.1:80") ↔ acceptCall.Yields (text "10.0.0.1:80")) := by
  have h : acceptCall.Writable (text "10.0.0.1:80") :=
    ⟨by decide, by decide, by decide, by decide, by decide, by decide, by decide⟩
  exact ⟨h, RequestCall.generated_headers_arrive_iff id h⟩

def overridingCall : RequestCall where
  defaultHeaders_ := ((∅ : StringMap).insert (text "connection") (text "close")).insert
    (text "content-length") (text "1")
  method := text "POST"
  path := text "/items"
  body := text "hi"
  contentType := text "text/plain"

/-- The server reads the default values: it closes the connection, and takes one byte of
the body. -/
theorem default_headers_override_generated :
    overridingCall.Writable (text "10.0.0.1:80") ∧
      ¬overridingCall.Arrives id (text "10.0.0.1:80") := by
  have h : overridingCall.Writable (text "10.0.0.1:80") :=
    ⟨by decide, by decide, by decide, by decide, by decide, by decide, by decide⟩
  refine ⟨h, ?_⟩
  rw [RequestCall.arrives_iff_read id h (by decide)]
  rintro ⟨hlength, -⟩
  revert hlength
  decide +kernel

end mymuduo.http_delivery
