-- The HTTP client and the HTTP server across one connection: each reads back what the
-- other writes, whatever the cut of the bytes into deliveries.
import Mymuduo.HttpClientPairing
import Mymuduo.HttpServer

open List hiding head
open bytes runs segments

namespace mymuduo.http_delivery

open http_core http_request
open http_client (Answer Client HttpClientResponse InetAddress buildRequest nextResponse)
open http_response (HttpResponse HttpStatusCode)
open http_server (Core NonDeferring closes)

/-! ## Requests -/

/-- The arguments of a `buildRequest` call and the default headers that it finds. -/
structure RequestCall where
  defaultHeaders_ : StringMap := ∅
  method : Bytes
  path : Bytes
  body : Bytes := []
  contentType : Bytes := []

/-- The headers that `buildRequest` and the parser give a meaning of their own. -/
def reserved : List Bytes :=
  [text "host", text "connection", text "content-type", text "content-length",
    text "content-encoding"]

def methodName : HttpMethod → Bytes
  | .GET => text "GET"
  | .POST => text "POST"
  | .PUT => text "PUT"
  | .DELETE => text "DELETE"
  | .HEAD => text "HEAD"
  | .UNKNOWN => []

namespace RequestCall

def built (host : Bytes) (r : RequestCall) : Bytes :=
  buildRequest host r.defaultHeaders_ r.method r.path r.body r.contentType

def requestLine (r : RequestCall) : Bytes :=
  r.method ++ text " " ++ r.path ++ text " " ++ text "HTTP/1.1"

def contentFields (r : RequestCall) : List (Bytes × Bytes) :=
  if r.body = [] then []
  else
    (if r.contentType = [] then [] else [(text "Content-Type", r.contentType)]) ++
      [(text "Content-Length", decimal r.body.length)]

def defaultFields (r : RequestCall) : List (Bytes × Bytes) :=
  r.defaultHeaders_.entries.map (fun e => (e.1, e.2))

def fields (host : Bytes) (r : RequestCall) : List (Bytes × Bytes) :=
  (text "Host", host) :: (text "Connection", text "keep-alive") ::
    (r.contentFields ++ r.defaultFields)

/-- The request line and the header lines, without the blank line behind them. -/
def headerBlock (host : Bytes) (r : RequestCall) : Bytes := head r.requestLine (r.fields host)

/-- What a caller must keep to for the request to arrive as it was meant. -/
structure Sendable (host : Bytes) (r : RequestCall) : Prop where
  method : r.method ∈ [text "GET", text "POST", text "PUT", text "DELETE", text "HEAD"]
  path : 32 ∉ r.path ∧ 63 ∉ r.path ∧ NoBreak r.path
  contentType : NoBreak r.contentType
  headers : ∀ field ∈ r.defaultFields, FieldText field
  distinct : (r.defaultFields.map (fun field => lower field.1)).Nodup
  unreserved : ∀ field ∈ r.defaultFields, lower field.1 ∉ reserved
  headerBlock : (r.headerBlock host).length ≤ kMaxRequestLine
  body : r.body.length ≤ kMaxBodySize

def parsed (host : Bytes) (r : RequestCall) : HttpRequest where
  method := stringToMethod r.method
  version := .HTTP_11
  path := r.path
  headers := (r.fields host).foldl insertField ∅
  body := r.body

/-- The request has the method, the path and the body of the call. Its default
headers are there under any letter case, up to spaces in front of a value. -/
def ArrivesAs (r : RequestCall) (request : HttpRequest) : Prop :=
  methodName request.method = r.method ∧ request.path = r.path ∧ request.body = r.body ∧
    ∀ field ∈ r.defaultFields, ∀ key, lower key = lower field.1 →
      (request.getHeader key).dropWhile (· = 32) = field.2.dropWhile (· = 32)

theorem contentFields_text (r : RequestCall) :
    r.contentFields.flatMap (fun field => headerLine field ++ crlf) =
      if r.body = [] then []
      else
        (if r.contentType = [] then []
        else text "Content-Type: " ++ r.contentType ++ text "\r\n") ++
          text "Content-Length: " ++ decimal r.body.length ++ text "\r\n" := by
  have hcrlf : text "\r\n" = crlf := rfl
  have htype : text "Content-Type: " = text "Content-Type" ++ text ": " := by decide
  have hlength : text "Content-Length: " = text "Content-Length" ++ text ": " := by decide
  unfold contentFields headerLine
  by_cases hbody : r.body = []
  · simp [hbody]
  · by_cases htext : r.contentType = []
    · simp [hbody, htext, hcrlf, hlength]
    · simp [hbody, htext, hcrlf, htype, hlength]

theorem built_eq_message (host : Bytes) (r : RequestCall) :
    r.built host = message r.requestLine (r.fields host) r.body := by
  have hcrlf : text "\r\n" = crlf := rfl
  have hversion : text " HTTP/1.1\r\n" = text " " ++ text "HTTP/1.1" ++ crlf := by decide
  have hhost : headerLine (text "Host", host) = text "Host: " ++ host := rfl
  have halive : headerLine (text "Connection", text "keep-alive") ++ crlf =
      text "Connection: keep-alive\r\n" := by decide
  rw [message_eq_flatMap]
  unfold built buildRequest requestLine fields
  rw [← contentFields_text, flatMap_cons, flatMap_cons, flatMap_append, hhost,
    halive, hversion, hcrlf, defaultFields, flatMap_map]
  simp only [headerLine, append_assoc]

theorem stringToMethod_name {method : Bytes}
    (h : method ∈ [text "GET", text "POST", text "PUT", text "DELETE", text "HEAD"]) :
    methodName (stringToMethod method) = method ∧ 32 ∉ method ∧ NoBreak method := by
  simp only [mem_cons, not_mem_nil, or_false] at h
  rcases h with rfl | rfl | rfl | rfl | rfl <;> decide

theorem contentFields_cases (r : RequestCall) :
    r.body = [] ∧ r.contentFields = [] ∨
      r.body ≠ [] ∧ r.contentFields = [(text "Content-Length", decimal r.body.length)] ∨
      r.body ≠ [] ∧ r.contentFields =
        [(text "Content-Type", r.contentType), (text "Content-Length", decimal r.body.length)] := by
  unfold contentFields
  by_cases hbody : r.body = []
  · simp [hbody]
  · by_cases htype : r.contentType = [] <;> simp [hbody, htype]

variable {host : Bytes} {r : RequestCall}

theorem fieldText_fields (hhost : NoBreak host) (htext : NoBreak r.contentType)
    (hdefault : ∀ field ∈ r.defaultFields, FieldText field) :
    ∀ field ∈ r.fields host, FieldText field := by
  have hlength : FieldText (text "Content-Length", decimal r.body.length) :=
    fieldText_mk (by decide) (noBreak_decimal _)
  have htype : FieldText (text "Content-Type", r.contentType) :=
    fieldText_mk (by decide) htext
  have hcontent : ∀ field ∈ r.contentFields, FieldText field := by
    rcases r.contentFields_cases with ⟨-, hr⟩ | ⟨-, hr⟩ | ⟨-, hr⟩ <;> rw [hr] <;>
      simp [hlength, htype]
  intro field hfield
  unfold fields at hfield
  simp only [mem_cons, mem_append] at hfield
  rcases hfield with rfl | rfl | hfield | hfield
  · exact fieldText_mk (by decide) hhost
  · decide
  · exact hcontent field hfield
  · exact hdefault field hfield

/-- The keys of a request are distinct up to letter case. -/
theorem nodup_fields (h : r.Sendable host) :
    ((r.fields host).map (fun field => lower field.1)).Nodup := by
  have hfixed : ∀ more, r.contentFields.map (fun field => lower field.1) = more →
      (text "host" :: text "connection" :: more).Nodup ∧
        ∀ key ∈ text "host" :: text "connection" :: more, key ∈ reserved := by
    rintro _ rfl
    rcases r.contentFields_cases with ⟨-, hr⟩ | ⟨-, hr⟩ | ⟨-, hr⟩ <;> rw [hr] <;>
      simp only [map_cons, map_nil] <;> decide +kernel
  obtain ⟨hnodup, hreserved⟩ := hfixed _ rfl
  have hkeys : (r.fields host).map (fun field => lower field.1) =
      (text "host" :: text "connection" :: r.contentFields.map (fun field => lower field.1)) ++
        r.defaultFields.map (fun field => lower field.1) := by
    unfold fields
    rw [map_cons, map_cons, map_append]
    rfl
  rw [hkeys]
  refine nodup_append.mpr ⟨hnodup, h.distinct, ?_⟩
  rintro key hkey _ hdefault rfl
  obtain ⟨field, hfield, rfl⟩ := mem_map.mp hdefault
  exact h.unreserved field hfield (hreserved _ hkey)

theorem lookup_field (h : r.Sendable host) {field : Bytes × Bytes}
    (hfield : field ∈ r.fields host) :
    (r.parsed host).headers.lookup (lower field.1) = some (keptValue field.2) := by
  refine lookup_insertFields ∅ ⟨field, hfield, rfl⟩ ?_
  intro other hother hkey
  rw [inj_on_of_nodup_map (nodup_fields h) hother hfield hkey]

theorem lookup_absent {key : Bytes} (h : r.Sendable host) (hreserved : key ∈ reserved)
    (hfixed : text "host" ≠ key ∧ text "connection" ≠ key)
    (hcontent : ∀ field ∈ r.contentFields, lower field.1 ≠ key) :
    (r.parsed host).headers.lookup key = none := by
  refine lookup_insertFields_of_absent ∅ ?_
  intro field hfield
  unfold fields at hfield
  simp only [mem_cons, mem_append] at hfield
  rcases hfield with rfl | rfl | hfield | hfield
  · exact hfixed.1
  · exact hfixed.2
  · exact hcontent field hfield
  · rintro rfl
    exact h.unreserved field hfield hreserved

theorem contentLength_parsed (h : r.Sendable host) :
    (r.parsed host).contentLength = r.body.length := by
  have hmax := h.body
  unfold kMaxBodySize at hmax
  unfold HttpRequest.contentLength HttpRequest.getHeader
  by_cases hbody : r.body = []
  · have hnone : (r.parsed host).headers.lookup (lower (text "content-length")) = none :=
      lookup_absent h (by decide) (by decide) (by simp [contentFields, hbody])
    rw [hnone]
    simp [hbody]
  · have hfield : (text "Content-Length", decimal r.body.length) ∈ r.fields host := by
      simp [fields, contentFields, hbody]
    have hlookup := lookup_field h hfield
    rw [keptValue_decimal] at hlookup
    have hkey : lower (text "content-length") = lower (text "Content-Length") := by decide
    rw [hkey, hlookup]
    dsimp only [Option.getD_some]
    rw [if_neg (decimal_ne_nil _), stoul_decimal (by omega)]
    rfl

theorem keepAlive_parsed (h : r.Sendable host) : (r.parsed host).keepAlive = true := by
  have hfield : (text "Connection", text "keep-alive") ∈ r.fields host := by simp [fields]
  have hlookup := lookup_field h hfield
  have hkey : lower (text "connection") = lower (text "Connection") := by decide
  have hvalue : keptValue (text "keep-alive") = text "keep-alive" := by decide
  have hversion : (r.parsed host).version ≠ .HTTP_10 := by simp [parsed]
  unfold HttpRequest.keepAlive HttpRequest.getHeader
  rw [if_neg hversion, hkey, hlookup, hvalue]
  decide

theorem maybeDecompressRequestBody_parsed (decompress : Bytes → Bytes) (h : r.Sendable host) :
    maybeDecompressRequestBody decompress (r.parsed host) = r.parsed host := by
  have hcontent : ∀ field ∈ r.contentFields, lower field.1 ≠ text "content-encoding" := by
    intro field hfield
    rcases r.contentFields_cases with ⟨-, hr⟩ | ⟨-, hr⟩ | ⟨-, hr⟩ <;> rw [hr] at hfield
    · cases hfield
    · rw [mem_singleton.mp hfield]
      dsimp only
      decide
    · simp only [mem_cons, not_mem_nil, or_false] at hfield
      rcases hfield with rfl | rfl <;> dsimp only <;> decide
  have hnone : (r.parsed host).headers.lookup (lower (text "content-encoding")) = none :=
    lookup_absent h (by decide) (by decide) hcontent
  refine maybeDecompressRequestBody_plain decompress ?_
  unfold HttpRequest.getHeader
  rw [hnone]
  rfl

theorem Sendable.isLine (h : r.Sendable host) : IsLine r.requestLine :=
  isLine_words (stringToMethod_name h.method).2.2.1 h.path.2.2.1 (by decide)

theorem Sendable.fieldText (hhost : NoBreak host) (h : r.Sendable host) :
    ∀ field ∈ r.fields host, FieldText field :=
  fieldText_fields hhost h.contentType h.headers

theorem parseHeader_headerBlock (hhost : NoBreak host) (h : r.Sendable host) :
    parseHeader (r.headerBlock host) {} = some { r.parsed host with body := [] } := by
  have hfit : r.requestLine.length ≤ kMaxRequestLine := by
    have hblock := h.headerBlock
    unfold headerBlock head fields at hblock
    rw [intercalate_cons_of_ne_nil (by simp), length_append, length_append] at hblock
    omega
  have hrequest := HttpRequest.parseRequestLine_written {} (text "HTTP/1.1")
    (stringToMethod_name h.method).2.1 h.path.1 h.path.2.1
  exact parseHeader_written h.isLine.2 hfit (h.fieldText hhost) hrequest

theorem parseRequest_built (decompress : Bytes → Bytes) (hhost : NoBreak host)
    (h : r.Sendable host) :
    parseRequest decompress (r.built host) = .complete (r.parsed host) [] := by
  have hlength : HttpRequest.contentLength { r.parsed host with body := [] } = r.body.length :=
    contentLength_parsed h
  rw [built_eq_message, parseRequest_message_iff decompress h.isLine
    (h.fieldText hhost) (parseHeader_headerBlock hhost h), hlength]
  refine ⟨h.body, le_rfl, ?_, drop_length.symm⟩
  rw [take_length]
  exact (maybeDecompressRequestBody_parsed decompress h).symm

theorem arrivesAs_parsed (h : r.Sendable host) : r.ArrivesAs (r.parsed host) := by
  refine ⟨(stringToMethod_name h.method).1, rfl, rfl, ?_⟩
  intro field hfield key hkey
  have hmem : field ∈ r.fields host := by simp [fields, hfield]
  unfold HttpRequest.getHeader
  rw [hkey, lookup_field h hmem, Option.getD_some, dropWhile_keptValue]

end RequestCall

theorem noBreak_toIpPort (address : InetAddress) : NoBreak address.toIpPort := by
  have hdot : NoBreak (text ".") := by decide
  have hcolon : NoBreak (text ":") := by decide
  unfold InetAddress.toIpPort
  simp only [noBreak_append_iff, noBreak_decimal, hdot, hcolon, and_self]

/-- However the bytes of the requests are cut into deliveries, the server handles
each request once, in order and as it was sent, and nothing stays in the buffer. -/
theorem requests_arrive_once_in_order {σ : Type*} (core : Core σ) (hdefer : NonDeferring core)
    (app : σ) (address : InetAddress) (calls : List RequestCall)
    (hcalls : ∀ r ∈ calls, r.Sendable address.toIpPort) (pieces : List Bytes)
    (hpieces : pieces.flatten = (calls.map (RequestCall.built address.toIpPort)).flatten) :
    List.Forall₂ RequestCall.ArrivesAs calls
        (run (http_server.deliver core) (http_server.connected app) pieces).requests ∧
      (run (http_server.deliver core) (http_server.connected app) pieces).buf = [] := by
  have hhost := noBreak_toIpPort address
  obtain ⟨hrequests, hbuf⟩ := http_server.follows_run core hdefer app pieces
  -- the stream is made of whole requests, and none of them asks to close
  let parts := calls.map (fun r => (r.built address.toIpPort, r.parsed address.toIpPort))
  have hwhole : ∀ p ∈ parts, (requestReader core.decompress).next p.1 = some (p.2, []) := by
    intro p hp
    obtain ⟨r, hr, rfl⟩ := mem_map.mp hp
    dsimp only [requestReader]
    rw [RequestCall.parseRequest_built core.decompress hhost (hcalls r hr)]
  have hstays : ∀ p ∈ parts, closes p.2 = false := by
    intro p hp
    obtain ⟨r, hr, rfl⟩ := mem_map.mp hp
    unfold closes
    rw [RequestCall.keepAlive_parsed (hcalls r hr)]
    rfl
  have hflat : pieces.flatten = (parts.map Prod.fst).flatten := by
    rw [hpieces, map_map]
    rfl
  have hrun := (requestReader core.decompress).run_deliver_whole closes hwhole hstays hflat
  rw [hrequests, hbuf, hrun, map_map]
  refine ⟨?_, rfl⟩
  rw [forall₂_map_right_iff, forall₂_same]
  exact fun r hr => RequestCall.arrivesAs_parsed (hcalls r hr)

def localhost : InetAddress := ⟨(127, 0, 0, 1), 8080⟩

/-- A request with a default header, and one with a body that looks like a request. -/
def twoCalls : List RequestCall :=
  [{ defaultHeaders_ := AList.insert (text "X-Id") (text " 7") ∅
     method := text "GET", path := text "/a" },
    { method := text "POST", path := text "/b"
      body := text "GET / HTTP/1.1\r\n\r\n", contentType := text "text/plain" }]

/-- The two requests, cut behind the thirtieth byte. -/
theorem requests_arrive_once_in_order_two_calls :
    let stream := (twoCalls.map (RequestCall.built localhost.toIpPort)).flatten
    let conn := run (http_server.deliver http_server.okCore) (http_server.connected ())
      [stream.take 30, stream.drop 30]
    List.Forall₂ RequestCall.ArrivesAs twoCalls conn.requests ∧ conn.buf = [] := by
  refine requests_arrive_once_in_order http_server.okCore (fun _ _ => rfl) () localhost twoCalls ?_
    _ (by simp)
  intro r hr
  simp only [twoCalls, mem_cons, not_mem_nil, or_false] at hr
  rcases hr with rfl | rfl <;> constructor <;> decide +kernel

/-! ## Responses -/

/-- The `Content-Length` is the length of the body, or the body was never set. -/
def Framed (r : HttpResponse) : Prop :=
  r.headers.lookup (text "Content-Length") = some (decimal r.body.length) ∨
    r.headers.lookup (text "Content-Length") = none ∧ r.body = []

theorem framed_start : Framed {} := Or.inr ⟨rfl, rfl⟩

theorem framed_setBody (r : HttpResponse) (b : Bytes) : Framed (r.setBody b) :=
  Or.inl (AList.lookup_insert _)

variable {r : HttpResponse}

theorem framed_setStatusCode (h : Framed r) (code : HttpStatusCode) :
    Framed (r.setStatusCode code) := h

/-- A response that goes out as a header and a body, with the length of the body in
its only length header. -/
structure Plain (r : HttpResponse) : Prop where
  notChunked : r.chunked_ = false
  noFile : r.hasFileBody = false
  framed : Framed r
  message : NoBreak r.statusMessage
  headers : ∀ e ∈ r.headers.entries, FieldText (e.1, e.2)
  oneLength : ∀ e ∈ r.headers.entries,
    lower e.1 = text "content-length" → e.1 = text "Content-Length"
  size : (r.toHeader ++ r.body).length < 2 ^ 64

/-- What the client makes of the response. -/
def received (r : HttpResponse) : HttpClientResponse where
  statusCode := r.statusCode.toNat
  statusMessage := r.statusMessage
  headers := r.fields.foldl insertField ∅
  body := r.body
  success := true

theorem fields_plain (h : Plain r) :
    r.fields = r.headers.entries.map (fun e => (e.1, e.2)) ++
      [(text "Connection", if r.closeConnection then text "close" else text "keep-alive"),
        (text "Server", text "mymuduo-http/1.0")] := by
  simp [HttpResponse.fields, HttpResponse.sentHeaders, h.notChunked]

theorem fieldText_plain (h : Plain r) : ∀ field ∈ r.fields, FieldText field := by
  intro field hfield
  rw [fields_plain h] at hfield
  simp only [mem_append, mem_map, mem_cons, not_mem_nil, or_false] at hfield
  rcases hfield with ⟨e, he, rfl⟩ | rfl | rfl
  · exact h.headers e he
  · cases r.closeConnection <;> decide
  · decide

theorem length_field (h : Plain r) {field : Bytes × Bytes} (hfield : field ∈ r.fields)
    (hkey : lower field.1 = text "content-length") :
    r.headers.lookup (text "Content-Length") = some field.2 := by
  rw [fields_plain h] at hfield
  simp only [mem_append, mem_map, mem_cons, not_mem_nil, or_false] at hfield
  rcases hfield with ⟨⟨key, value⟩, he, rfl⟩ | rfl | rfl
  · have hname : key = text "Content-Length" := h.oneLength _ he hkey
    subst hname
    exact AList.mem_lookup_iff.mpr he
  · exact absurd hkey (by dsimp only; decide)
  · exact absurd hkey (by decide)

theorem contentLength_received (h : Plain r) :
    http_client.contentLength (received r) = r.body.length := by
  have hkey : lower (text "Content-Length") = text "content-length" := by decide
  have hsize := h.size
  rw [length_append] at hsize
  unfold http_client.contentLength
  rcases h.framed with hsome | ⟨hnone, hbody⟩
  · have hmem : (text "Content-Length", decimal r.body.length) ∈ r.fields := by
      rw [fields_plain h]
      exact mem_append_left _ (mem_map.mpr ⟨_, AList.mem_lookup_iff.mp hsome, rfl⟩)
    have hlookup : (received r).headers.lookup (text "content-length") =
        some (keptValue (decimal r.body.length)) := by
      refine lookup_insertFields ∅ ⟨_, hmem, hkey⟩ ?_
      intro field hfield hname
      have hvalue := length_field h hfield hname
      rw [hsome] at hvalue
      exact (Option.some.inj hvalue).symm
    rw [hlookup, keptValue_decimal]
    dsimp only
    rw [stoul_decimal (by omega)]
    rfl
  · have hlookup : (received r).headers.lookup (text "content-length") = none := by
      refine lookup_insertFields_of_absent ∅ ?_
      intro field hfield hname
      have hvalue := length_field h hfield hname
      rw [hnone] at hvalue
      cases hvalue
    rw [hlookup, hbody]
    rfl

theorem statusLine_line (h : Plain r) : IsLine r.statusLine := by
  unfold HttpResponse.statusLine
  refine ⟨by simp [text], ?_⟩
  simp only [mem_append, not_or]
  exact ⟨⟨⟨by decide, (noBreak_decimal _).1⟩, by decide⟩, h.message.1⟩

theorem nextResponse_sent (h : Plain r) :
    nextResponse (r.toHeader ++ r.body) = .complete (received r) [] := by
  have hcode : r.statusCode.toNat < 2 ^ 31 := by cases r.statusCode <;> decide
  have hversion : 32 ∉ text "HTTP/1.1" := by decide
  have hstatus := http_client.parseStatusLine_written hversion hcode r.statusMessage {}
  have hhead := http_client.parseHead_written (statusLine_line h).2 (fieldText_plain h) hstatus
  obtain ⟨hfind, htake, hdrop, hlen⟩ :=
    message_parts (statusLine_line h) (fieldText_plain h) r.body
  have hsize := h.size
  rw [HttpResponse.toHeader_append] at hsize ⊢
  rw [http_client.nextResponse_whole_iff]
  refine ⟨_, { received r with body := [], success := false }, hfind, ?_, hsize, ?_, ?_⟩
  · rw [htake]
    exact hhead
  · rw [hlen]
    exact congrArg _ (contentLength_received h)
  · have hlength : http_client.contentLength { received r with body := [], success := false } =
        r.body.length := contentLength_received h
    unfold substr
    rw [hlength, hdrop, take_length]
    split
    · rfl
    · have hbody : r.body = [] := eq_nil_of_length_eq_zero (by omega)
      simp [received, hbody]

/-- The response as a whole answer. -/
def answerOf (r : HttpResponse) (h : Plain r) : Answer where
  bytes := r.toHeader ++ r.body
  response := received r
  whole := nextResponse_sent h

/-- One delivery to the client. `none` is a loop that did not return. -/
def receive (c : Option Client) (piece : Bytes) : Option Client := c.bind (·.onMessage piece)

theorem takeResponses_waits {fuel : Nat} {c c' : Client}
    (h : Client.takeResponses fuel c = some c') : nextResponse c'.recvBuffer = .wait := by
  induction fuel generalizing c with
  | zero => cases h
  | succ fuel ih =>
    unfold Client.takeResponses at h
    split at h
    · rename_i hwait
      cases h
      exact hwait
    · exact ih h
    · exact ih h

/-- Answers in whatever pieces go to the promises in front of the queue, one each. -/
theorem run_receive_answers (pieces : List Bytes) (coming : List (Nat × Answer)) (ids : List Nat)
    {c : Client} (hwait : nextResponse c.recvBuffer = .wait)
    (hbytes : c.recvBuffer ++ pieces.flatten = coming.flatMap (fun p => p.2.bytes))
    (hqueue : c.pendingQueue = coming.map Prod.fst ++ ids) :
    ∃ c', run receive (some c) pieces = some c' ∧ c'.recvBuffer = [] ∧ c'.pendingQueue = ids ∧
      c'.fulfilled = c.fulfilled ++ coming.map (fun p => (p.1, p.2.response)) := by
  induction pieces generalizing c coming with
  | nil =>
    rw [flatten_nil, append_nil] at hbytes
    cases coming with
    | nil => exact ⟨c, rfl, hbytes, hqueue, by simp⟩
    | cons p coming =>
      -- a whole answer in the buffer would have been taken
      rw [hbytes, flatMap_cons, http_client.nextResponse_append p.2.whole] at hwait
      cases hwait
  | cons piece pieces ih =>
    have hbytes' : (c.recvBuffer ++ piece) ++ pieces.flatten =
        coming.flatMap (fun p => p.2.bytes) := by
      rw [append_assoc, ← flatten_cons, hbytes]
    obtain ⟨taken, left, c₁, hcoming, htake, hleft, hids, hfulfilled, -⟩ :=
      Client.takeResponses_answers coming (c := { c with recvBuffer := c.recvBuffer ++ piece })
        hbytes' hqueue (Nat.lt_succ_self _)
    obtain ⟨c', hrun, hbuf, hrest, hend⟩ := ih left (takeResponses_waits htake) hleft hids
    have hstep : receive (some c) piece = some c₁ := htake
    refine ⟨c', ?_, hbuf, hrest, ?_⟩
    · rw [run_cons, hstep, hrun]
    · rw [hend, hfulfilled, hcoming, map_append, append_assoc]

/-- The value has the status code, the status message and the body of the response. -/
def ReadAs (r : HttpResponse) (value : HttpClientResponse) : Prop :=
  value.success = true ∧ value.statusCode = r.statusCode.toNat ∧
    value.statusMessage = r.statusMessage ∧ value.body = r.body

/-- However the bytes of the responses are cut into deliveries, the promises in front
of the queue get them, one each and in order, and nothing stays in the buffer. -/
theorem responses_arrive_once_in_order (responses : List HttpResponse)
    (hplain : ∀ r ∈ responses, Plain r) (c : Client) (hempty : c.recvBuffer = [])
    (hqueue : responses.length ≤ c.pendingQueue.length) (pieces : List Bytes)
    (hpieces : pieces.flatten = responses.flatMap (fun r => r.toHeader ++ r.body)) :
    ∃ c' values, run receive (some c) pieces = some c' ∧
      c'.fulfilled = c.fulfilled ++ c.pendingQueue.zip values ∧
      List.Forall₂ ReadAs responses values ∧
      c'.pendingQueue = c.pendingQueue.drop responses.length ∧ c'.recvBuffer = [] := by
  obtain ⟨answers, hlength, hbytes, hvalues⟩ : ∃ answers : List Answer,
      answers.length = responses.length ∧
        answers.flatMap Answer.bytes = responses.flatMap (fun r => r.toHeader ++ r.body) ∧
        answers.map Answer.response = responses.map received := by
    refine ⟨responses.pmap answerOf hplain, length_pmap .., ?_, ?_⟩
    · rw [flatMap_def, flatMap_def, map_pmap]
      dsimp only [answerOf]
      rw [pmap_eq_map]
    · rw [map_pmap]
      dsimp only [answerOf]
      rw [pmap_eq_map]
  have hcoming : (c.pendingQueue.zip answers).flatMap (fun p => p.2.bytes) =
      answers.flatMap Answer.bytes := by
    have hsnd : (c.pendingQueue.zip answers).map Prod.snd = answers :=
      map_snd_zip (by omega)
    rw [← flatMap_map, hsnd]
  have hids : (c.pendingQueue.zip answers).map Prod.fst = c.pendingQueue.take responses.length := by
    rw [zip_eq_zip_take_min, hlength, min_eq_right hqueue,
      map_fst_zip (by rw [length_take, length_take]; omega)]
  obtain ⟨c', hrun, hbuf, hrest, hend⟩ := run_receive_answers pieces (c.pendingQueue.zip answers)
    (c.pendingQueue.drop responses.length) (by rw [hempty, http_client.nextResponse_nil])
    (by rw [hempty, nil_append, hpieces, hcoming, hbytes])
    (by rw [hids, take_append_drop])
  refine ⟨c', responses.map received, hrun, ?_, ?_, hrest, hbuf⟩
  · rw [hend, ← hvalues, zip_map_right]
    rfl
  · rw [forall₂_map_right_iff, forall₂_same]
    exact fun r _ => ⟨rfl, rfl, rfl, rfl⟩

/-- A response with a body that looks like a response, and one without a body. -/
def twoResponses : List HttpResponse :=
  [({} : HttpResponse).setText (text "HTTP/1.1 200 OK\r\n\r\n"),
    ({} : HttpResponse).setStatusCode .NO_CONTENT]

/-- The two responses, cut behind the twentieth byte, with three promises waiting. -/
theorem responses_arrive_once_in_order_two_responses :
    let stream := twoResponses.flatMap (fun r => r.toHeader ++ r.body)
    ∃ c' values, run receive (some { pendingQueue := [4, 5, 6] }) [stream.take 20, stream.drop 20] =
        some c' ∧
      c'.fulfilled = [4, 5, 6].zip values ∧ List.Forall₂ ReadAs twoResponses values ∧
      c'.pendingQueue = [6] ∧ c'.recvBuffer = [] := by
  refine responses_arrive_once_in_order twoResponses ?_ { pendingQueue := [4, 5, 6] } rfl
    (by decide) _ (by simp)
  intro r hr
  simp only [twoResponses, mem_cons, not_mem_nil, or_false] at hr
  rcases hr with rfl | rfl
  · exact ⟨rfl, rfl, framed_setBody _ _, by decide, by decide +kernel, by decide +kernel,
      by decide +kernel⟩
  · exact ⟨rfl, rfl, framed_setStatusCode framed_start _, by decide, by decide +kernel,
      by decide +kernel, by decide +kernel⟩

end mymuduo.http_delivery
