-- `HttpResponse` (src/http/HttpResponse.h): the parts of a response that the
-- server reads, and the bytes that it sends for them.
import Mymuduo.Chunks
import Mymuduo.HttpRequest

open List bytes

namespace mymuduo.http_response

open http_request (StringMap FieldText headerLine message message_eq_flatMap message_parts)

inductive HttpStatusCode
  | OK
  | CREATED
  | NO_CONTENT
  | MOVED_PERMANENTLY
  | FOUND
  | NOT_MODIFIED
  | BAD_REQUEST
  | UNAUTHORIZED
  | FORBIDDEN
  | NOT_FOUND
  | METHOD_NOT_ALLOWED
  | REQUEST_TIMEOUT
  | PAYLOAD_TOO_LARGE
  | TOO_MANY_REQUESTS
  | INTERNAL_SERVER_ERROR
  | BAD_GATEWAY
  | SERVICE_UNAVAILABLE
  | GATEWAY_TIMEOUT
  deriving DecidableEq, Repr

def HttpStatusCode.toNat : HttpStatusCode → Nat
  | OK => 200
  | CREATED => 201
  | NO_CONTENT => 204
  | MOVED_PERMANENTLY => 301
  | FOUND => 302
  | NOT_MODIFIED => 304
  | BAD_REQUEST => 400
  | UNAUTHORIZED => 401
  | FORBIDDEN => 403
  | NOT_FOUND => 404
  | METHOD_NOT_ALLOWED => 405
  | REQUEST_TIMEOUT => 408
  | PAYLOAD_TOO_LARGE => 413
  | TOO_MANY_REQUESTS => 429
  | INTERNAL_SERVER_ERROR => 500
  | BAD_GATEWAY => 502
  | SERVICE_UNAVAILABLE => 503
  | GATEWAY_TIMEOUT => 504

def HttpStatusCode.message : HttpStatusCode → Bytes
  | OK => text "OK"
  | CREATED => text "Created"
  | NO_CONTENT => text "No Content"
  | MOVED_PERMANENTLY => text "Moved Permanently"
  | FOUND => text "Found"
  | NOT_MODIFIED => text "Not Modified"
  | BAD_REQUEST => text "Bad Request"
  | UNAUTHORIZED => text "Unauthorized"
  | FORBIDDEN => text "Forbidden"
  | NOT_FOUND => text "Not Found"
  | METHOD_NOT_ALLOWED => text "Method Not Allowed"
  | REQUEST_TIMEOUT => text "Request Timeout"
  | PAYLOAD_TOO_LARGE => text "Payload Too Large"
  | TOO_MANY_REQUESTS => text "Too Many Requests"
  | INTERNAL_SERVER_ERROR => text "Internal Server Error"
  | BAD_GATEWAY => text "Bad Gateway"
  | SERVICE_UNAVAILABLE => text "Service Unavailable"
  | GATEWAY_TIMEOUT => text "Gateway Timeout"

structure HttpResponse where
  statusCode : HttpStatusCode := .OK
  statusMessage : Bytes := text "OK"
  headers : StringMap := ∅
  body : Bytes := []
  closeConnection : Bool := false
  chunked_ : Bool := false
  chunks_ : List Bytes := []
  bodyFileFd_ : Int := -1
  bodyFileSize_ : Nat := 0
  deferred : Bool := false
  deriving DecidableEq

namespace HttpResponse

def setStatusCode (r : HttpResponse) (code : HttpStatusCode) : HttpResponse :=
  { r with statusCode := code, statusMessage := code.message }

def setHeader (r : HttpResponse) (key value : Bytes) : HttpResponse :=
  { r with headers := r.headers.insert key value }

def setContentType (r : HttpResponse) (type : Bytes) : HttpResponse :=
  r.setHeader (text "Content-Type") type

def setContentLength (r : HttpResponse) (len : Nat) : HttpResponse :=
  r.setHeader (text "Content-Length") (decimal len)

def setBody (r : HttpResponse) (b : Bytes) : HttpResponse :=
  { r with body := b }.setContentLength b.length

/-- The file is sent behind the header; a body set before it is dropped. -/
def setFileBody (r : HttpResponse) (fd : Int) (size : Nat) : HttpResponse :=
  { r with bodyFileFd_ := fd, bodyFileSize_ := size, body := [] }.setContentLength size

def setJson (r : HttpResponse) (json : Bytes) : HttpResponse :=
  (r.setContentType (text "application/json")).setBody json

def setHtml (r : HttpResponse) (html : Bytes) : HttpResponse :=
  (r.setContentType (text "text/html; charset=utf-8")).setBody html

def setText (r : HttpResponse) (t : Bytes) : HttpResponse :=
  (r.setContentType (text "text/plain; charset=utf-8")).setBody t

def setChunked (r : HttpResponse) (enabled : Bool) : HttpResponse := { r with chunked_ := enabled }

/-- An empty chunk stands for the end. -/
def addChunk (r : HttpResponse) (data : Bytes) : HttpResponse :=
  { r with chunks_ := r.chunks_ ++ [data] }

/-- There is one `Set-Cookie` header, so a second cookie takes the place of the first. -/
def setCookie (r : HttpResponse) (name value : Bytes) (maxAge : Int) (path : Bytes)
    (httpOnly secure : Bool) : HttpResponse :=
  r.setHeader (text "Set-Cookie")
    (name ++ text "=" ++ value ++ text "; Path=" ++ path ++
      (if 0 ≤ maxAge then text "; Max-Age=" ++ decimal maxAge.toNat else []) ++
      (if httpOnly then text "; HttpOnly" else []) ++
      if secure then text "; Secure" else [])

/-- The factory `HttpResponse::json`: a new response. -/
def json (text : Bytes) : HttpResponse := (setStatusCode {} .OK).setJson text

def notFound (msg : Bytes) : HttpResponse :=
  (setStatusCode {} .NOT_FOUND).setText msg

def badRequest (msg : Bytes) : HttpResponse :=
  (setStatusCode {} .BAD_REQUEST).setText msg

def serverError (msg : Bytes) : HttpResponse :=
  (setStatusCode {} .INTERNAL_SERVER_ERROR).setText msg

def hasFileBody (r : HttpResponse) : Bool := 0 ≤ r.bodyFileFd_

def canSendIov (r : HttpResponse) : Bool := !r.chunked_

/-- One line for each header. A chunked response leaves its `Content-Length` out.
The map has no order of its own; the order of its entries stands for the order of
the iteration. -/
def headerLines (r : HttpResponse) : Bytes :=
  r.headers.entries.flatMap (fun e =>
    if r.chunked_ && e.1 = text "Content-Length" then []
    else e.1 ++ text ": " ++ e.2 ++ crlf)

def toHeader (r : HttpResponse) : Bytes :=
  text "HTTP/1.1 " ++ decimal r.statusCode.toNat ++ text " " ++ r.statusMessage ++ crlf ++
    r.headerLines ++
    (if r.chunked_ then text "Transfer-Encoding: chunked" ++ crlf else []) ++
    text "Connection: " ++ (if r.closeConnection then text "close" else text "keep-alive") ++
      crlf ++
    text "Server: mymuduo-http/1.0" ++ crlf ++ crlf

def chunkBytes (chunk : Bytes) : Bytes :=
  if chunk = [] then text "0" ++ crlf ++ crlf
  else hex chunk.length ++ crlf ++ chunk ++ crlf

def tail (r : HttpResponse) : Bytes :=
  if r.chunked_ && r.chunks_ ≠ [] then r.chunks_.flatMap chunkBytes else r.body

/-- The header part of `toString` is written out again in the source, in the words
of `toHeader`. -/
def toString (r : HttpResponse) : Bytes := r.toHeader ++ r.tail

theorem chunkBytes_eq (chunk : Bytes) : chunkBytes chunk = writeChunk chunk := by
  unfold chunkBytes writeChunk
  split
  · rename_i h
    subst h
    decide
  · simp only [append_assoc]

/-! ## The header as a message -/

def statusLine (r : HttpResponse) : Bytes :=
  text "HTTP/1.1 " ++ decimal r.statusCode.toNat ++ text " " ++ r.statusMessage

/-- The headers that go out from the map. -/
def sentHeaders (r : HttpResponse) : List (Bytes × Bytes) :=
  (r.headers.entries.filter (fun e => !(r.chunked_ && e.1 = text "Content-Length"))).map
    (fun e => (e.1, e.2))

def fields (r : HttpResponse) : List (Bytes × Bytes) :=
  r.sentHeaders ++ (if r.chunked_ then [(text "Transfer-Encoding", text "chunked")] else []) ++
    [(text "Connection", if r.closeConnection then text "close" else text "keep-alive"),
      (text "Server", text "mymuduo-http/1.0")]

theorem headerLines_eq (r : HttpResponse) :
    r.headerLines = r.sentHeaders.flatMap (fun field => headerLine field ++ crlf) := by
  unfold headerLines sentHeaders headerLine
  induction r.headers.entries with
  | nil => rfl
  | cons e entries ih =>
    rw [flatMap_cons, ih, filter_cons]
    cases (r.chunked_ && decide (e.1 = text "Content-Length")) <;> simp

theorem toHeader_append (r : HttpResponse) (body : Bytes) :
    r.toHeader ++ body = message r.statusLine r.fields body := by
  have hchunked : headerLine (text "Transfer-Encoding", text "chunked") =
      text "Transfer-Encoding: chunked" := by decide
  have hserver : headerLine (text "Server", text "mymuduo-http/1.0") =
      text "Server: mymuduo-http/1.0" := by decide
  have hconnection :
      ∀ value, headerLine (text "Connection", value) = text "Connection: " ++ value :=
    fun _ => rfl
  rw [message_eq_flatMap]
  unfold toHeader statusLine fields
  rw [headerLines_eq, flatMap_append, flatMap_append]
  cases r.chunked_ <;>
    simp only [flatMap_cons, flatMap_nil, hchunked, hserver, hconnection,
      append_assoc, nil_append, if_true, if_false, Bool.false_eq_true]

/-! ## A body in chunks -/

theorem tail_chunked {r : HttpResponse} (h : r.chunked_ = true) (hne : r.chunks_ ≠ []) :
    r.tail = r.chunks_.flatMap writeChunk := by
  have hwrite : chunkBytes = writeChunk := funext chunkBytes_eq
  unfold tail
  rw [hwrite, if_pos (by simp [h, hne])]

theorem not_contentLength_of_mem_fields {r : HttpResponse} (h : r.chunked_ = true)
    {field : Bytes × Bytes} (hfield : field ∈ r.fields) : field.1 ≠ text "Content-Length" := by
  have hfixed : text "Transfer-Encoding" ≠ text "Content-Length" ∧
      text "Connection" ≠ text "Content-Length" ∧ text "Server" ≠ text "Content-Length" := by
    decide
  unfold fields sentHeaders at hfield
  rw [h, if_pos rfl] at hfield
  simp only [mem_append, mem_map, mem_filter, mem_cons, not_mem_nil, or_false] at hfield
  rcases hfield with (⟨e, ⟨-, he⟩, rfl⟩ | rfl) | rfl | rfl
  · simpa using he
  · exact hfixed.1
  · exact hfixed.2.1
  · exact hfixed.2.2

/-- The body of a chunked response whose chunks are not empty up to the last one, in whatever
order the response was put together: the decoder gives the chunks in a row and leaves nothing.
The header has no field of `setContentLength`, and where its lines have no breaks of their own
the body is what follows the first blank line. -/
theorem chunked_bodies_decode_back {r : HttpResponse} (h : r.chunked_ = true) {chunks : List Bytes}
    (hchunks : ∀ chunk ∈ chunks, chunk ≠ []) (hr : r.chunks_ = chunks ++ [[]]) :
    ∃ body, r.toString = r.toHeader ++ body ∧ decodeChunked body = some (chunks.flatten, []) ∧
      r.toString = message r.statusLine r.fields body ∧
      (∀ field ∈ r.fields, field.1 ≠ text "Content-Length") ∧
      (IsLine r.statusLine → (∀ field ∈ r.fields, FieldText field) →
        (find (text "\r\n\r\n") r.toString).map (fun i => r.toString.drop (i + 4)) =
          some body) := by
  have hbody : r.tail = (chunks ++ [[]]).flatMap writeChunk := by
    rw [tail_chunked h (by simp [hr]), hr]
  have hmessage : r.toString = message r.statusLine r.fields r.tail := by
    rw [toString, toHeader_append]
  refine ⟨r.tail, rfl, ?_, hmessage, fun field => not_contentLength_of_mem_fields h, ?_⟩
  · rw [hbody]
    exact decodeChunked_written hchunks
  · intro hline hfields
    obtain ⟨hfind, -, hdrop, -⟩ := message_parts hline hfields r.tail
    rw [hmessage, hfind, Option.map_some, hdrop]

/-- A response with a length, and with a chunk that looks like the end of a body. -/
def endMark : HttpResponse :=
  (((({} : HttpResponse).setContentLength 9).setChunked true).addChunk (text "0\r\n\r\n")).addChunk
    []

theorem chunked_bodies_decode_back_endMark :
    ∃ body, endMark.toString = endMark.toHeader ++ body ∧
      decodeChunked body = some (text "0\r\n\r\n", []) := by
  have hchunks : ∀ chunk ∈ [text "0\r\n\r\n"], chunk ≠ [] := by decide
  obtain ⟨body, hsplit, hdecoded, -⟩ := chunked_bodies_decode_back (r := endMark) rfl hchunks rfl
  exact ⟨body, hsplit, hdecoded⟩

end HttpResponse

end mymuduo.http_response
