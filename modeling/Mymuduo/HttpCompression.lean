-- Compression against what a client makes of it (src/http/HttpCore.h,
-- src/http/GzipMiddleware.h). The code writes `Content-Encoding: gzip` over a
-- coding that the handler has listed, and it looks for the letters `gzip` in
-- `Accept-Encoding` without reading the weight behind them.
import Mymuduo.HttpRouting

open List bytes

namespace mymuduo.http_routing

open http_request http_response

/-! ## Header fields by name -/

/-- The values of all fields of this name, in whatever case the name is written. -/
def namedValues (name : Bytes) (headers : StringMap) : List Bytes :=
  (headers.entries.filter (fun e => lower e.1 = name)).map (fun e => e.2)

theorem filter_kerase_of_ne {name key : Bytes} (h : lower key ≠ name)
    (entries : List (Sigma fun _ : Bytes => Bytes)) :
    (entries.kerase key).filter (fun e => lower e.1 = name) =
      entries.filter (fun e => lower e.1 = name) := by
  induction entries with
  | nil => rfl
  | cons e entries ih =>
    by_cases hkey : key = e.1
    · rw [kerase_cons_eq hkey, filter_cons_of_neg]
      simpa [← hkey] using h
    · rw [kerase_cons_ne hkey, filter_cons, filter_cons, ih]

theorem namedValues_insert_of_ne {name key : Bytes} (h : lower key ≠ name) (value : Bytes)
    (headers : StringMap) :
    namedValues name (headers.insert key value) = namedValues name headers := by
  unfold namedValues
  rw [AList.entries_insert, filter_cons_of_neg (by simpa using h), filter_kerase_of_ne h]

theorem namedValues_insert {name key : Bytes} (h : lower key = name) (value : Bytes)
    (headers : StringMap) :
    namedValues name (headers.insert key value) =
      value :: namedValues name (headers.erase key) := by
  unfold namedValues
  rw [AList.entries_insert, filter_cons_of_pos (by simpa using h)]
  rfl

theorem erase_insert_of_ne {key other : Bytes} (h : other ≠ key) (value : Bytes)
    (headers : StringMap) :
    (headers.insert key value).erase other = (headers.erase other).insert key value := by
  apply AList.ext
  rw [AList.entries_insert]
  show List.kerase other (headers.insert key value).entries = _
  rw [AList.entries_insert, kerase_cons_ne h, kerase_comm]
  rfl

/-! ## Lists of codings -/

/-- Without the blanks and tabs at both ends. -/
def strip (s : Bytes) : Bytes :=
  (s.dropWhile (fun c => c = 32 || c = 9)).rdropWhile (fun c => c = 32 || c = 9)

/-- The parts between the separators, in lower case. -/
def parts (separator : UInt8) (value : Bytes) : List Bytes :=
  (value.splitOn separator).map (fun part => lower (strip part))

/-- The codings of the response in the order in which they were applied. -/
def codings (headers : StringMap) : List Bytes :=
  (namedValues (text "content-encoding") headers).flatMap
    (fun value => (parts 44 value).filter (· ≠ []))

/-- `0`, `0.`, `0.0` and so on. -/
def zeroWeight : Bytes → Bool
  | 48 :: [] => true
  | 48 :: 46 :: zeros => zeros.all (· = 48)
  | _ => false

/-- One element of `Accept-Encoding`: the coding and whether its weight is zero. -/
def acceptElement (element : Bytes) : Bytes × Bool :=
  match parts 59 element with
  | [] => ([], false)
  | coding :: params =>
    (coding, params.any (fun param => param.take 2 = text "q=" && zeroWeight (param.drop 2)))

/-- `Accept-Encoding` permits gzip: it is listed and never with the weight zero, or it
is not listed and `*` stands for it. Without the header every coding is permitted. -/
def permitsGzip (request : HttpRequest) : Bool :=
  match request.headers.lookup (text "accept-encoding") with
  | none => true
  | some value =>
    let elements := (value.splitOn 44).map acceptElement
    let listed := elements.filter (fun e => e.1 = text "gzip" || e.1 = text "x-gzip")
    if listed ≠ [] then listed.all (fun e => !e.2)
    else elements.any (fun e => e.1 = text "*" && !e.2)

/-! ## What a client obtains -/

/-- A client: how it undoes each content coding, and how it reads chunked text. -/
structure Client where
  undo : Bytes → Bytes → Bytes
  unchunk : Bytes → Bytes

section Compression

variable {σ : Type*} (client : Client) (core : HttpCore σ) (overTls : Bool)

/-- The bytes of the content as they go out. Only `HttpServer` sends a file. -/
def Client.payload (r : HttpResponse) : Bytes :=
  if r.hasFileBody && !overTls then (core.files.content r.bodyFileFd_.toNat).take r.bodyFileSize_
  else if r.chunked_ then client.unchunk r.tail
  else r.body

/-- The coding that was applied last is undone first. -/
def Client.undoAll (listed : List Bytes) (content : Bytes) : Bytes :=
  listed.foldr client.undo content

def Client.decoded (r : HttpResponse) : Bytes :=
  client.undoAll (codings r.headers) (client.payload core overTls r)

namespace HttpCore

/-- The tests of `postProcessResponse`, all passed. -/
def Compresses (request : HttpRequest) (r : HttpResponse) : Prop :=
  core.gzipEnabled_ = true ∧ core.gzipMinSize_ ≤ r.body.length ∧
    find (text "gzip") (request.getHeader (text "accept-encoding")) ≠ none ∧
    shouldCompress ((r.headers.lookup (text "Content-Type")).getD []) = true ∧
    core.compress r.body ≠ [] ∧ (core.compress r.body).length < r.body.length

instance (request : HttpRequest) (r : HttpResponse) : Decidable (core.Compresses request r) :=
  inferInstanceAs (Decidable (_ ∧ _))

def compressed (r : HttpResponse) : HttpResponse :=
  (({ r with body := core.compress r.body }.setContentLength
    (core.compress r.body).length).setHeader
    (text "Content-Encoding") (text "gzip")).setHeader (text "Vary") (text "Accept-Encoding")

theorem postProcessResponse_eq (request : HttpRequest) (r : HttpResponse) :
    core.postProcessResponse request r =
      if core.Compresses request r then core.compressed r else r := by
  unfold postProcessResponse
  by_cases hset : core.gzipEnabled_ = false ∨ r.body.length < core.gzipMinSize_
  · rw [if_pos hset, if_neg]
    rintro ⟨henabled, hsize, -⟩
    rcases hset with hset | hset
    · rw [henabled] at hset
      cases hset
    · omega
  have henabled : core.gzipEnabled_ = true := by simpa using fun h => hset (.inl h)
  have hsize : core.gzipMinSize_ ≤ r.body.length := Nat.le_of_not_lt fun h => hset (.inr h)
  rw [if_neg hset]
  by_cases haccept : find (text "gzip") (request.getHeader (text "accept-encoding")) = none
  · rw [if_pos haccept, if_neg (fun h => h.2.2.1 haccept)]
  rw [if_neg haccept]
  by_cases htype : shouldCompress ((r.headers.lookup (text "Content-Type")).getD []) = true
  · rw [if_neg (by simp [htype])]
    by_cases hsmall : core.compress r.body ≠ [] ∧ (core.compress r.body).length < r.body.length
    · have hall : core.Compresses request r := ⟨henabled, hsize, haccept, htype, hsmall⟩
      rw [if_pos hall]
      exact if_pos hsmall
    · have hnot : ¬core.Compresses request r := fun h => hsmall h.2.2.2.2
      rw [if_neg hnot]
      exact if_neg hsmall
  · rw [if_pos (by simpa using htype), if_neg (fun h => htype h.2.2.2.1)]

variable (r : HttpResponse)

theorem headers_compressed :
    (core.compressed r).headers =
      ((r.headers.insert (text "Content-Length") (decimal (core.compress r.body).length)).insert
        (text "Content-Encoding") (text "gzip")).insert (text "Vary")
          (text "Accept-Encoding") := rfl

theorem codings_compressed :
    codings (core.compressed r).headers =
      text "gzip" :: codings (r.headers.erase (text "Content-Encoding")) := by
  have hgzip : (parts 44 (text "gzip")).filter (· ≠ []) = [text "gzip"] := by decide
  unfold codings
  rw [headers_compressed, namedValues_insert_of_ne (by decide), namedValues_insert (by decide),
    erase_insert_of_ne (by decide), namedValues_insert_of_ne (by decide), flatMap_cons, hgzip]
  rfl

theorem contentLength_compressed :
    namedValues (text "content-length") (core.compressed r).headers =
      decimal (core.compressed r).body.length ::
        namedValues (text "content-length") (r.headers.erase (text "Content-Length")) := by
  rw [headers_compressed, namedValues_insert_of_ne (by decide),
    namedValues_insert_of_ne (by decide),
    namedValues_insert (by decide)]
  rfl

theorem lookup_contentLength_compressed :
    (core.compressed r).headers.lookup (text "Content-Length") =
      some (decimal (core.compressed r).body.length) := by
  rw [headers_compressed, AList.lookup_insert_ne (by decide), AList.lookup_insert_ne (by decide),
    AList.lookup_insert]
  rfl

theorem body_compressed_ne {request : HttpRequest} {r : HttpResponse}
    (h : core.Compresses request r) : (core.compressed r).body ≠ r.body := by
  intro heq
  have hlen : (core.compress r.body).length = r.body.length := congrArg List.length heq
  have hsmall := h.2.2.2.2.2
  omega

/-- The codings of the handler leave the body as it is, when the body is what goes
out. When a file or chunks go out, or a coding stands in another spelling, the two
readings of what does go out agree. -/
def CodingsKept (r : HttpResponse) : Prop :=
  let others := codings (r.headers.erase (text "Content-Encoding"))
  if r.hasFileBody = false ∧ r.chunked_ = false ∧ others = [] then
    client.undoAll (codings r.headers) r.body = r.body
  else
    client.undo (text "gzip") (client.undoAll others
      (client.payload core overTls { r with body := core.compress r.body })) =
      client.undoAll (codings r.headers) (client.payload core overTls r)

instance (r : HttpResponse) : Decidable (core.CodingsKept client overTls r) :=
  decidable_of_iff (if r.hasFileBody = false ∧ r.chunked_ = false ∧
      codings (r.headers.erase (text "Content-Encoding")) = [] then _ else _) Iff.rfl

/-- Compression does no harm: the request permits it, no length stands in another
spelling unless it is the right one, and the codings are kept. -/
def Harmless (request : HttpRequest) (r : HttpResponse) : Prop :=
  permitsGzip request = true ∧
    (∀ value ∈ namedValues (text "content-length") (r.headers.erase (text "Content-Length")),
      value = decimal (core.compress r.body).length) ∧
    core.CodingsKept client overTls r

theorem decoded_compressed :
    client.decoded core overTls (core.compressed r) =
      client.undo (text "gzip")
        (client.undoAll (codings (r.headers.erase (text "Content-Encoding")))
        (client.payload core overTls { r with body := core.compress r.body })) := by
  unfold Client.decoded
  rw [codings_compressed]
  rfl

variable {client core overTls}

/-- A client that reads gzip as the codec does gets the same bytes, exactly when the
codings are kept. -/
theorem decoded_compressed_eq_iff (hgzip : client.undo (text "gzip") = core.decompress)
    (hround : ∀ x, x ≠ [] → core.decompress (core.compress x) = x)
    {r : HttpResponse} (hbody : r.body ≠ []) :
    client.decoded core overTls (core.compressed r) = client.decoded core overTls r ↔
      core.CodingsKept client overTls r := by
  rw [decoded_compressed]
  unfold CodingsKept
  by_cases hplain : r.hasFileBody = false ∧ r.chunked_ = false ∧
      codings (r.headers.erase (text "Content-Encoding")) = []
  · rw [if_pos hplain]
    obtain ⟨hfile, hchunked, hothers⟩ := hplain
    have hpayload : ∀ body, client.payload core overTls { r with body := body } = body := by
      intro body
      have hfile' : ({ r with body := body } : HttpResponse).hasFileBody = false := hfile
      unfold Client.payload
      rw [hfile', Bool.false_and, if_neg Bool.false_ne_true, if_neg (by simp [hchunked])]
    have hgunzip : client.undo (text "gzip") (core.compress r.body) = r.body := by
      rw [hgzip, hround r.body hbody]
    have hread : client.decoded core overTls r = client.undoAll (codings r.headers) r.body :=
      congrArg (client.undoAll (codings r.headers)) (hpayload r.body)
    rw [hothers, hpayload, hread]
    show client.undo (text "gzip") (core.compress r.body) = _ ↔ _
    rw [hgunzip]
    exact eq_comm
  · rw [if_neg hplain]
    rfl

/-- Compression is transparent exactly when it is not done or does no harm. -/
theorem compression_transparent_iff (hgzip : client.undo (text "gzip") = core.decompress)
    (hround : ∀ x, x ≠ [] → core.decompress (core.compress x) = x)
    (request : HttpRequest) (response : HttpResponse) :
    (client.decoded core overTls (core.postProcessResponse request response) =
        client.decoded core overTls response ∧
      ((core.postProcessResponse request response).body ≠ response.body →
        permitsGzip request = true) ∧
      ((core.postProcessResponse request response).body ≠ response.body →
        (core.postProcessResponse request response).headers.lookup (text "Content-Length") =
            some (decimal (core.postProcessResponse request response).body.length) ∧
          ∀ value ∈ namedValues (text "content-length")
              (core.postProcessResponse request response).headers,
            value = decimal (core.postProcessResponse request response).body.length)) ↔
      (core.Compresses request response → core.Harmless client overTls request response) := by
  rw [postProcessResponse_eq]
  by_cases h : core.Compresses request response
  · have hne := body_compressed_ne core h
    have hbody : response.body ≠ [] := by
      intro hnil
      have hsmall := h.2.2.2.2.2
      rw [hnil] at hsmall
      exact absurd hsmall (Nat.not_lt_zero _)
    rw [if_pos h, decoded_compressed_eq_iff hgzip hround hbody, lookup_contentLength_compressed,
      contentLength_compressed]
    constructor
    · rintro ⟨hread, hpermits, hlength⟩ -
      exact ⟨hpermits hne, fun value hvalue => (hlength hne).2 value (mem_cons_of_mem _ hvalue),
        hread⟩
    · intro hharmless
      obtain ⟨hpermits, hlength, hread⟩ := hharmless h
      refine ⟨hread, fun _ => hpermits, fun _ => ⟨rfl, ?_⟩⟩
      intro value hvalue
      rcases mem_cons.mp hvalue with rfl | hvalue
      · rfl
      · exact hlength value hvalue
  · rw [if_neg h]
    exact ⟨fun _ hc => absurd hc h,
      fun _ => ⟨rfl, fun hb => absurd rfl hb, fun hb => absurd rfl hb⟩⟩

end HttpCore

end Compression

/-! ## A handler that compresses on its own -/

/-- A small codec: eight letters become four, and four become one byte. -/
def shortenLetters (data : Bytes) : Bytes :=
  if data = text "aaaaaaaa" then text "aaaa"
  else if data = text "aaaa" then [1]
  else 0 :: data

def restoreLetters (data : Bytes) : Bytes :=
  if data = text "aaaa" then text "aaaaaaaa"
  else if data = [1] then text "aaaa"
  else data.tail

theorem restoreLetters_shortenLetters (data : Bytes) :
    restoreLetters (shortenLetters data) = data := by
  unfold shortenLetters
  split
  · rename_i h
    rw [h]
    decide
  · split
    · rename_i h
      rw [h]
      decide
    · have hfour : (0 :: data : Bytes) ≠ text "aaaa" :=
        fun h => absurd (List.cons.inj h).1 (by decide)
      have hone : (0 :: data : Bytes) ≠ [1] := fun h => absurd (List.cons.inj h).1 (by decide)
      unfold restoreLetters
      rw [if_neg hfour, if_neg hone, tail_cons]

def gzipCore : HttpCore Unit where
  gzipEnabled_ := true
  gzipMinSize_ := 1
  files := ⟨fun _ => none, fun _ => none, fun _ => none, fun _ => []⟩
  compress := shortenLetters
  decompress := restoreLetters

def gzipClient : Client where
  undo coding := if coding = text "gzip" then restoreLetters else id
  unchunk := id

def acceptRequest (value : Bytes) : HttpRequest :=
  { headers := (∅ : StringMap).insert (text "accept-encoding") value }

def lettersResponse : HttpResponse := ({} : HttpResponse).setText (text "aaaaaaaa")

def codedResponse : HttpResponse :=
  (({} : HttpResponse).setText (shortenLetters (text "aaaaaaaa"))).setHeader
    (text "Content-Encoding") (text "gzip")

theorem compression_transparent_iff_letters :
    gzipCore.Compresses (acceptRequest (text "gzip")) lettersResponse ∧
      gzipClient.decoded gzipCore false
          (gzipCore.postProcessResponse (acceptRequest (text "gzip")) lettersResponse) =
        gzipClient.decoded gzipCore false lettersResponse :=
  ⟨by decide, ((@HttpCore.compression_transparent_iff Unit gzipClient gzipCore false rfl
    (fun x _ => restoreLetters_shortenLetters x) (acceptRequest (text "gzip")) lettersResponse).mpr
      (fun _ => ⟨by decide, by decide, by decide⟩)).1⟩

/-- The client undoes one of two compressions and is left with the compressed text; and
a request that refuses gzip gets it. -/
theorem coded_response_loses_its_coding :
    gzipClient.decoded gzipCore false codedResponse = text "aaaaaaaa" ∧
      gzipClient.decoded gzipCore false
          (gzipCore.postProcessResponse (acceptRequest (text "gzip")) codedResponse) = text "aaaa" ∧
      permitsGzip (acceptRequest (text "gzip;q=0, identity")) = false ∧
      (gzipCore.postProcessResponse (acceptRequest (text "gzip;q=0, identity"))
        lettersResponse).body =
        text "aaaa" := by
  refine ⟨?_, ?_, ?_, ?_⟩ <;> decide

end mymuduo.http_routing
