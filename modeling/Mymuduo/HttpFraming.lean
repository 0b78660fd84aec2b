-- How a response says where its body ends: by the length of the body, or by a row
-- of chunks that ends in an empty one. Which one it is depends on the setters that
-- the handler calls, and some rows of setters give neither.
import Mymuduo.HttpRouting

open List bytes

namespace mymuduo.http_framing

open http_request http_response http_server
open http_routing (HttpCore)

/-! ## Setters -/

/-- The setters of a response. The two headers that frame the body are not set by name. -/
inductive Setter
  | setStatusCode (code : HttpStatusCode)
  | setBody (b : Bytes)
  | setText (t : Bytes)
  | setJson (json : Bytes)
  | setHtml (html : Bytes)
  | setChunked (enabled : Bool)
  | addChunk (data : Bytes)
  | setCookie (name value : Bytes) (maxAge : Int) (path : Bytes) (httpOnly secure : Bool)
  | setHeader (key value : Bytes)
      (other : lower key ≠ text "content-length" ∧ lower key ≠ text "transfer-encoding")

def Setter.apply (r : HttpResponse) : Setter → HttpResponse
  | .setStatusCode code => r.setStatusCode code
  | .setBody b => r.setBody b
  | .setText t => r.setText t
  | .setJson json => r.setJson json
  | .setHtml html => r.setHtml html
  | .setChunked enabled => r.setChunked enabled
  | .addChunk data => r.addChunk data
  | .setCookie name value maxAge path httpOnly secure =>
    r.setCookie name value maxAge path httpOnly secure
  | .setHeader key value _ => r.setHeader key value

/-- What a row of setters says about the body: the last word on chunks, the chunks that
were added, and the last body that was set. -/
structure Outline where
  chunked : Bool := false
  chunks : List Bytes := []
  body : Option Bytes := none
  deriving DecidableEq

def Outline.note (o : Outline) : Setter → Outline
  | .setBody b => { o with body := some b }
  | .setText t => { o with body := some t }
  | .setJson json => { o with body := some json }
  | .setHtml html => { o with body := some html }
  | .setChunked enabled => { o with chunked := enabled }
  | .addChunk data => { o with chunks := o.chunks ++ [data] }
  | _ => o

def outline (setters : List Setter) : Outline := setters.foldl Outline.note {}

/-! ## Framing -/

/-- The fields give the length of the body. -/
def LengthDelimited (fields : List (Bytes × Bytes)) (body : Bytes) : Prop :=
  ∃ field ∈ fields, lower field.1 = text "content-length" ∧ field.2 = decimal body.length

/-- The fields announce chunks, and the body is a row of them up to its end. -/
def ChunkDelimited (fields : List (Bytes × Bytes)) (body : Bytes) : Prop :=
  (∃ field ∈ fields, lower field.1 = text "transfer-encoding" ∧ field.2 = text "chunked") ∧
    WellChunked body

/-- The setters give the response an end. A response in chunks needs one empty chunk,
as its last one; without any chunk its body must be a row of chunks itself. Any other
response needs a body. -/
def Delimits (o : Outline) (sentBody : Bytes) : Prop :=
  if o.chunked then
    if o.chunks = [] then WellChunked sentBody
    else o.chunks.getLast? = some [] ∧ [] ∉ o.chunks.dropLast
  else o.body ≠ none

/-- The response is the one that the setters of the outline made. -/
structure Follows (r : HttpResponse) (o : Outline) : Prop where
  chunked : r.chunked_ = o.chunked
  chunks : r.chunks_ = o.chunks
  noFile : r.hasFileBody = false
  unset : o.body = none → r.body = []
  length : r.headers.lookup (text "Content-Length") =
    if o.body = none then none else some (decimal r.body.length)
  oneLength : ∀ key ∈ r.headers, lower key = text "content-length" → key = text "Content-Length"
  noCoding : ∀ key ∈ r.headers, lower key ≠ text "transfer-encoding"

theorem follows_start : Follows {} {} :=
  ⟨rfl, rfl, rfl, fun _ => rfl, rfl, by simp, by simp⟩

variable {r : HttpResponse} {o : Outline}

theorem follows_setHeader (h : Follows r o) {key : Bytes}
    (hlength : lower key ≠ text "content-length") (hcoding : lower key ≠ text "transfer-encoding")
    (value : Bytes) : Follows (r.setHeader key value) o := by
  obtain ⟨hchunked, hchunks, hfile, hunset, hlen, hone, hno⟩ := h
  have hkey : text "Content-Length" ≠ key := by
    rintro rfl
    exact hlength (by decide)
  refine ⟨hchunked, hchunks, hfile, hunset, ?_, ?_, ?_⟩
  · unfold HttpResponse.setHeader
    rw [AList.lookup_insert_ne hkey]
    exact hlen
  · intro k hk hlower
    rcases (AList.mem_insert _).mp hk with rfl | hk
    · exact absurd hlower hlength
    · exact hone k hk hlower
  · intro k hk
    rcases (AList.mem_insert _).mp hk with rfl | hk
    · exact hcoding
    · exact hno k hk

theorem follows_setBody (h : Follows r o) (b : Bytes) :
    Follows (r.setBody b) { o with body := some b } := by
  obtain ⟨hchunked, hchunks, hfile, -, -, hone, hno⟩ := h
  refine ⟨hchunked, hchunks, hfile, by simp, ?_, ?_, ?_⟩
  · exact AList.lookup_insert _
  · intro k hk hlower
    rcases (AList.mem_insert _).mp hk with rfl | hk
    · rfl
    · exact hone k hk hlower
  · intro k hk
    rcases (AList.mem_insert _).mp hk with rfl | hk
    · decide
    · exact hno k hk

theorem follows_apply (h : Follows r o) (s : Setter) : Follows (s.apply r) (o.note s) := by
  have hbody : ∀ type b, Follows ((r.setContentType type).setBody b) { o with body := some b } :=
    fun type b => follows_setBody (follows_setHeader h (by decide) (by decide) type) b
  cases s with
  | setStatusCode code => exact ⟨h.1, h.2, h.3, h.4, h.5, h.6, h.7⟩
  | setBody b => exact follows_setBody h b
  | setText t => exact hbody _ t
  | setJson json => exact hbody _ json
  | setHtml html => exact hbody _ html
  | setChunked enabled => exact ⟨rfl, h.2, h.3, h.4, h.5, h.6, h.7⟩
  | addChunk data => exact ⟨h.1, congrArg (· ++ [data]) h.2, h.3, h.4, h.5, h.6, h.7⟩
  | setCookie name value maxAge path httpOnly secure =>
    exact follows_setHeader h (by decide) (by decide) _
  | setHeader key value other => exact follows_setHeader h other.1 other.2 value

theorem follows_foldl (setters : List Setter) (h : Follows r o) :
    Follows (setters.foldl Setter.apply r) (setters.foldl Outline.note o) := by
  induction setters generalizing r o with
  | nil => exact h
  | cons s setters ih => exact ih (follows_apply h s)

/-- Compression puts a shorter body in only when there is one, and sets its length. -/
theorem follows_postProcessResponse {σ : Type*} (core : HttpCore σ) (request : HttpRequest)
    (h : Follows r o) : Follows (core.postProcessResponse request r) o := by
  unfold HttpCore.postProcessResponse
  split
  · exact h
  split
  · exact h
  split
  · exact h
  dsimp only
  split
  · rename_i hshorter
    have hset : o.body ≠ none := by
      intro hnone
      rw [h.unset hnone] at hshorter
      simp at hshorter
    have hnew : Follows (({ r with body := core.compress r.body } : HttpResponse).setContentLength
        (core.compress r.body).length) o := by
      have hbody := follows_setBody h (core.compress r.body)
      refine ⟨h.1, h.2, h.3, fun hnone => absurd hnone hset, ?_, hbody.6, hbody.7⟩
      rw [if_neg hset]
      exact AList.lookup_insert _
    refine follows_setHeader (follows_setHeader hnew ?_ ?_ _) ?_ ?_ _ <;> decide
  · exact h

/-! ## The law -/

theorem mem_fields {field : Bytes × Bytes} (h : field ∈ r.fields) :
    (⟨field.1, field.2⟩ ∈ r.headers.entries ∧
        ¬(r.chunked_ = true ∧ field.1 = text "Content-Length")) ∨
      (r.chunked_ = true ∧ field = (text "Transfer-Encoding", text "chunked")) ∨
      field.1 = text "Connection" ∨ field.1 = text "Server" := by
  unfold HttpResponse.fields HttpResponse.sentHeaders at h
  simp only [mem_append, mem_map, mem_filter, mem_cons, not_mem_nil, or_false] at h
  rcases h with (⟨e, ⟨he, hkeep⟩, rfl⟩ | h) | rfl | rfl
  · refine Or.inl ⟨he, ?_⟩
    rintro ⟨hchunked, hname⟩
    dsimp only at hname
    simp [hchunked, hname] at hkeep
  · split at h
    · rename_i hchunked
      exact Or.inr (Or.inl ⟨hchunked, mem_singleton.mp h⟩)
    · cases h
  · exact Or.inr (Or.inr (Or.inl rfl))
  · exact Or.inr (Or.inr (Or.inr rfl))

/-- The length of the body is in the header unless the response goes out in chunks or
has no body. -/
theorem lengthDelimited_iff (h : Follows r o) :
    LengthDelimited r.fields r.tail ↔ o.chunked = false ∧ o.body ≠ none := by
  constructor
  · rintro ⟨field, hfield, hkey, -⟩
    rcases mem_fields hfield with ⟨hentry, hkeep⟩ | ⟨-, rfl⟩ | hname | hname
    · have hname : field.1 = text "Content-Length" :=
        h.oneLength field.1 (AList.mem_keys.mpr (mem_map_of_mem hentry)) hkey
      have hlookup : r.headers.lookup (text "Content-Length") = some field.2 :=
        AList.mem_lookup_iff.mpr (hname ▸ hentry)
      refine ⟨?_, ?_⟩
      · rw [← h.chunked, ← Bool.not_eq_true]
        exact fun hchunked => hkeep ⟨hchunked, hname⟩
      · intro hnone
        rw [h.length, if_pos hnone] at hlookup
        cases hlookup
    · exact absurd hkey (by decide)
    · exact absurd hkey (by rw [hname]; decide)
    · exact absurd hkey (by rw [hname]; decide)
  · rintro ⟨hchunked, hbody⟩
    have hplain : r.chunked_ = false := h.chunked.trans hchunked
    have hlookup := h.length
    rw [if_neg hbody] at hlookup
    refine ⟨(text "Content-Length", decimal r.body.length), ?_, by dsimp only; decide, ?_⟩
    · simp [HttpResponse.fields, HttpResponse.sentHeaders, hplain, AList.mem_lookup_iff.mp hlookup]
    · simp [HttpResponse.tail, hplain]

theorem chunkDelimited_iff (h : Follows r o) :
    ChunkDelimited r.fields r.tail ↔ o.chunked = true ∧ Delimits o r.body := by
  have hannounced : (∃ field ∈ r.fields,
      lower field.1 = text "transfer-encoding" ∧ field.2 = text "chunked") ↔ o.chunked = true := by
    constructor
    · rintro ⟨field, hfield, hkey, -⟩
      rcases mem_fields hfield with ⟨hentry, -⟩ | ⟨hchunked, -⟩ | hname | hname
      · exact absurd hkey (h.noCoding field.1 (AList.mem_keys.mpr (mem_map_of_mem hentry)))
      · exact h.chunked ▸ hchunked
      · exact absurd hkey (by rw [hname]; decide)
      · exact absurd hkey (by rw [hname]; decide)
    · intro hchunked
      refine ⟨(text "Transfer-Encoding", text "chunked"), ?_, by decide, rfl⟩
      simp [HttpResponse.fields, h.chunked, hchunked]
  have hwrite : HttpResponse.chunkBytes = writeChunk := funext HttpResponse.chunkBytes_eq
  unfold ChunkDelimited
  rw [hannounced]
  refine and_congr_right (fun hchunked => ?_)
  unfold Delimits HttpResponse.tail
  rw [if_pos hchunked, h.chunked, h.chunks]
  by_cases hnone : o.chunks = []
  · simp [hnone]
  · rw [if_neg hnone, ← wellChunked_written_iff]
    simp [hchunked, hnone, hwrite]

/-- Whatever setters a handler calls, the server sends a header and a tail, and they
delimit the response exactly when the setters do. -/
theorem responses_delimit_themselves_iff {σ : Type*} (core : HttpCore σ) (app : σ)
    (request : HttpRequest) (setters : List Setter)
    (hsetters : (core.handleRequest request {} app).1 = setters.foldl Setter.apply {}) :
    (∀ content, (respond (outgoing core.toCore app request)).flatMap (Call.bytes content) =
        message (outgoing core.toCore app request).statusLine
          (outgoing core.toCore app request).fields (outgoing core.toCore app request).tail) ∧
      ((LengthDelimited (outgoing core.toCore app request).fields
            (outgoing core.toCore app request).tail ∨
          ChunkDelimited (outgoing core.toCore app request).fields
            (outgoing core.toCore app request).tail) ↔
        Delimits (outline setters)
          (core.postProcessResponse request (setters.foldl Setter.apply {})).body) := by
  have hmade := follows_postProcessResponse core request (follows_foldl setters follows_start)
  have hout : outgoing core.toCore app request =
      { core.postProcessResponse request (setters.foldl Setter.apply {}) with
        closeConnection := closes request } := by
    unfold outgoing HttpCore.toCore
    dsimp only
    rw [hsetters]
  have hfollows : Follows (outgoing core.toCore app request) (outline setters) := by
    rw [hout]
    exact ⟨hmade.1, hmade.2, hmade.3, hmade.4, hmade.5, hmade.6, hmade.7⟩
  have hbody : (outgoing core.toCore app request).body =
      (core.postProcessResponse request (setters.foldl Setter.apply {})).body := by rw [hout]
  refine ⟨fun content => ?_, ?_⟩
  · rw [respond_bytes content hfollows.noFile, HttpResponse.toHeader_append]
  · rw [lengthDelimited_iff hfollows, chunkDelimited_iff hfollows, hbody]
    cases hchunked : (outline setters).chunked with
    | false => simp [Delimits, hchunked]
    | true => simp

/-- A core with one handler, which calls these setters for every request. -/
def settersCore (setters : List Setter) : HttpCore Unit where
  exactRoutes_ _ :=
    some (fun _ => some (fun _ response app => (setters.foldl Setter.apply response, app)))
  files :=
    { realpath := fun _ => none, openFile := fun _ => none, fstat := fun _ => none
      content := fun _ => [] }
  compress _ := []
  decompress _ := []

/-- Two chunks and the empty one. -/
theorem responses_delimit_themselves_two_chunks :
    let response := outgoing (settersCore [.setChunked true, .addChunk (text "hello"),
      .addChunk (text "\r\n0"), .addChunk []]).toCore () { method := .GET }
    LengthDelimited response.fields response.tail ∨ ChunkDelimited response.fields response.tail :=
  (responses_delimit_themselves_iff (settersCore _) () { method := .GET } _ rfl).2.mpr
    ⟨rfl, by decide⟩

/-- A handler that sets nothing: no length and no chunks are announced. -/
theorem a_response_without_a_body_does_not_delimit_itself :
    let response := outgoing (settersCore []).toCore () { method := .GET, version := .HTTP_11 }
    closes { method := .GET, version := .HTTP_11 } = false ∧
      ¬(LengthDelimited response.fields response.tail ∨
        ChunkDelimited response.fields response.tail) := by
  refine ⟨by decide, ?_⟩
  rintro (h | ⟨h, -⟩)
  · unfold LengthDelimited at h
    revert h
    decide +kernel
  · revert h
    decide +kernel

end mymuduo.http_framing
