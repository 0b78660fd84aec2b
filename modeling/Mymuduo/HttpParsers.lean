-- The two overloads of `HttpCore::parseRequest` (src/http/HttpCore.h) with the
-- input that each consumes. The plain path reads through the pointers of a
-- `Buffer`, the TLS path reads a string and erases its front.
import Mymuduo.Buffer
import Mymuduo.HttpCore

open bytes vectors words

namespace mymuduo.http_core

open buffer http_request
open buffer.Buffer (readableBytes_eq length_readable readFrom_readable retrieve_keeps)

/-! ## The parsers -/

/-- `ParseResult`, where `Complete` comes with the request that was filled in. -/
inductive Outcome
  | complete (request : HttpRequest)
  | incomplete
  | error
  deriving DecidableEq

def Outcome.isComplete : Outcome → Bool
  | .complete _ => true
  | _ => false

section Parsers

-- `GzipCodec::decompress`
variable (decompress : Bytes → Bytes)

/-- `parseRequest(Buffer*, HttpRequest&)`: the result and the buffer behind the
call. A read through `peek()` outside the vector is a fault. -/
def parseBuffer (buf : Buffer) (request : HttpRequest) : Except Fault (Outcome × Buffer) := do
  let len := buf.readableBytes
  let data ← readFrom buf.buffer_ buf.readerIndex_ len
  match find (text "\r\n\r\n") data with
  | none => return (if kMaxRequestLine < len then .error else .incomplete, buf)
  | some headerEnd =>
    let headerLen := headerEnd + 4
    let header ← readFrom buf.buffer_ buf.readerIndex_ (headerLen - 4)
    match parseHeader header request with
    | none => return (.error, buf)
    | some request =>
      let contentLen := request.contentLength
      if kMaxBodySize < contentLen then return (.error, buf)
      else if len < add64 headerLen contentLen then return (.incomplete, buf)
      else
        let buf := buf.retrieve headerLen
        if 0 < contentLen then
          let body ← readFrom buf.buffer_ buf.readerIndex_ contentLen
          let request := { request with body := body }
          return (.complete (maybeDecompressRequestBody decompress request),
            buf.retrieve contentLen)
        else
          return (.complete (maybeDecompressRequestBody decompress request), buf)

/-- `parseRequest(std::string&, HttpRequest&)`: the result and the string behind
the call. -/
def parseText (data : Bytes) (request : HttpRequest) : Outcome × Bytes :=
  match parseRequestString decompress data request with
  | .complete request rest => (.complete request, rest)
  | .incomplete => (.incomplete, data)
  | .error => (.error, data)

/-! ## What a parser leaves alone -/

theorem parseText_keeps (data : Bytes) (request : HttpRequest)
    (h : (parseText decompress data request).1.isComplete = false) :
    (parseText decompress data request).2 = data := by
  unfold parseText at h ⊢
  split at h
  · cases h
  · rfl
  · rfl

theorem totalLen_eq {data : Bytes} {headerEnd contentLen : Nat}
    (hfind : find (text "\r\n\r\n") data = some headerEnd) (hdata : data.length < 2 ^ 63)
    (hmax : ¬kMaxBodySize < contentLen) :
    headerEnd + 4 ≤ data.length ∧
      add64 (headerEnd + 4) contentLen = headerEnd + 4 + contentLen := by
  have hend := find_add_length_le hfind
  refine ⟨hend, add64_eq ?_⟩
  unfold kMaxBodySize at hmax
  omega

/-! ## The two parsers agree -/

/-- A buffer parses as its readable bytes do: no read leaves the vector, the result
is the same, and what stays readable is what stays in the string. -/
theorem parseBuffer_eq {buf : Buffer} (h : buf.WellFormed) (request : HttpRequest) :
    ∃ buf', parseBuffer decompress buf request =
        .ok ((parseText decompress buf.readable request).1, buf') ∧
      buf'.WellFormed ∧ buf'.readable = (parseText decompress buf.readable request).2 ∧
      ((parseText decompress buf.readable request).1.isComplete = false → buf' = buf) := by
  have hlen : buf.readableBytes = buf.readable.length := by
    rw [readableBytes_eq h, length_readable h]
  have hsize : buf.readable.length < 2 ^ 63 := by
    have := h.lt
    have := h.inside
    rw [length_readable h]
    omega
  unfold parseBuffer parseText parseRequestString
  dsimp only [bind, Except.bind]
  rw [readFrom_readable h (le_refl _), hlen, List.take_length]
  dsimp only
  cases hfind : find (text "\r\n\r\n") buf.readable with
  | none =>
    dsimp only
    split <;> exact ⟨buf, rfl, h, rfl, fun _ => rfl⟩
  | some headerEnd =>
    have hend := find_add_length_le hfind
    have hheader : substr buf.readable 0 headerEnd = buf.readable.take headerEnd := by
      simp [substr]
    dsimp only
    rw [Nat.add_sub_cancel, readFrom_readable h (by omega), hheader]
    dsimp only
    cases hparse : parseHeader (buf.readable.take headerEnd) request with
    | none => exact ⟨buf, rfl, h, rfl, fun _ => rfl⟩
    | some parsed =>
      dsimp only
      by_cases hmax : kMaxBodySize < parsed.contentLength
      · rw [if_pos hmax, if_pos hmax]
        exact ⟨buf, rfl, h, rfl, fun _ => rfl⟩
      · rw [if_neg hmax, if_neg hmax, (totalLen_eq hfind hsize hmax).2]
        by_cases hpart : buf.readable.length < headerEnd + 4 + parsed.contentLength
        · rw [if_pos hpart, if_pos hpart]
          exact ⟨buf, rfl, h, rfl, fun _ => rfl⟩
        · rw [if_neg hpart, if_neg hpart]
          obtain ⟨hwell, hrest⟩ := retrieve_keeps h (headerEnd + 4)
          by_cases hbody : 0 < parsed.contentLength
          · obtain ⟨hwell', hrest'⟩ := retrieve_keeps hwell parsed.contentLength
            have hinside : parsed.contentLength ≤ (buf.retrieve (headerEnd + 4)).readableBytes := by
              rw [readableBytes_eq hwell, ← length_readable hwell, hrest, List.length_drop]
              omega
            rw [if_pos hbody, if_pos hbody, readFrom_readable hwell hinside, hrest]
            refine ⟨_, rfl, hwell', ?_, fun hc => by cases hc⟩
            rw [hrest', hrest, List.drop_drop]
          · have hzero : parsed.contentLength = 0 := by omega
            rw [if_neg hbody, if_neg hbody]
            refine ⟨_, rfl, hwell, ?_, fun hc => by cases hc⟩
            rw [hrest, hzero, Nat.add_zero]

/-- For every content of the buffer, the two parsers give the same result, with the
same request and the same remaining bytes when it is complete. Otherwise both leave
their input as it was. -/
theorem parsers_agree {buf : Buffer} (h : buf.WellFormed) {data : Bytes}
    (hdata : buf.readable = data) (request : HttpRequest) :
    ∃ outcome buf' data', parseBuffer decompress buf request = .ok (outcome, buf') ∧
      parseText decompress data request = (outcome, data') ∧ buf'.readable = data' ∧
      (outcome.isComplete = false → buf' = buf ∧ data' = data) := by
  obtain ⟨buf', hbuf, -, hrest, hkeep⟩ := parseBuffer_eq decompress h request
  rw [hdata] at hbuf hrest hkeep
  refine ⟨_, buf', _, hbuf, rfl, hrest, ?_⟩
  intro hpart
  exact ⟨hkeep hpart, parseText_keeps decompress data request hpart⟩

/-- A POST with its body and one byte of the next request, behind the spare front. -/
def postAndOne : Buffer where
  buffer_ := List.replicate 8 0 ++ text "POST / HTTP/1.1\r\nContent-Length: 2\r\n\r\nhiG" ++ [0]
  readerIndex_ := 8
  writerIndex_ := 49

theorem parsers_agree_postAndOne :
    postAndOne.WellFormed ∧
      ∃ outcome buf' data', parseBuffer id postAndOne {} = .ok (outcome, buf') ∧
        parseText id (text "POST / HTTP/1.1\r\nContent-Length: 2\r\n\r\nhiG") {} =
          (outcome, data') ∧ buf'.readable = data' ∧
        (outcome.isComplete = false → buf' = postAndOne ∧
          data' = text "POST / HTTP/1.1\r\nContent-Length: 2\r\n\r\nhiG") := by
  have hwell : postAndOne.WellFormed := ⟨by decide, by decide, by decide +kernel, by decide +kernel⟩
  exact ⟨hwell, parsers_agree id hwell (by decide +kernel) {}⟩

/-! ## The buffer below the parser -/

/-- The result of `parseRequest`, from an outcome and the bytes that stay. -/
def Outcome.result (outcome : Outcome) (rest : Bytes) : ParseResult :=
  match outcome with
  | .complete request => .complete request rest
  | .incomplete => .incomplete
  | .error => .error

theorem parseText_result (data : Bytes) :
    (parseText decompress data {}).1.result (parseText decompress data {}).2 =
      parseRequestString decompress data := by
  unfold parseText
  cases parseRequestString decompress data with
  | complete request rest | incomplete | error => rfl

/-- The parser over byte strings is what the parser over a buffer computes. -/
theorem parseBuffer_refines {buf : Buffer} (h : buf.WellFormed) :
    ∃ outcome buf', parseBuffer decompress buf {} = .ok (outcome, buf') ∧ buf'.WellFormed ∧
      outcome.result buf'.readable = parseRequest decompress buf.readable := by
  obtain ⟨buf', hbuf, hwell, hrest, -⟩ := parseBuffer_eq decompress h {}
  refine ⟨_, buf', hbuf, hwell, ?_⟩
  rw [hrest, parseText_result, parseRequestString_eq]

end Parsers

theorem parseBuffer_refines_postAndOne :
    postAndOne.WellFormed ∧ ∃ outcome buf', parseBuffer id postAndOne {} = .ok (outcome, buf') ∧
      outcome.result buf'.readable = parseRequest id postAndOne.readable := by
  have hwell : postAndOne.WellFormed := ⟨by decide, by decide, by decide +kernel, by decide +kernel⟩
  obtain ⟨outcome, buf', hparse, -, hresult⟩ := parseBuffer_refines id hwell
  exact ⟨hwell, outcome, buf', hparse, hresult⟩

end mymuduo.http_core
