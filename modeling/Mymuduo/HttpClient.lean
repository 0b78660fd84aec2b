-- `HttpClient` (src/http/HttpClient.h): the queue of promises, the connection
-- callback, and the loop that takes responses off the received bytes. A response
-- that is complete with nothing behind it is taken whole, whatever follows it,
-- and none of it is taken before its last byte is there.
import Mymuduo.HttpRequest
import Mymuduo.TcpConnection

open List hiding head
open bytes words

namespace mymuduo.http_client

open http_request tcp_connection

structure HttpClientResponse where
  statusCode : Int := 0
  statusMessage : Bytes := []
  headers : StringMap := ∅
  body : Bytes := []
  success : Bool := false
  error : Bytes := []
  deriving DecidableEq

/-! ## Building a request -/

structure InetAddress where
  ip : UInt8 × UInt8 × UInt8 × UInt8
  port : UInt16
  deriving DecidableEq

/-- `a.b.c.d:port` -/
def InetAddress.toIpPort (address : InetAddress) : Bytes :=
  decimal address.ip.1.toNat ++ text "." ++ decimal address.ip.2.1.toNat ++ text "." ++
    decimal address.ip.2.2.1.toNat ++ text "." ++ decimal address.ip.2.2.2.toNat ++ text ":" ++
    decimal address.port.toNat

/-- The text of a request. `defaultHeaders_` has no order of its own; the order of its
entries stands for the order of the iteration. -/
def buildRequest (host_ : Bytes) (defaultHeaders_ : StringMap)
    (method path body contentType : Bytes) : Bytes :=
  method ++ text " " ++ path ++ text " HTTP/1.1\r\n" ++
    text "Host: " ++ host_ ++ text "\r\n" ++
    text "Connection: keep-alive\r\n" ++
    (if body = [] then []
    else
      (if contentType = [] then [] else text "Content-Type: " ++ contentType ++ text "\r\n") ++
        text "Content-Length: " ++ decimal body.length ++ text "\r\n") ++
    defaultHeaders_.entries.flatMap (fun e => e.1 ++ text ": " ++ e.2 ++ text "\r\n") ++
    text "\r\n" ++ body

/-! ## Parsing -/

/-- `HTTP/x.y CODE MESSAGE`, where the message may be missing. `none` is `false`. -/
def parseStatusLine (line : Bytes) (resp : HttpClientResponse) : Option HttpClientResponse := do
  let firstSpace ← find (text " ") line
  match findFrom (text " ") line (firstSpace + 1) with
  | none =>
    let statusCode ← stoi (line.drop (firstSpace + 1))
    return { resp with statusCode }
  | some secondSpace =>
    let statusCode ← stoi (substr line (firstSpace + 1) (secondSpace - firstSpace - 1))
    return { resp with statusCode, statusMessage := line.drop (secondSpace + 1) }

def parseHeaders (headerBlock : Bytes) (resp : HttpClientResponse) : HttpClientResponse :=
  { resp with
    headers := foldLines insertHeaderLine headerBlock (headerBlock.length + 1) 0 resp.headers }

/-- The status line and the headers of a header section. The error is the status line. -/
def parseHead (headerSection : Bytes) : Except Bytes HttpClientResponse :=
  match find crlf headerSection with
  | none =>
    match parseStatusLine headerSection {} with
    | none => .error headerSection
    | some resp => .ok resp
  | some firstLineEnd =>
    let statusLine := headerSection.take firstLineEnd
    match parseStatusLine statusLine {} with
    | none => .error statusLine
    | some resp => .ok (parseHeaders (headerSection.drop (firstLineEnd + 2)) resp)

/-- A text that is no number counts as zero. -/
def contentLength (resp : HttpClientResponse) : Nat :=
  match resp.headers.lookup (text "content-length") with
  | none => 0
  | some value => (stoul value).getD 0

/-- What one round of the loop finds in the buffer, with the bytes that it leaves. -/
inductive Round
  | wait
  | malformed (resp : HttpClientResponse) (rest : Bytes)
  | complete (resp : HttpClientResponse) (rest : Bytes)
  deriving DecidableEq

/-- One round of the loop. The total length is a `size_t`, so it can wrap. -/
def nextResponse (recvBuffer : Bytes) : Round :=
  match find (text "\r\n\r\n") recvBuffer with
  | none => .wait
  | some headerEnd =>
    let headerLen := headerEnd + 4
    match parseHead (recvBuffer.take headerEnd) with
    | .error statusLine =>
      .malformed { error := text "malformed HTTP status line: " ++ statusLine }
        (recvBuffer.drop headerLen)
    | .ok resp =>
      let totalLen := add64 headerLen (contentLength resp)
      if recvBuffer.length < totalLen then .wait
      else
        let resp :=
          if 0 < contentLength resp then
            { resp with body := substr recvBuffer headerLen (contentLength resp) }
          else resp
        .complete { resp with success := true } (recvBuffer.drop totalLen)

/-! ## The client -/

/-- A promise is named by the number of the `asyncRequest` call that made it. The
promises that have a value stand in `fulfilled`, in the order in which they got it. -/
structure Client where
  conn : Option StateE := none
  pendingQueue : List Nat := []
  recvBuffer : Bytes := []
  fulfilled : List (Nat × HttpClientResponse) := []
  deriving DecidableEq

namespace Client

/-- `pendingQueue_.front().set_value(resp)` and the pop, if there is a front. -/
def setFront (c : Client) (resp : HttpClientResponse) : Client :=
  match c.pendingQueue with
  | [] => c
  | id :: ids => { c with pendingQueue := ids, fulfilled := c.fulfilled ++ [(id, resp)] }

/-- The first critical section of `asyncRequest`. -/
def push (c : Client) (id : Nat) : Client := { c with pendingQueue := c.pendingQueue ++ [id] }

/-- The second critical section without a connection: the promise in front fails,
whichever call made it. -/
def failNotConnected (c : Client) : Client := c.setFront { error := text "not connected" }

/-- `onConnection` for a connection that is up. -/
def onConnected (c : Client) : Client := { c with conn := some .kConnected }

/-- `onConnection` for a connection that is down: all promises in the queue fail. -/
def onDisconnected (c : Client) : Client :=
  { c with
    conn := none
    recvBuffer := []
    pendingQueue := []
    fulfilled := c.fulfilled ++
      c.pendingQueue.map (fun id => (id, { error := text "connection closed" })) }

/-- The loop of `onMessage`. `none` means that it did not return within the fuel. -/
def takeResponses : Nat → Client → Option Client
  | 0, _ => none
  | fuel + 1, c =>
    match nextResponse c.recvBuffer with
    | .wait => some c
    | .malformed resp rest => takeResponses fuel { c.setFront resp with recvBuffer := rest }
    | .complete resp rest => takeResponses fuel { c.setFront resp with recvBuffer := rest }

/-- A round either returns, or shortens the buffer, or leaves it as it is and then
never returns. So `none` means that the loop runs forever. -/
def onMessage (c : Client) (data : Bytes) : Option Client :=
  let recvBuffer := c.recvBuffer ++ data
  takeResponses (recvBuffer.length + 1) { c with recvBuffer }

end Client

/-! ## A written response -/

theorem parseStatusLine_written {version : Bytes} (hversion : 32 ∉ version) {code : Nat}
    (hcode : code < 2 ^ 31) (message : Bytes) (resp : HttpClientResponse) :
    parseStatusLine (version ++ text " " ++ decimal code ++ text " " ++ message) resp =
      some { resp with statusCode := code, statusMessage := message } := by
  have hdigits : 32 ∉ decimal code := fun h =>
    absurd (isDigit_spec (isDigit_of_mem_decimal h)).1 (by decide)
  obtain ⟨hfirst, hsecond, -, hword, hmessage⟩ := first_line_words message hversion hdigits
  have hlen : (decimal code).length + (version.length + 1) - version.length - 1 =
      (decimal code).length := by omega
  unfold parseStatusLine
  rw [hfirst]
  simp only [Option.bind_eq_bind, Option.bind_some, hsecond, hlen, hword, hmessage,
    stoi_decimal hcode]
  rfl

variable {resp : HttpClientResponse}

theorem parseHead_written {line : Bytes} {fields : List (Bytes × Bytes)} (hline : 13 ∉ line)
    (hfields : ∀ field ∈ fields, FieldText field) (hresp : parseStatusLine line {} = some resp) :
    parseHead (head line fields) =
      .ok { resp with headers := fields.foldl insertField resp.headers } := by
  have hlines := isLine_of_fields hfields
  unfold parseHead head
  cases fields with
  | nil =>
    rw [map_nil, intercalate_singleton, find_crlf_eq_none hline]
    dsimp only
    rw [hresp]
    rfl
  | cons field fields =>
    have hfuel : ((field :: fields).map headerLine).length ≤
        (crlf.intercalate ((field :: fields).map headerLine)).length + 1 :=
      Nat.le_succ_of_le (length_le_length_intercalate hlines)
    have hloop := foldLines_intercalate insertHeaderLine [] hlines hfuel resp.headers
    rw [nil_append, length_nil, foldl_insertHeaderLine _
      (fun f hf => (hfields f hf).2.2)] at hloop
    rw [intercalate_headerLines, find_crlf hline]
    dsimp only
    rw [take_left, hresp, ← length_append_crlf, ← append_assoc line crlf, drop_left]
    dsimp only [parseHeaders]
    rw [hloop]

/-! ## One response -/

theorem contentLength_lt (resp : HttpClientResponse) : contentLength resp < 2 ^ 64 := by
  unfold contentLength
  split
  · simp
  · rename_i value _
    cases h : stoul value with
    | none => simp
    | some n => exact stoul_lt h

theorem nextResponse_complete_iff (buf rest : Bytes) (resp : HttpClientResponse) :
    nextResponse buf = .complete resp rest ↔
      ∃ headerEnd head, find (text "\r\n\r\n") buf = some headerEnd ∧
        parseHead (buf.take headerEnd) = .ok head ∧
        add64 (headerEnd + 4) (contentLength head) ≤ buf.length ∧
        resp = { (if 0 < contentLength head then
            { head with body := substr buf (headerEnd + 4) (contentLength head) }
          else head) with success := true } ∧
        rest = buf.drop (add64 (headerEnd + 4) (contentLength head)) := by
  unfold nextResponse
  cases hfind : find (text "\r\n\r\n") buf with
  | none => simp
  | some headerEnd =>
    dsimp only
    cases hhead : parseHead (buf.take headerEnd) with
    | error statusLine => simp [hhead]
    | ok head =>
      dsimp only
      constructor
      · intro h
        split at h
        · cases h
        · rename_i hlen
          cases h
          exact ⟨headerEnd, head, rfl, hhead, by omega, rfl, rfl⟩
      · rintro ⟨_, head', ⟨⟩, hhead', hlen, rfl, rfl⟩
        rw [hhead] at hhead'
        cases hhead'
        rw [if_neg (by omega)]

/-- A complete response with nothing behind it has the length that its header gives,
as natural numbers: a sum that wraps is smaller than the header. -/
theorem nextResponse_whole_iff (bs : Bytes) (resp : HttpClientResponse) :
    nextResponse bs = .complete resp [] ↔
      ∃ headerEnd head, find (text "\r\n\r\n") bs = some headerEnd ∧
        parseHead (bs.take headerEnd) = .ok head ∧ bs.length < 2 ^ 64 ∧
        headerEnd + 4 + contentLength head = bs.length ∧
        resp = { (if 0 < contentLength head then
            { head with body := substr bs (headerEnd + 4) (contentLength head) }
          else head) with success := true } := by
  rw [nextResponse_complete_iff]
  constructor
  · rintro ⟨headerEnd, head, hfind, hhead, hlen, hresp, hrest⟩
    have hheader := find_add_length_le hfind
    rw [length_crlf_crlf] at hheader
    have hcontent := contentLength_lt head
    have hall : bs.length ≤ add64 (headerEnd + 4) (contentLength head) := by
      have := congrArg length hrest
      rw [length_drop, length_nil] at this
      omega
    unfold add64 at hlen hall
    exact ⟨headerEnd, head, hfind, hhead, by omega, by omega, hresp⟩
  · rintro ⟨headerEnd, head, hfind, hhead, hmax, hlen, hresp⟩
    have hadd : add64 (headerEnd + 4) (contentLength head) = bs.length := by
      rw [add64_eq (by omega), hlen]
    exact ⟨headerEnd, head, hfind, hhead, by omega, hresp, by rw [hadd, drop_length]⟩

theorem nextResponse_append {bs : Bytes} (h : nextResponse bs = .complete resp []) (more : Bytes) :
    nextResponse (bs ++ more) = .complete resp more := by
  obtain ⟨headerEnd, head, hfind, hhead, hmax, hlen, hresp⟩ := (nextResponse_whole_iff bs resp).mp h
  have hadd : add64 (headerEnd + 4) (contentLength head) = bs.length := by
    rw [add64_eq (by omega), hlen]
  rw [nextResponse_complete_iff]
  refine ⟨headerEnd, head, find_append hfind more, ?_, ?_, ?_, ?_⟩
  · rw [take_append_of_le_length (by omega)]
    exact hhead
  · rw [hadd, length_append]
    omega
  · unfold substr at hresp ⊢
    rw [take_drop_append (by omega)]
    exact hresp
  · rw [hadd, drop_left]

theorem nextResponse_front {front back : Bytes}
    (h : nextResponse (front ++ back) = .complete resp []) (hback : back ≠ []) :
    nextResponse front = .wait := by
  obtain ⟨headerEnd, head, hfind, hhead, hmax, hlen, -⟩ :=
    (nextResponse_whole_iff (front ++ back) resp).mp h
  have hpos := length_pos_iff.mpr hback
  rw [length_append] at hmax hlen
  unfold nextResponse
  cases hfront : find (text "\r\n\r\n") front with
  | none => rfl
  | some i =>
    have hi := find_append hfront back
    rw [hfind] at hi
    cases hi
    have hle := find_add_length_le hfront
    rw [take_append_of_le_length (by omega)] at hhead
    dsimp only
    rw [hhead]
    dsimp only
    rw [if_pos (by rw [add64_eq (by omega)]; omega)]

theorem nextResponse_nil : nextResponse [] = .wait := by
  have hfind : find (text "\r\n\r\n") [] = none := by decide
  unfold nextResponse
  rw [hfind]

/-! ## Progress -/

def Round.rest : Round → Option Bytes
  | .wait => none
  | .malformed _ rest => some rest
  | .complete _ rest => some rest

/-- The buffers that the rounds of one loop find. -/
inductive Reaches (start : Bytes) : Bytes → Prop
  | start : Reaches start start
  | next {buf rest : Bytes} (h : Reaches start buf) (hrest : (nextResponse buf).rest = some rest) :
    Reaches start rest

/-- The length of the first response as its header gives it, as a natural number. -/
def declaredLength (buf : Bytes) : Option Nat :=
  match find (text "\r\n\r\n") buf with
  | none => none
  | some headerEnd =>
    match parseHead (buf.take headerEnd) with
    | .error _ => none
    | .ok head => some (headerEnd + 4 + contentLength head)

/-- The sum of the two lengths does not fit a `size_t`. -/
def Wraps (buf : Bytes) : Prop := ∃ len, declaredLength buf = some len ∧ 2 ^ 64 ≤ len

/-- A round returns or shortens the buffer, and completes only a response that is there. -/
structure Progresses (buf : Bytes) : Prop where
  shortens : ∀ rest, (nextResponse buf).rest = some rest → rest.length < buf.length
  whole : ∀ resp rest, nextResponse buf = .complete resp rest →
    ∃ len, declaredLength buf = some len ∧ len ≤ buf.length

theorem nextResponse_cases (buf : Bytes) :
    nextResponse buf = .wait ∨
    (∃ headerEnd resp, headerEnd + 4 ≤ buf.length ∧ declaredLength buf = none ∧
      nextResponse buf = .malformed resp (buf.drop (headerEnd + 4))) ∨
    ∃ headerLen len resp, 0 < headerLen ∧ headerLen ≤ buf.length ∧ len < 2 ^ 64 ∧
      declaredLength buf = some (headerLen + len) ∧ add64 headerLen len ≤ buf.length ∧
      nextResponse buf = .complete resp (buf.drop (add64 headerLen len)) := by
  cases hfind : find (text "\r\n\r\n") buf with
  | none =>
    left
    simp [nextResponse, hfind]
  | some headerEnd =>
    have hlen := find_add_length_le hfind
    rw [length_crlf_crlf] at hlen
    cases hhead : parseHead (buf.take headerEnd) with
    | error statusLine =>
      right
      left
      refine ⟨headerEnd, { error := text "malformed HTTP status line: " ++ statusLine }, hlen, ?_,
        ?_⟩
      · simp [declaredLength, hfind, hhead]
      · simp [nextResponse, hfind, hhead]
    | ok head =>
      by_cases hwait : buf.length < add64 (headerEnd + 4) (contentLength head)
      · left
        simp [nextResponse, hfind, hhead, hwait]
      · right
        right
        refine ⟨headerEnd + 4, contentLength head, _, by omega, hlen, contentLength_lt head, ?_,
          Nat.not_lt.mp hwait, (nextResponse_complete_iff _ _ _).mpr
            ⟨headerEnd, head, hfind, hhead, Nat.not_lt.mp hwait, rfl, rfl⟩⟩
        simp [declaredLength, hfind, hhead]

/-- A sum that wraps is smaller than the header, so the response counts as complete. -/
theorem complete_of_wraps {buf : Bytes} (hmax : buf.length < 2 ^ 64) (h : Wraps buf) :
    ∃ resp rest, nextResponse buf = .complete resp rest := by
  obtain ⟨len, hlen, hwraps⟩ := h
  unfold declaredLength at hlen
  split at hlen
  case h_1 => cases hlen
  case h_2 headerEnd hfind =>
    split at hlen
    case h_1 => cases hlen
    case h_2 head hhead =>
      obtain rfl := Option.some.inj hlen
      have hle := find_add_length_le hfind
      rw [length_crlf_crlf] at hle
      have hcontent := contentLength_lt head
      have hsmall : add64 (headerEnd + 4) (contentLength head) ≤ buf.length := by
        unfold add64
        omega
      exact ⟨_, _,
        (nextResponse_complete_iff _ _ _).mpr ⟨headerEnd, head, hfind, hhead, hsmall, rfl, rfl⟩⟩

theorem progresses_iff {buf : Bytes} (hmax : buf.length < 2 ^ 64) :
    Progresses buf ↔ ¬ Wraps buf := by
  constructor
  · intro h hwraps
    obtain ⟨resp, rest, hcomplete⟩ := complete_of_wraps hmax hwraps
    obtain ⟨len, hlen, hle⟩ := h.whole resp rest hcomplete
    obtain ⟨len', hlen', hwrap⟩ := hwraps
    rw [hlen, Option.some.injEq] at hlen'
    omega
  · intro hfits
    rcases nextResponse_cases buf with hwait | ⟨headerEnd, resp, hlen, -, hmalformed⟩ |
      ⟨headerLen, len, resp, hpos, hheader, -, hdeclared, hle, hcomplete⟩
    · refine ⟨?_, ?_⟩
      · intro rest hrest
        rw [hwait] at hrest
        cases hrest
      · intro resp rest h
        rw [hwait] at h
        cases h
    · refine ⟨?_, ?_⟩
      · intro rest hrest
        rw [hmalformed] at hrest
        obtain rfl := Option.some.inj hrest
        rw [length_drop]
        omega
      · intro resp' rest h
        rw [hmalformed] at h
        cases h
    · have hsum : headerLen + len < 2 ^ 64 := by
        by_contra hbig
        exact hfits ⟨headerLen + len, hdeclared, Nat.not_lt.mp hbig⟩
      rw [add64_eq hsum] at hle hcomplete
      refine ⟨?_, fun _ _ _ => ⟨headerLen + len, hdeclared, hle⟩⟩
      intro rest hrest
      rw [hcomplete] at hrest
      obtain rfl := Option.some.inj hrest
      rw [length_drop]
      omega

theorem Reaches.length_le {start buf : Bytes} (h : Reaches start buf) :
    buf.length ≤ start.length := by
  induction h with
  | start => exact Nat.le_refl _
  | @next buf rest _ hrest ih =>
    have hdrop : rest.length ≤ buf.length := by
      rcases nextResponse_cases buf with hwait | ⟨headerEnd, resp, -, -, hnext⟩ |
        ⟨headerLen, len, resp, -, -, -, -, -, hnext⟩
      · rw [hwait] at hrest
        cases hrest
      all_goals
        rw [hnext] at hrest
        obtain rfl := Option.some.inj hrest
        rw [length_drop]
        omega
    exact Nat.le_trans hdrop ih

namespace Client

theorem takeResponses_isSome {start : Bytes} (h : ∀ buf, Reaches start buf → Progresses buf)
    {fuel : Nat} {c : Client} (hreach : Reaches start c.recvBuffer)
    (hfuel : c.recvBuffer.length < fuel) : (takeResponses fuel c).isSome := by
  induction fuel generalizing c with
  | zero => cases hfuel
  | succ fuel ih =>
    have hshort := (h c.recvBuffer hreach).shortens
    unfold takeResponses
    split
    case h_1 => rfl
    case h_2 resp rest hround =>
      have hrest : (nextResponse c.recvBuffer).rest = some rest := by rw [hround]; rfl
      exact ih (hreach.next hrest)
        (Nat.lt_of_lt_of_le (hshort rest hrest) (Nat.le_of_lt_succ hfuel))
    case h_3 resp rest hround =>
      have hrest : (nextResponse c.recvBuffer).rest = some rest := by rw [hround]; rfl
      exact ih (hreach.next hrest)
        (Nat.lt_of_lt_of_le (hshort rest hrest) (Nat.le_of_lt_succ hfuel))

/-- For every content of the buffer: `onMessage` returns, and each of its rounds returns or
shortens the buffer and completes only a response that is there as a whole, exactly when no
round finds a length that wraps. -/
theorem response_loop_progresses_iff (c : Client) (data : Bytes)
    (hmax : (c.recvBuffer ++ data).length < 2 ^ 64) :
    ((c.onMessage data).isSome ∧ ∀ buf, Reaches (c.recvBuffer ++ data) buf → Progresses buf) ↔
      ∀ buf, Reaches (c.recvBuffer ++ data) buf → ¬ Wraps buf := by
  have hiff : ∀ buf, Reaches (c.recvBuffer ++ data) buf → (Progresses buf ↔ ¬ Wraps buf) :=
    fun buf hbuf => progresses_iff (Nat.lt_of_le_of_lt hbuf.length_le hmax)
  constructor
  · rintro ⟨-, hall⟩ buf hbuf
    exact (hiff buf hbuf).mp (hall buf hbuf)
  · intro hall
    have hprogress : ∀ buf, Reaches (c.recvBuffer ++ data) buf → Progresses buf :=
      fun buf hbuf => (hiff buf hbuf).mpr (hall buf hbuf)
    exact ⟨takeResponses_isSome hprogress Reaches.start (Nat.lt_succ_self _), hprogress⟩

def shortResponse : Bytes := text "HTTP/1.1 200 OK\r\n\r\n"

theorem reaches_shortResponse {buf : Bytes} (h : Reaches shortResponse buf) :
    buf = shortResponse ∨ buf = [] := by
  have hfirst : (nextResponse shortResponse).rest = some [] := by decide +kernel
  induction h with
  | start => exact Or.inl rfl
  | next _ hrest ih =>
    rcases ih with rfl | rfl
    · rw [hfirst] at hrest
      exact Or.inr (Option.some.inj hrest).symm
    · rw [nextResponse_nil] at hrest
      cases hrest

theorem response_loop_progresses_shortResponse :
    (({} : Client).onMessage shortResponse).isSome := by
  refine ((response_loop_progresses_iff {} shortResponse (by decide)).mpr ?_).1
  intro buf hbuf
  have hshort : declaredLength shortResponse = some 19 := by decide +kernel
  have hnil : declaredLength [] = none := by decide
  rcases reaches_shortResponse hbuf with rfl | rfl
  · rintro ⟨len, hlen, hwraps⟩
    rw [hshort, Option.some.injEq] at hlen
    omega
  · rintro ⟨len, hlen, -⟩
    rw [hnil] at hlen
    cases hlen

/-- A response whose lengths add up to `2 ^ 64`. -/
def endlessResponse : Bytes :=
  text "HTTP/1.1 200 OK\r\nContent-Length: 18446744073709551559\r\n\r\n"

theorem endless_response_never_returns :
    (nextResponse endlessResponse).rest = some endlessResponse ∧
      ∀ fuel, takeResponses fuel { recvBuffer := endlessResponse } = none := by
  have hsame : (nextResponse endlessResponse).rest = some endlessResponse := by decide +kernel
  refine ⟨hsame, fun fuel => ?_⟩
  have hall :
      ∀ fuel (c : Client), c.recvBuffer = endlessResponse → takeResponses fuel c = none := by
    intro fuel
    induction fuel with
    | zero =>
      intro c _
      rfl
    | succ fuel ih =>
      intro c hc
      unfold takeResponses
      rw [hc]
      split
      case h_1 hround =>
        rw [hround] at hsame
        cases hsame
      case h_2 resp rest hround =>
        rw [hround] at hsame
        exact ih _ (Option.some.inj hsame)
      case h_3 resp rest hround =>
        rw [hround] at hsame
        exact ih _ (Option.some.inj hsame)
  exact hall fuel _ rfl

end Client

end mymuduo.http_client
