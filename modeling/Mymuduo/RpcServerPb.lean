-- The protobuf RPC server (src/rpc/RpcServerPb.h). A length outside the limit ends the
-- connection: the four bytes stay at the front of the buffer, so that every later
-- delivery stops at them again.
import Mymuduo.Buffer
import Mymuduo.LengthPrefix

open List bytes length_prefix runs segments vectors words

namespace mymuduo.rpc_server_pb

open buffer
open buffer.Buffer (readableBytes_eq length_readable readFrom_readable retrieve_keeps)

def kMaxFrameSize : Nat := 10 * 1024 * 1024

theorem kMaxFrameSize_lt : kMaxFrameSize < 2 ^ 31 := by decide

/-! ## Messages -/

structure RpcRequest where
  service : Bytes := []
  method : Bytes := []
  params : Bytes := []
  id : Int := 0
  deriving DecidableEq

structure RpcResponse where
  id : Int := 0
  result : Bytes := []
  code : Int := 0
  message : Bytes := []
  deriving DecidableEq

/-- `SerializeToString` and `ParseFromString` of the two messages. -/
structure Protobuf where
  serializeRequest : RpcRequest → Bytes
  parseRequest : Bytes → Option RpcRequest
  serializeResponse : RpcResponse → Bytes
  parseResponse : Bytes → Option RpcResponse

/-- What a method throws: a `std::exception` with its text, or anything else. -/
inductive Thrown
  | exception (what : Bytes)
  | unknown
  deriving DecidableEq

/-- A registered method with the two message types of `registerMethod`, on the state
that the methods share. The three maps of the server are filled together under one
lock, so one entry stands for all three. -/
structure PbMethod (σ : Type) where
  Request : Type
  Response : Type
  parse : Bytes → Option Request
  handler : Request → σ → Except Thrown Response × σ
  serialize : Response → Bytes

structure RpcServerPb (σ : Type) where
  protobuf : Protobuf
  methods_ : Bytes → Option (PbMethod σ) := fun _ => none

variable {σ : Type}

namespace RpcServerPb

def registerMethod (server : RpcServerPb σ) (serviceName methodName : Bytes) (method : PbMethod σ) :
    RpcServerPb σ :=
  { server with
    methods_ := fun key =>
      if key = serviceName ++ text "." ++ methodName then some method else server.methods_ key }

variable (server : RpcServerPb σ)

def errorResponse (id code : Int) (message : Bytes) : RpcResponse := { id, code, message }

/-- The response that `processMessage` sends for the data of a frame. Each path sends
exactly one. -/
def answer (data : Bytes) (app : σ) : RpcResponse × σ :=
  match server.protobuf.parseRequest data with
  | none => (errorResponse 0 (-32700) (text "Parse error"), app)
  | some request =>
    let key := request.service ++ text "." ++ request.method
    match server.methods_ key with
    | none => (errorResponse request.id (-32601) (text "Method not found: " ++ key), app)
    | some method =>
      match method.parse request.params with
      | none => (errorResponse request.id (-32602) (text "Invalid params"), app)
      | some reqMsg =>
        match method.handler reqMsg app with
        | (.error (.exception what), app) =>
          (errorResponse request.id (-32603) (text "Internal error: " ++ what), app)
        | (.error .unknown, app) =>
          (errorResponse request.id (-32603) (text "Unknown internal error"), app)
        | (.ok respMsg, app) =>
          ({ id := request.id, code := 0, result := method.serialize respMsg }, app)

/-- The code is zero only where the method returned: the result is its message, and the
id is that of the request. -/
theorem answer_code_eq_zero {data : Bytes} {app : σ} (h : (server.answer data app).1.code = 0) :
    ∃ request method reqMsg respMsg, server.protobuf.parseRequest data = some request ∧
      server.methods_ (request.service ++ text "." ++ request.method) = some method ∧
      method.parse request.params = some reqMsg ∧
      (method.handler reqMsg app).1 = .ok respMsg ∧
      (server.answer data app).1 =
        { id := request.id, code := 0, result := method.serialize respMsg } := by
  unfold answer at h ⊢
  cases hrequest : server.protobuf.parseRequest data with
  | none =>
    rw [hrequest] at h
    cases h
  | some request =>
    rw [hrequest] at h
    dsimp only at h ⊢
    cases hmethod : server.methods_ (request.service ++ text "." ++ request.method) with
    | none =>
      rw [hmethod] at h
      cases h
    | some method =>
      rw [hmethod] at h
      dsimp only at h ⊢
      cases hparse : method.parse request.params with
      | none =>
        rw [hparse] at h
        cases h
      | some reqMsg =>
        rw [hparse] at h
        dsimp only at h ⊢
        rcases hcall : method.handler reqMsg app with ⟨(what | _) | respMsg, app'⟩
        · rw [hcall] at h
          cases h
        · rw [hcall] at h
          cases h
        · exact ⟨request, method, reqMsg, respMsg, rfl, hmethod, hparse, by rw [hcall], rfl⟩

/-- `sendResponse` and `sendError`: the length and the message. -/
def responseFrame (response : RpcResponse) : Bytes :=
  frame (server.protobuf.serializeResponse response)

end RpcServerPb

/-! ## A connection -/

inductive Call
  | send (data : Bytes)
  | shutdown
  deriving DecidableEq

/-- A connection with its input buffer, the calls made on it, and the data that
`processMessage` was called with. -/
structure Conn (σ : Type) where
  buf : Bytes := []
  app : σ
  calls : List Call := []
  processed : List Bytes := []

namespace RpcServerPb

variable (server : RpcServerPb σ)

def processMessage (c : Conn σ) (data : Bytes) : Conn σ :=
  let (response, app) := server.answer data c.app
  { c with
    app
    calls := c.calls ++ [.send (server.responseFrame response)]
    processed := c.processed ++ [data] }

def invalidFrame : RpcResponse := errorResponse 0 (-32600) (text "Invalid frame size")

def onMessageLoop : Nat → Conn σ → Conn σ
  | 0, c => c
  | fuel + 1, c =>
    match front kMaxFrameSize c.buf with
    | .incomplete => c
    | .invalid =>
      { c with calls := c.calls ++ [.send (server.responseFrame invalidFrame), .shutdown] }
    | .frame data rest => onMessageLoop fuel (server.processMessage { c with buf := rest } data)

/-- Each round takes a frame, so the length of the buffer is fuel enough. -/
def onMessage (c : Conn σ) : Conn σ := server.onMessageLoop (c.buf.length + 1) c

/-- More bytes arrive, and `onMessage` is called. -/
def deliver (c : Conn σ) (piece : Bytes) : Conn σ :=
  server.onMessage { c with buf := c.buf ++ piece }

/-! ## What a call of `onMessage` does -/

def frames : Reader UInt8 Bytes := reader kMaxFrameSize kMaxFrameSize_lt

variable (c : Conn σ)

@[simp] theorem processMessage_buf (data : Bytes) :
    (server.processMessage c data).buf = c.buf := rfl

@[simp] theorem processMessage_processed (data : Bytes) :
    (server.processMessage c data).processed = c.processed ++ [data] := rfl

theorem foldl_processMessage (payloads : List Bytes) :
    (payloads.foldl server.processMessage c).buf = c.buf ∧
      (payloads.foldl server.processMessage c).processed = c.processed ++ payloads := by
  induction payloads generalizing c with
  | nil => exact ⟨rfl, (append_nil _).symm⟩
  | cons data payloads ih =>
    obtain ⟨hbuf, hprocessed⟩ := ih (server.processMessage c data)
    rw [foldl_cons, hbuf, hprocessed, processMessage_processed, append_assoc]
    exact ⟨rfl, rfl⟩

/-- Behind a bad length the error is sent and the connection is shut down. -/
def reject (c : Conn σ) : Conn σ :=
  if front kMaxFrameSize c.buf = .invalid then
    { c with calls := c.calls ++ [.send (server.responseFrame invalidFrame), .shutdown] }
  else c

theorem reject_buf : (server.reject c).buf = c.buf := by
  unfold reject
  split <;> rfl

theorem reject_processed : (server.reject c).processed = c.processed := by
  unfold reject
  split <;> rfl

/-- `onMessage` processes the frames that are complete, in order, and then looks at
what is left over. -/
theorem onMessageLoop_eq {fuel : Nat} {c : Conn σ} (h : c.buf.length < fuel) :
    server.onMessageLoop fuel c =
      server.reject ((frames.items c.buf).foldl server.processMessage
        { c with buf := frames.leftover c.buf }) := by
  induction fuel generalizing c with
  | zero => omega
  | succ fuel ih =>
    rw [onMessageLoop]
    cases hfront : front kMaxFrameSize c.buf with
    | incomplete =>
      have hnone : frames.next c.buf = none := by
        unfold frames
        rw [reader_next_eq_none_iff, hfront]
        exact fun _ _ => nofun
      rw [frames.items_of_next_none hnone, frames.leftover_of_next_none hnone]
      dsimp only [foldl_nil]
      unfold reject
      rw [if_neg (by rw [hfront]; exact nofun)]
    | invalid =>
      obtain ⟨hitems, hleft⟩ := items_of_invalid kMaxFrameSize_lt hfront
      unfold frames
      rw [hitems, hleft]
      dsimp only [foldl_nil]
      unfold reject
      rw [if_pos hfront]
    | frame data rest =>
      have hnext : frames.next c.buf = some (data, rest) :=
        reader_next_of_frame kMaxFrameSize_lt hfront
      have hshorter := frames.shrinks hnext
      have hrest : (server.processMessage { c with buf := rest } data).buf.length < fuel := by
        rw [processMessage_buf]
        dsimp only
        omega
      dsimp only
      rw [ih hrest, frames.items_of_next_some hnext, frames.leftover_of_next_some hnext]
      rfl

theorem onMessage_eq :
    server.onMessage c =
      server.reject ((frames.items c.buf).foldl server.processMessage
        { c with buf := frames.leftover c.buf }) :=
  server.onMessageLoop_eq (Nat.lt_succ_self _)

theorem deliver_keeps (piece : Bytes) :
    (server.deliver c piece).processed = c.processed ++ frames.items (c.buf ++ piece) ∧
      (server.deliver c piece).buf = frames.leftover (c.buf ++ piece) := by
  unfold deliver
  rw [onMessage_eq, reject_processed, reject_buf, (server.foldl_processMessage _ _).1,
    (server.foldl_processMessage _ _).2]
  exact ⟨rfl, rfl⟩

theorem run_deliver {c : Conn σ} (h : frames.next c.buf = none) (pieces : List Bytes) :
    (run server.deliver c pieces).processed =
      c.processed ++ frames.items (c.buf ++ pieces.flatten) ∧
      (run server.deliver c pieces).buf = frames.leftover (c.buf ++ pieces.flatten) := by
  induction pieces generalizing c with
  | nil =>
    rw [run_nil, flatten_nil, append_nil, frames.items_of_next_none h,
      frames.leftover_of_next_none h, append_nil]
    exact ⟨rfl, rfl⟩
  | cons piece pieces ih =>
    obtain ⟨hprocessed, hbuf⟩ := server.deliver_keeps c piece
    have hwait : frames.next (server.deliver c piece).buf = none := by
      rw [hbuf]
      exact frames.next_leftover _
    obtain ⟨hitems, hleft⟩ :=
      frames.append_eq_drain (fun _ => false) (c.buf ++ piece) pieces.flatten
    change _ = frames.items (c.buf ++ piece) ++
      frames.items (frames.leftover (c.buf ++ piece) ++ pieces.flatten) at hitems
    change _ = frames.leftover (frames.leftover (c.buf ++ piece) ++ pieces.flatten) at hleft
    rw [run_cons, (ih hwait).1, (ih hwait).2, hprocessed, hbuf, flatten_cons,
      ← append_assoc c.buf, hitems, hleft, append_assoc]
    exact ⟨rfl, rfl⟩

/-! ## Framing -/

/-- The data of the frames is processed in the same order for every cut. Frames of
allowed lengths are processed one by one and nothing stays in the buffer. Behind
the first length that is not allowed nothing is processed any more. -/
theorem frames_processed_once_in_order (app : σ) :
    (∀ pieces pieces' : List Bytes, pieces.flatten = pieces'.flatten →
      (run server.deliver { app } pieces).processed =
        (run server.deliver { app } pieces').processed) ∧
    (∀ payloads pieces : List Bytes,
      (∀ data ∈ payloads, 1 ≤ data.length ∧ data.length ≤ kMaxFrameSize) →
      pieces.flatten = (payloads.map frame).flatten →
      (run server.deliver { app } pieces).processed = payloads ∧
        (run server.deliver { app } pieces).buf = []) ∧
    (∀ (payloads pieces : List Bytes) (bad later : Bytes),
      (∀ data ∈ payloads, 1 ≤ data.length ∧ data.length ≤ kMaxFrameSize) →
      bad.length = 4 → ¬(1 ≤ declared bad ∧ declared bad ≤ kMaxFrameSize) →
      pieces.flatten = (payloads.map frame).flatten ++ (bad ++ later) →
      (run server.deliver { app } pieces).processed = payloads) := by
  have hrun :
      ∀ pieces, (run server.deliver { app } pieces).processed = frames.items pieces.flatten ∧
      (run server.deliver { app } pieces).buf = frames.leftover pieces.flatten :=
    fun pieces => server.run_deliver frames.next_nil pieces
  refine ⟨?_, ?_, ?_⟩
  · intro pieces pieces' hflat
    rw [(hrun pieces).1, (hrun pieces').1, hflat]
  · intro payloads pieces hpayloads hflat
    obtain ⟨hitems, hleft⟩ := items_frames kMaxFrameSize_lt hpayloads []
    rw [append_nil] at hitems hleft
    have hnil : frames.items [] = [] ∧ frames.leftover [] = [] :=
      ⟨frames.items_of_next_none frames.next_nil, frames.leftover_of_next_none frames.next_nil⟩
    rw [(hrun pieces).1, (hrun pieces).2, hflat]
    refine ⟨hitems.trans ?_, hleft.trans hnil.2⟩
    exact (congrArg (payloads ++ ·) hnil.1).trans (append_nil _)
  · intro payloads pieces bad later hpayloads hbad hlength hflat
    obtain ⟨hitems, -⟩ := items_frames kMaxFrameSize_lt hpayloads (bad ++ later)
    have hinvalid : front kMaxFrameSize bad = .invalid :=
      front_invalid_of_declared (by omega) hlength
    have hnone := (items_of_invalid kMaxFrameSize_lt (front_invalid_append hinvalid later)).1
    rw [(hrun pieces).1, hflat]
    exact hitems.trans ((congrArg (payloads ++ ·) hnone).trans (append_nil _))

end RpcServerPb

/-! ## Short messages -/

namespace Protobuf

/-- A field of bytes behind its tag, and a number behind its tag: as they are on the wire
where lengths and numbers are below 128. A field with the default is left out. -/
def bytesField (tag : UInt8) (value : Bytes) : Bytes :=
  if value = [] then [] else tag :: UInt8.ofNat value.length :: value

def numberField (tag : UInt8) (n : Int) : Bytes := if n = 0 then [] else [tag, UInt8.ofNat n.toNat]

/-- The tags with their contents. The three low bits of a tag are 0 for a number. -/
def readFields : Nat → Bytes → Option (List (UInt8 × Bytes))
  | _, [] => some []
  | fuel + 1, tag :: n :: rest =>
    let size := if tag % 8 = 0 then 0 else n.toNat
    let content := if tag % 8 = 0 then [n] else rest.take size
    if size ≤ rest.length then (readFields fuel (rest.drop size)).map ((tag, content) :: ·)
    else none
  | _, _ => none

def content (fields : List (UInt8 × Bytes)) (tag : UInt8) : Bytes :=
  ((fields.find? (fun field => field.1 = tag)).map Prod.snd).getD []

def number (fields : List (UInt8 × Bytes)) (tag : UInt8) : Int :=
  (((content fields tag).head?.map UInt8.toNat).getD 0 : Nat)

/-- The messages of rpc.proto, as far as they are short. -/
def short : Protobuf where
  serializeRequest request := bytesField 10 request.service ++ bytesField 18 request.method ++
    bytesField 26 request.params ++ numberField 32 request.id
  parseRequest data := (readFields data.length data).map fun fields =>
    { service := content fields 10, method := content fields 18, params := content fields 26
      id := number fields 32 }
  serializeResponse response := numberField 8 response.id ++ bytesField 18 response.result ++
    numberField 24 response.code ++ bytesField 34 response.message
  parseResponse data := (readFields data.length data).map fun fields =>
    { id := number fields 8, result := content fields 18, code := number fields 24
      message := content fields 34 }

end Protobuf

def silentServer : RpcServerPb Unit where
  protobuf := .short

theorem frames_processed_once_in_order_two :
    (run silentServer.deliver { app := () } [[0, 0, 0], [1, 65, 0, 0], [0, 2, 66, 67]]).processed =
        (run silentServer.deliver { app := () }
          [[0, 0, 0, 1, 65, 0, 0, 0, 2, 66, 67]]).processed ∧
      ((run silentServer.deliver { app := () }
          [[0, 0, 0], [1, 65, 0, 0], [0, 2, 66, 67]]).processed = [[65], [66, 67]] ∧
        (run silentServer.deliver { app := () }
          [[0, 0, 0], [1, 65, 0, 0], [0, 2, 66, 67]]).buf = []) ∧
      (run silentServer.deliver { app := () }
        [[0, 0, 0, 1], [65, 255, 255], [255, 255, 0, 0, 0, 1, 65]]).processed = [[65]] := by
  obtain ⟨hcut, hwhole, hbad⟩ := silentServer.frames_processed_once_in_order ()
  refine ⟨hcut _ _ (by decide), hwhole [[65], [66, 67]] _ (by decide) (by decide), ?_⟩
  exact hbad [[65]] _ [255, 255, 255, 255] [0, 0, 0, 1, 65] (by decide) rfl (by decide) (by decide)

/-! ## The buffer below a frame -/

/-- One round of the loop of `onMessage` on the buffer itself, up to the call of
`processMessage`: the reads through `peek()` and the two `retrieve` calls. -/
def takeFrame (buf : Buffer) : Except Fault (Front × Buffer) :=
  if buf.readableBytes < 4 then .ok (.incomplete, buf)
  else do
    let prefixBytes ← readFrom buf.buffer_ buf.readerIndex_ 4
    let len := signed32 (bigEndianValue 0 prefixBytes)
    if len ≤ 0 ∨ kMaxFrameSize < sizeT len then return (.invalid, buf)
    else if buf.readableBytes < add64 4 (sizeT len) then return (.incomplete, buf)
    else
      let buf := buf.retrieve 4
      let data ← readFrom buf.buffer_ buf.readerIndex_ (sizeT len)
      let buf := buf.retrieve (sizeT len)
      return (.frame data buf.readable, buf)

/-- No read leaves the vector, the front is that of the readable bytes, and what stays
readable is what stays behind the frame. -/
theorem takeFrame_refines {buf : Buffer} (h : buf.WellFormed) :
    ∃ buf', takeFrame buf = .ok (front kMaxFrameSize buf.readable, buf') ∧ buf'.WellFormed ∧
      (∀ data rest, front kMaxFrameSize buf.readable = .frame data rest → buf'.readable = rest) ∧
      ((∀ data rest, front kMaxFrameSize buf.readable ≠ .frame data rest) → buf' = buf) := by
  have hlen : buf.readableBytes = buf.readable.length := by
    rw [readableBytes_eq h, length_readable h]
  unfold takeFrame front
  rw [hlen]
  by_cases hfour : buf.readable.length < 4
  · rw [if_pos hfour, if_pos hfour]
    exact ⟨buf, rfl, h, nofun, fun _ => rfl⟩
  · rw [if_neg hfour, if_neg hfour, readFrom_readable h (by omega)]
    dsimp only [bind, Except.bind]
    rw [show signed32 (bigEndianValue 0 (buf.readable.take 4)) = declared buf.readable from rfl]
    by_cases hbad : declared buf.readable ≤ 0 ∨ kMaxFrameSize < sizeT (declared buf.readable)
    · rw [if_pos hbad, if_pos hbad]
      exact ⟨buf, rfl, h, nofun, fun _ => rfl⟩
    · have hsum : add64 4 (sizeT (declared buf.readable)) = 4 + sizeT (declared buf.readable) := by
        refine add64_eq ?_
        unfold kMaxFrameSize at hbad
        omega
      rw [if_neg hbad, if_neg hbad, hsum]
      by_cases hpart : buf.readable.length < 4 + sizeT (declared buf.readable)
      · rw [if_pos hpart, if_pos hpart]
        exact ⟨buf, rfl, h, nofun, fun _ => rfl⟩
      · obtain ⟨hwell, hrest⟩ := retrieve_keeps h 4
        obtain ⟨hwell', hrest'⟩ := retrieve_keeps hwell (sizeT (declared buf.readable))
        have hinside : sizeT (declared buf.readable) ≤ (buf.retrieve 4).readableBytes := by
          rw [readableBytes_eq hwell, ← length_readable hwell, hrest, length_drop]
          omega
        rw [if_neg hpart, if_neg hpart, readFrom_readable hwell hinside]
        rw [hrest', hrest]
        refine ⟨_, rfl, hwell', ?_, fun hnot => absurd rfl (hnot _ _)⟩
        rintro data rest ⟨⟩
        rw [hrest', hrest]

theorem takeFrame_refines_one_frame :
    let buf : Buffer := ⟨replicate 8 0 ++ [0, 0, 0, 1, 65, 0], 8, 14⟩
    buf.WellFormed ∧ ∃ buf', takeFrame buf = .ok (front kMaxFrameSize buf.readable, buf') := by
  intro buf
  have hwell : buf.WellFormed := ⟨by decide, by decide, by decide, by decide⟩
  obtain ⟨buf', htake, -⟩ := takeFrame_refines hwell
  exact ⟨hwell, buf', htake⟩

end mymuduo.rpc_server_pb
