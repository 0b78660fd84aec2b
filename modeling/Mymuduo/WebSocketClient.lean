-- `WebSocketClient` (src/websocket/WebSocketClient.h) on one TCP connection. The client
-- masks every frame that it sends, and a callback may use the client in turn. Each
-- delivery looks at the state once, before its first frame.
import Mymuduo.WebSocketServer

open bytes words

namespace mymuduo.websocket_client

open websocket_frame
open websocket_server (WsState WsMessage blankLine)

/-! ## The client -/

inductive Callback
  | opened
  | message (msg : WsMessage)
  | closed (code : UInt16) (reason : Bytes)
  | error (error : Bytes)
  deriving DecidableEq, Repr

/-- What a callback, or the owner of the client, does with it. -/
inductive Call
  | sendText (text : Bytes)
  | sendBinary (data : Bytes)
  | ping (data : Bytes)
  | close (code : UInt16) (reason : Bytes)
  | disconnect
  deriving DecidableEq, Repr

/-- What the client is made with. `maskingKey n` is the key that the random generator
gives for the masked frame number `n`, and `sha1` the hash function of OpenSSL. A
callback sees the state of the client, and says what it does with the client. -/
structure Settings (σ : Type*) where
  path_ : Bytes
  host_ : Bytes
  openCallback : σ → WsState → σ × List Call
  messageCallback : σ → WsState → WsMessage → σ × List Call
  closeCallback : σ → WsState → UInt16 → Bytes → σ × List Call
  errorCallback : σ → WsState → Bytes → σ × List Call
  maskingKey : Nat → MaskingKey
  sha1 : Bytes → Bytes

/-- The client, the state of its application, and what happened so far. `conn_` is
`some true` while the TCP connection is `kConnected`, `drawn` counts the masking keys,
and `crashed` is an exception that left `onMessage`. -/
structure Client (σ : Type*) where
  state_ : WsState
  conn_ : Option Bool
  pendingKey_ : Bytes
  recvBuffer_ : Bytes
  app : σ
  drawn : Nat
  sent : List Bytes
  callbacks : List Callback
  crashed : Bool

def made {σ : Type*} (app : σ) : Client σ where
  state_ := .Closed
  conn_ := none
  pendingKey_ := []
  recvBuffer_ := []
  app := app
  drawn := 0
  sent := []
  callbacks := []
  crashed := false

section Client

variable {σ : Type*} (w : Settings σ)

namespace Client

/-! ## Sending -/

def sendRaw (c : Client σ) (data : Bytes) : Client σ :=
  if c.conn_ = some true then { c with sent := c.sent ++ [data] } else c

/-- `sendRaw(WebSocketFrameCodec::encode(frame, true))`. The key is drawn even when the
frame does not go out. -/
def sendMasked (c : Client σ) (opcode : WsOpcode) (payload : Bytes) : Client σ :=
  sendRaw { c with drawn := c.drawn + 1 }
    (encode { opcode, payload } true (w.maskingKey c.drawn))

def shutdown (c : Client σ) : Client σ := { c with conn_ := c.conn_.map (fun _ => false) }

/-- `sendText`, `sendBinary` and `ping`: a masked frame, when the client is open. -/
def sendFrame (c : Client σ) (opcode : WsOpcode) (payload : Bytes) : Client σ :=
  if c.state_ = .Open then c.sendMasked w opcode payload else c

def sendText (c : Client σ) (text : Bytes) : Client σ := c.sendFrame w .Text text

def sendBinary (c : Client σ) (data : Bytes) : Client σ := c.sendFrame w .Binary data

def ping (c : Client σ) (data : Bytes) : Client σ := c.sendFrame w .Ping data

def close (c : Client σ) (code : UInt16) (reason : Bytes) : Client σ :=
  if c.state_ = .Open then
    sendMasked w { c with state_ := .Closing } .Close (bigEndian 2 code.toNat ++ reason)
  else c

def disconnect (c : Client σ) : Client σ :=
  (if c.state_ = .Open then c.close w 1000 [] else c).shutdown

def call (c : Client σ) : Call → Client σ
  | .sendText text => c.sendText w text
  | .sendBinary data => c.sendBinary w data
  | .ping data => c.ping w data
  | .close code reason => c.close w code reason
  | .disconnect => c.disconnect w

/-! ## Callbacks -/

/-- A callback runs, and does `out` with the client. -/
def fire (c : Client σ) (callback : Callback) (out : σ × List Call) : Client σ :=
  out.2.foldl (call w) { c with app := out.1, callbacks := c.callbacks ++ [callback] }

def fireOpen (c : Client σ) : Client σ := c.fire w .opened (w.openCallback c.app c.state_)

def fireMessage (c : Client σ) (msg : WsMessage) : Client σ :=
  c.fire w (.message msg) (w.messageCallback c.app c.state_ msg)

def fireClose (c : Client σ) (code : UInt16) (reason : Bytes) : Client σ :=
  c.fire w (.closed code reason) (w.closeCallback c.app c.state_ code reason)

def fireError (c : Client σ) (error : Bytes) : Client σ :=
  c.fire w (.error error) (w.errorCallback c.app c.state_ error)

end Client

/-! ## The upgrade request -/

/-- One round of the loop of `base64Encode`: three bytes from `i` on, four characters. -/
def base64Group (data : Bytes) (i : Nat) : Bytes :=
  let char (k : Nat) : UInt8 := base64Chars.getD (k &&& 0x3F) 0
  let n := ((data.getD i 0).toNat <<< 16) |||
    (if i + 1 < data.length then (data.getD (i + 1) 0).toNat <<< 8 else 0) |||
    (if i + 2 < data.length then (data.getD (i + 2) 0).toNat else 0)
  [char (n >>> 18), char (n >>> 12), if i + 1 < data.length then char (n >>> 6) else 61,
    if i + 2 < data.length then char n else 61]

/-- The loop steps `i` by 3 while it is below the length. -/
def base64Encode (data : Bytes) : Bytes :=
  (List.range ((data.length + 2) / 3)).flatMap (fun k => base64Group data (3 * k))

/-- The request that `onConnection` sends. -/
def upgradeRequest (key : Bytes) : Bytes :=
  text "GET " ++ w.path_ ++ text " HTTP/1.1\r\n" ++ text "Host: " ++ w.host_ ++ text "\r\n" ++
    text "Upgrade: websocket\r\n" ++ text "Connection: Upgrade\r\n" ++
    text "Sec-WebSocket-Key: " ++ key ++ text "\r\n" ++ text "Sec-WebSocket-Version: 13\r\n" ++
    text "\r\n"

/-- `onConnection` of a connection that is up. `nonce` is what `generateWebSocketKey`
draws. -/
def onConnected (c : Client σ) (nonce : Bytes) : Client σ :=
  let key := base64Encode nonce
  { c with
    conn_ := some true
    state_ := .Connecting
    recvBuffer_ := []
    pendingKey_ := key
    sent := c.sent ++ [upgradeRequest w key] }

/-- `onConnection` of a connection that is down. -/
def onDisconnected (c : Client σ) : Client σ :=
  let c' := { c with state_ := .Closed, conn_ := none }
  match c.state_ with
  | .Open | .Closing => c'.fireClose w 1006 (text "TCP connection lost")
  | .Connecting => c'.fireError w (text "Connection failed during handshake")
  | .Closed => c'

/-! ## The frames -/

def closeCode (payload : Bytes) : UInt16 :=
  match payload with
  | b0 :: b1 :: _ => UInt16.ofNat ((b0.toNat <<< 8) ||| b1.toNat)
  | _ => 1005

def closeReason (payload : Bytes) : Bytes := payload.drop 2

/-- A close frame goes back, if the client did not close before. -/
def answerClose (c : Client σ) (payload : Bytes) : Client σ :=
  if c.state_ = .Open then c.sendMasked w .Close payload else c

def handleFrame (c : Client σ) (frame : WebSocketFrame) : Client σ :=
  if frame.opcode = .Text ∨ frame.opcode = .Binary then
    c.fireMessage w ⟨frame.opcode, frame.payload⟩
  else if frame.opcode = .Ping then c.sendMasked w .Pong frame.payload
  else if frame.opcode = .Close then
    Client.fireClose w { answerClose w c frame.payload with state_ := .Closed }
      (closeCode frame.payload) (closeReason frame.payload)
  else c

/-- The loop of `handleWsFrames`, for at most `fuel` rounds. A frame leaves the buffer
behind its callback. -/
def handleWsFramesLoop : Nat → Client σ → Client σ
  | 0, c => c
  | fuel + 1, c =>
    if c.recvBuffer_.length < 2 then c
    else
      match decode c.recvBuffer_ with
      | .error _ => { c with crashed := true }
      | .ok .incomplete => c
      | .ok .error => c.fireError w (text "Frame decode error: ")
      | .ok (.ok frame consumed) =>
        let c := handleFrame w c frame
        handleWsFramesLoop fuel { c with recvBuffer_ := c.recvBuffer_.drop consumed }

/-- Every frame takes two bytes or more, so the length of the buffer is fuel
enough. -/
def handleWsFrames (c : Client σ) (data : Bytes) : Client σ :=
  handleWsFramesLoop w (c.recvBuffer_ ++ data).length
    { c with recvBuffer_ := c.recvBuffer_ ++ data }

/-! ## The answer to the upgrade request -/

def isBlankOrTab (c : UInt8) : Bool := c = 32 || c = 9

/-- The two trims of a header value. A value of blanks only is left as it is. -/
def trimValue (value : Bytes) : Bytes :=
  if value.all isBlankOrTab then value
  else (value.dropWhile isBlankOrTab).rdropWhile isBlankOrTab

/-- One header line of the answer: the last `Sec-WebSocket-Accept` is kept. -/
def readAccept (acceptValue : Bytes) (line : Bytes) : Bytes :=
  match find (text ":") line with
  | some colon =>
    if lower (line.take colon) = text "sec-websocket-accept" then trimValue (line.drop (colon + 1))
    else acceptValue
  | none => acceptValue

def statusLine (headerBlock : Bytes) : Bytes :=
  match find crlf headerBlock with
  | some firstLineEnd => headerBlock.take firstLineEnd
  | none => headerBlock

def headerSection (headerBlock : Bytes) : Bytes :=
  match find crlf headerBlock with
  | some firstLineEnd => headerBlock.drop (firstLineEnd + 2)
  | none => []

/-- The loop over the header lines. An empty line has no colon, so it is skipped. -/
def acceptValue (headerBlock : Bytes) : Bytes :=
  foldLines readAccept (headerSection headerBlock) (headerSection headerBlock).length 0 []

/-- The answer is not accepted. -/
def failHandshake (c : Client σ) (error : Bytes) : Client σ :=
  (Client.fireError w { c with state_ := .Closed } error).shutdown

def handleHandshakeResponse (c : Client σ) (data : Bytes) : Client σ :=
  let c := { c with recvBuffer_ := c.recvBuffer_ ++ data }
  match find blankLine c.recvBuffer_ with
  | none => c
  | some headerEnd =>
    let headerBlock := c.recvBuffer_.take headerEnd
    if find (text "HTTP/1.1 101") (statusLine headerBlock) = none then
      failHandshake w c (text "Handshake failed: " ++ statusLine headerBlock)
    else if acceptValue headerBlock ≠ computeAcceptKey w.sha1 c.pendingKey_ then
      failHandshake w c (text "Handshake failed: invalid Sec-WebSocket-Accept")
    else
      let c := Client.fireOpen w { c with state_ := .Open }
      let remaining := c.recvBuffer_.drop (headerEnd + 4)
      let c := { c with recvBuffer_ := [] }
      if remaining = [] then c else handleWsFrames w c remaining

def onMessage (c : Client σ) (incoming : Bytes) : Client σ :=
  match c.state_ with
  | .Connecting => handleHandshakeResponse w c incoming
  | .Open => handleWsFrames w c incoming
  | _ => c

/-- A piece arrives: it is all that the input buffer holds. -/
def deliver (c : Client σ) (piece : Bytes) : Client σ :=
  if c.crashed then c else onMessage w c piece

/-! ## The buffer and the callbacks -/

def Client.withBuf (c : Client σ) (buf : Bytes) : Client σ := { c with recvBuffer_ := buf }

variable (c : Client σ)

theorem sendMasked_withBuf (buf : Bytes) (opcode : WsOpcode) (payload : Bytes) :
    (c.withBuf buf).sendMasked w opcode payload = (c.sendMasked w opcode payload).withBuf buf := by
  unfold Client.sendMasked Client.sendRaw
  change (if c.conn_ = some true then _ else _) =
    Client.withBuf (if c.conn_ = some true then _ else _) buf
  split <;> rfl

theorem sendFrame_withBuf (buf : Bytes) (opcode : WsOpcode) (payload : Bytes) :
    (c.withBuf buf).sendFrame w opcode payload = (c.sendFrame w opcode payload).withBuf buf := by
  unfold Client.sendFrame
  change (if c.state_ = .Open then _ else _) =
    Client.withBuf (if c.state_ = .Open then _ else _) buf
  split
  · exact sendMasked_withBuf w c buf opcode payload
  · rfl

theorem close_withBuf (buf : Bytes) (code : UInt16) (reason : Bytes) :
    (c.withBuf buf).close w code reason = (c.close w code reason).withBuf buf := by
  unfold Client.close
  change (if c.state_ = .Open then _ else _) =
    Client.withBuf (if c.state_ = .Open then _ else _) buf
  split
  · exact sendMasked_withBuf w { c with state_ := .Closing } buf _ _
  · rfl

theorem call_withBuf (buf : Bytes) (call : Call) :
    (c.withBuf buf).call w call = (c.call w call).withBuf buf := by
  cases call with
  | sendText text | sendBinary data | ping data => exact sendFrame_withBuf w c buf _ _
  | close code reason => exact close_withBuf w c buf code reason
  | disconnect =>
    change Client.shutdown (if c.state_ = .Open then _ else _) =
      (Client.shutdown (if c.state_ = .Open then _ else _)).withBuf buf
    split
    · rw [close_withBuf]
      rfl
    · rfl

theorem calls_withBuf (calls : List Call) (c : Client σ) (buf : Bytes) :
    calls.foldl (Client.call w) (c.withBuf buf) = (calls.foldl (Client.call w) c).withBuf buf :=
  List.foldl_hom (·.withBuf buf) fun c call => call_withBuf w c buf call

theorem fire_withBuf (buf : Bytes) (callback : Callback) (out : σ × List Call) :
    (c.withBuf buf).fire w callback out = (c.fire w callback out).withBuf buf :=
  calls_withBuf w out.2 { c with app := out.1, callbacks := c.callbacks ++ [callback] } buf

/-! ## What the calls leave alone -/

def Call.frame? : Call → Option WebSocketFrame
  | .sendText text => some { opcode := .Text, payload := text }
  | .sendBinary data => some { opcode := .Binary, payload := data }
  | .ping data => some { opcode := .Ping, payload := data }
  | .close _ _ | .disconnect => none

def Call.Sends (call : Call) : Prop := call.frame?.isSome = true

instance (call : Call) : Decidable call.Sends :=
  inferInstanceAs (Decidable (call.frame?.isSome = true))

theorem sendMasked_keeps (opcode : WsOpcode) (payload : Bytes) :
    (c.sendMasked w opcode payload).state_ = c.state_ ∧
      (c.sendMasked w opcode payload).callbacks = c.callbacks ∧
      (c.sendMasked w opcode payload).crashed = c.crashed := by
  unfold Client.sendMasked Client.sendRaw
  split <;> exact ⟨rfl, rfl, rfl⟩

/-- A call fires no callback. It leaves the state, or it closes an open client. -/
theorem call_keeps (call : Call) :
    (c.call w call).callbacks = c.callbacks ∧ (c.call w call).crashed = c.crashed ∧
      ((c.call w call).state_ = c.state_ ∨
        ¬call.Sends ∧ c.state_ = .Open ∧ (c.call w call).state_ = .Closing) := by
  have hsend : ∀ opcode payload, (c.sendFrame w opcode payload).callbacks = c.callbacks ∧
      (c.sendFrame w opcode payload).crashed = c.crashed ∧
      (c.sendFrame w opcode payload).state_ = c.state_ := by
    intro opcode payload
    obtain ⟨h1, h2, h3⟩ := sendMasked_keeps w c opcode payload
    unfold Client.sendFrame
    split
    · exact ⟨h2, h3, h1⟩
    · exact ⟨rfl, rfl, rfl⟩
  have hclose : ∀ code reason, (c.close w code reason).callbacks = c.callbacks ∧
      (c.close w code reason).crashed = c.crashed ∧
      ((c.close w code reason).state_ = c.state_ ∨
        c.state_ = .Open ∧ (c.close w code reason).state_ = .Closing) := by
    intro code reason
    unfold Client.close
    split
    · rename_i hopen
      obtain ⟨h1, h2, h3⟩ := sendMasked_keeps w { c with state_ := .Closing } .Close
        (bigEndian 2 code.toNat ++ reason)
      exact ⟨h2, h3, Or.inr ⟨hopen, h1⟩⟩
    · exact ⟨rfl, rfl, Or.inl rfl⟩
  cases call with
  | sendText payload | sendBinary payload | ping payload =>
    exact (hsend _ payload).imp_right (And.imp_right Or.inl)
  | close code reason =>
    obtain ⟨h1, h2, h3⟩ := hclose code reason
    exact ⟨h1, h2, h3.imp_right (fun h => ⟨by simp [Call.Sends, Call.frame?], h⟩)⟩
  | disconnect =>
    by_cases hopen : c.state_ = .Open
    · have heq : c.call w .disconnect = (c.close w 1000 []).shutdown := by
        unfold Client.call Client.disconnect
        rw [if_pos hopen]
      obtain ⟨h1, h2, h3⟩ := hclose 1000 []
      rw [heq]
      exact ⟨h1, h2, h3.imp_right (fun h => ⟨by decide, h⟩)⟩
    · have heq : c.call w .disconnect = c.shutdown := by
        unfold Client.call Client.disconnect
        rw [if_neg hopen]
      rw [heq]
      exact ⟨rfl, rfl, Or.inl rfl⟩

theorem calls_keep (calls : List Call) (c : Client σ) :
    (calls.foldl (Client.call w) c).callbacks = c.callbacks ∧
      (calls.foldl (Client.call w) c).crashed = c.crashed ∧
      ((calls.foldl (Client.call w) c).state_ = c.state_ ∨
        (∃ call ∈ calls, ¬call.Sends) ∧ c.state_ = .Open ∧
          (calls.foldl (Client.call w) c).state_ = .Closing) := by
  induction calls generalizing c with
  | nil => exact ⟨rfl, rfl, Or.inl rfl⟩
  | cons call calls ih =>
    obtain ⟨h1, h2, h3⟩ := call_keeps w c call
    obtain ⟨k1, k2, k3⟩ := ih (c.call w call)
    rw [List.foldl_cons]
    refine ⟨k1.trans h1, k2.trans h2, ?_⟩
    rcases h3 with h3 | ⟨hnot, hopen, hclosing⟩
    · rcases k3 with k3 | ⟨⟨other, hmem, hnot⟩, hopen, hclosing⟩
      · exact Or.inl (k3.trans h3)
      · exact Or.inr ⟨⟨other, List.mem_cons_of_mem call hmem, hnot⟩, h3 ▸ hopen, hclosing⟩
    · have hstays : (calls.foldl (Client.call w) (c.call w call)).state_ = .Closing := by
        rcases k3 with k3 | ⟨-, -, k3⟩
        · exact k3.trans hclosing
        · exact k3
      exact Or.inr ⟨⟨call, List.mem_cons_self .., hnot⟩, hopen, hstays⟩

theorem fire_keeps (callback : Callback) (out : σ × List Call) :
    (c.fire w callback out).callbacks = c.callbacks ++ [callback] ∧
      (c.fire w callback out).crashed = c.crashed ∧
      ((c.fire w callback out).state_ = c.state_ ∨
        (∃ call ∈ out.2, ¬call.Sends) ∧ c.state_ = .Open ∧
          (c.fire w callback out).state_ = .Closing) :=
  calls_keep w out.2 { c with app := out.1, callbacks := c.callbacks ++ [callback] }

end Client

end mymuduo.websocket_client
