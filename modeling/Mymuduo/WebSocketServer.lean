-- `WebSocketServer` and `WsSession` (src/websocket/WebSocketServer.h,
-- src/websocket/WsSession.h) for one connection. Each delivery looks at the state of
-- the session once, and runs either one handshake or the frame loop.
import Mymuduo.HttpRequest
import Mymuduo.WebSocketFrame

open bytes vectors words

namespace mymuduo.websocket_server

open http_request (StringMap substr)
open websocket_frame

/-! ## The session -/

inductive WsState
  | Connecting
  | Open
  | Closing
  | Closed
  deriving DecidableEq, Repr

structure WsMessage where
  opcode : WsOpcode
  data : Bytes
  deriving DecidableEq, Repr

/-- What a handler sees of the session: its state, whether the connection is still
`kConnected`, and the context. -/
structure WsSession where
  state_ : WsState := .Connecting
  connected : Bool := true
  context_ : StringMap := ∅
  deriving DecidableEq

/-- What goes to `TcpConnection::send`: the answer to a handshake, or a frame. -/
inductive Sent
  | http (response : Bytes)
  | frame (data : Bytes)
  deriving DecidableEq, Repr

/-- What a handler does with the session. It does not close it. -/
inductive Reply
  | sendText (text : Bytes)
  | sendBinary (data : Bytes)
  | ping (data : Bytes)
  | pong (data : Bytes)
  deriving DecidableEq, Repr

def Reply.bytes : Reply → Bytes
  | .sendText text => encodeText text
  | .sendBinary data => encodeBinary data
  | .ping data => encodePing data
  | .pong data => encodePong data

/-- One connection: the session, the readable bytes of the input buffer, the state
of the application, and what happened so far. `crashed` is an exception that left
`onMessage`. -/
structure Conn (σ : Type*) where
  session : WsSession
  buf : Bytes
  app : σ
  messages : List WsMessage
  sent : List Sent
  errors : List Bytes
  crashed : Bool

/-- The settings and the handlers of the server. `sha1` is the hash function of
OpenSSL. -/
structure Server (σ : Type*) where
  maxMessageSize : Int
  handshakeValidator : Option (Bytes → List (Bytes × Bytes) → Bool)
  connectionHandler : σ → WsSession → σ × List Reply
  messageHandler : σ → WsSession → WsMessage → σ × List Reply
  sha1 : Bytes → Bytes

section Session

variable {σ : Type*}

namespace Conn

/-- `TcpConnection::send`, which drops what comes behind a shutdown -/
def send (c : Conn σ) (data : Sent) : Conn σ :=
  if c.session.connected then { c with sent := c.sent ++ [data] } else c

def shutdown (c : Conn σ) : Conn σ := { c with session := { c.session with connected := false } }

def setState (c : Conn σ) (state : WsState) : Conn σ :=
  { c with session := { c.session with state_ := state } }

/-- `sendText`, `sendBinary`, `ping` and `pong`: a frame, when the session is open. -/
def sendFrame (c : Conn σ) (data : Bytes) : Conn σ :=
  if c.session.state_ = .Open then c.send (.frame data) else c

def reply (c : Conn σ) (r : Reply) : Conn σ := c.sendFrame r.bytes

def pong (c : Conn σ) (data : Bytes) : Conn σ := c.sendFrame (encodePong data)

def close (c : Conn σ) (code : UInt16) (reason : Bytes) : Conn σ :=
  if c.session.state_ = .Closed ∨ c.session.state_ = .Closing then c
  else ((c.setState .Closing).send (.frame (encodeClose code reason))).shutdown

def forceClose (c : Conn σ) : Conn σ :=
  if c.session.state_ = .Closed then c else (c.setState .Closed).shutdown

def handleError (c : Conn σ) (error : Bytes) : Conn σ := { c with errors := c.errors ++ [error] }

end Conn

end Session

/-! ## The handshake -/

/-- An entry of a `std::map`, in the order of the keys. -/
def mapInsert (key value : Bytes) : List (Bytes × Bytes) → List (Bytes × Bytes)
  | [] => [(key, value)]
  | (k, v) :: rest =>
    if key = k then (key, value) :: rest
    else if key < k then (key, value) :: (k, v) :: rest
    else (k, v) :: mapInsert key value rest

def isBlank (c : UInt8) : Bool := c = 32 || c = 9 || c = 13 || c = 10

def trim (s : Bytes) : Bytes := (s.dropWhile isBlank).rdropWhile isBlank

def parseHeadersFrom (header : Bytes) : Nat → Nat → List (Bytes × Bytes) → List (Bytes × Bytes)
  | 0, _, headers => headers
  | fuel + 1, pos, headers =>
    if pos < header.length then
      let lineEnd := (findFrom crlf header pos).getD header.length
      let line := substr header pos (lineEnd - pos)
      let headers := match find (text ":") line with
        | some colon => mapInsert (trim (line.take colon)) (trim (line.drop (colon + 1))) headers
        | none => headers
      parseHeadersFrom header fuel (lineEnd + 2) headers
    else headers

def parseHeaders (header : Bytes) : List (Bytes × Bytes) :=
  parseHeadersFrom header (header.length + 1) 0 []

/-- The first key that is equal up to letter case. -/
def getHeader (headers : List (Bytes × Bytes)) (key : Bytes) : Bytes :=
  match headers.find? (fun e => lower e.1 = lower key) with
  | some e => e.2
  | none => []

def blankLine : Bytes := text "\r\n\r\n"

structure Upgrade where
  path : Bytes
  headers : List (Bytes × Bytes)
  key : Bytes
  deriving DecidableEq, Repr

/-- `request.substr(firstLineEnd + 2, headerEnd - firstLineEnd - 2)`. Without a
header line the length wraps, and the section reaches to the end of the buffer. -/
def headerSection (request : Bytes) (firstLineEnd headerEnd : Nat) : Bytes :=
  if firstLineEnd + 2 ≤ headerEnd then
    substr request (firstLineEnd + 2) (headerEnd - firstLineEnd - 2)
  else request.drop (firstLineEnd + 2)

/-- The checks of `handleHandshake` before the validator, on all readable bytes. An
error is the text of the `400` response. -/
def parseUpgrade (request : Bytes) (headerEnd : Nat) : Except Bytes Upgrade :=
  match find crlf request with
  | none => .error (text "Invalid HTTP request")
  | some firstLineEnd =>
    let requestLine := request.take firstLineEnd
    match find (text " ") requestLine with
    | none => .error (text "Invalid request line")
    | some spacePos1 =>
      match findFrom (text " ") requestLine (spacePos1 + 1) with
      | none => .error (text "Invalid request line")
      | some spacePos2 =>
        let path := substr requestLine (spacePos1 + 1) (spacePos2 - spacePos1 - 1)
        let headers := parseHeaders (headerSection request firstLineEnd headerEnd)
        let upgrade := getHeader headers (text "Upgrade")
        let connection := getHeader headers (text "Connection")
        let wsKey := getHeader headers (text "Sec-WebSocket-Key")
        if lower upgrade ≠ text "websocket" then
          .error (text "Missing or invalid Upgrade header")
        else if find (text "upgrade") (lower connection) = none then
          .error (text "Missing or invalid Connection header")
        else if wsKey = [] then .error (text "Missing Sec-WebSocket-Key header")
        else .ok ⟨path, headers, wsKey⟩

def badRequestResponse (msg : Bytes) : Bytes :=
  text "HTTP/1.1 400 Bad Request" ++ crlf ++ text "Content-Type: text/plain" ++ crlf ++
    text "Content-Length: " ++ decimal msg.length ++ crlf ++ text "Connection: close" ++ crlf ++
    crlf ++ msg

def forbiddenResponse : Bytes :=
  text "HTTP/1.1 403 Forbidden" ++ crlf ++ text "Content-Type: text/plain" ++ crlf ++
    text "Content-Length: " ++ decimal (text "Forbidden").length ++ crlf ++
    text "Connection: close" ++ crlf ++ crlf ++ text "Forbidden"

def switchingResponse (acceptKey : Bytes) : Bytes :=
  text "HTTP/1.1 101 Switching Protocols" ++ crlf ++ text "Upgrade: websocket" ++ crlf ++
    text "Connection: Upgrade" ++ crlf ++ text "Sec-WebSocket-Accept: " ++ acceptKey ++ crlf ++ crlf

section Server

variable {σ : Type*} (srv : Server σ)

/-- `!handshakeValidator_ || handshakeValidator_(conn, path, headers)` -/
def validates (u : Upgrade) : Bool :=
  match srv.handshakeValidator with
  | none => true
  | some validator => validator u.path u.headers

/-- The `101` response, and the open session with its path. -/
def switchProtocols (c : Conn σ) (u : Upgrade) : Conn σ :=
  let c := c.send (.http (switchingResponse (computeAcceptKey srv.sha1 u.key)))
  let context := c.session.context_.insert (text "path") u.path
  { c with session := { c.session with state_ := .Open, context_ := context } }

/-- The handshake from its `101` response on, with the connection handler. -/
def openSession (c : Conn σ) (u : Upgrade) : Conn σ :=
  let c := switchProtocols srv c u
  let out := srv.connectionHandler c.app c.session
  out.2.foldl Conn.reply { c with app := out.1 }

def handleHandshake (c : Conn σ) : Conn σ :=
  match find blankLine c.buf with
  | none => c
  | some headerEnd =>
    let request := c.buf
    let c := { c with buf := c.buf.drop (headerEnd + 4) }
    match parseUpgrade request headerEnd with
    | .error msg => (c.send (.http (badRequestResponse msg))).shutdown
    | .ok u =>
      if validates srv u then openSession srv c u else (c.send (.http forbiddenResponse)).shutdown

/-! ## The frames -/

/-- `maxMessageSize > 0 && static_cast<int>(payload.size()) > maxMessageSize` -/
def tooLarge (frame : WebSocketFrame) : Bool :=
  0 < srv.maxMessageSize && srv.maxMessageSize < signed32 frame.payload.length

def handleMessage (c : Conn σ) (msg : WsMessage) : Conn σ :=
  let out := srv.messageHandler c.app c.session msg
  out.2.foldl Conn.reply { c with app := out.1, messages := c.messages ++ [msg] }

def handleFrame (c : Conn σ) (frame : WebSocketFrame) : Conn σ :=
  if frame.opcode = .Text ∨ frame.opcode = .Binary then
    handleMessage srv c ⟨frame.opcode, frame.payload⟩
  else if frame.opcode = .Ping then c.pong frame.payload
  else if frame.opcode = .Close then c.close 1000 []
  else c

/-- The loop of `handleWsFrames`, for at most `fuel` rounds. The decoder gives no
error text of its own. -/
def handleWsFramesLoop : Nat → Conn σ → Conn σ
  | 0, c => c
  | fuel + 1, c =>
    if c.buf = [] then c
    else
      match decode c.buf with
      | .error _ => { c with crashed := true }
      | .ok .incomplete => c
      | .ok .error => (c.handleError (text "Frame decode error: ")).forceClose
      | .ok (.ok frame consumed) =>
        let c := { c with buf := c.buf.drop consumed }
        if tooLarge srv frame then
          (c.handleError (text "Message too large")).close 1009 (text "Message too large")
        else handleWsFramesLoop fuel (handleFrame srv c frame)

/-- Every frame takes two bytes or more, so the length of the buffer is fuel
enough. -/
def handleWsFrames (c : Conn σ) : Conn σ := handleWsFramesLoop srv c.buf.length c

def onMessage (c : Conn σ) : Conn σ :=
  match c.session.state_ with
  | .Connecting => handleHandshake srv c
  | .Open => handleWsFrames srv c
  | _ => c

/-- A piece arrives: it goes to the end of the buffer, and `onMessage` runs. -/
def deliver (c : Conn σ) (piece : Bytes) : Conn σ :=
  if c.crashed then c else onMessage srv { c with buf := c.buf ++ piece }

end Server

def accepted {σ : Type*} (app : σ) : Conn σ :=
  { session := {}, buf := [], app, messages := [], sent := [], errors := [], crashed := false }

def Conn.frames {σ : Type*} (c : Conn σ) : List Bytes :=
  c.sent.filterMap (fun s =>
    match s with
    | .frame data => some data
    | .http _ => none)

end mymuduo.websocket_server
