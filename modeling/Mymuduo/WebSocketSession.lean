-- The whole life of a `WsSession` (src/websocket/WsSession.h) under its
-- `WebSocketServer`: the handlers may close the session, anybody may close it between
-- two deliveries, and the TCP connection goes down. Each call of a handler is noted, and
-- so is each assignment to `state_`.
import Mymuduo.WebSocketDelivery

open List bytes runs words

namespace mymuduo.websocket_session

open websocket_frame websocket_server

/-! ## The session and its notices -/

/-- What a handler, a timer or the owner of the server does with a session. -/
inductive Action
  | reply (r : Reply)
  | close (code : UInt16) (reason : Bytes)
  | forceClose
  deriving DecidableEq, Repr

inductive Answer
  | switching (acceptKey : Bytes)
  | badRequest (msg : Bytes)
  | forbidden
  deriving DecidableEq, Repr

def Answer.bytes : Answer → Bytes
  | .switching acceptKey => switchingResponse acceptKey
  | .badRequest msg => badRequestResponse msg
  | .forbidden => forbiddenResponse

/-- What happens to a session, as far as its handlers and its handshake go: an answer
that went to a connected `TcpConnection`, the calls of the four handlers, a close frame
that came in, and the TCP connection that went down. -/
inductive Notice
  | answered (answer : Answer)
  | connection
  | message (msg : WsMessage)
  | closeFrame
  | error (error : Bytes)
  | closed
  | down
  deriving DecidableEq, Repr

/-- A connection with its session. `registered` says that the session is in `sessions_`
and `connSessions_`; `states` are the values that `state_` took behind `Connecting`. -/
structure Life (σ : Type*) extends Conn σ where
  registered : Bool
  states : List WsState
  log : List Notice

/-- The settings and the handlers of the server. A handler gets the session and may act
on it. -/
structure WebSocketServer (σ : Type*) where
  maxMessageSize : Int
  handshakeValidator : Option (Bytes → List (Bytes × Bytes) → Bool)
  connectionHandler : σ → WsSession → σ × List Action
  messageHandler : σ → WsSession → WsMessage → σ × List Action
  closeHandler : σ → WsSession → σ × List Action
  errorHandler : σ → WsSession → Bytes → σ × List Action
  sha1 : Bytes → Bytes

def Action.reply? : Action → Option Reply
  | .reply r => some r
  | _ => none

/-- The server without the calls that close. -/
def WebSocketServer.toServer {σ : Type*} (srv : WebSocketServer σ) : Server σ where
  maxMessageSize := srv.maxMessageSize
  handshakeValidator := srv.handshakeValidator
  connectionHandler app session :=
    let out := srv.connectionHandler app session
    (out.1, out.2.filterMap Action.reply?)
  messageHandler app session msg :=
    let out := srv.messageHandler app session msg
    (out.1, out.2.filterMap Action.reply?)
  sha1 := srv.sha1

section Life

variable {σ : Type*}

namespace Life

def note (l : Life σ) (notice : Notice) : Life σ := { l with log := l.log ++ [notice] }

/-- Runs a piece of the session that assigns to `state_` at most once. -/
def apply (l : Life σ) (f : Conn σ → Conn σ) : Life σ :=
  let c := f l.toConn
  { l with
    toConn := c
    states := if c.session.state_ = l.session.state_ then l.states
      else l.states ++ [c.session.state_] }

def act (l : Life σ) : Action → Life σ
  | .reply r => l.apply (fun c => c.reply r)
  | .close code reason => l.apply (fun c => c.close code reason)
  | .forceClose => l.apply Conn.forceClose

/-- A handler is called, and what it does is done. -/
def notify (l : Life σ) (notice : Notice) (out : σ × List Action) : Life σ :=
  out.2.foldl act ({ l with app := out.1 }.note notice)

def answer (l : Life σ) (a : Answer) : Life σ :=
  let l' := l.apply (fun c => c.send (.http a.bytes))
  if l.session.connected then l'.note (.answered a) else l'

/-- `sendBadRequest` and `sendForbidden` -/
def refuse (l : Life σ) (a : Answer) : Life σ := (l.answer a).apply Conn.shutdown

end Life

variable (srv : WebSocketServer σ)

/-! ## The server -/

def handleMessage (l : Life σ) (msg : WsMessage) : Life σ :=
  { l with messages := l.messages ++ [msg] }.notify (.message msg)
    (srv.messageHandler l.app l.session msg)

def handleError (l : Life σ) (error : Bytes) : Life σ :=
  { l with errors := l.errors ++ [error] }.notify (.error error)
    (srv.errorHandler l.app l.session error)

def handleClose (l : Life σ) : Life σ :=
  if l.session.state_ = .Closed then l
  else
    let l := l.apply (fun c => c.setState .Closed)
    l.notify .closed (srv.closeHandler l.app l.session)

/-- `setState(Open)` and `setContext("path", path)` -/
def openState (path : Bytes) (c : Conn σ) : Conn σ :=
  let context := c.session.context_.insert (text "path") path
  { c with session := { c.session with state_ := .Open, context_ := context } }

/-- The handshake from its `101` response on. -/
def openSession (l : Life σ) (u : Upgrade) : Life σ :=
  let l := l.answer (.switching (computeAcceptKey srv.sha1 u.key))
  let l := l.apply (openState u.path)
  l.notify .connection (srv.connectionHandler l.app l.session)

def handleHandshake (l : Life σ) : Life σ :=
  match find blankLine l.buf with
  | none => l
  | some headerEnd =>
    let request := l.buf
    let l := { l with buf := l.buf.drop (headerEnd + 4) }
    match parseUpgrade request headerEnd with
    | .error msg => l.refuse (.badRequest msg)
    | .ok u => if validates srv.toServer u then openSession srv l u else l.refuse .forbidden

def handleFrame (l : Life σ) (frame : WebSocketFrame) : Life σ :=
  if frame.opcode = .Text ∨ frame.opcode = .Binary then
    handleMessage srv l ⟨frame.opcode, frame.payload⟩
  else if frame.opcode = .Ping then l.apply (fun c => c.pong frame.payload)
  else if frame.opcode = .Close then (l.note .closeFrame).apply (fun c => c.close 1000 [])
  else l

/-- The loop of `handleWsFrames`, for at most `fuel` rounds. It does not look at the
state again. -/
def handleWsFramesLoop : Nat → Life σ → Life σ
  | 0, l => l
  | fuel + 1, l =>
    if l.buf = [] then l
    else
      match decode l.buf with
      | .error _ => { l with crashed := true }
      | .ok .incomplete => l
      | .ok .error => (handleError srv l (text "Frame decode error: ")).apply Conn.forceClose
      | .ok (.ok frame consumed) =>
        let l := { l with buf := l.buf.drop consumed }
        if tooLarge srv.toServer frame then
          (handleError srv l (text "Message too large")).apply
            (fun c => c.close 1009 (text "Message too large"))
        else handleWsFramesLoop fuel (handleFrame srv l frame)

def handleWsFrames (l : Life σ) : Life σ := handleWsFramesLoop srv l.buf.length l

/-- Without a session the connection is only shut down. -/
def onMessage (l : Life σ) : Life σ :=
  if l.registered = false then l.apply Conn.shutdown
  else
    match l.session.state_ with
    | .Connecting => handleHandshake srv l
    | .Open => handleWsFrames srv l
    | _ => l

/-- `onConnection` of a connection that is not connected any more: the session leaves
the maps, and its `handleClose` runs. -/
def onDisconnected (l : Life σ) : Life σ :=
  let l := l.apply Conn.shutdown
  if l.registered then (handleClose srv { l with registered := false }).note .down else l

/-! ## Events -/

inductive Event
  | deliver (piece : Bytes)
  | act (action : Action)
  | down
  deriving DecidableEq, Repr

/-- One event. Behind an exception nothing runs any more. -/
def step (l : Life σ) (event : Event) : Life σ :=
  if l.crashed then l
  else
    match event with
    | .deliver piece => onMessage srv { l with buf := l.buf ++ piece }
    | .act action => l.act action
    | .down => onDisconnected srv l

end Life

/-- The TCP connection is up, and its session is registered. -/
def connected {σ : Type*} (app : σ) : Life σ :=
  { websocket_server.accepted app with registered := true, states := [], log := [] }

/-! ## What moves the state -/

def rank : WsState → Nat
  | .Connecting => 0
  | .Open => 1
  | .Closing => 2
  | .Closed => 3

theorem two_le_rank_iff (state : WsState) :
    2 ≤ rank state ↔ state = .Closing ∨ state = .Closed := by
  cases state <;> decide

theorem two_le_rank_closed : 2 ≤ rank .Closed := by decide

theorem rank_lt_closed_iff (state : WsState) : rank state < rank .Closed ↔ state ≠ .Closed := by
  cases state <;> decide

section Moves

variable {σ : Type*}

/-- The states that the session took, from the first to the one that it is in. -/
def Life.path (l : Life σ) : List WsState := .Connecting :: l.states

/-- The states lie in order, and none lies behind the one that the session is in. -/
structure Life.Ordered (l : Life σ) : Prop where
  increasing : l.path.Pairwise (fun s t => rank s < rank t)
  passed : ∀ s ∈ l.path, rank s ≤ rank l.session.state_
  current : l.path.getLast? = some l.session.state_

/-- What everything but the end of a handshake and the TCP disconnect does to the
session: it stays where it is or begins to close. -/
structure Moves (l l' : Life σ) : Prop where
  registered : l'.registered = l.registered
  connected : l'.session.connected = true → l.session.connected = true
  closing : l'.session.state_ = l.session.state_ ∨ 2 ≤ rank l'.session.state_
  forward : rank l.session.state_ ≤ rank l'.session.state_
  ordered : l.Ordered → l'.Ordered
  opens : .Open ∈ l'.states → .Open ∈ l.states

theorem moves_of_eq {l l' : Life σ} (hsession : l'.session = l.session)
    (hstates : l'.states = l.states) (hregistered : l'.registered = l.registered) : Moves l l' where
  registered := hregistered
  connected := by
    rw [hsession]
    exact id
  closing := Or.inl (congrArg WsSession.state_ hsession)
  forward := by rw [hsession]
  ordered := by
    have hpath : l'.path = l.path := congrArg (_ :: ·) hstates
    rintro ⟨h1, h2, h3⟩
    refine ⟨?_, ?_, ?_⟩
    · rw [hpath]
      exact h1
    · rw [hpath, hsession]
      exact h2
    · rw [hpath, hsession]
      exact h3
  opens := by
    rw [hstates]
    exact id

theorem Moves.trans {l k m : Life σ} (h : Moves l k) (h' : Moves k m) : Moves l m where
  registered := h'.registered.trans h.registered
  connected := h.connected ∘ h'.connected
  closing := by
    rcases h'.closing with hsame | hclosing
    · rw [hsame]
      exact h.closing
    · exact Or.inr hclosing
  forward := le_trans h.forward h'.forward
  ordered := h'.ordered ∘ h.ordered
  opens := h.opens ∘ h'.opens

theorem Moves.of_same {l k m : Life σ} (h : Moves k m) (hsession : k.session = l.session)
    (hstates : k.states = l.states) (hregistered : k.registered = l.registered) : Moves l m :=
  (moves_of_eq hsession hstates hregistered).trans h

/-- A piece of the session that takes it to a later state. -/
theorem ordered_apply {l : Life σ} {f : Conn σ → Conn σ}
    (hlt : rank l.session.state_ < rank (f l.toConn).session.state_) (h : l.Ordered) :
    (l.apply f).Ordered := by
  have hne : (f l.toConn).session.state_ ≠ l.session.state_ := by
    intro heq
    rw [heq] at hlt
    exact lt_irrefl _ hlt
  have hpath : (l.apply f).path = l.path ++ [(f l.toConn).session.state_] :=
    congrArg (_ :: ·) (if_neg hne)
  refine ⟨?_, ?_, ?_⟩
  · rw [hpath, pairwise_append]
    refine ⟨h.increasing, pairwise_singleton _ _, ?_⟩
    intro s hs t ht
    rw [mem_singleton.mp ht]
    exact lt_of_le_of_lt (h.passed s hs) hlt
  · intro s hs
    rw [hpath, mem_append, mem_singleton] at hs
    rcases hs with hs | rfl
    · exact le_trans (h.passed s hs) (le_of_lt hlt)
    · exact le_refl _
  · rw [hpath, getLast?_concat]
    rfl

theorem moves_apply {l : Life σ} {f : Conn σ → Conn σ}
    (hstate : (f l.toConn).session.state_ = l.session.state_ ∨
      rank l.session.state_ < rank (f l.toConn).session.state_ ∧
        2 ≤ rank (f l.toConn).session.state_)
    (hconnected : (f l.toConn).session.connected = true → l.session.connected = true) :
    Moves l (l.apply f) := by
  rcases hstate with hsame | ⟨hlt, htwo⟩
  · have hstates : (l.apply f).states = l.states := if_pos hsame
    refine ⟨rfl, hconnected, Or.inl hsame, le_of_eq (congrArg rank hsame.symm), ?_, ?_⟩
    · have hpath : (l.apply f).path = l.path := congrArg (_ :: ·) hstates
      rintro ⟨h1, h2, h3⟩
      refine ⟨hpath ▸ h1, ?_, ?_⟩
      · intro s hs
        rw [hpath] at hs
        exact (h2 s hs).trans (le_of_eq (congrArg rank hsame.symm))
      · rw [hpath, h3]
        exact congrArg some hsame.symm
    · rw [hstates]
      exact id
  · have hne : (f l.toConn).session.state_ ≠ l.session.state_ := by
      intro heq
      rw [heq] at hlt
      exact lt_irrefl _ hlt
    have hstates : (l.apply f).states = l.states ++ [(f l.toConn).session.state_] := if_neg hne
    refine ⟨rfl, hconnected, Or.inr htwo, le_of_lt hlt, ?_, ?_⟩
    · exact ordered_apply hlt
    · intro hopen
      rw [hstates, mem_append, mem_singleton] at hopen
      rcases hopen with hopen | hopen
      · exact hopen
      · rw [← hopen] at htwo
        exact absurd htwo (by decide)

theorem moves_same {l : Life σ} {f : Conn σ → Conn σ} (h : (f l.toConn).session = l.session) :
    Moves l (l.apply f) :=
  moves_apply (Or.inl (congrArg WsSession.state_ h)) (fun hc => h ▸ hc)

variable (l : Life σ)

theorem moves_sendFrame (data : Bytes) : Moves l (l.apply (fun c => c.sendFrame data)) := by
  apply moves_same
  rcases sendFrame_cases l.toConn data with ⟨-, -, heq⟩ | ⟨-, heq⟩ <;> rw [heq]

theorem moves_shutdown : Moves l (l.apply Conn.shutdown) :=
  moves_apply (Or.inl rfl) (fun h => nomatch h)

theorem moves_close (code : UInt16) (reason : Bytes) :
    Moves l (l.apply (fun c => c.close code reason)) := by
  by_cases hclosed : l.session.state_ = .Closed ∨ l.session.state_ = .Closing
  · have hclose : l.toConn.close code reason = l.toConn := if_pos hclosed
    exact moves_same (congrArg Conn.session hclose)
  · have hclose : l.toConn.close code reason = ((l.toConn.setState .Closing).send
        (.frame (encodeClose code reason))).shutdown := if_neg hclosed
    have hstate : (l.toConn.close code reason).session.state_ = .Closing := by
      rw [hclose]
      exact congrArg WsSession.state_ (send_keeps (l.toConn.setState .Closing) _).1
    apply moves_apply
    · right
      rw [hstate]
      refine ⟨?_, by decide⟩
      rw [or_comm, ← two_le_rank_iff] at hclosed
      exact not_le.mp hclosed
    · rw [hclose]
      exact fun h => nomatch h

theorem moves_forceClose : Moves l (l.apply Conn.forceClose) := by
  by_cases hclosed : l.session.state_ = .Closed
  · have hclose : l.toConn.forceClose = l.toConn := if_pos hclosed
    exact moves_same (congrArg Conn.session hclose)
  · have hclose : l.toConn.forceClose = (l.toConn.setState .Closed).shutdown := if_neg hclosed
    apply moves_apply
    · right
      rw [hclose]
      exact ⟨(rank_lt_closed_iff _).mpr hclosed, two_le_rank_closed⟩
    · rw [hclose]
      exact fun h => nomatch h

theorem moves_act (action : Action) : Moves l (l.act action) := by
  cases action with
  | reply r => exact moves_sendFrame l r.bytes
  | close code reason => exact moves_close l code reason
  | forceClose => exact moves_forceClose l

theorem log_act (action : Action) : (l.act action).log = l.log := by
  cases action <;> rfl

theorem buf_close (c : Conn σ) (code : UInt16) (reason : Bytes) :
    (c.close code reason).buf = c.buf := by
  unfold Conn.close
  split
  · rfl
  · exact (send_keeps (c.setState .Closing) _).2.1

theorem buf_sendFrame (c : Conn σ) (data : Bytes) : (c.sendFrame data).buf = c.buf := by
  rcases sendFrame_cases c data with ⟨-, -, heq⟩ | ⟨-, heq⟩ <;> rw [heq]

theorem buf_act (action : Action) : (l.act action).buf = l.buf := by
  cases action with
  | reply r => exact buf_sendFrame l.toConn r.bytes
  | close code reason => exact buf_close l.toConn code reason
  | forceClose =>
    change l.toConn.forceClose.buf = l.buf
    unfold Conn.forceClose
    split <;> rfl

/-- A handler that is called leaves one notice, and may begin to close the session. -/
theorem notify_moves (notice : Notice) (out : σ × List Action) :
    Moves l (l.notify notice out) ∧ (l.notify notice out).buf = l.buf ∧
      (l.notify notice out).log = l.log ++ [notice] := by
  have hacts : ∀ (actions : List Action) (k : Life σ),
      Moves k (actions.foldl Life.act k) ∧ (actions.foldl Life.act k).buf = k.buf ∧
        (actions.foldl Life.act k).log = k.log := by
    intro actions
    induction actions with
    | nil => exact fun k => ⟨moves_of_eq rfl rfl rfl, rfl, rfl⟩
    | cons action actions ih =>
      intro k
      obtain ⟨h1, h2, h3⟩ := ih (k.act action)
      exact ⟨(moves_act k action).trans h1, h2.trans (buf_act k action),
        h3.trans (log_act k action)⟩
  obtain ⟨h1, h2, h3⟩ := hacts out.2 ({ l with app := out.1 }.note notice)
  exact ⟨h1.of_same rfl rfl rfl, h2, h3⟩

theorem answer_moves (a : Answer) :
    Moves l (l.answer a) ∧ (l.answer a).session = l.session ∧
      (l.answer a).log = l.log ++ if l.session.connected then [.answered a] else [] := by
  have hsession : (l.toConn.send (.http a.bytes)).session = l.session :=
    (send_keeps l.toConn _).1
  have hmoves : Moves l (l.apply (fun c => c.send (.http a.bytes))) := moves_same hsession
  unfold Life.answer
  split
  · exact ⟨hmoves.trans (moves_of_eq rfl rfl rfl), hsession, rfl⟩
  · exact ⟨hmoves, hsession, (append_nil _).symm⟩

end Moves

/-! ## What frames bring -/

def noticeOf (frame : WebSocketFrame) : Option Notice :=
  if frame.opcode = .Text ∨ frame.opcode = .Binary then
    some (.message ⟨frame.opcode, frame.payload⟩)
  else if frame.opcode = .Close then some .closeFrame
  else none

section Frames

variable {σ : Type*} (srv : WebSocketServer σ)

/-- The frames that the loop handles: it ends at the first frame that is too large. -/
def handled (data : Bytes) : List WebSocketFrame :=
  (frameReader.items data).takeWhile (fun frame => !tooLarge srv.toServer frame)

theorem handleFrame_moves (l : Life σ) (frame : WebSocketFrame) :
    Moves l (handleFrame srv l frame) ∧ (handleFrame srv l frame).buf = l.buf ∧
      (frame.opcode = .Close → 2 ≤ rank (handleFrame srv l frame).session.state_) ∧
      (handleFrame srv l frame).log = l.log ++ (noticeOf frame).toList := by
  unfold handleFrame noticeOf
  split_ifs with hmsg hping hclose hclose
  · obtain ⟨h1, h2, h3⟩ := notify_moves
      { l with messages := l.messages ++ [⟨frame.opcode, frame.payload⟩] }
        (.message ⟨frame.opcode, frame.payload⟩)
      (srv.messageHandler l.app l.session ⟨frame.opcode, frame.payload⟩)
    refine ⟨h1.of_same rfl rfl rfl, h2, fun hclose => ?_, h3⟩
    rw [hclose] at hmsg
    exact absurd hmsg (by decide)
  · exact absurd (hping.symm.trans hclose) (by decide)
  · exact ⟨moves_sendFrame l _, buf_sendFrame l.toConn _, fun h => absurd h hclose,
      (append_nil _).symm⟩
  · have h1 := moves_close (l.note .closeFrame) 1000 []
    exact ⟨h1.of_same rfl rfl rfl, buf_close l.toConn 1000 [],
      fun _ => (two_le_rank_iff _).mpr (state_close l.toConn 1000 []), rfl⟩
  · exact ⟨moves_of_eq rfl rfl rfl, rfl, fun h => absurd h hclose, (append_nil _).symm⟩

theorem handleError_moves (l : Life σ) (error : Bytes) :
    Moves l (handleError srv l error) ∧
      (handleError srv l error).log = l.log ++ [.error error] := by
  obtain ⟨h1, -, h3⟩ := notify_moves { l with errors := l.errors ++ [error] } (.error error)
    (srv.errorHandler l.app l.session error)
  exact ⟨h1.of_same rfl rfl rfl, h3⟩

theorem handled_of_next_none {data : Bytes} (h : frameReader.next data = none) :
    handled srv data = [] := by
  unfold handled
  rw [frameReader.items_of_next_none h]
  rfl

theorem handled_of_next_some {data rest : Bytes} {frame : WebSocketFrame}
    (h : frameReader.next data = some (frame, rest)) :
    handled srv data = if tooLarge srv.toServer frame then [] else frame :: handled srv rest := by
  unfold handled
  rw [frameReader.items_of_next_some h, takeWhile_cons]
  cases tooLarge srv.toServer frame <;> rfl

theorem loop_next {l : Life σ} {frame : WebSocketFrame} {rest : Bytes}
    (h : frameReader.next l.buf = some (frame, rest)) (fuel : Nat) :
    handleWsFramesLoop srv (fuel + 1) l =
      if tooLarge srv.toServer frame then
        (handleError srv { l with buf := rest } (text "Message too large")).apply
          (fun c => c.close 1009 (text "Message too large"))
      else handleWsFramesLoop srv fuel (handleFrame srv { l with buf := rest } frame) := by
  obtain ⟨consumed, hdec, rfl⟩ := frameReader_next_iff.mp h
  have hne : l.buf ≠ [] := by
    intro hnil
    rw [hnil, frameReader.next_nil] at h
    cases h
  rw [handleWsFramesLoop, if_neg hne, hdec]

theorem loop_wait {l : Life σ} (h : frameReader.next l.buf = none) (fuel : Nat) :
    Moves l (handleWsFramesLoop srv fuel l) ∧ ∃ errors : List Bytes,
      (handleWsFramesLoop srv fuel l).log = l.log ++ errors.map .error := by
  have hstay : ∃ errors : List Bytes, l.log = l.log ++ errors.map .error :=
    ⟨[], (append_nil _).symm⟩
  cases fuel with
  | zero => exact ⟨moves_of_eq rfl rfl rfl, hstay⟩
  | succ fuel =>
    unfold handleWsFramesLoop
    split
    · exact ⟨moves_of_eq rfl rfl rfl, hstay⟩
    · split
      · exact ⟨moves_of_eq rfl rfl rfl, hstay⟩
      · exact ⟨moves_of_eq rfl rfl rfl, hstay⟩
      · obtain ⟨h1, h2⟩ := handleError_moves srv l (text "Frame decode error: ")
        exact ⟨h1.trans (moves_forceClose _), [text "Frame decode error: "], h2⟩
      · rename_i frame consumed hdec
        rw [frameReader_next_iff.mpr ⟨consumed, hdec, rfl⟩] at h
        cases h

/-- The loop leaves the notices of the frames that it handles, and at most an error
behind them. -/
theorem loop_moves (fuel : Nat) (l : Life σ) (hfuel : l.buf.length ≤ fuel) :
    Moves l (handleWsFramesLoop srv fuel l) ∧
      (∀ frame ∈ handled srv l.buf, frame.opcode = .Close →
        2 ≤ rank (handleWsFramesLoop srv fuel l).session.state_) ∧
      ∃ errors : List Bytes, (handleWsFramesLoop srv fuel l).log =
        l.log ++ ((handled srv l.buf).filterMap noticeOf ++ errors.map .error) := by
  induction fuel generalizing l with
  | zero =>
    have hnil : l.buf = [] := eq_nil_of_length_eq_zero (by omega)
    have hnone : frameReader.next l.buf = none := by rw [hnil, frameReader.next_nil]
    rw [handled_of_next_none srv hnone]
    exact ⟨moves_of_eq rfl rfl rfl, by simp, [], (append_nil _).symm⟩
  | succ fuel ih =>
    cases hnext : frameReader.next l.buf with
    | none =>
      rw [handled_of_next_none srv hnext]
      obtain ⟨h1, h2⟩ := loop_wait srv hnext (fuel + 1)
      exact ⟨h1, by simp, h2⟩
    | some p =>
      obtain ⟨frame, rest⟩ := p
      have hshort := frameReader.shrinks hnext
      rw [handled_of_next_some srv hnext, loop_next srv hnext]
      split
      · obtain ⟨h1, h2⟩ := handleError_moves srv { l with buf := rest } (text "Message too large")
        exact ⟨(h1.trans (moves_close _ _ _)).of_same rfl rfl rfl, by simp,
          [text "Message too large"], h2⟩
      · obtain ⟨h1, hbuf, hclose, hlog⟩ := handleFrame_moves srv { l with buf := rest } frame
        have hlen : (handleFrame srv { l with buf := rest } frame).buf.length ≤ fuel := by
          rw [hbuf]
          change rest.length ≤ fuel
          omega
        obtain ⟨k1, k2, errors, k3⟩ := ih _ hlen
        rw [hbuf] at k2 k3
        refine ⟨(h1.trans k1).of_same rfl rfl rfl, ?_, errors, ?_⟩
        · intro f hf hf'
          rcases mem_cons.mp hf with rfl | hf
          · exact le_trans (hclose hf') k1.forward
          · exact k2 f hf hf'
        · rw [k3, hlog]
          cases hnotice : noticeOf frame with
          | none | some notice => simp [hnotice]

end Frames

end mymuduo.websocket_session
