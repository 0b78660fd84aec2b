-- The callbacks of `WebSocketClient` over the life of one TCP connection. The loop
-- over the frames does not look at the state again behind a close frame, so what is
-- packed into one delivery with the close frame still reaches the callbacks.
import Mymuduo.WebSocketDelivery

open List bytes runs words

namespace mymuduo.websocket_client

open websocket_frame
open websocket_server (WsState blankLine frameReader)

/-! ## The law of the callbacks -/

def Callback.isMessage : Callback → Bool
  | .message _ => true
  | _ => false

def Callback.isClosed : Callback → Bool
  | .closed _ _ => true
  | _ => false

/-- Behind the close callback comes neither a message nor another close. -/
def ClosesLast (x y : Callback) : Prop :=
  x.isClosed = true → y.isMessage = false ∧ y.isClosed = false

/-- The callbacks of one connection: it opens once, messages come behind the open and
before the close, and it closes once. -/
structure Disciplined (log : List Callback) : Prop where
  opens_once : log.Pairwise (fun x y => x = .opened → y ≠ .opened)
  messages_behind_open : ∀ before msg after, log = before ++ .message msg :: after →
    .opened ∈ before
  closes_last : log.Pairwise ClosesLast

section Callbacks

variable {σ : Type*} (w : Settings σ)

/-! ## Events -/

/-- What happens to a client while its TCP connection is up, and the end of it. -/
inductive Event
  | deliver (piece : Bytes)
  | call (call : Call)
  | down
  deriving DecidableEq, Repr

/-- One event. Behind an exception nothing runs any more. -/
def step (c : Client σ) : Event → Client σ
  | .deliver piece => deliver w c piece
  | .call call => if c.crashed then c else c.call w call
  | .down => if c.crashed then c else onDisconnected w c

/-- A connection that just came up. The callbacks are counted from here on. -/
def up (c : Client σ) (nonce : Bytes) : Client σ := { onConnected w c nonce with callbacks := [] }

/-- The header block is an answer that the client takes. -/
def accepts (key headerBlock : Bytes) : Prop :=
  find (text "HTTP/1.1 101") (statusLine headerBlock) ≠ none ∧
    acceptValue headerBlock = computeAcceptKey w.sha1 key

instance (key headerBlock : Bytes) : Decidable (accepts w key headerBlock) :=
  inferInstanceAs (Decidable (_ ∧ _))

/-- The frames that a delivery brings to an end: those of an open client, and those
behind the answer that opens the client. -/
def completes (c : Client σ) : Event → List WebSocketFrame
  | .deliver piece =>
    let data := c.recvBuffer_ ++ piece
    if c.crashed then []
    else
      match c.state_ with
      | .Open => frameReader.items data
      | .Connecting =>
        match find blankLine data with
        | none => []
        | some headerEnd =>
          if accepts w c.pendingKey_ (data.take headerEnd) then
            frameReader.items (data.drop (headerEnd + 4))
          else []
      | _ => []
  | _ => []

def CloseIsLast (frames : List WebSocketFrame) : Prop :=
  frames.Pairwise (fun x y => x.opcode = .Close →
    y.opcode ≠ .Text ∧ y.opcode ≠ .Binary ∧ y.opcode ≠ .Close)

/-! ## What frames fire -/

def callbackOf (frame : WebSocketFrame) : Option Callback :=
  if frame.opcode = .Text ∨ frame.opcode = .Binary then
    some (.message ⟨frame.opcode, frame.payload⟩)
  else if frame.opcode = .Close then
    some (.closed (closeCode frame.payload) (closeReason frame.payload))
  else none

variable (c : Client σ)

theorem callbacks_handleFrame (frame : WebSocketFrame) :
    (handleFrame w c frame).callbacks = c.callbacks ++ (callbackOf frame).toList := by
  unfold handleFrame callbackOf
  split_ifs with hmsg hping hclose hclose
  · exact (fire_keeps w c _ _).1
  · exact absurd (hping.symm.trans hclose) (by decide)
  · simpa using (sendMasked_keeps w c .Pong frame.payload).2.1
  · refine (fire_keeps w _ _ _).1.trans ?_
    exact congrArg (· ++ _) (answerClose_keeps w c frame.payload).1
  · simp

variable (frames : List WebSocketFrame)

theorem callbacks_foldl (c : Client σ) :
    (frames.foldl (handleFrame w) c).callbacks = c.callbacks ++ frames.filterMap callbackOf := by
  induction frames generalizing c with
  | nil => simp
  | cons frame frames ih =>
    rw [foldl_cons, ih, callbacks_handleFrame]
    cases hcallback : callbackOf frame with
    | none | some callback => simp [hcallback]

theorem state_handleFrame {c : Client σ} (frame : WebSocketFrame) (h : c.state_ ≠ .Connecting) :
    (handleFrame w c frame).state_ ≠ .Connecting ∧
      ((handleFrame w c frame).state_ = .Closed ∨
        c.state_ ≠ .Closed ∧ frame.opcode ≠ .Close) := by
  have hfire : ∀ (d : Client σ) callback out, d.state_ ≠ .Connecting →
      (d.fire w callback out).state_ ≠ .Connecting ∧
        (d.state_ = .Closed → (d.fire w callback out).state_ = .Closed) := by
    intro d callback out hd
    rcases (fire_keeps w d callback out).2.2 with hsame | ⟨-, hopen, hclosing⟩
    · rw [hsame]
      exact ⟨hd, id⟩
    · rw [hclosing, hopen]
      exact ⟨by decide, fun h => nomatch h⟩
  have hstays : ∀ state : WsState, (c.state_ = .Closed → state = .Closed) → frame.opcode ≠ .Close →
      (state = .Closed ∨ c.state_ ≠ .Closed ∧ frame.opcode ≠ .Close) := by
    intro state hclosed hframe
    by_cases hc : c.state_ = .Closed
    · exact Or.inl (hclosed hc)
    · exact Or.inr ⟨hc, hframe⟩
  unfold handleFrame
  split
  · rename_i hmsg
    obtain ⟨h1, h2⟩ := hfire c (.message ⟨frame.opcode, frame.payload⟩)
      (w.messageCallback c.app c.state_ ⟨frame.opcode, frame.payload⟩) h
    refine ⟨h1, hstays _ h2 ?_⟩
    rcases hmsg with hmsg | hmsg
    · rw [hmsg]
      decide
    · rw [hmsg]
      decide
  · split
    · rename_i hping
      rw [(sendMasked_keeps w c .Pong frame.payload).1]
      refine ⟨h, hstays _ id ?_⟩
      rw [hping]
      decide
    · split
      · have hne : WsState.Closed ≠ .Connecting := by decide
        obtain ⟨h1, h2⟩ := hfire { answerClose w c frame.payload with state_ := .Closed }
          (.closed (closeCode frame.payload) (closeReason frame.payload)) (w.closeCallback
            (answerClose w c frame.payload).app .Closed (closeCode frame.payload)
            (closeReason frame.payload)) hne
        exact ⟨h1, Or.inl (h2 rfl)⟩
      · rename_i hclose
        exact ⟨h, hstays _ id hclose⟩

theorem state_foldl {c : Client σ} (h : c.state_ ≠ .Connecting) :
    (frames.foldl (handleFrame w) c).state_ ≠ .Connecting ∧
      ((frames.foldl (handleFrame w) c).state_ = .Closed ∨
        c.state_ ≠ .Closed ∧ ∀ frame ∈ frames, frame.opcode ≠ .Close) := by
  induction frames generalizing c with
  | nil =>
    refine ⟨h, ?_⟩
    by_cases hclosed : c.state_ = .Closed
    · exact Or.inl hclosed
    · exact Or.inr ⟨hclosed, by simp⟩
  | cons frame frames ih =>
    obtain ⟨h1, h2⟩ := state_handleFrame w frame h
    obtain ⟨k1, k2⟩ := ih h1
    rw [foldl_cons]
    refine ⟨k1, ?_⟩
    rcases k2 with k2 | ⟨hnot, hframes⟩
    · exact Or.inl k2
    · rcases h2 with h2 | ⟨hc, hframe⟩
      · exact absurd h2 hnot
      · refine Or.inr ⟨hc, ?_⟩
        intro f hf
        rcases mem_cons.mp hf with rfl | hf
        · exact hframe
        · exact hframes f hf

/-- The client handled the frames: it is past its handshake, and a close frame among
them has closed it. -/
def Past (c : Client σ) (frames : List WebSocketFrame) : Prop :=
  c.state_ ≠ .Connecting ∧ (c.state_ = .Closed ∨ ∀ frame ∈ frames, frame.opcode ≠ .Close)

theorem handleWsFrames_fires {c : Client σ} (h : c.state_ ≠ .Connecting) (data : Bytes) :
    Past (handleWsFrames w c data) (frameReader.items (c.recvBuffer_ ++ data)) ∧
      (handleWsFrames w c data).callbacks =
        c.callbacks ++ (frameReader.items (c.recvBuffer_ ++ data)).filterMap callbackOf := by
  let c' : Client σ := c.withBuf (c.recvBuffer_ ++ data)
  have hloop : handleWsFrames w c data = _ := loop_eq_foldl w _ c' (le_refl _)
  have hstate : c'.state_ ≠ .Connecting := h
  obtain ⟨h1, h2⟩ := state_foldl w (frameReader.items (c.recvBuffer_ ++ data)) hstate
  rw [hloop]
  exact ⟨⟨h1, h2.imp_right And.right⟩, callbacks_foldl w _ c'⟩

theorem failHandshake_fires (error : Bytes) :
    (failHandshake w c error).state_ = .Closed ∧
      (failHandshake w c error).callbacks = c.callbacks ++ [.error error] := by
  obtain ⟨h1, -, h3⟩ := fire_keeps w { c with state_ := .Closed } (.error error)
    (w.errorCallback c.app .Closed error)
  refine ⟨?_, h1⟩
  rcases h3 with h3 | ⟨-, hopen, -⟩
  · exact h3
  · cases hopen

theorem opened_fires :
    (opened w c).state_ ≠ .Connecting ∧ (opened w c).callbacks = c.callbacks ++ [.opened] := by
  obtain ⟨h1, -, h3⟩ := fire_keeps w { c with state_ := .Open } .opened
    (w.openCallback c.app .Open)
  refine ⟨?_, h1⟩
  rcases h3 with h3 | ⟨-, -, h3⟩ <;> exact fun h => nomatch h.symm.trans h3

/-- A delivery before the handshake is through waits, fails, or opens the client and
goes on with the frames behind the answer. -/
theorem handleHandshakeResponse_fires {c : Client σ} (hs : c.state_ = .Connecting)
    (hlives : c.crashed = false) (piece : Bytes) :
    ((handleHandshakeResponse w c piece).state_ = .Connecting ∧
        (handleHandshakeResponse w c piece).callbacks = c.callbacks ∧
        completes w c (.deliver piece) = []) ∨
      ((handleHandshakeResponse w c piece).state_ = .Closed ∧
        (∃ error, (handleHandshakeResponse w c piece).callbacks = c.callbacks ++ [.error error]) ∧
        completes w c (.deliver piece) = []) ∨
      (Past (handleHandshakeResponse w c piece) (completes w c (.deliver piece)) ∧
        (handleHandshakeResponse w c piece).callbacks =
          c.callbacks ++ .opened :: (completes w c (.deliver piece)).filterMap callbackOf) := by
  dsimp only [completes]
  rw [handleHandshakeResponse_eq, if_neg (by rw [hlives]; simp), hs]
  cases find blankLine (c.recvBuffer_ ++ piece) with
  | none => exact Or.inl ⟨hs, rfl, rfl⟩
  | some headerEnd =>
    dsimp only
    by_cases h101 : find (text "HTTP/1.1 101")
        (statusLine ((c.recvBuffer_ ++ piece).take headerEnd)) = none
    · have hno : ¬accepts w c.pendingKey_ ((c.recvBuffer_ ++ piece).take headerEnd) :=
        fun h => h.1 h101
      rw [if_pos h101, if_neg hno]
      obtain ⟨h1, h2⟩ := failHandshake_fires w (c.withBuf (c.recvBuffer_ ++ piece)) _
      exact Or.inr (Or.inl ⟨h1, ⟨_, h2⟩, rfl⟩)
    · rw [if_neg h101]
      by_cases haccept : acceptValue ((c.recvBuffer_ ++ piece).take headerEnd) =
          computeAcceptKey w.sha1 c.pendingKey_
      · have hyes : accepts w c.pendingKey_ ((c.recvBuffer_ ++ piece).take headerEnd) :=
          ⟨h101, haccept⟩
        rw [if_neg (not_not.mpr haccept), if_pos hyes]
        obtain ⟨hstate, hopened⟩ := opened_fires w c
        obtain ⟨h1, h2⟩ := handleWsFrames_fires w (c := (opened w c).withBuf []) hstate
          ((c.recvBuffer_ ++ piece).drop (headerEnd + 4))
        refine Or.inr (Or.inr ⟨h1, h2.trans ?_⟩)
        change (opened w c).callbacks ++ _ = _
        rw [hopened]
        simp [Client.withBuf]
      · have hno : ¬accepts w c.pendingKey_ ((c.recvBuffer_ ++ piece).take headerEnd) :=
          fun h => haccept h.2
        rw [if_pos haccept, if_neg hno]
        obtain ⟨h1, h2⟩ := failHandshake_fires w (c.withBuf (c.recvBuffer_ ++ piece)) _
        exact Or.inr (Or.inl ⟨h1, ⟨_, h2⟩, rfl⟩)

/-! ## What an event fires -/

/-- What one event can do to the callbacks and to the state. -/
inductive Fires (c c' : Client σ) (frames : List WebSocketFrame) : Prop
  | nothing (hlog : c'.callbacks = c.callbacks) (hframes : frames = [])
      (hstate : c'.state_ = c.state_ ∨ c.state_ = .Open ∧ c'.state_ = .Closing)
  | failed (hs : c.state_ = .Connecting) (hs' : c'.state_ = .Closed) (error : Bytes)
      (hlog : c'.callbacks = c.callbacks ++ [.error error]) (hframes : frames = [])
  | opened (hs : c.state_ = .Connecting) (hpast : Past c' frames)
      (hlog : c'.callbacks = c.callbacks ++ .opened :: frames.filterMap callbackOf)
  | handled (hs : c.state_ = .Open) (hpast : Past c' frames)
      (hlog : c'.callbacks = c.callbacks ++ frames.filterMap callbackOf)
  | lost (hs : c.state_ = .Open ∨ c.state_ = .Closing) (hs' : c'.state_ = .Closed)
      (code : UInt16) (reason : Bytes) (hlog : c'.callbacks = c.callbacks ++ [.closed code reason])
      (hframes : frames = [])

theorem deliver_fires (piece : Bytes) :
    Fires c (deliver w c piece) (completes w c (.deliver piece)) := by
  have hignored : deliver w c piece = c → completes w c (.deliver piece) = [] →
      Fires c (deliver w c piece) (completes w c (.deliver piece)) := by
    intro hsame hframes
    rw [hsame, hframes]
    exact .nothing rfl rfl (Or.inl rfl)
  by_cases hcrashed : c.crashed = true
  · apply hignored
    · unfold deliver
      rw [if_pos hcrashed]
    · dsimp only [completes]
      rw [if_pos hcrashed]
  · have hlives : c.crashed = false := by simpa using hcrashed
    cases hs : c.state_ with
    | Connecting =>
      rw [deliver_connecting w hs hlives]
      rcases handleHandshakeResponse_fires w hs hlives piece with
        ⟨h1, h2, h3⟩ | ⟨h1, ⟨error, h2⟩, h3⟩ | ⟨h1, h2⟩
      · exact .nothing h2 h3 (Or.inl (h1.trans hs.symm))
      · exact .failed hs h1 error h2 h3
      · exact .opened hs h1 h2
    | Open =>
      have hframes :
          completes w c (.deliver piece) = frameReader.items (c.recvBuffer_ ++ piece) := by
        dsimp only [completes]
        rw [if_neg hcrashed, hs]
      have hdeliver : deliver w c piece = handleWsFrames w c piece := by
        unfold deliver onMessage
        rw [if_neg hcrashed, hs]
      obtain ⟨h1, h2⟩ := handleWsFrames_fires w (c := c) (by rw [hs]; decide) piece
      rw [hframes, hdeliver]
      exact .handled hs h1 h2
    | Closing | Closed =>
      apply hignored
      · unfold deliver onMessage
        rw [if_neg hcrashed, hs]
      · dsimp only [completes]
        rw [if_neg hcrashed, hs]

theorem onDisconnected_fires : Fires c (onDisconnected w c) [] := by
  let c' : Client σ := { c with state_ := .Closed, conn_ := none }
  have hfire : ∀ callback out, (c'.fire w callback out).callbacks = c.callbacks ++ [callback] ∧
      (c'.fire w callback out).state_ = .Closed := by
    intro callback out
    obtain ⟨h1, -, h3⟩ := fire_keeps w c' callback out
    refine ⟨h1, ?_⟩
    rcases h3 with h3 | ⟨-, hopen, -⟩
    · exact h3
    · cases hopen
  unfold onDisconnected
  cases hs : c.state_ with
  | Connecting =>
    obtain ⟨h1, h2⟩ := hfire (.error (text "Connection failed during handshake"))
      (w.errorCallback c.app .Closed (text "Connection failed during handshake"))
    exact .failed hs h2 _ h1 rfl
  | Open | Closing =>
    obtain ⟨h1, h2⟩ := hfire (.closed 1006 (text "TCP connection lost"))
      (w.closeCallback c.app .Closed 1006 (text "TCP connection lost"))
    exact .lost (by simp [hs]) h2 _ _ h1 rfl
  | Closed => exact .nothing rfl rfl (Or.inl hs.symm)

theorem step_fires (event : Event) : Fires c (step w c event) (completes w c event) := by
  cases event with
  | deliver piece => exact deliver_fires w c piece
  | call call =>
    dsimp only [step]
    split
    · exact .nothing rfl rfl (Or.inl rfl)
    · obtain ⟨h1, -, h3⟩ := call_keeps w c call
      exact .nothing h1 rfl (h3.imp_right And.right)
  | down =>
    dsimp only [step]
    split
    · exact .nothing rfl rfl (Or.inl rfl)
    · exact onDisconnected_fires w c

/-! ## The phases of a connection -/

/-- What the callbacks say so far: nothing before the answer, one error behind a failed
handshake, or one open and then whatever the frames brought. Only a closed client has
fired its close callback. -/
inductive Phase (c : Client σ) : Prop
  | connecting (hs : c.state_ = .Connecting) (hlog : c.callbacks = [])
  | failed (hs : c.state_ = .Closed) (error : Bytes) (hlog : c.callbacks = [.error error])
  | past (hs : c.state_ ≠ .Connecting) (rest : List Callback) (hlog : c.callbacks = .opened :: rest)
      (honce : .opened ∉ rest) (hopen : c.state_ ≠ .Closed → ∀ x ∈ rest, x.isClosed = false)

theorem opened_notMem : .opened ∉ frames.filterMap callbackOf := by
  rw [mem_filterMap]
  rintro ⟨frame, -, hframe⟩
  unfold callbackOf at hframe
  split at hframe
  · cases hframe
  · split at hframe <;> cases hframe

theorem isClosed_of_mem {frames : List WebSocketFrame} {x : Callback}
    (hx : x ∈ frames.filterMap callbackOf) (h : ∀ frame ∈ frames, frame.opcode ≠ .Close) :
    x.isClosed = false := by
  obtain ⟨frame, hframe, hcallback⟩ := mem_filterMap.mp hx
  unfold callbackOf at hcallback
  split at hcallback
  · cases hcallback
    rfl
  · rw [if_neg (h frame hframe)] at hcallback
    cases hcallback

/-- An event takes the client from one phase to a later one. -/
theorem phase_of_fires {c c' : Client σ} {frames : List WebSocketFrame} (hf : Fires c c' frames)
    (hc : Phase c) : Phase c' := by
  cases hf with
  | nothing hlog hframes hstate =>
    cases hc with
    | connecting hs hnil => exact .connecting (by simpa [hs] using hstate) (hlog.trans hnil)
    | failed hs error herror =>
      exact .failed (by simpa [hs] using hstate) error (hlog.trans herror)
    | past hs rest hrest honce hopen =>
      rcases hstate with hstate | ⟨hwas, hclosing⟩
      · refine .past (by rwa [hstate]) rest (hlog.trans hrest) honce ?_
        rwa [hstate]
      · refine .past (by rw [hclosing]; decide) rest (hlog.trans hrest) honce ?_
        intro _
        exact hopen (by rw [hwas]; decide)
  | failed hs hs' error hlog hframes =>
    cases hc with
    | connecting _ hnil => exact .failed hs' error (by rw [hlog, hnil]; rfl)
    | failed hs2 _ _ => cases hs.symm.trans hs2
    | past hs2 _ _ _ _ => exact absurd hs hs2
  | opened hs hpast hlog =>
    cases hc with
    | connecting _ hnil =>
      refine .past hpast.1 (frames.filterMap callbackOf) (by rw [hlog, hnil]; rfl)
        (opened_notMem frames) ?_
      intro hnot x hx
      exact isClosed_of_mem hx (hpast.2.resolve_left hnot)
    | failed hs2 _ _ => cases hs.symm.trans hs2
    | past hs2 _ _ _ _ => exact absurd hs hs2
  | handled hs hpast hlog =>
    cases hc with
    | connecting hs2 _ | failed hs2 _ _ => cases hs.symm.trans hs2
    | past hs2 rest hrest honce hopen =>
      refine .past hpast.1 (rest ++ frames.filterMap callbackOf) (by rw [hlog, hrest]; rfl) ?_ ?_
      · rw [mem_append, not_or]
        exact ⟨honce, opened_notMem frames⟩
      · intro hnot x hx
        rcases mem_append.mp hx with hx | hx
        · exact hopen (by rw [hs]; decide) x hx
        · exact isClosed_of_mem hx (hpast.2.resolve_left hnot)
  | lost hs hs' code reason hlog hframes =>
    cases hc with
    | connecting hs2 _ | failed hs2 _ _ =>
      rcases hs with hs | hs <;> cases hs.symm.trans hs2
    | past hs2 rest hrest honce hopen =>
      refine .past (by rw [hs']; decide) (rest ++ [.closed code reason])
        (by rw [hlog, hrest]; rfl) ?_ (fun hnot => absurd hs' hnot)
      rw [mem_append, not_or]
      exact ⟨honce, by simp⟩

theorem phase_step (event : Event) (hc : Phase c) : Phase (step w c event) :=
  phase_of_fires (step_fires w c event) hc

theorem not_closed_of_phase {c : Client σ} (hc : Phase c) (hs : c.state_ ≠ .Closed) :
    ∀ x ∈ c.callbacks, x.isClosed = false := by
  cases hc with
  | connecting _ hlog => simp [hlog]
  | failed hclosed _ _ => exact absurd hclosed hs
  | past _ rest hlog _ hopen =>
    rw [hlog]
    intro x hx
    rcases mem_cons.mp hx with rfl | hx
    · rfl
    · exact hopen hs x hx

variable {frame : WebSocketFrame}

theorem callbackOf_message (h : frame.opcode = .Text ∨ frame.opcode = .Binary) :
    callbackOf frame = some (.message ⟨frame.opcode, frame.payload⟩) := by
  unfold callbackOf
  rw [if_pos h]

theorem callbackOf_close (h : frame.opcode = .Close) :
    callbackOf frame =
      some (.closed (closeCode frame.payload) (closeReason frame.payload)) := by
  have hmsg : ¬(frame.opcode = .Text ∨ frame.opcode = .Binary) := by
    rw [h]
    decide
  unfold callbackOf
  rw [if_neg hmsg, if_pos h]

theorem callbackOf_other
    (h : frame.opcode ≠ .Text ∧ frame.opcode ≠ .Binary ∧ frame.opcode ≠ .Close) :
    callbackOf frame = none := by
  unfold callbackOf
  rw [if_neg (not_or.mpr ⟨h.1, h.2.1⟩), if_neg h.2.2]

/-- Two frames fire their callbacks in order exactly when the second fires nothing
behind a close frame. -/
theorem closesLast_callbackOf_iff (x y : WebSocketFrame) :
    (∀ b, callbackOf x = some b → ∀ b', callbackOf y = some b' → ClosesLast b b') ↔
      (x.opcode = .Close → y.opcode ≠ .Text ∧ y.opcode ≠ .Binary ∧ y.opcode ≠ .Close) := by
  constructor
  · intro h hx
    have hy : ∀ b', callbackOf y = some b' → b'.isMessage = false ∧ b'.isClosed = false :=
      fun b' hb' => h _ (callbackOf_close hx) b' hb' rfl
    refine ⟨?_, ?_, ?_⟩
    · intro ht
      cases (hy _ (callbackOf_message (Or.inl ht))).1
    · intro hb
      cases (hy _ (callbackOf_message (Or.inr hb))).1
    · intro hc
      cases (hy _ (callbackOf_close hc)).2
  · intro h b hb b' hb' hclosed
    by_cases hx : x.opcode = .Close
    · rw [callbackOf_other (h hx)] at hb'
      cases hb'
    · unfold callbackOf at hb
      split at hb
      · cases hb
        cases hclosed
      · cases hb

theorem closesLast_filterMap_iff :
    (frames.filterMap callbackOf).Pairwise ClosesLast ↔ CloseIsLast frames := by
  rw [pairwise_filterMap]
  exact ⟨List.Pairwise.imp (fun {x y} => (closesLast_callbackOf_iff x y).mp),
    List.Pairwise.imp (fun {x y} => (closesLast_callbackOf_iff x y).mpr)⟩

/-- The callbacks stay in order exactly when no message and no close stands behind a
close frame among the frames that the event completes. -/
theorem step_closesLast_iff {c : Client σ} (event : Event) (hc : Phase c) :
    (step w c event).callbacks.Pairwise ClosesLast ↔
      c.callbacks.Pairwise ClosesLast ∧ CloseIsLast (completes w c event) := by
  -- before the client is closed, whatever comes stands in order behind what it fired
  have hbehind : c.state_ ≠ .Closed → ∀ new : List Callback,
      ((c.callbacks ++ new).Pairwise ClosesLast ↔
        c.callbacks.Pairwise ClosesLast ∧ new.Pairwise ClosesLast) := by
    intro hs new
    rw [pairwise_append]
    refine and_congr_right (fun _ => and_iff_left ?_)
    intro x hx y _ hclosed
    rw [not_closed_of_phase hc hs x hx] at hclosed
    cases hclosed
  have hnone : CloseIsLast [] := List.Pairwise.nil
  cases step_fires w c event with
  | nothing hlog hframes hstate =>
    rw [hlog, hframes]
    exact (and_iff_left hnone).symm
  | failed hs hs' error hlog hframes =>
    rw [hlog, hframes, hbehind (by rw [hs]; decide)]
    exact and_congr_right (fun _ => iff_of_true (pairwise_singleton _ _) hnone)
  | opened hs hpast hlog =>
    have hopened : ∀ y ∈ (completes w c event).filterMap callbackOf, ClosesLast .opened y := by
      intro y _ hclosed
      cases hclosed
    rw [hlog, hbehind (by rw [hs]; decide), pairwise_cons, closesLast_filterMap_iff,
      and_iff_right hopened]
  | handled hs hpast hlog =>
    rw [hlog, hbehind (by rw [hs]; decide), closesLast_filterMap_iff]
  | lost hs hs' code reason hlog hframes =>
    have hne : c.state_ ≠ .Closed := by
      rcases hs with hs | hs
      · rw [hs]
        decide
      · rw [hs]
        decide
    rw [hlog, hframes, hbehind hne]
    exact and_congr_right (fun _ => iff_of_true (pairwise_singleton _ _) hnone)

theorem disciplined_of_phase {c : Client σ} (hc : Phase c) (h : c.callbacks.Pairwise ClosesLast) :
    Disciplined c.callbacks := by
  refine ⟨?_, ?_, h⟩
  · cases hc with
    | connecting _ hlog =>
      rw [hlog]
      exact List.Pairwise.nil
    | failed _ error hlog =>
      rw [hlog]
      exact pairwise_singleton _ _
    | past _ rest hlog honce _ =>
      rw [hlog, pairwise_cons]
      have hrest : ∀ x ∈ rest, x ≠ .opened := fun x hx he => honce (he ▸ hx)
      refine ⟨fun x hx _ => hrest x hx, ?_⟩
      exact pairwise_of_forall_mem_list (fun _ _ y hy _ => hrest y hy)
  · intro before msg after hsplit
    cases hc with
    | connecting _ hlog =>
      rw [hlog] at hsplit
      simp at hsplit
    | failed _ error hlog =>
      rw [hlog] at hsplit
      cases before with
      | nil => cases hsplit
      | cons x before => simp at hsplit
    | past _ rest hlog _ _ =>
      rw [hlog] at hsplit
      cases before with
      | nil => cases hsplit
      | cons x before =>
        rw [cons_append, cons.injEq] at hsplit
        rw [← hsplit.1]
        exact mem_cons_self ..

end Callbacks

/-- Over the whole life of one connection, whatever the server sends and however it is cut, and
whatever the owner of the client calls except `connect()`, which makes a new connection: the
callbacks keep their order exactly when no message and no second close stands behind a close
frame in the frames of one delivery. -/
theorem callbacks_keep_their_order_iff {σ : Type*} (w : Settings σ) (c : Client σ) (nonce : Bytes)
    (events : List Event) :
    Disciplined (run (step w) (up w c nonce) events).callbacks ↔
      Meets (step w) (fun c event => CloseIsLast (completes w c event)) (up w c nonce) events := by
  have hup : Phase (up w c nonce) := .connecting rfl rfl
  have hphase := invariant_always (phase_step w) hup events
  have hlaw := law_run_iff (fun c => c.callbacks.Pairwise ClosesLast) (phase_step w)
    (fun c event hc => step_closesLast_iff w event hc) hup events
  constructor
  · intro h
    exact (hlaw.mp h.closes_last).2
  · intro h
    exact disciplined_of_phase hphase (hlaw.mpr ⟨List.Pairwise.nil, h⟩)

/-- What a client is told when a text frame comes in one delivery with the close frame
before it. -/
def closeThenText : List Callback :=
  let w := websocket_interop.chatClient
  let answer := websocket_server.switchingResponse
    (computeAcceptKey w.sha1 (base64Encode (replicate 16 7)))
  (run (step w) (up w (made ()) (replicate 16 7))
    [.deliver answer, .deliver (encodeClose 1000 [] ++ encodeText [104, 105])]).callbacks

theorem a_message_callback_fires_behind_the_close :
    closeThenText = [.opened, .closed 1000 [], .message ⟨.Text, [104, 105]⟩] ∧
      ¬Disciplined closeThenText := by
  have hlog : closeThenText = [.opened, .closed 1000 [], .message ⟨.Text, [104, 105]⟩] := by
    decide +kernel
  refine ⟨hlog, fun h => ?_⟩
  have hlast := h.closes_last
  rw [hlog, pairwise_cons, pairwise_cons] at hlast
  cases (hlast.2.1 (.message ⟨.Text, [104, 105]⟩) (by simp) rfl).1

end mymuduo.websocket_client
