-- The message size limit of `WebSocketServer::handleWsFrames`
-- (src/websocket/WebSocketServer.h). The check compares the limit with the size of the
-- payload narrowed to an `int`, so a payload of `2 ^ 31` bytes or more may pass it.
import Mymuduo.WebSocketLifecycle

open List bytes runs words

namespace mymuduo.websocket_session

open websocket_frame websocket_server

/-! ## The check -/

variable {data : Bytes} (c : Conn σ)

section Limit

variable {σ : Type*} (srv : WebSocketServer σ)

variable {frame : WebSocketFrame}

/-- Below `2 ^ 31` bytes the cast keeps the size, and above it no limit is kept. -/
theorem within_limit_iff {srv : WebSocketServer σ} (hpos : 0 < srv.maxMessageSize)
    (hint : srv.maxMessageSize < 2 ^ 31) (h : tooLarge srv.toServer frame = false) :
    (frame.payload.length : Int) ≤ srv.maxMessageSize ↔ frame.payload.length < 2 ^ 31 := by
  have hcast : signed32 frame.payload.length ≤ srv.maxMessageSize := by
    rcases Bool.and_eq_false_iff.mp h with hzero | hle
    · exact absurd hpos (of_decide_eq_false hzero)
    · exact not_lt.mp (of_decide_eq_false hle)
  unfold signed32 at hcast
  constructor
  · intro hle
    omega
  · intro hlt
    rw [Nat.mod_eq_of_lt (by omega), if_pos hlt] at hcast
    exact hcast

theorem not_tooLarge_of_mem_handled {srv : WebSocketServer σ}
    (h : frame ∈ handled srv data) : tooLarge srv.toServer frame = false := by
  have hkept := mem_takeWhile_imp h
  simpa using hkept

/-! ## What is passed on -/

/-- The payload that `session->pong(frame.payload)` sends back, if it sends one. -/
def pongOf (l : Life σ) (frame : WebSocketFrame) : List Bytes :=
  if frame.opcode = .Ping ∧ l.session.state_ = .Open ∧ l.session.connected = true then
    [frame.payload]
  else []

/-- The payloads that the loop sends back, for at most `fuel` rounds. -/
def pongsLoop : Nat → Life σ → List Bytes
  | 0, _ => []
  | fuel + 1, l =>
    match frameReader.next l.buf with
    | none => []
    | some (frame, rest) =>
      if tooLarge srv.toServer frame then []
      else pongOf l frame ++ pongsLoop fuel (handleFrame srv { l with buf := rest } frame)

def pongs (l : Life σ) : List Bytes := pongsLoop srv l.buf.length l

def newNotices (l : Life σ) : List Notice := (handleWsFrames srv l).log.drop l.log.length

theorem noticeOf_eq_message_iff {msg : WsMessage} :
    noticeOf frame = some (.message msg) ↔ messageOf frame = some msg := by
  unfold noticeOf messageOf
  split
  · simp
  · split <;> simp

theorem message_mem_newNotices_iff {l : Life σ} {msg : WsMessage} :
    .message msg ∈ newNotices srv l ↔ ∃ frame ∈ handled srv l.buf, messageOf frame = some msg := by
  obtain ⟨-, -, errors, hlog⟩ := loop_moves srv l.buf.length l (le_refl _)
  have hnew : newNotices srv l = (handled srv l.buf).filterMap noticeOf ++ errors.map .error := by
    unfold newNotices handleWsFrames
    rw [hlog, drop_left]
  rw [hnew, mem_append, mem_filterMap]
  constructor
  · rintro (⟨frame, hframe, hnotice⟩ | herror)
    · exact ⟨frame, hframe, noticeOf_eq_message_iff.mp hnotice⟩
    · obtain ⟨error, -, heq⟩ := mem_map.mp herror
      cases heq
  · rintro ⟨frame, hframe, hmsg⟩
    exact Or.inl ⟨frame, hframe, noticeOf_eq_message_iff.mpr hmsg⟩

theorem mem_pongsLoop_succ {fuel : Nat} {l : Life σ} (h : data ∈ pongsLoop srv (fuel + 1) l) :
    ∃ frame rest, frameReader.next l.buf = some (frame, rest) ∧
      ¬tooLarge srv.toServer frame = true ∧
      (data ∈ pongOf l frame ∨
        data ∈ pongsLoop srv fuel (handleFrame srv { l with buf := rest } frame)) := by
  rw [pongsLoop] at h
  split at h
  · cases h
  · rename_i frame rest hnext
    split at h
    · cases h
    · rename_i hsmall
      exact ⟨frame, rest, hnext, hsmall, mem_append.mp h⟩

theorem exists_ping_of_mem_pongsLoop (fuel : Nat) (l : Life σ) (h : data ∈ pongsLoop srv fuel l) :
    ∃ frame ∈ handled srv l.buf, frame.opcode = .Ping ∧ frame.payload = data := by
  induction fuel generalizing l with
  | zero => cases h
  | succ fuel ih =>
    obtain ⟨frame, rest, hnext, hsmall, hnow | hlater⟩ := mem_pongsLoop_succ srv h
    all_goals rw [handled_of_next_some srv hnext, if_neg hsmall]
    · unfold pongOf at hnow
      split at hnow
      · rename_i hping
        exact ⟨frame, mem_cons_self .., hping.1, (mem_singleton.mp hnow).symm⟩
      · cases hnow
    · obtain ⟨f, hf, hping⟩ := ih _ hlater
      rw [(handleFrame_moves srv _ _).2.1] at hf
      exact ⟨f, mem_cons_of_mem _ hf, hping⟩

/-! ## What was sent stays sent -/

theorem send_subset (data : Sent) : c.sent ⊆ (c.send data).sent := by
  unfold Conn.send
  split
  · exact subset_append_left _ _
  · exact List.Subset.refl _

theorem sendFrame_subset (data : Bytes) : c.sent ⊆ (c.sendFrame data).sent := by
  unfold Conn.sendFrame
  split
  · exact send_subset c _
  · exact List.Subset.refl _

theorem close_subset (code : UInt16) (reason : Bytes) : c.sent ⊆ (c.close code reason).sent := by
  unfold Conn.close
  split
  · exact List.Subset.refl _
  · exact send_subset (c.setState .Closing) _

theorem forceClose_subset : c.sent ⊆ c.forceClose.sent := by
  unfold Conn.forceClose
  split <;> exact List.Subset.refl _

theorem notify_subset (l : Life σ) (notice : Notice) (out : σ × List Action) :
    l.sent ⊆ (l.notify notice out).sent := by
  have hact : ∀ (k : Life σ) (action : Action), k.sent ⊆ (k.act action).sent := by
    intro k action
    cases action with
    | reply r => exact sendFrame_subset k.toConn _
    | close code reason => exact close_subset k.toConn code reason
    | forceClose => exact forceClose_subset k.toConn
  let called : Life σ := { l with app := out.1 }.note notice
  exact foldlRecOn out.2 Life.act (b := called) (motive := fun k => l.sent ⊆ k.sent)
    (List.Subset.refl _) (fun k hk action _ => List.Subset.trans hk (hact k action))

theorem handleFrame_subset (l : Life σ) (frame : WebSocketFrame) :
    l.sent ⊆ (handleFrame srv l frame).sent := by
  unfold handleFrame
  split
  · exact notify_subset { l with messages := l.messages ++ [⟨frame.opcode, frame.payload⟩] } _ _
  · split
    · exact sendFrame_subset l.toConn _
    · split
      · exact close_subset l.toConn _ _
      · exact List.Subset.refl _

theorem handleError_subset (l : Life σ) (error : Bytes) : l.sent ⊆ (handleError srv l error).sent :=
  notify_subset { l with errors := l.errors ++ [error] } _ _

theorem loop_subset (fuel : Nat) (l : Life σ) : l.sent ⊆ (handleWsFramesLoop srv fuel l).sent := by
  induction fuel generalizing l with
  | zero => exact List.Subset.refl _
  | succ fuel ih =>
    unfold handleWsFramesLoop
    split
    · exact List.Subset.refl _
    · split
      · exact List.Subset.refl _
      · exact List.Subset.refl _
      · exact List.Subset.trans (handleError_subset srv l _) (forceClose_subset _)
      · rename_i frame consumed _
        let taken : Life σ := { l with buf := l.buf.drop consumed }
        split
        · exact List.Subset.trans (handleError_subset srv taken _) (close_subset _ _ _)
        · exact List.Subset.trans (handleFrame_subset srv taken frame) (ih _)

theorem pong_sent (fuel : Nat) (l : Life σ) (h : data ∈ pongsLoop srv fuel l) :
    .frame (encodePong data) ∈ (handleWsFramesLoop srv fuel l).sent := by
  induction fuel generalizing l with
  | zero => cases h
  | succ fuel ih =>
    obtain ⟨frame, rest, hnext, hsmall, hnow | hlater⟩ := mem_pongsLoop_succ srv h
    all_goals rw [loop_next srv hnext, if_neg hsmall]
    · apply loop_subset
      unfold pongOf at hnow
      split at hnow
      · rename_i hping
        obtain ⟨hop, hopen, hlive⟩ := hping
        rw [mem_singleton.mp hnow]
        unfold handleFrame
        rw [if_neg (by rw [hop]; decide), if_pos hop]
        change _ ∈ (Conn.sendFrame { l.toConn with buf := rest } _).sent
        rcases sendFrame_cases { l.toConn with buf := rest } (encodePong frame.payload) with
          ⟨-, -, heq⟩ | ⟨hno, -⟩
        · rw [heq]
          exact mem_append_right _ (mem_singleton.mpr rfl)
        · exact absurd ⟨hopen, hlive⟩ hno
      · cases hnow
    · exact ih _ hlater

/-! ## The limit -/

/-- Neither the message handler nor a pong gets a payload above the limit. -/
structure KeepsLimit (l : Life σ) : Prop where
  messages : ∀ msg, .message msg ∈ newNotices srv l →
    (msg.data.length : Int) ≤ srv.maxMessageSize
  pongs : ∀ data ∈ pongs srv l, (data.length : Int) ≤ srv.maxMessageSize

/-- The frame brings a message, or its payload is echoed. -/
def PassedOn (l : Life σ) (frame : WebSocketFrame) : Prop :=
  messageOf frame ≠ none ∨ frame.payload ∈ pongs srv l

theorem data_of_messageOf {msg : WsMessage} (h : messageOf frame = some msg) :
    msg.data = frame.payload := by
  unfold messageOf at h
  split at h
  · cases h
    rfl
  · cases h

/-- What `handleWsFrames` echoes goes out as a pong. For a limit that an `int` can hold,
it keeps the limit exactly when no frame that it passes on has `2 ^ 31` bytes or more. -/
theorem message_size_limit_iff (hpos : 0 < srv.maxMessageSize)
    (hint : srv.maxMessageSize < 2 ^ 31) (l : Life σ) :
    (∀ data ∈ pongs srv l, .frame (encodePong data) ∈ (handleWsFrames srv l).sent) ∧
      (KeepsLimit srv l ↔ ∀ frame ∈ handled srv l.buf, PassedOn srv l frame →
        frame.payload.length < 2 ^ 31) := by
  refine ⟨fun data hdata => pong_sent srv _ l hdata, ?_⟩
  constructor
  · rintro ⟨hmessages, hpongs⟩ frame hframe hpassed
    rw [← within_limit_iff hpos hint (not_tooLarge_of_mem_handled hframe)]
    rcases hpassed with hmsg | hecho
    · obtain ⟨msg, hmsg⟩ := Option.ne_none_iff_exists'.mp hmsg
      have hle := hmessages msg ((message_mem_newNotices_iff srv).mpr ⟨frame, hframe, hmsg⟩)
      rw [data_of_messageOf hmsg] at hle
      exact hle
    · exact hpongs _ hecho
  · intro hshort
    constructor
    · intro msg hnotice
      obtain ⟨frame, hframe, hmsg⟩ := (message_mem_newNotices_iff srv).mp hnotice
      have hpassed : PassedOn srv l frame := Or.inl (by rw [hmsg]; simp)
      rw [data_of_messageOf hmsg, within_limit_iff hpos hint (not_tooLarge_of_mem_handled hframe)]
      exact hshort frame hframe hpassed
    · intro data hdata
      obtain ⟨frame, hframe, -, hpayload⟩ := exists_ping_of_mem_pongsLoop srv _ l hdata
      have hpassed : PassedOn srv l frame := Or.inr (by rw [hpayload]; exact hdata)
      rw [← hpayload, within_limit_iff hpos hint (not_tooLarge_of_mem_handled hframe)]
      exact hshort frame hframe hpassed

end Limit

/-- A ping and a text behind the handshake. -/
theorem message_size_limit_chat :
    KeepsLimit silentServer { chatLife with buf := encodePing [1, 2] ++ encodeText [104, 105] } :=
  (message_size_limit_iff silentServer (by decide) (by decide) _).2.mpr (by
    intro frame hframe _
    rcases mem_cons.mp hframe with rfl | hframe
    · decide
    · rw [mem_singleton.mp hframe]
      decide)

theorem exists_handled_of_encoded {σ : Type*} {srv : WebSocketServer σ} {frame : WebSocketFrame}
    (h : frame.Encodable) (hsmall : tooLarge srv.toServer frame = false) (key : MaskingKey) :
    ∃ f ∈ handled srv (encode frame true key), messageOf f = messageOf frame := by
  have hdecode := decode_encoded h true key []
  rw [append_nil] at hdecode
  have hnext := frameReader_next_iff.mpr ⟨_, hdecode, rfl⟩
  -- The check and the message depend on the opcode and the payload only.
  let f : WebSocketFrame := { frame with mask := true, maskingKey := key }
  have hcheck : tooLarge srv.toServer f = false := hsmall
  have hfirst := (handled_of_next_some srv hnext).trans (if_neg (ne_true_of_eq_false hcheck))
  refine ⟨f, ?_, rfl⟩
  rw [hfirst]
  exact mem_cons_self ..

theorem step_chatLife (wire : Bytes) :
    step silentServer chatLife (.deliver wire) =
      handleWsFrames silentServer { chatLife with buf := wire } := by
  have hopen : chatLife.session.state_ = .Open := rfl
  unfold step onMessage
  rw [if_neg (by decide)]
  dsimp only
  rw [if_neg (by decide), hopen]
  rfl

/-- A text of `2 ^ 31` zero bytes. -/
def longText : WebSocketFrame := { opcode := .Text, payload := replicate (2 ^ 31) 0 }

/-- The size of the text becomes `-2 ^ 31` in the cast, so a server with a limit of 10
MiB passes it to its message handler. -/
theorem long_text_reaches_the_handler :
    silentServer.maxMessageSize = 10 * 1024 * 1024 ∧ longText.payload.length = 2 ^ 31 ∧
      (.message ⟨.Text, longText.payload⟩) ∈
        (lifeOf [.deliver chatRequest, .deliver (encode longText true ⟨1, 2, 3, 4⟩)]).log := by
  have hlength : longText.payload.length = 2 ^ 31 := length_replicate
  have hsmall : tooLarge silentServer.toServer longText = false := by
    unfold tooLarge signed32
    rw [hlength]
    decide
  obtain ⟨f, hf, hmsg⟩ := exists_handled_of_encoded
    ⟨by decide, by decide, by decide, by decide, by rw [hlength]; decide⟩ hsmall ⟨1, 2, 3, 4⟩
  refine ⟨rfl, hlength, ?_⟩
  rw [lifeOf_chat, run_cons, run_nil, step_chatLife]
  exact mem_of_mem_drop ((message_mem_newNotices_iff silentServer
    (l := { chatLife with buf := encode longText true ⟨1, 2, 3, 4⟩ })).mpr ⟨f, hf, hmsg⟩)

end mymuduo.websocket_session
