-- The frames of a WebSocket stream and the loop that handles them. The decoder is
-- a reader of the stream. A frame is silent when neither the handler nor the peer
-- sees anything of it, and the loop shows something exactly on frames that are not
-- all silent.
import Mathlib.Data.List.GetD
import Mymuduo.Segments
import Mymuduo.WebSocketServer

open List bytes segments vectors words

namespace mymuduo.websocket_server

open websocket_frame

/-! ## The decoder as a reader -/

/-- The frame of a header and the payload as it came over the wire. -/
def frameOf (h : Header) (raw : Bytes) : WebSocketFrame :=
  ⟨h.fin, h.rsv1, h.rsv2, h.rsv3, h.opcode, h.mask, h.maskingKey,
    if h.mask then raw.mapIdx (fun i x => x ^^^ h.maskingKey.at (i % 4)) else raw⟩

variable {data : Bytes}

theorem headerSize_le {h : Header} (hh : decodeHeader data = .ok (some h)) :
    2 ≤ h.headerSize ∧ h.headerSize ≤ 14 ∧ h.headerSize ≤ data.length := by
  obtain ⟨b0, b1, rest, rfl, hlen, rfl⟩ := decodeHeader_some hh
  exact ⟨two_le_headerEnd b1, headerEnd_le b1, hlen⟩

/-- What makes a frame complete: its header, and a payload that can be sized and
is there. -/
theorem decode_ok_iff (data : Bytes) (frame : WebSocketFrame) (consumed : Nat) :
    decode data = .ok (.ok frame consumed) ↔
      ∃ h, decodeHeader data = .ok (some h) ∧ h.payloadLen ≤ maxSize ∧
        h.headerSize + h.payloadLen ≤ data.length ∧ consumed = h.headerSize + h.payloadLen ∧
        frame = frameOf h ((data.drop h.headerSize).take h.payloadLen) := by
  constructor
  · intro hdec
    by_cases hh : ∃ h, decodeHeader data = .ok (some h)
    · obtain ⟨h, hh⟩ := hh
      obtain ⟨-, hsize, -⟩ := headerSize_le hh
      rw [decode_of_header hh] at hdec
      by_cases hpast : h.pastEnd data.length = true
      · rw [if_pos hpast] at hdec
        cases hdec
      · rw [if_neg hpast] at hdec
        unfold decodePayload resize at hdec
        by_cases hmax : maxSize < h.payloadLen
        · rw [if_pos hmax] at hdec
          cases hdec
        · have hsum : h.headerSize + h.payloadLen < 2 ^ 64 := by
            unfold maxSize at hmax
            omega
          have hin : h.headerSize + h.payloadLen ≤ data.length := by
            rw [pastEnd_iff hsum] at hpast
            omega
          rw [if_neg hmax, readFrom_eq hin, add64_eq hsum] at hdec
          cases hdec
          exact ⟨h, hh, not_lt.mp hmax, hin, rfl, rfl⟩
    · rw [decode_of_no_header (fun h hc => hh ⟨h, hc⟩)] at hdec
      cases hdec
  · rintro ⟨h, hh, hmax, hin, rfl, rfl⟩
    obtain ⟨-, hsize, -⟩ := headerSize_le hh
    have hsum : h.headerSize + h.payloadLen < 2 ^ 64 := by
      unfold maxSize at hmax
      omega
    rw [decode_of_header hh, if_neg (by rw [pastEnd_iff hsum]; omega)]
    unfold decodePayload resize
    rw [if_neg (by omega), readFrom_eq hin, add64_eq hsum]
    rfl

theorem headerOf_append (b0 b1 : UInt8) (hlen : headerEnd b1 ≤ data.length) (more : Bytes) :
    headerOf b0 b1 (data ++ more) = headerOf b0 b1 data := by
  have hend : lengthEnd (shortLength b1) ≤ data.length := by
    unfold headerEnd at hlen
    omega
  have hdecl : declaredLength (shortLength b1) (data ++ more) =
      declaredLength (shortLength b1) data := by
    unfold declaredLength
    unfold lengthEnd at hend
    split_ifs at hend ⊢
    · rw [take_drop_append (by omega)]
    · rw [take_drop_append (by omega)]
    · rfl
  have hkey : (if isMasked b1 then keyAt (data ++ more) (lengthEnd (shortLength b1)) else .zero) =
      if isMasked b1 then keyAt data (lengthEnd (shortLength b1)) else .zero := by
    by_cases hm : isMasked b1 = true
    · rw [if_pos hm, if_pos hm]
      unfold headerEnd at hlen
      rw [if_pos hm] at hlen
      unfold keyAt
      rw [getD_append _ _ _ _ (by omega), getD_append _ _ _ _ (by omega),
        getD_append _ _ _ _ (by omega), getD_append _ _ _ _ (by omega)]
    · rw [if_neg hm, if_neg hm]
  unfold headerOf
  rw [hdecl, hkey]

theorem decodeHeader_append {h : Header} (hh : decodeHeader data = .ok (some h)) (more : Bytes) :
    decodeHeader (data ++ more) = .ok (some h) := by
  obtain ⟨b0, b1, rest, rfl, hlen, rfl⟩ := decodeHeader_some hh
  rw [cons_append, cons_append, decodeHeader_eq, ← cons_append, ← cons_append,
    if_neg (by rw [length_append]; omega), headerOf_append b0 b1 hlen]

theorem decodeHeader_take {h : Header} (hh : decodeHeader data = .ok (some h)) {n : Nat}
    (hn : h.headerSize ≤ n) : decodeHeader (data.take n) = .ok (some h) := by
  obtain ⟨b0, b1, rest, rfl, hlen, rfl⟩ := decodeHeader_some hh
  have htwo := two_le_headerEnd b1
  dsimp only [headerOf] at hn
  have htake : (b0 :: b1 :: rest).take n = b0 :: b1 :: rest.take (n - 2) := by
    obtain ⟨m, rfl⟩ : ∃ m, n = m + 2 := ⟨n - 2, by omega⟩
    rfl
  have hlen' : headerEnd b1 ≤ ((b0 :: b1 :: rest).take n).length := by
    rw [length_take]
    omega
  have hsame := headerOf_append b0 b1 hlen' ((b0 :: b1 :: rest).drop n)
  rw [take_append_drop] at hsame
  rw [htake] at hlen' hsame ⊢
  rw [decodeHeader_eq, if_neg (by omega), ← hsame]

def frameReader : Reader UInt8 WebSocketFrame where
  next buf :=
    match decode buf with
    | .ok (.ok frame consumed) => some (frame, buf.drop consumed)
    | _ => none
  shrinks := by
    intro buf frame rest h
    split at h
    · rename_i hdec
      cases h
      obtain ⟨h, hh, -, hin, rfl, -⟩ := (decode_ok_iff _ _ _).mp hdec
      obtain ⟨htwo, -, -⟩ := headerSize_le hh
      rw [length_drop]
      omega
    · cases h
  stable := by
    intro buf frame rest h more
    split at h
    · rename_i hdec
      cases h
      obtain ⟨h, hh, hmax, hin, rfl, rfl⟩ := (decode_ok_iff _ _ _).mp hdec
      have hdec' : decode (buf ++ more) =
          .ok (.ok (frameOf h ((buf.drop h.headerSize).take h.payloadLen))
            (h.headerSize + h.payloadLen)) := by
        rw [decode_ok_iff]
        refine ⟨h, decodeHeader_append hh more, hmax, ?_, rfl, ?_⟩
        · rw [length_append]
          omega
        · rw [take_drop_append (by omega)]
      rw [hdec']
      dsimp only
      rw [drop_append_of_le_length hin]
    · cases h
  exact := by
    intro buf frame rest h
    split at h
    · rename_i hdec
      cases h
      obtain ⟨h, hh, hmax, hin, rfl, rfl⟩ := (decode_ok_iff _ _ _).mp hdec
      have hlen :
          (buf.take (h.headerSize + h.payloadLen)).length = h.headerSize + h.payloadLen := by
        rw [length_take]
        omega
      have hdec' : decode (buf.take (h.headerSize + h.payloadLen)) =
          .ok (.ok (frameOf h ((buf.drop h.headerSize).take h.payloadLen))
            (h.headerSize + h.payloadLen)) := by
        rw [decode_ok_iff]
        refine ⟨h, decodeHeader_take hh (by omega), hmax, by omega, rfl, ?_⟩
        rw [drop_take, take_take, min_eq_left (by omega)]
      have hnil :
          (buf.take (h.headerSize + h.payloadLen)).drop (h.headerSize + h.payloadLen) = [] :=
        drop_of_length_le (by omega)
      refine ⟨buf.take (h.headerSize + h.payloadLen), by rw [take_append_drop], ?_⟩
      rw [hdec']
      dsimp only
      rw [hnil]
    · cases h

theorem frameReader_next_iff {buf rest : Bytes} {frame : WebSocketFrame} :
    frameReader.next buf = some (frame, rest) ↔
      ∃ consumed, decode buf = .ok (.ok frame consumed) ∧ rest = buf.drop consumed := by
  dsimp only [frameReader]
  constructor
  · intro h
    split at h
    · rename_i consumed hdec
      cases h
      exact ⟨consumed, hdec, rfl⟩
    · cases h
  · rintro ⟨consumed, hdec, rfl⟩
    rw [hdec]

/-! ## What the calls show -/

section Shown

variable {σ : Type*} (srv : Server σ)

/-- What the handler and the peer see: the messages that the handler got, and the
frames that came back. -/
def Conn.observed (c : Conn σ) : List WsMessage × List Bytes := (c.messages, c.frames)

def Conn.shown (c : Conn σ) : Nat := c.messages.length + c.frames.length

theorem shown_of_observed {c c' : Conn σ} (h : c'.observed = c.observed) : c'.shown = c.shown := by
  unfold Conn.shown
  rw [(Prod.mk.inj h).1, (Prod.mk.inj h).2]

variable (c : Conn σ)

theorem send_keeps (data : Sent) :
    (c.send data).session = c.session ∧ (c.send data).buf = c.buf ∧
      (c.send data).crashed = c.crashed ∧ (c.send data).messages = c.messages := by
  unfold Conn.send
  split <;> exact ⟨rfl, rfl, rfl, rfl⟩

theorem frames_send_http (response : Bytes) : (c.send (.http response)).frames = c.frames := by
  unfold Conn.send
  split
  · simp [Conn.frames]
  · rfl

theorem sendFrame_cases (data : Bytes) :
    (c.session.state_ = .Open ∧ c.session.connected = true ∧
        c.sendFrame data = { c with sent := c.sent ++ [.frame data] }) ∨
      ¬(c.session.state_ = .Open ∧ c.session.connected = true) ∧ c.sendFrame data = c := by
  unfold Conn.sendFrame Conn.send
  by_cases ho : c.session.state_ = .Open
  · by_cases hc : c.session.connected = true
    · rw [if_pos ho, if_pos hc]
      exact Or.inl ⟨ho, hc, rfl⟩
    · rw [if_pos ho, if_neg hc]
      exact Or.inr ⟨fun h => hc h.2, rfl⟩
  · rw [if_neg ho]
    exact Or.inr ⟨fun h => ho h.1, rfl⟩

theorem replies_keep (replies : List Reply) (c : Conn σ) :
    (replies.foldl Conn.reply c).session = c.session ∧
      (replies.foldl Conn.reply c).buf = c.buf ∧
      (replies.foldl Conn.reply c).crashed = c.crashed ∧
      (replies.foldl Conn.reply c).messages = c.messages ∧
      c.frames.length ≤ (replies.foldl Conn.reply c).frames.length ∧
      (c.session.connected = false → (replies.foldl Conn.reply c).frames = c.frames) := by
  induction replies generalizing c with
  | nil => exact ⟨rfl, rfl, rfl, rfl, le_refl _, fun _ => rfl⟩
  | cons r replies ih =>
    rw [foldl_cons]
    obtain ⟨h1, h2, h3, h4, h5, h6⟩ := ih (c.reply r)
    rcases sendFrame_cases c r.bytes with ⟨ho, hc, heq⟩ | ⟨hno, heq⟩
    · have hr : c.reply r = { c with sent := c.sent ++ [.frame r.bytes] } := heq
      rw [hr] at h1 h2 h3 h4 h5 ⊢
      refine ⟨h1, h2, h3, h4, le_trans ?_ h5, fun hdead => ?_⟩
      · simp [Conn.frames]
      · rw [hc] at hdead
        cases hdead
    · have hr : c.reply r = c := heq
      rw [hr] at h1 h2 h3 h4 h5 h6 ⊢
      exact ⟨h1, h2, h3, h4, h5, h6⟩

/-- The session is open on a live connection. -/
structure Conn.Live (c : Conn σ) : Prop where
  isOpen : c.session.state_ = .Open
  connected : c.session.connected = true
  lives : c.crashed = false

theorem send_live {c : Conn σ} (h : c.Live) (data : Bytes) :
    c.sendFrame data = { c with sent := c.sent ++ [.frame data] } := by
  rcases sendFrame_cases c data with ⟨-, -, heq⟩ | ⟨hno, -⟩
  · exact heq
  · exact absurd ⟨h.isOpen, h.connected⟩ hno

theorem replies_live {c : Conn σ} (h : c.Live) (replies : List Reply) :
    replies.foldl Conn.reply c =
      { c with sent := c.sent ++ replies.map (fun r => .frame r.bytes) } := by
  induction replies generalizing c with
  | nil => simp
  | cons r replies ih =>
    have hr : c.reply r = { c with sent := c.sent ++ [.frame r.bytes] } := send_live h r.bytes
    have hlive : (c.reply r).Live := by
      rw [hr]
      exact { h with }
    rw [foldl_cons, ih hlive, hr]
    simp

theorem state_close (code : UInt16) (reason : Bytes) :
    (c.close code reason).session.state_ = .Closing ∨
      (c.close code reason).session.state_ = .Closed := by
  unfold Conn.close
  split
  · rename_i h
    exact h.symm
  · left
    have hsend := (send_keeps (c.setState .Closing) (.frame (encodeClose code reason))).1
    unfold Conn.shutdown
    rw [hsend]
    rfl

theorem close_dead {c : Conn σ} (hdead : c.session.connected = false) (code : UInt16)
    (reason : Bytes) :
    (c.close code reason).observed = c.observed ∧ (c.close code reason).buf = c.buf ∧
      (c.close code reason).session.connected = false := by
  unfold Conn.close
  split
  · exact ⟨rfl, rfl, hdead⟩
  · have hsend : (c.setState .Closing).send (.frame (encodeClose code reason)) =
        c.setState .Closing := by
      unfold Conn.send
      rw [if_neg (by simp [Conn.setState, hdead])]
    rw [hsend]
    exact ⟨rfl, rfl, rfl⟩

theorem shown_close_open {c : Conn σ} (hopen : c.session.state_ = .Open)
    (hlive : c.session.connected = true) (code : UInt16) (reason : Bytes) :
    (c.close code reason).shown = c.shown + 1 := by
  unfold Conn.close
  rw [if_neg (by rw [hopen]; simp)]
  unfold Conn.send
  rw [if_pos (by simpa [Conn.setState] using hlive)]
  simp [Conn.shown, Conn.frames, Conn.setState, Conn.shutdown]
  omega

theorem shown_close_le (code : UInt16) (reason : Bytes) :
    c.shown ≤ (c.close code reason).shown := by
  unfold Conn.close
  split
  · exact le_refl _
  · unfold Conn.send
    split <;> simp [Conn.shown, Conn.frames, Conn.setState, Conn.shutdown]

theorem shown_handleMessage (msg : WsMessage) : c.shown < (handleMessage srv c msg).shown := by
  unfold handleMessage
  generalize srv.messageHandler c.app c.session msg = out
  obtain ⟨-, -, -, hmsg, hframes, -⟩ :=
    replies_keep out.2 { c with app := out.1, messages := c.messages ++ [msg] }
  have hsame : Conn.frames { c with app := out.1, messages := c.messages ++ [msg] } = c.frames :=
    rfl
  rw [hsame] at hframes
  unfold Conn.shown
  rw [hmsg]
  simp only [length_append, length_singleton]
  omega

theorem shown_handleFrame_le (frame : WebSocketFrame) :
    c.shown ≤ (handleFrame srv c frame).shown := by
  unfold handleFrame
  split
  · exact le_of_lt (shown_handleMessage srv c _)
  · split
    · rcases sendFrame_cases c (encodePong frame.payload) with ⟨-, -, heq⟩ | ⟨-, heq⟩
      · unfold Conn.pong
        rw [heq]
        simp [Conn.shown, Conn.frames]
      · unfold Conn.pong
        rw [heq]
    · split
      · exact shown_close_le c 1000 []
      · exact le_refl _

/-! ## The loop over the frames -/

variable {frame : WebSocketFrame}

theorem loop_next {c : Conn σ} {rest : Bytes} (h : frameReader.next c.buf = some (frame, rest))
    (fuel : Nat) :
    handleWsFramesLoop srv (fuel + 1) c =
      if tooLarge srv frame then
        (Conn.handleError { c with buf := rest } (text "Message too large")).close 1009
          (text "Message too large")
      else handleWsFramesLoop srv fuel (handleFrame srv { c with buf := rest } frame) := by
  obtain ⟨consumed, hdec, rfl⟩ := frameReader_next_iff.mp h
  have hne : c.buf ≠ [] := by
    intro hnil
    rw [hnil, frameReader.next_nil] at h
    cases h
  rw [handleWsFramesLoop, if_neg hne, hdec]

/-- Without a whole frame the loop shows nothing, and it leaves the session and the
buffer or closes the session. -/
theorem loop_wait {c : Conn σ} (h : frameReader.next c.buf = none) (fuel : Nat) :
    (handleWsFramesLoop srv fuel c).observed = c.observed ∧
      ((handleWsFramesLoop srv fuel c).session = c.session ∧
          (handleWsFramesLoop srv fuel c).buf = c.buf ∨
        (handleWsFramesLoop srv fuel c).session.state_ = .Closed) := by
  cases fuel with
  | zero => exact ⟨rfl, Or.inl ⟨rfl, rfl⟩⟩
  | succ fuel =>
    unfold handleWsFramesLoop
    split
    · exact ⟨rfl, Or.inl ⟨rfl, rfl⟩⟩
    · split
      · exact ⟨rfl, Or.inl ⟨rfl, rfl⟩⟩
      · exact ⟨rfl, Or.inl ⟨rfl, rfl⟩⟩
      · unfold Conn.forceClose
        split
        · exact ⟨rfl, Or.inl ⟨rfl, rfl⟩⟩
        · exact ⟨rfl, Or.inr rfl⟩
      · rename_i frame consumed hdec
        rw [frameReader_next_iff.mpr ⟨consumed, hdec, rfl⟩] at h
        cases h

theorem shown_loop_le (fuel : Nat) (c : Conn σ) :
    c.shown ≤ (handleWsFramesLoop srv fuel c).shown := by
  induction fuel generalizing c with
  | zero => exact le_refl _
  | succ fuel ih =>
    cases hnext : frameReader.next c.buf with
    | none => rw [shown_of_observed (loop_wait srv hnext (fuel + 1)).1]
    | some p =>
      obtain ⟨frame, rest⟩ := p
      rw [loop_next srv hnext]
      split
      · exact shown_close_le (Conn.handleError { c with buf := rest } _) _ _
      · exact le_trans (shown_handleFrame_le srv { c with buf := rest } frame) (ih _)

/-! ## Quiet frames -/

/-- The frames show nothing. On a live connection none is too large, and none is a
message, a ping or a close. On a connection that was shut down a frame that is too
large ends the loop, and no message comes before it. -/
def QuietFrames (connected : Bool) : List WebSocketFrame → Prop
  | [] => True
  | frame :: frames =>
    if tooLarge srv frame then connected = false
    else if frame.opcode = .Text ∨ frame.opcode = .Binary then False
    else if frame.opcode = .Ping ∨ frame.opcode = .Close then
      connected = false ∧ QuietFrames connected frames
    else QuietFrames connected frames

/-- A frame that is handled without anything to see. -/
def Silent (connected : Bool) (frame : WebSocketFrame) : Prop :=
  ¬(frame.opcode = .Text ∨ frame.opcode = .Binary) ∧
    (frame.opcode = .Ping ∨ frame.opcode = .Close → connected = false)

theorem quietFrames_cons_iff (connected : Bool) (frame : WebSocketFrame)
    (frames : List WebSocketFrame) :
    QuietFrames srv connected (frame :: frames) ↔
      if tooLarge srv frame then connected = false
      else Silent connected frame ∧ QuietFrames srv connected frames := by
  rw [QuietFrames]
  unfold Silent
  split
  · rfl
  · by_cases hmsg : frame.opcode = .Text ∨ frame.opcode = .Binary
    · simp [hmsg]
    · by_cases hpc : frame.opcode = .Ping ∨ frame.opcode = .Close <;> simp [hmsg, hpc]

theorem handleFrame_silent {c : Conn σ} (h : Silent c.session.connected frame) :
    (handleFrame srv c frame).observed = c.observed ∧ (handleFrame srv c frame).buf = c.buf ∧
      (handleFrame srv c frame).session.connected = c.session.connected ∧
      ((handleFrame srv c frame).session.state_ = c.session.state_ ∨
        c.session.connected = false ∧ ((handleFrame srv c frame).session.state_ = .Closing ∨
          (handleFrame srv c frame).session.state_ = .Closed)) := by
  unfold handleFrame
  rw [if_neg h.1]
  by_cases hping : frame.opcode = .Ping
  · rw [if_pos hping]
    have hc := h.2 (Or.inl hping)
    rcases sendFrame_cases c (encodePong frame.payload) with ⟨-, hlive, -⟩ | ⟨-, heq⟩
    · rw [hc] at hlive
      cases hlive
    · unfold Conn.pong
      rw [heq]
      exact ⟨rfl, rfl, rfl, Or.inl rfl⟩
  · rw [if_neg hping]
    by_cases hclose : frame.opcode = .Close
    · rw [if_pos hclose]
      have hc := h.2 (Or.inr hclose)
      obtain ⟨h1, h2, h3⟩ := close_dead hc 1000 []
      exact ⟨h1, h2, h3.trans hc.symm, Or.inr ⟨hc, state_close c 1000 []⟩⟩
    · rw [if_neg hclose]
      exact ⟨rfl, rfl, rfl, Or.inl rfl⟩

/-- On quiet frames the loop shows nothing, and the frames still to come stay quiet
for a session that stays open. -/
theorem loop_quiet (fuel : Nat) (c : Conn σ) (rest : Bytes)
    (h : QuietFrames srv c.session.connected (frameReader.items (c.buf ++ rest))) :
    (handleWsFramesLoop srv fuel c).observed = c.observed ∧
      ((handleWsFramesLoop srv fuel c).session.state_ = c.session.state_ ∨
        (handleWsFramesLoop srv fuel c).session.state_ = .Closing ∨
        (handleWsFramesLoop srv fuel c).session.state_ = .Closed) ∧
      ((handleWsFramesLoop srv fuel c).session.state_ = .Open →
        QuietFrames srv (handleWsFramesLoop srv fuel c).session.connected
          (frameReader.items ((handleWsFramesLoop srv fuel c).buf ++ rest))) := by
  induction fuel generalizing c with
  | zero => exact ⟨rfl, Or.inl rfl, fun _ => h⟩
  | succ fuel ih =>
    cases hnext : frameReader.next c.buf with
    | none =>
      obtain ⟨hobs, ⟨hsession, hbuf⟩ | hclosed⟩ := loop_wait srv hnext (fuel + 1)
      · rw [hsession, hbuf]
        exact ⟨hobs, Or.inl rfl, fun _ => h⟩
      · refine ⟨hobs, Or.inr (Or.inr hclosed), fun hopen => ?_⟩
        rw [hclosed] at hopen
        cases hopen
    | some p =>
      obtain ⟨frame, left⟩ := p
      rw [frameReader.items_of_next_some (frameReader.stable hnext rest), quietFrames_cons_iff] at h
      rw [loop_next srv hnext]
      split_ifs at h ⊢
      · have hstate := state_close (Conn.handleError { c with buf := left }
          (text "Message too large")) 1009 (text "Message too large")
        obtain ⟨hobs, -⟩ := close_dead
          (c := Conn.handleError { c with buf := left } (text "Message too large"))
          h 1009 (text "Message too large")
        refine ⟨hobs, Or.inr hstate, fun hopen => ?_⟩
        rw [hopen] at hstate
        simp at hstate
      · obtain ⟨h1, h2, h3, h4⟩ := handleFrame_silent srv (c := { c with buf := left }) h.1
        obtain ⟨hobs, hstate, hquiet⟩ := ih _ (by rw [h2, h3]; exact h.2)
        refine ⟨hobs.trans h1, ?_, hquiet⟩
        rcases hstate with hstate | hstate
        · rcases h4 with h4 | ⟨-, h4⟩
          · exact Or.inl (hstate.trans h4)
          · rw [hstate]
            exact Or.inr h4
        · exact Or.inr hstate

theorem shown_handleFrame_lt {c : Conn σ}
    (hopen : c.session.connected = true → c.session.state_ = .Open)
    (h : ¬Silent c.session.connected frame) : c.shown < (handleFrame srv c frame).shown := by
  unfold handleFrame
  by_cases hmsg : frame.opcode = .Text ∨ frame.opcode = .Binary
  · rw [if_pos hmsg]
    exact shown_handleMessage srv c _
  · have hvis : ¬(frame.opcode = .Ping ∨ frame.opcode = .Close → c.session.connected = false) :=
      fun himp => h ⟨hmsg, himp⟩
    push Not at hvis
    obtain ⟨hpc, hnot⟩ := hvis
    have hlive : c.session.connected = true := by simpa using hnot
    rw [if_neg hmsg]
    by_cases hping : frame.opcode = .Ping
    · rw [if_pos hping]
      rcases sendFrame_cases c (encodePong frame.payload) with ⟨-, -, heq⟩ | ⟨hno, -⟩
      · unfold Conn.pong
        rw [heq]
        simp [Conn.shown, Conn.frames]
      · exact absurd ⟨hopen hlive, hlive⟩ hno
    · rw [if_neg hping, if_pos (hpc.resolve_left hping), shown_close_open (hopen hlive) hlive]
      exact Nat.lt_succ_self _

theorem loop_loud (fuel : Nat) (c : Conn σ) (hfuel : c.buf.length ≤ fuel)
    (hopen : c.session.connected = true → c.session.state_ = .Open)
    (h : ¬QuietFrames srv c.session.connected (frameReader.items c.buf)) :
    c.shown < (handleWsFramesLoop srv fuel c).shown := by
  induction fuel generalizing c with
  | zero =>
    have hnil : c.buf = [] := eq_nil_of_length_eq_zero (by omega)
    rw [hnil, frameReader.items_of_next_none frameReader.next_nil] at h
    exact absurd trivial h
  | succ fuel ih =>
    cases hnext : frameReader.next c.buf with
    | none =>
      rw [frameReader.items_of_next_none hnext] at h
      exact absurd trivial h
    | some p =>
      obtain ⟨frame, rest⟩ := p
      have hshort := frameReader.shrinks hnext
      rw [frameReader.items_of_next_some hnext, quietFrames_cons_iff] at h
      rw [loop_next srv hnext]
      split_ifs at h ⊢
      · have hlive : c.session.connected = true := by simpa using h
        have hshown := shown_close_open
          (c := Conn.handleError { c with buf := rest } (text "Message too large"))
          (hopen hlive) hlive 1009 (text "Message too large")
        rw [hshown]
        exact Nat.lt_succ_self _
      · by_cases hsilent : Silent c.session.connected frame
        · obtain ⟨h1, h2, h3, h4⟩ := handleFrame_silent srv (c := { c with buf := rest }) hsilent
          have hsame : (handleFrame srv { c with buf := rest } frame).shown = c.shown :=
            shown_of_observed h1
          rw [← hsame]
          apply ih
          · rw [h2]
            dsimp only
            omega
          · intro hlive
            rw [h3] at hlive
            rcases h4 with h4 | ⟨hno, -⟩
            · exact h4.trans (hopen hlive)
            · rw [hno] at hlive
              cases hlive
          · rw [h2, h3]
            exact fun hquiet => h ⟨hsilent, hquiet⟩
        · exact lt_of_lt_of_le
            (shown_handleFrame_lt srv (c := { c with buf := rest }) hopen hsilent)
            (shown_loop_le srv fuel _)

end Shown

end mymuduo.websocket_server
