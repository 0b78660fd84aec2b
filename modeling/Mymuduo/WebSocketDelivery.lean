-- Messages from one end of a WebSocket connection to the other, in both
-- directions. Each call of the sender is one frame, and the receiver handles each
-- frame once and in order, whatever the cut of the stream. On the client the
-- stream may start with the answer to the upgrade request.
import Mymuduo.WebSocketInterop

open List bytes runs segments words

namespace mymuduo.websocket_server

open websocket_frame

/-! ## Frames on the wire -/

/-- The frame as the other end decodes it. -/
def received (frame : WebSocketFrame) (mask : Bool) (key : MaskingKey) : WebSocketFrame :=
  { frame with mask := mask, maskingKey := if mask then key else .zero }

theorem next_encode {frame : WebSocketFrame} (h : frame.Encodable) (mask : Bool)
    (key : MaskingKey) :
    frameReader.next (encode frame mask key) = some (received frame mask key, []) := by
  have hdec := decode_encoded h mask key []
  rw [append_nil] at hdec
  exact frameReader_next_iff.mpr ⟨_, hdec, by rw [drop_length]⟩

theorem encodeRaw_eq (opcode : WsOpcode) (payload : Bytes) (fin mask : Bool) (key : MaskingKey) :
    encodeRaw opcode payload fin mask key = encode { fin, opcode, payload } mask key := by
  unfold encodeRaw encode firstByte
  simp

def messageOf (frame : WebSocketFrame) : Option WsMessage :=
  if frame.opcode = .Text ∨ frame.opcode = .Binary then some ⟨frame.opcode, frame.payload⟩ else none

def Reply.frame : Reply → WebSocketFrame
  | .sendText text => { opcode := .Text, payload := text }
  | .sendBinary data => { opcode := .Binary, payload := data }
  | .ping data => { opcode := .Ping, payload := data }
  | .pong data => { opcode := .Pong, payload := data }

theorem bytes_eq_encode (r : Reply) : r.bytes = encode r.frame false .zero := by
  cases r with
  | sendText text => exact encodeRaw_eq .Text text true false .zero
  | sendBinary data => exact encodeRaw_eq .Binary data true false .zero
  | ping data | pong data => rfl

/-! ## The server -/

section Server

variable {σ : Type*} (srv : Server σ)

theorem close_withBuf (c : Conn σ) (buf : Bytes) (code : UInt16) (reason : Bytes) :
    (c.withBuf buf).close code reason = (c.close code reason).withBuf buf := by
  unfold Conn.close
  change (if c.session.state_ = .Closed ∨ c.session.state_ = .Closing then _ else _) = _
  split
  · rfl
  · have hsend := send_withBuf (c.setState .Closing) buf (.frame (encodeClose code reason))
    exact congrArg Conn.shutdown hsend

theorem handleFrame_withBuf (c : Conn σ) (buf : Bytes) (frame : WebSocketFrame) :
    handleFrame srv (c.withBuf buf) frame = (handleFrame srv c frame).withBuf buf := by
  unfold handleFrame
  split
  · let out := srv.messageHandler c.app c.session ⟨frame.opcode, frame.payload⟩
    exact replies_withBuf out.2
      { c with app := out.1, messages := c.messages ++ [⟨frame.opcode, frame.payload⟩] } buf
  · split
    · exact sendFrame_withBuf c buf (encodePong frame.payload)
    · split
      · exact close_withBuf c buf 1000 []
      · rfl

theorem foldl_withBuf (frames : List WebSocketFrame) (c : Conn σ) (buf : Bytes) :
    frames.foldl (handleFrame srv) (c.withBuf buf) =
      (frames.foldl (handleFrame srv) c).withBuf buf :=
  foldl_hom (·.withBuf buf) fun c frame => handleFrame_withBuf srv c buf frame

/-- On frames that are not too large, the loop handles each one and then waits. -/
theorem loop_eq_foldl (fuel : Nat) (c : Conn σ) (hfuel : c.buf.length ≤ fuel)
    (hsmall : ∀ frame ∈ frameReader.items c.buf, tooLarge srv frame = false)
    (hwait : decode (frameReader.leftover c.buf) = .ok .incomplete) :
    handleWsFramesLoop srv fuel c =
      ((frameReader.items c.buf).foldl (handleFrame srv) c).withBuf
        (frameReader.leftover c.buf) := by
  induction fuel generalizing c with
  | zero =>
    have hnil : c.buf = [] := eq_nil_of_length_eq_zero (by omega)
    have hnone : frameReader.next c.buf = none := by rw [hnil, frameReader.next_nil]
    rw [frameReader.items_of_next_none hnone, frameReader.leftover_of_next_none hnone]
    rfl
  | succ fuel ih =>
    cases hnext : frameReader.next c.buf with
    | none =>
      rw [frameReader.leftover_of_next_none hnext] at hwait ⊢
      rw [frameReader.items_of_next_none hnext, handleWsFramesLoop, hwait]
      split <;> rfl
    | some p =>
      obtain ⟨frame, rest⟩ := p
      have hshort := frameReader.shrinks hnext
      rw [frameReader.items_of_next_some hnext] at hsmall ⊢
      rw [frameReader.leftover_of_next_some hnext] at hwait ⊢
      have hround : handleFrame srv { c with buf := rest } frame =
          (handleFrame srv c frame).withBuf rest := handleFrame_withBuf srv c rest frame
      rw [loop_next srv hnext, hsmall frame (mem_cons_self ..), if_neg (by simp), hround,
        ih ((handleFrame srv c frame).withBuf rest) (by
          change rest.length ≤ fuel
          omega)
          (fun f hf => hsmall f (mem_cons_of_mem frame hf)) hwait, foldl_withBuf]
      rfl

/-- What the server sends back for each frame: what the message handler replies, or the
pong of a ping. -/
def answers (session : WsSession) : σ → List WebSocketFrame → List (List Bytes)
  | _, [] => []
  | app, frame :: frames =>
    match messageOf frame with
    | some msg =>
      let out := srv.messageHandler app session msg
      out.2.map Reply.bytes :: answers session out.1 frames
    | none =>
      (if frame.opcode = .Ping then [encodePong frame.payload] else []) ::
        answers session app frames

theorem handleFrame_live {c : Conn σ} (h : c.Live) {frame : WebSocketFrame}
    (hclose : frame.opcode ≠ .Close) :
    handleFrame srv c frame =
      match messageOf frame with
      | some msg =>
        let out := srv.messageHandler c.app c.session msg
        { c with
          app := out.1
          messages := c.messages ++ [msg]
          sent := c.sent ++ out.2.map (fun r => .frame r.bytes) }
      | none =>
        if frame.opcode = .Ping then
          { c with sent := c.sent ++ [.frame (encodePong frame.payload)] }
        else c := by
  unfold handleFrame messageOf
  by_cases hmsg : frame.opcode = .Text ∨ frame.opcode = .Binary
  · rw [if_pos hmsg, if_pos hmsg]
    let out := srv.messageHandler c.app c.session ⟨frame.opcode, frame.payload⟩
    let c' : Conn σ :=
      { c with app := out.1, messages := c.messages ++ [⟨frame.opcode, frame.payload⟩] }
    have hlive : c'.Live := { h with }
    exact replies_live hlive out.2
  · rw [if_neg hmsg, if_neg hmsg, if_neg hclose]
    dsimp only
    split_ifs
    · exact send_live h _
    · rfl

theorem live_handleFrame {c : Conn σ} (h : c.Live) {frame : WebSocketFrame}
    (hclose : frame.opcode ≠ .Close) :
    (handleFrame srv c frame).Live ∧ (handleFrame srv c frame).session = c.session := by
  rw [handleFrame_live srv h hclose]
  split
  · exact ⟨{ h with }, rfl⟩
  · split
    · exact ⟨{ h with }, rfl⟩
    · exact ⟨h, rfl⟩

theorem foldl_handleFrame {c : Conn σ} (h : c.Live) {frames : List WebSocketFrame}
    (hclose : ∀ frame ∈ frames, frame.opcode ≠ .Close) :
    (frames.foldl (handleFrame srv) c).session = c.session ∧
      (frames.foldl (handleFrame srv) c).messages = c.messages ++ frames.filterMap messageOf ∧
      (frames.foldl (handleFrame srv) c).frames =
        c.frames ++ (answers srv c.session c.app frames).flatten := by
  induction frames generalizing c with
  | nil => simp [answers]
  | cons frame frames ih =>
    have hfirst := hclose frame (mem_cons_self ..)
    obtain ⟨hlive, hsession⟩ := live_handleFrame srv h hfirst
    obtain ⟨k1, k2, k3⟩ := ih hlive (fun f hf => hclose f (mem_cons_of_mem frame hf))
    rw [foldl_cons, k1, k2, k3, hsession, handleFrame_live srv h hfirst, answers]
    cases hmsg : messageOf frame with
    | some msg => simp [hmsg, Conn.frames]
    | none =>
      dsimp only
      split <;> simp [hmsg, Conn.frames]

theorem deliver_open {c : Conn σ} (ho : c.session.state_ = .Open) (hlives : c.crashed = false)
    (piece : Bytes) : deliver srv c piece = handleWsFrames srv (c.withBuf (c.buf ++ piece)) := by
  unfold deliver onMessage
  rw [if_neg (by rw [hlives]; simp)]
  rw [ho]
  rfl

def Passes (frame : WebSocketFrame) : Prop := tooLarge srv frame = false ∧ frame.opcode ≠ .Close

theorem server_handles :
    frameReader.Handles (deliver srv) Conn.withBuf (handleFrame srv) Conn.Live (Passes srv)
      (fun left => decode left = .ok .incomplete) where
  step_eq := by
    intro c buf piece hlive hpass hwait
    have hloop := loop_eq_foldl srv (buf ++ piece).length (c.withBuf (buf ++ piece)) (le_refl _)
      (fun frame hframe => (hpass frame hframe).1) hwait
    have hopen := deliver_open srv (c := c.withBuf buf) hlive.isOpen hlive.lives piece
    have hfold := foldl_withBuf srv (frameReader.items (buf ++ piece)) c (buf ++ piece)
    have hleft := congrArg (fun d => d.withBuf (frameReader.leftover (buf ++ piece))) hfold
    rw [hopen]
    exact hloop.trans hleft
  keeps c frame hlive hpass := (live_handleFrame srv hlive hpass.2).1

end Server

end mymuduo.websocket_server

namespace mymuduo.websocket_client

open websocket_frame
open websocket_server (frameReader messageOf WsMessage)

/-! ## The client -/

theorem decode_ne_error (data : Bytes) : decode data ≠ .ok .error := by
  intro h
  by_cases hh : ∃ header, decodeHeader data = .ok (some header)
  · obtain ⟨header, hh⟩ := hh
    rw [decode_of_header hh] at h
    split at h
    · cases h
    · unfold decodePayload at h
      cases hsize : vectors.resize [] (0 : UInt8) header.payloadLen with
      | error fault =>
        rw [hsize] at h
        cases h
      | ok sized =>
        rw [hsize] at h
        cases hread : vectors.readFrom data header.headerSize header.payloadLen with
        | error fault | ok raw =>
          simp only [bind, Except.bind, hread] at h
          cases h
  · rw [decode_of_no_header (fun header hc => hh ⟨header, hc⟩)] at h
    cases h

/-- The decoder leaves these bytes with an exception. -/
def faults (data : Bytes) : Bool :=
  match decode data with
  | .error _ => true
  | .ok _ => false

section Loop

variable {σ : Type*} (w : Settings σ)

theorem answerClose_withBuf (c : Client σ) (buf payload : Bytes) :
    answerClose w (c.withBuf buf) payload = (answerClose w c payload).withBuf buf := by
  unfold answerClose
  change (if c.state_ = .Open then _ else _) =
    Client.withBuf (if c.state_ = .Open then _ else _) buf
  split
  · exact sendMasked_withBuf w c buf .Close payload
  · rfl

theorem handleFrame_withBuf (c : Client σ) (buf : Bytes) (frame : WebSocketFrame) :
    handleFrame w (c.withBuf buf) frame = (handleFrame w c frame).withBuf buf := by
  unfold handleFrame
  split
  · exact fire_withBuf w c buf _ _
  · split
    · exact sendMasked_withBuf w c buf _ _
    · split
      · rw [answerClose_withBuf]
        exact fire_withBuf w { answerClose w c frame.payload with state_ := .Closed } buf _ _
      · rfl

theorem foldl_withBuf (frames : List WebSocketFrame) (c : Client σ) (buf : Bytes) :
    frames.foldl (handleFrame w) (c.withBuf buf) =
      (frames.foldl (handleFrame w) c).withBuf buf :=
  foldl_hom (·.withBuf buf) fun c frame => handleFrame_withBuf w c buf frame

theorem answerClose_keeps (c : Client σ) (payload : Bytes) :
    (answerClose w c payload).callbacks = c.callbacks ∧
      (answerClose w c payload).crashed = c.crashed := by
  unfold answerClose
  split
  · exact (sendMasked_keeps w c .Close payload).2
  · exact ⟨rfl, rfl⟩

/-- The loop ends at bytes that are not a whole frame. -/
def Client.stop (c : Client σ) (left : Bytes) : Client σ :=
  { c with recvBuffer_ := left, crashed := c.crashed || faults left }

theorem stop_of_not_faults (c : Client σ) {left : Bytes} (h : faults left = false) :
    c.stop left = c.withBuf left := by
  unfold Client.stop Client.withBuf
  rw [h, Bool.or_false]

theorem loop_stops {c : Client σ} (h : frameReader.next c.recvBuffer_ = none) (fuel : Nat) :
    handleWsFramesLoop w (fuel + 1) c = c.stop c.recvBuffer_ := by
  have hstay : faults c.recvBuffer_ = false → c = c.stop c.recvBuffer_ :=
    fun hno => (stop_of_not_faults c hno).symm
  rw [handleWsFramesLoop]
  split
  · apply hstay
    unfold faults
    rw [decode_of_no_header]
    intro header hh
    obtain ⟨htwo, -, hin⟩ := websocket_server.headerSize_le hh
    omega
  · split
    · rename_i hdec
      unfold Client.stop faults
      rw [hdec, Bool.or_true]
    · rename_i hdec
      apply hstay
      unfold faults
      rw [hdec]
    · rename_i hdec
      exact absurd hdec (decode_ne_error _)
    · rename_i frame consumed hdec
      rw [websocket_server.frameReader_next_iff.mpr ⟨consumed, hdec, rfl⟩] at h
      cases h

theorem loop_next {c : Client σ} {frame : WebSocketFrame} {rest : Bytes}
    (h : frameReader.next c.recvBuffer_ = some (frame, rest)) (fuel : Nat) :
    handleWsFramesLoop w (fuel + 1) c =
      handleWsFramesLoop w fuel ((handleFrame w c frame).withBuf rest) := by
  obtain ⟨consumed, hdec, rfl⟩ := websocket_server.frameReader_next_iff.mp h
  have htwo : ¬c.recvBuffer_.length < 2 := by
    obtain ⟨header, hh, -⟩ := (websocket_server.decode_ok_iff _ _ _).mp hdec
    obtain ⟨htwo, -, hin⟩ := websocket_server.headerSize_le hh
    omega
  have hsame := handleFrame_withBuf w c c.recvBuffer_ frame
  have hbuf : (handleFrame w c frame).recvBuffer_ = c.recvBuffer_ := by
    change (handleFrame w (c.withBuf c.recvBuffer_) frame).recvBuffer_ = _
    rw [hsame]
    rfl
  rw [handleWsFramesLoop, if_neg htwo, hdec]
  dsimp only
  rw [hbuf]
  rfl

/-- The loop handles each whole frame of the buffer, and stops at what is left over. -/
theorem loop_eq_foldl (fuel : Nat) (c : Client σ) (hfuel : c.recvBuffer_.length ≤ fuel) :
    handleWsFramesLoop w fuel c =
      ((frameReader.items c.recvBuffer_).foldl (handleFrame w) c).stop
        (frameReader.leftover c.recvBuffer_) := by
  induction fuel generalizing c with
  | zero =>
    have hnil : c.recvBuffer_ = [] := eq_nil_of_length_eq_zero (by omega)
    have hnone : frameReader.next c.recvBuffer_ = none := by rw [hnil, frameReader.next_nil]
    rw [frameReader.items_of_next_none hnone, frameReader.leftover_of_next_none hnone,
      foldl_nil, stop_of_not_faults c (by rw [hnil]; rfl)]
    rfl
  | succ fuel ih =>
    cases hnext : frameReader.next c.recvBuffer_ with
    | none =>
      rw [loop_stops w hnext, frameReader.items_of_next_none hnext,
        frameReader.leftover_of_next_none hnext]
      rfl
    | some p =>
      obtain ⟨frame, rest⟩ := p
      have hshort := frameReader.shrinks hnext
      have hrest := ih ((handleFrame w c frame).withBuf rest) (by
        change rest.length ≤ fuel
        omega)
      rw [loop_next w hnext, hrest, frameReader.items_of_next_some hnext,
        frameReader.leftover_of_next_some hnext]
      change (List.foldl _ ((handleFrame w c frame).withBuf rest) (frameReader.items rest)).stop
        (frameReader.leftover rest) = _
      rw [foldl_withBuf]
      rfl

end Loop

section Live

variable {σ : Type*} (w : Settings σ)

/-- The frames of calls, with the keys that they are masked with from key number `n`
on. -/
def masked (n : Nat) (calls : List Call) : List (WebSocketFrame × MaskingKey) :=
  ((calls.filterMap Call.frame?).zipIdx n).map (fun p => (p.1, w.maskingKey p.2))

def maskedBytes (n : Nat) (calls : List Call) : List Bytes :=
  (masked w n calls).map (fun p => encode p.1 true p.2)

/-- What the client sends back for each frame: what the message callback sends, or the
masked pong of a ping. -/
def answers : σ → Nat → List WebSocketFrame → List (List Bytes)
  | _, _, [] => []
  | app, n, frame :: frames =>
    match messageOf frame with
    | some msg =>
      let out := w.messageCallback app .Open msg
      maskedBytes w n out.2 :: answers out.1 (n + out.2.length) frames
    | none =>
      if frame.opcode = .Ping then
        [encode { opcode := .Pong, payload := frame.payload } true (w.maskingKey n)] ::
          answers app (n + 1) frames
      else [] :: answers app n frames

/-- The client is open on a live connection. -/
structure Client.Live (c : Client σ) : Prop where
  isOpen : c.state_ = .Open
  connected : c.conn_ = some true
  lives : c.crashed = false

variable {c : Client σ}

theorem sendMasked_live (h : c.conn_ = some true) (opcode : WsOpcode) (payload : Bytes) :
    c.sendMasked w opcode payload =
      { c with
        drawn := c.drawn + 1
        sent := c.sent ++ [encode { opcode, payload } true (w.maskingKey c.drawn)] } := by
  unfold Client.sendMasked Client.sendRaw
  rw [if_pos h]

variable {frame : WebSocketFrame}

theorem call_live (h : c.Live) {call : Call} (hframe : call.frame? = some frame) :
    c.call w call =
      { c with
        drawn := c.drawn + 1
        sent := c.sent ++ [encode frame true (w.maskingKey c.drawn)] } := by
  have hsend : ∀ opcode payload, c.sendFrame w opcode payload = c.sendMasked w opcode payload := by
    intro opcode payload
    unfold Client.sendFrame
    rw [if_pos h.isOpen]
  cases call with
  | sendText payload | sendBinary payload | ping payload =>
    cases hframe
    exact (hsend _ payload).trans (sendMasked_live w h.connected _ payload)
  | close code reason | disconnect => cases hframe

theorem calls_live (h : c.Live) {calls : List Call} (hsends : ∀ call ∈ calls, call.Sends) :
    calls.foldl (Client.call w) c =
      { c with
        drawn := c.drawn + calls.length
        sent := c.sent ++ maskedBytes w c.drawn calls } := by
  induction calls generalizing c with
  | nil => simp [maskedBytes, masked]
  | cons call calls ih =>
    obtain ⟨frame, hframe⟩ := Option.isSome_iff_exists.mp (hsends call (mem_cons_self ..))
    have hcall := call_live w h hframe
    have hlive : (c.call w call).Live := by
      rw [hcall]
      exact { h with }
    rw [foldl_cons, ih hlive (fun other ho => hsends other (mem_cons_of_mem call ho)), hcall]
    have hcount : c.drawn + 1 + calls.length = c.drawn + (calls.length + 1) := by omega
    unfold maskedBytes masked
    rw [filterMap_cons_some hframe, zipIdx_cons]
    simp only [map_cons, length_cons, append_assoc, singleton_append, hcount]

structure Settings.Sends (w : Settings σ) : Prop where
  onOpen : ∀ app, ∀ call ∈ (w.openCallback app .Open).2, call.Sends
  onMessage : ∀ app msg, ∀ call ∈ (w.messageCallback app .Open msg).2, call.Sends

theorem handleFrame_live (hw : w.Sends) (h : c.Live)
    (hclose : frame.opcode ≠ .Close) :
    handleFrame w c frame =
      match messageOf frame with
      | some msg =>
        let out := w.messageCallback c.app .Open msg
        { c with
          app := out.1
          callbacks := c.callbacks ++ [.message msg]
          drawn := c.drawn + out.2.length
          sent := c.sent ++ maskedBytes w c.drawn out.2 }
      | none =>
        if frame.opcode = .Ping then
          { c with
            drawn := c.drawn + 1
            sent := c.sent ++
              [encode { opcode := .Pong, payload := frame.payload } true (w.maskingKey c.drawn)] }
        else c := by
  unfold handleFrame messageOf
  by_cases hmsg : frame.opcode = .Text ∨ frame.opcode = .Binary
  · rw [if_pos hmsg, if_pos hmsg]
    let msg : WsMessage := ⟨frame.opcode, frame.payload⟩
    let c' : Client σ :=
      { c with
        app := (w.messageCallback c.app .Open msg).1
        callbacks := c.callbacks ++ [.message msg] }
    have hlive : c'.Live := { h with }
    have hfire : c.fireMessage w msg =
        c.fire w (.message msg) (w.messageCallback c.app .Open msg) := by
      unfold Client.fireMessage
      rw [h.isOpen]
    exact hfire.trans (calls_live w hlive (hw.onMessage c.app msg))
  · rw [if_neg hmsg, if_neg hmsg, if_neg hclose]
    dsimp only
    split_ifs
    · exact sendMasked_live w h.connected .Pong frame.payload
    · rfl

theorem live_handleFrame (hw : w.Sends) (h : c.Live)
    (hclose : frame.opcode ≠ .Close) : (handleFrame w c frame).Live := by
  rw [handleFrame_live w hw h hclose]
  split
  · exact { h with }
  · split
    · exact { h with }
    · exact h

theorem foldl_handleFrame (hw : w.Sends) (h : c.Live)
    {frames : List WebSocketFrame} (hclose : ∀ frame ∈ frames, frame.opcode ≠ .Close) :
    (frames.foldl (handleFrame w) c).state_ = .Open ∧
      (frames.foldl (handleFrame w) c).callbacks =
        c.callbacks ++ (frames.filterMap messageOf).map .message ∧
      (frames.foldl (handleFrame w) c).sent =
        c.sent ++ (answers w c.app c.drawn frames).flatten := by
  induction frames generalizing c with
  | nil => simp [answers, h.isOpen]
  | cons frame frames ih =>
    have hfirst := hclose frame (mem_cons_self ..)
    obtain ⟨k1, k2, k3⟩ := ih (live_handleFrame w hw h hfirst)
      (fun f hf => hclose f (mem_cons_of_mem frame hf))
    rw [foldl_cons, k1, k2, k3, handleFrame_live w hw h hfirst, answers]
    cases hmsg : messageOf frame with
    | some msg => simp [hmsg]
    | none =>
      dsimp only
      split <;> simp [hmsg]

theorem deliver_open (h : c.Live) (piece : Bytes) :
    deliver w c piece = handleWsFrames w c piece := by
  unfold deliver onMessage
  rw [if_neg (by rw [h.lives]; simp), h.isOpen]

theorem client_handles (hw : w.Sends) :
    frameReader.Handles (deliver w) Client.withBuf (handleFrame w) Client.Live
      (fun frame => frame.opcode ≠ .Close) (fun left => decode left = .ok .incomplete) where
  step_eq := by
    intro c buf piece hlive _ hwait
    have hfault : faults (frameReader.leftover (buf ++ piece)) = false := by
      unfold faults
      rw [hwait]
    have hloop := loop_eq_foldl w (buf ++ piece).length (c.withBuf (buf ++ piece)) (le_refl _)
    have hfold := foldl_withBuf w (frameReader.items (buf ++ piece)) c (buf ++ piece)
    have hstop := stop_of_not_faults
      ((frameReader.items (buf ++ piece)).foldl (handleFrame w) (c.withBuf (buf ++ piece))) hfault
    have hleft := congrArg (fun d => d.withBuf (frameReader.leftover (buf ++ piece))) hfold
    have hopen := deliver_open w (c := c.withBuf buf)
      { hlive with } piece
    rw [hopen]
    exact (hloop.trans hstop).trans hleft
  keeps c frame hlive hclose := live_handleFrame w hw hlive hclose

end Live

end mymuduo.websocket_client

namespace mymuduo.websocket_delivery

open websocket_client (Call Client Settings masked maskedBytes onConnected opened)
open websocket_frame
open websocket_server (Conn Reply Server frameReader messageOf received switchingResponse)

/-! ## From end to end -/

variable {τ : Type*} {pieces : List Bytes}

/-- A machine that handles frames, and does not look at their masks, handles the frames
that were sent. -/
theorem run_encoded {step : τ → Bytes → τ} {put : τ → Bytes → τ} {handle : τ → WebSocketFrame → τ}
    {inv : τ → Prop} {good : WebSocketFrame → Prop}
    (h : frameReader.Handles step put handle inv good (fun left => decode left = .ok .incomplete))
    (hsame : ∀ s frame mask key, handle s (received frame mask key) = handle s frame) {mask : Bool}
    {frames : List (WebSocketFrame × MaskingKey)} (hframes : ∀ f ∈ frames, f.1.Encodable)
    (hgood : ∀ f ∈ frames, good (received f.1 mask f.2)) {s : τ} (hs : inv s)
    (hflat : pieces.flatten = (frames.map (fun f => encode f.1 mask f.2)).flatten) :
    run step (put s []) pieces = put ((frames.map Prod.fst).foldl handle s) [] := by
  let parts := frames.map (fun f => (encode f.1 mask f.2, received f.1 mask f.2))
  have hwhole : ∀ p ∈ parts, frameReader.next p.1 = some (p.2, []) := by
    intro p hp
    obtain ⟨f, hf, rfl⟩ := mem_map.mp hp
    exact websocket_server.next_encode (hframes f hf) mask f.2
  have hpasses : ∀ p ∈ parts, good p.2 := by
    intro p hp
    obtain ⟨f, hf, rfl⟩ := mem_map.mp hp
    exact hgood f hf
  have hwaits : ∀ p ∈ parts, ∀ part, part <+: p.1 → part ≠ p.1 → decode part = .ok .incomplete := by
    intro p hp part hpart hne
    obtain ⟨f, hf, rfl⟩ := mem_map.mp hp
    exact decode_part (hframes f hf) hpart hne
  have hparts : [] ++ pieces.flatten = (parts.map Prod.fst).flatten := by
    rw [nil_append, hflat, map_map]
    rfl
  have hrun := h.run_whole rfl hwhole hpasses hwaits hs frameReader.next_nil hparts
  have hfold : (parts.map Prod.snd).foldl handle s = (frames.map Prod.fst).foldl handle s := by
    rw [map_map, foldl_map, foldl_map]
    apply foldl_ext
    intro t f _
    exact hsame t f.1 mask f.2
  rw [hrun, hfold]

/-- A frame of the wire format that does not close. -/
def Plain (frame : WebSocketFrame) : Prop := frame.Encodable ∧ frame.opcode ≠ .Close

theorem plain_mk {opcode : WsOpcode} {payload : Bytes} (hop : opcode.value < 16)
    (hclose : opcode ≠ .Close) (hlen : payload.length < 2 ^ 63) : Plain { opcode, payload } := by
  have hzero : (0 : UInt8) < 2 := by decide
  exact ⟨⟨hzero, hzero, hzero, hop, hlen⟩, hclose⟩

/-- A payload that the server takes: no longer than the limit, if there is a limit, and no
longer than a vector can be. -/
structure FitsIn {σ : Type*} (srv : Server σ) (payload : Bytes) : Prop where
  limit : 0 < srv.maxMessageSize → (payload.length : Int) ≤ srv.maxMessageSize
  size : payload.length < 2 ^ 63

theorem signed32_le (n : Nat) : signed32 n ≤ n := by
  unfold signed32
  split <;> omega

theorem not_tooLarge {σ : Type*} {srv : Server σ} {frame : WebSocketFrame}
    (h : FitsIn srv frame.payload) : websocket_server.tooLarge srv frame = false := by
  unfold websocket_server.tooLarge
  rw [Bool.and_eq_false_iff]
  by_cases hpos : 0 < srv.maxMessageSize
  · right
    have hle := le_trans (signed32_le frame.payload.length) (h.limit hpos)
    simpa using hle
  · left
    simpa using hpos

theorem plain_of_call {call : Call} {frame : WebSocketFrame} (h : call.frame? = some frame)
    (hlen : frame.payload.length < 2 ^ 63) : Plain frame := by
  cases call with
  | sendText text | sendBinary data | ping data =>
    cases h
    exact plain_mk (by decide) (by decide) hlen
  | close code reason | disconnect => cases h

theorem frames_masked (w : Settings τ) (n : Nat) (calls : List Call) :
    (masked w n calls).map Prod.fst = calls.filterMap Call.frame? := by
  unfold masked
  rw [map_map]
  exact zipIdx_map_fst n _

/-- The calls of an open client reach the server's message handler, or get their pong. -/
theorem server_receives {σ : Type*} (srv : Server σ) (w : Settings τ) {k : Client τ} {c : Conn σ}
    (hk : k.Live) (hc : c.Live) (hbuf : c.buf = []) {calls : List Call}
    (hcalls : ∀ call ∈ calls, call.Sends)
    (hsize : ∀ frame ∈ calls.filterMap Call.frame?, FitsIn srv frame.payload) {sent : List Bytes}
    (hsent : (run (Client.call w) k calls).sent = k.sent ++ sent)
    (hflat : pieces.flatten = sent.flatten) :
    run (websocket_server.deliver srv) c pieces =
      ((calls.filterMap Call.frame?).foldl (websocket_server.handleFrame srv) c).withBuf [] := by
  have hrun : run (Client.call w) k calls = _ := websocket_client.calls_live w hk hcalls
  have hbytes : sent = maskedBytes w k.drawn calls := by
    rw [hrun] at hsent
    exact (append_cancel_left hsent).symm
  have hmem : ∀ f ∈ masked w k.drawn calls, f.1 ∈ calls.filterMap Call.frame? := by
    intro f hf
    rw [← frames_masked w k.drawn calls]
    exact mem_map_of_mem hf
  have hplain : ∀ f ∈ masked w k.drawn calls, Plain f.1 := by
    intro f hf
    obtain ⟨call, -, hcall⟩ := mem_filterMap.mp (hmem f hf)
    exact plain_of_call hcall (hsize f.1 (hmem f hf)).size
  have hpass : ∀ f ∈ masked w k.drawn calls,
      websocket_server.Passes srv (received f.1 true f.2) :=
    fun f hf => ⟨not_tooLarge (hsize f.1 (hmem f hf)), (hplain f hf).2⟩
  have hpieces : pieces.flatten =
      ((masked w k.drawn calls).map (fun f => encode f.1 true f.2)).flatten := by
    rw [hflat, hbytes]
    rfl
  have hstart : c.withBuf [] = c := by
    unfold Conn.withBuf
    rw [← hbuf]
  have hall := run_encoded (websocket_server.server_handles srv) (fun _ _ _ _ => rfl)
    (fun f hf => (hplain f hf).1) hpass hc hpieces
  rw [hstart, frames_masked] at hall
  exact hall

theorem plain_of_reply {r : Reply} (hlen : r.frame.payload.length < 2 ^ 63) : Plain r.frame := by
  cases r with
  | sendText text | sendBinary data | ping data | pong data =>
    exact plain_mk (by decide) (by decide) hlen

theorem sent_of_replies {σ : Type*} {c : Conn σ} (hc : c.Live) {replies : List Reply}
    {sent : List Bytes} (hsent : (run Conn.reply c replies).frames = c.frames ++ sent) :
    sent = replies.map Reply.bytes := by
  have hrun : run Conn.reply c replies = _ := websocket_server.replies_live hc replies
  rw [hrun] at hsent
  have hframes : Conn.frames { c with sent := c.sent ++ replies.map (fun r => .frame r.bytes) } =
      c.frames ++ replies.map Reply.bytes := by
    unfold Conn.frames
    rw [filterMap_append, filterMap_map]
    congr 1
    exact congrFun (filterMap_eq_map (f := Reply.bytes)) replies
  exact append_cancel_left (hsent.symm.trans hframes)

/-- The calls of an open session reach the client's message callback, or get their
pong. -/
theorem client_receives (w : Settings τ) (hw : w.Sends) {k : Client τ} (hk : k.Live)
    (hbuf : k.recvBuffer_ = []) {replies : List Reply}
    (hsize : ∀ r ∈ replies, r.frame.payload.length < 2 ^ 63)
    (hflat : pieces.flatten = (replies.map Reply.bytes).flatten) :
    run (websocket_client.deliver w) k pieces =
      ((replies.map Reply.frame).foldl (websocket_client.handleFrame w) k).withBuf [] := by
  let frames := replies.map (fun r => (r.frame, MaskingKey.zero))
  have hplain : ∀ f ∈ frames, Plain f.1 := by
    intro f hf
    obtain ⟨r, hr, rfl⟩ := mem_map.mp hf
    exact plain_of_reply (hsize r hr)
  have hpieces : pieces.flatten = (frames.map (fun f => encode f.1 false f.2)).flatten := by
    rw [hflat, map_map]
    congr 1
    apply map_congr_left
    intro r _
    exact websocket_server.bytes_eq_encode r
  have hstart : k.withBuf [] = k := by
    unfold Client.withBuf
    rw [← hbuf]
  have hall := run_encoded (websocket_client.client_handles w hw) (fun _ _ _ _ => rfl)
    (fun f hf => (hplain f hf).1) (fun f hf => (hplain f hf).2) hk hpieces
  rw [hstart, map_map] at hall
  exact hall

theorem opened_live (w : Settings τ) (hw : w.Sends) {k : Client τ} (hconn : k.conn_ = some true)
    (hlives : k.crashed = false) :
    opened w k =
      let out := w.openCallback k.app .Open
      { k with
        state_ := .Open
        app := out.1
        callbacks := k.callbacks ++ [.opened]
        drawn := k.drawn + out.2.length
        sent := k.sent ++ maskedBytes w k.drawn out.2 } := by
  let k' : Client τ :=
    { k with
      state_ := .Open
      app := (w.openCallback k.app .Open).1
      callbacks := k.callbacks ++ [.opened] }
  have hlive : k'.Live := ⟨rfl, hconn, hlives⟩
  exact websocket_client.calls_live w hlive (hw.onOpen k.app)

/-- Messages and pings arrive once each and in order, whatever the cut: from the calls of
an open client to the message handler of the server, from the calls of an open session
to the message callback of the client, and to a client whose stream still starts with
the answer to its upgrade request. Each ping gets one pong with its payload. -/
theorem messages_arrive_once_in_order {σ τ : Type*} (srv : Server σ) (w : Settings τ)
    (hw : w.Sends) :
    (∀ (k : Client τ) (c : Conn σ) (calls : List Call) (sent pieces : List Bytes), k.Live →
      c.Live → c.buf = [] → (∀ call ∈ calls, call.Sends) →
      (∀ frame ∈ calls.filterMap Call.frame?, FitsIn srv frame.payload) →
      (run (Client.call w) k calls).sent = k.sent ++ sent → pieces.flatten = sent.flatten →
      let c' := run (websocket_server.deliver srv) c pieces
      let frames := calls.filterMap Call.frame?
      c'.messages = c.messages ++ frames.filterMap messageOf ∧
        c'.frames = c.frames ++ (websocket_server.answers srv c.session c.app frames).flatten) ∧
    (∀ (c : Conn σ) (k : Client τ) (replies : List Reply) (sent pieces : List Bytes), c.Live →
      k.Live → k.recvBuffer_ = [] → (∀ r ∈ replies, r.frame.payload.length < 2 ^ 63) →
      (run Conn.reply c replies).frames = c.frames ++ sent → pieces.flatten = sent.flatten →
      let k' := run (websocket_client.deliver w) k pieces
      let frames := replies.map Reply.frame
      k'.callbacks = k.callbacks ++ (frames.filterMap messageOf).map .message ∧
        k'.sent = k.sent ++ (websocket_client.answers w k.app k.drawn frames).flatten) ∧
    (∀ (c : Conn σ) (k : Client τ) (replies : List Reply) (sent pieces : List Bytes), c.Live →
      k.state_ = .Connecting → k.conn_ = some true → k.crashed = false → k.recvBuffer_ = [] →
      (∀ r ∈ replies, r.frame.payload.length < 2 ^ 63) →
      (run Conn.reply c replies).frames = c.frames ++ sent →
      pieces.flatten =
        switchingResponse (computeAcceptKey w.sha1 k.pendingKey_) ++ sent.flatten →
      let k' := run (websocket_client.deliver w) k pieces
      let frames := replies.map Reply.frame
      let out := w.openCallback k.app .Open
      k'.callbacks = k.callbacks ++ .opened :: (frames.filterMap messageOf).map .message ∧
        k'.sent = k.sent ++ maskedBytes w k.drawn out.2 ++
          (websocket_client.answers w out.1 (k.drawn + out.2.length) frames).flatten) := by
  have hclose : ∀ replies : List Reply, (∀ r ∈ replies, r.frame.payload.length < 2 ^ 63) →
      ∀ frame ∈ replies.map Reply.frame, frame.opcode ≠ .Close := by
    intro replies hsize frame hframe
    obtain ⟨r, hr, rfl⟩ := mem_map.mp hframe
    exact (plain_of_reply (hsize r hr)).2
  refine ⟨?_, ?_, ?_⟩
  · intro k c calls sent pieces hk hc hbuf hcalls hsize hsent hflat
    have hframes : ∀ frame ∈ calls.filterMap Call.frame?, frame.opcode ≠ .Close := by
      intro frame hframe
      obtain ⟨call, -, hcall⟩ := mem_filterMap.mp hframe
      exact (plain_of_call hcall (hsize frame hframe).size).2
    obtain ⟨-, hmessages, hanswers⟩ := websocket_server.foldl_handleFrame srv hc hframes
    rw [server_receives srv w hk hc hbuf hcalls hsize hsent hflat]
    exact ⟨hmessages, hanswers⟩
  · intro c k replies sent pieces hc hk hbuf hsize hsent hflat
    obtain ⟨-, hcallbacks, hanswers⟩ :=
      websocket_client.foldl_handleFrame w hw hk (hclose replies hsize)
    rw [sent_of_replies hc hsent] at hflat
    rw [client_receives w hw hk hbuf hsize hflat]
    exact ⟨hcallbacks, hanswers⟩
  · intro c k replies sent pieces hc hs hconn hlives hbuf hsize hsent hflat
    rw [sent_of_replies hc hsent] at hflat
    have hstart : k.withBuf [] = k := by
      unfold Client.withBuf
      rw [← hbuf]
    have hopened := opened_live w hw hconn hlives
    have hlive : ((opened w k).withBuf []).Live := by
      rw [hopened]
      exact ⟨rfl, hconn, hlives⟩
    obtain ⟨first, others, hrest, hrun⟩ := websocket_client.run_answer w hs hlives
      (websocket_interop.switchingResponse_pos _) hflat
    -- the frames that came with the end of the answer are one more delivery
    rw [hstart, ← websocket_client.deliver_open w hlive, ← run_cons] at hrun
    have hframes : (first :: others).flatten = (replies.map Reply.bytes).flatten := hrest
    obtain ⟨-, hcallbacks, hanswers⟩ :=
      websocket_client.foldl_handleFrame w hw hlive (hclose replies hsize)
    rw [hrun, client_receives w hw hlive rfl hsize hframes]
    refine ⟨hcallbacks.trans ?_, hanswers.trans ?_⟩
    · rw [hopened]
      simp [Client.withBuf]
    · rw [hopened]
      rfl

theorem chatClient_sends : websocket_interop.chatClient.Sends where
  onOpen := by simp [websocket_interop.chatClient]
  onMessage := by simp [websocket_interop.chatClient]

/-- A text and a ping, cut inside the header of the first frame. -/
theorem messages_arrive_once_in_order_text_and_ping :
    let w := websocket_interop.chatClient
    let calls : List Call := [.sendText [104, 105], .ping [1]]
    let stream := (maskedBytes w 0 calls).flatten
    let c : Conn Unit := { websocket_server.accepted () with session := { state_ := .Open } }
    let c' := run (websocket_server.deliver websocket_server.echoServer) c
      [stream.take 1, stream.drop 1]
    c'.messages = [⟨.Text, [104, 105]⟩] ∧
      c'.frames = [encodeBinary [104, 105], encodePong [1]] := by
  intro w calls stream c
  let k : Client Unit :=
    { websocket_client.made () with state_ := .Open, conn_ := some true }
  have hfits : ∀ frame ∈ calls.filterMap Call.frame?,
      FitsIn websocket_server.echoServer frame.payload := by
    intro frame hframe
    simp only [calls, filterMap_cons, filterMap_nil, Call.frame?, mem_cons,
      not_mem_nil, or_false] at hframe
    rcases hframe with rfl | rfl <;> exact ⟨by decide, by decide⟩
  have hcut : [stream.take 1, stream.drop 1].flatten = (maskedBytes w 0 calls).flatten := by
    rw [flatten_cons, flatten_cons, flatten_nil, append_nil, take_append_drop]
  exact (messages_arrive_once_in_order websocket_server.echoServer w chatClient_sends).1 k c calls
    (maskedBytes w 0 calls) _ ⟨rfl, rfl, rfl⟩ ⟨rfl, rfl, rfl⟩ rfl (by decide) hfits rfl hcut

end mymuduo.websocket_delivery
