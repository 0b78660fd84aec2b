-- The frame grammar of RFC 6455, and how far both sides of the codec
-- (src/websocket/WebSocketFrame.h) and the control calls of a session
-- (src/websocket/WsSession.h) keep to it. The encoders take control payloads of
-- any length, and the decoder knows no error.
import Mymuduo.WebSocketDelivery

open List bytes words

namespace mymuduo.websocket_frame

open websocket_server websocket_client

/-! ## The grammar -/

/-- `0x8` to `0xF` are control opcodes. -/
def WsOpcode.isControl (opcode : WsOpcode) : Bool := 8 ≤ opcode.value

def knownOpcodes : List WsOpcode := [.Continuation, .Text, .Binary, .Close, .Ping, .Pong]

/-- The header of a frame whose first two bytes are `b0` and `b1`: a known opcode,
control frames in one piece and short, and the shortest form of the length, whose
top bit is clear. -/
structure ValidHeader (b0 b1 : UInt8) (data : Bytes) : Prop where
  opcode : (headerOf b0 b1 data).opcode ∈ knownOpcodes
  control : (headerOf b0 b1 data).opcode.isControl = true →
    (headerOf b0 b1 data).fin = true ∧ (headerOf b0 b1 data).payloadLen ≤ 125
  shortest_16 : shortLength b1 = 126 → 125 < (headerOf b0 b1 data).payloadLen
  shortest_64 : shortLength b1 = 127 → 65535 < (headerOf b0 b1 data).payloadLen
  top_bit : shortLength b1 = 127 → (headerOf b0 b1 data).payloadLen < 2 ^ 63

/-- The bytes are one valid frame, with nothing missing and nothing behind it. -/
def ValidFrame (data : Bytes) : Prop :=
  ∃ b0 b1 rest, data = b0 :: b1 :: rest ∧ headerEnd b1 ≤ data.length ∧ ValidHeader b0 b1 data ∧
    data.length = headerEnd b1 + (headerOf b0 b1 data).payloadLen

/-- All bytes of the header are there, and it is not valid. -/
def InvalidHeader (data : Bytes) : Prop :=
  ∃ b0 b1 rest, data = b0 :: b1 :: rest ∧ headerEnd b1 ≤ data.length ∧ ¬ValidHeader b0 b1 data

/-! ## The encoders -/

theorem declaredLength_encoded_mod (n : Nat) (b0 b1 : UInt8) (rest : Bytes) :
    declaredLength (shortForm n) (b0 :: b1 :: (extendedLength n ++ rest)) = n % 2 ^ 64 := by
  by_cases hn : n < 2 ^ 63
  · rw [declaredLength_encoded hn, Nat.mod_eq_of_lt (by omega)]
  · unfold declaredLength shortForm extendedLength
    simp only [if_neg (show ¬n ≤ 125 by omega), if_neg (show ¬n ≤ 65535 by omega),
      drop_succ_cons, drop_zero]
    rw [if_neg (by omega), if_pos trivial, take_left' (length_bigEndian 8 n),
      bigEndianValue_bigEndian]
    omega

variable {frame : WebSocketFrame}

theorem headerOf_encode (hrsv : frame.rsv1 = 0 ∧ frame.rsv2 = 0 ∧ frame.rsv3 = 0)
    (hopcode : frame.opcode.value < 16) :
    ∃ b0 b1 rest, encode frame false .zero = b0 :: b1 :: rest ∧
      shortLength b1 = shortForm frame.payload.length ∧
      (encode frame false .zero).length = headerEnd b1 + frame.payload.length ∧
      (headerOf b0 b1 (encode frame false .zero)).fin = frame.fin ∧
      (headerOf b0 b1 (encode frame false .zero)).opcode = frame.opcode ∧
      (headerOf b0 b1 (encode frame false .zero)).payloadLen = frame.payload.length % 2 ^ 64 := by
  obtain ⟨h1, h2, h3⟩ := hrsv
  obtain ⟨hfin, -, -, -, hop⟩ := @firstByte_fields frame.fin frame.rsv1 frame.rsv2 frame.rsv3
    frame.opcode (by rw [h1]; decide) (by rw [h2]; decide) (by rw [h3]; decide) hopcode
  obtain ⟨-, hshort⟩ := secondByte_fields false frame.payload.length
  have hend := headerEnd_secondByte false .zero frame.payload.length
  refine ⟨_, _, _, encode_eq frame false .zero, hshort, ?_, hfin, hop, ?_⟩
  · rw [encode_eq, hend]
    simp [keyBytes, wirePayload]
    omega
  · dsimp only [headerOf]
    rw [hshort, encode_eq]
    exact declaredLength_encoded_mod _ _ _ _

theorem known_lt {opcode : WsOpcode} (h : opcode ∈ knownOpcodes) : opcode.value < 16 := by
  have hall : ∀ o ∈ knownOpcodes, o.value < 16 := by decide
  exact hall opcode h

/-- An encoded frame is valid when its length has a header, and a control frame is in one
piece and short. -/
theorem validFrame_encode_iff (hrsv : frame.rsv1 = 0 ∧ frame.rsv2 = 0 ∧ frame.rsv3 = 0)
    (hopcode : frame.opcode ∈ knownOpcodes) :
    ValidFrame (encode frame false .zero) ↔ frame.payload.length < 2 ^ 63 ∧
      (frame.opcode.isControl = true → frame.fin = true ∧ frame.payload.length ≤ 125) := by
  obtain ⟨b0, b1, rest, hdata, hshort, hlen, hfin, hop, hdecl⟩ :=
    headerOf_encode hrsv (known_lt hopcode)
  constructor
  · rintro ⟨b0', b1', rest', hdata', -, hvalid, hlen'⟩
    have hsame := hdata.symm.trans hdata'
    obtain ⟨rfl, rfl, rfl⟩ := hsame
    have hn : frame.payload.length = frame.payload.length % 2 ^ 64 := by omega
    have htop : frame.payload.length < 2 ^ 63 := by
      by_contra hbig
      have h127 : shortLength b1 = 127 := by
        rw [hshort, shortForm, if_neg (by omega), if_neg (by omega)]
      have := hvalid.top_bit h127
      omega
    refine ⟨htop, ?_⟩
    intro hcontrol
    have := hvalid.control (by rw [hop]; exact hcontrol)
    rw [hfin, hdecl, ← hn] at this
    exact this
  · rintro ⟨htop, hcontrol⟩
    have hn : frame.payload.length % 2 ^ 64 = frame.payload.length := Nat.mod_eq_of_lt (by omega)
    rw [hn] at hdecl
    refine ⟨b0, b1, rest, hdata, by omega, ⟨?_, ?_, ?_, ?_, ?_⟩, by omega⟩
    · rw [hop]
      exact hopcode
    · rw [hop, hfin, hdecl]
      exact hcontrol
    · rw [hshort, hdecl]
      unfold shortForm
      split <;> omega
    · rw [hshort, hdecl]
      unfold shortForm
      split
      · omega
      · split <;> omega
    · rw [hdecl]
      exact fun _ => htop

theorem validFrame_encodeText_iff (t : Bytes) : ValidFrame (encodeText t) ↔ t.length < 2 ^ 63 := by
  have hknown : WsOpcode.Text ∈ knownOpcodes := by decide
  rw [encodeText, encodeRaw_eq, validFrame_encode_iff ⟨rfl, rfl, rfl⟩ hknown]
  simp [WsOpcode.isControl, WsOpcode.Text]

variable (data : Bytes)

theorem validFrame_encodeBinary_iff : ValidFrame (encodeBinary data) ↔ data.length < 2 ^ 63 := by
  have hknown : WsOpcode.Binary ∈ knownOpcodes := by decide
  rw [encodeBinary, encodeRaw_eq, validFrame_encode_iff ⟨rfl, rfl, rfl⟩ hknown]
  simp [WsOpcode.isControl, WsOpcode.Binary]

theorem validFrame_control_iff {opcode : WsOpcode} (hknown : opcode ∈ knownOpcodes)
    (hcontrol : opcode.isControl = true) (payload : Bytes) :
    ValidFrame (encode { opcode, payload } false .zero) ↔ payload.length ≤ 125 := by
  rw [validFrame_encode_iff ⟨rfl, rfl, rfl⟩ hknown]
  constructor
  · rintro ⟨-, h⟩
    exact (h hcontrol).2
  · intro h
    exact ⟨lt_of_le_of_lt h (by decide), fun _ => ⟨rfl, h⟩⟩

theorem validFrame_encodePing_iff : ValidFrame (encodePing data) ↔ data.length ≤ 125 :=
  validFrame_control_iff (by decide) (by decide) data

theorem validFrame_encodePong_iff : ValidFrame (encodePong data) ↔ data.length ≤ 125 :=
  validFrame_control_iff (by decide) (by decide) data

theorem validFrame_encodeClose_iff (code : UInt16) (reason : Bytes) :
    ValidFrame (encodeClose code reason) ↔ reason.length ≤ 123 := by
  unfold encodeClose
  rw [validFrame_control_iff (by decide) (by decide), length_append, length_bigEndian]
  omega

/-! ## The session -/

section Session

variable {σ : Type*}

def SentValid (before after : Conn σ) : Prop :=
  ∀ frame, Sent.frame frame ∈ after.sent.drop before.sent.length → ValidFrame frame

theorem sentValid_iff {before after : Conn σ} {sends : Prop} [Decidable sends] {frame : Bytes}
    (h : after.sent = before.sent ++ if sends then [.frame frame] else []) :
    SentValid before after ↔ (sends → ValidFrame frame) := by
  unfold SentValid
  rw [h, drop_left]
  split
  · rename_i hsends
    simp [hsends]
  · rename_i hsends
    simp [hsends]

theorem sent_pong (c : Conn σ) (data : Bytes) :
    (c.pong data).sent = c.sent ++
      if c.session.state_ = .Open ∧ c.session.connected = true then [.frame (encodePong data)]
      else [] := by
  unfold Conn.pong Conn.sendFrame Conn.send
  by_cases hopen : c.session.state_ = .Open
  · by_cases hup : c.session.connected = true <;> simp [hopen, hup]
  · simp [hopen]

theorem sent_close (c : Conn σ) (code : UInt16) (reason : Bytes) :
    (c.close code reason).sent = c.sent ++
      if (c.session.state_ ≠ .Closed ∧ c.session.state_ ≠ .Closing) ∧ c.session.connected = true
      then [.frame (encodeClose code reason)] else [] := by
  unfold Conn.close Conn.shutdown Conn.send Conn.setState
  by_cases hclosed : c.session.state_ = .Closed ∨ c.session.state_ = .Closing
  · rw [if_pos hclosed, if_neg (by tauto), append_nil]
  · rw [if_neg hclosed]
    by_cases hup : c.session.connected = true
    · simp only [hup, if_true]
      rw [if_pos (by tauto)]
    · simp [hup]

end Session

/-! ## The decoder -/

/-- The decoder takes only valid frames, and refuses an invalid header. -/
def DecodesRight (data : Bytes) : Prop :=
  (∀ frame consumed, decode data = .ok (.ok frame consumed) → ValidFrame (data.take consumed)) ∧
    (InvalidHeader data → decode data = .ok .error)

theorem validFrame_taken {data : Bytes} {consumed : Nat}
    (hdec : decode data = .ok (.ok frame consumed)) (hvalid : ¬InvalidHeader data) :
    ValidFrame (data.take consumed) := by
  obtain ⟨h, hh, -, hin, hconsumed, -⟩ := (decode_ok_iff _ _ _).mp hdec
  obtain ⟨b0, b1, rest, hdata, hend, rfl⟩ := decodeHeader_some hh
  change headerEnd b1 + _ ≤ _ at hin
  change consumed = headerEnd b1 + _ at hconsumed
  have htwo := two_le_headerEnd b1
  have hlen : (data.take consumed).length = consumed := by
    rw [length_take]
    omega
  have hheader : headerOf b0 b1 data = headerOf b0 b1 (data.take consumed) := by
    have hfront : headerEnd b1 ≤ (data.take consumed).length := by omega
    have := headerOf_append b0 b1 hfront (data.drop consumed)
    rwa [take_append_drop] at this
  have hok : ValidHeader b0 b1 data := by
    by_contra hbad
    exact hvalid ⟨b0, b1, rest, hdata, hend, hbad⟩
  refine ⟨b0, b1, rest.take (consumed - 2), ?_, by omega, ?_, ?_⟩
  · rw [hdata, show consumed = consumed - 2 + 2 by omega]
    rfl
  · obtain ⟨h1, h2, h3, h4, h5⟩ := hok
    rw [hheader] at h1 h2 h3 h4 h5
    exact ⟨h1, h2, h3, h4, h5⟩
  · rw [← hheader, hlen]
    exact hconsumed

theorem decodesRight_iff : DecodesRight data ↔ ¬InvalidHeader data := by
  constructor
  · rintro ⟨-, herror⟩ hbad
    exact decode_ne_error data (herror hbad)
  · intro hgood
    exact ⟨fun frame consumed hdec => validFrame_taken hdec hgood, fun hbad => absurd hbad hgood⟩

/-! ## Both sides -/

/-- Frames stay inside the grammar exactly as long as the data of a ping or pong has at
most 125 bytes, the reason of a close at most 123, and the decoder sees no invalid
header. -/
theorem frames_in_grammar_iff {σ : Type*} :
    (∀ t, ValidFrame (encodeText t) ↔ t.length < 2 ^ 63) ∧
      (∀ data, ValidFrame (encodeBinary data) ↔ data.length < 2 ^ 63) ∧
      (∀ data, ValidFrame (encodePing data) ↔ data.length ≤ 125) ∧
      (∀ data, ValidFrame (encodePong data) ↔ data.length ≤ 125) ∧
      (∀ code reason, ValidFrame (encodeClose code reason) ↔ reason.length ≤ 123) ∧
      (∀ (c : Conn σ) data, SentValid c (c.pong data) ↔
        (c.session.state_ = .Open ∧ c.session.connected = true → data.length ≤ 125)) ∧
      (∀ (c : Conn σ) code reason, SentValid c (c.close code reason) ↔
        ((c.session.state_ ≠ .Closed ∧ c.session.state_ ≠ .Closing) ∧ c.session.connected = true →
          reason.length ≤ 123)) ∧
      (∀ data, DecodesRight data ↔ ¬InvalidHeader data) := by
  refine ⟨validFrame_encodeText_iff, validFrame_encodeBinary_iff, validFrame_encodePing_iff,
    validFrame_encodePong_iff, validFrame_encodeClose_iff, ?_, ?_, decodesRight_iff⟩
  · intro c data
    rw [sentValid_iff (sent_pong c data), validFrame_encodePong_iff]
  · intro c code reason
    rw [sentValid_iff (sent_close c code reason), validFrame_encodeClose_iff]

/-- A ping of 126 bytes, a close reason of 124, and a reserved opcode that the decoder
takes. -/
theorem frames_leave_grammar :
    ¬ValidFrame (encodePing (replicate 126 0)) ∧
      ¬ValidFrame (encodeClose 1000 (replicate 124 97)) ∧
      ¬DecodesRight [0x83, 0x00] := by
  refine ⟨?_, ?_, ?_⟩
  · rw [validFrame_encodePing_iff, length_replicate]
    decide
  · rw [validFrame_encodeClose_iff, length_replicate]
    decide
  · rw [decodesRight_iff, not_not]
    refine ⟨0x83, 0x00, [], rfl, by decide, ?_⟩
    intro hvalid
    have := hvalid.opcode
    revert this
    decide

end mymuduo.websocket_frame
