-- The WebSocket frame codec (src/websocket/WebSocketFrame.h): the header with
-- its three length forms, the mask, and the decoder that runs again on a longer
-- prefix until a frame is complete. The declared length is a `uint64_t` that
-- the peer chooses, so its sum with the header size can wrap.
import Mymuduo.Bytes
import Mymuduo.Vectors

open List bytes vectors words

namespace mymuduo.websocket_frame

/-! ## Frames -/

/-- An `enum class` over `uint8_t`. The decoder casts every 4-bit value to it. -/
structure WsOpcode where
  value : UInt8
  deriving DecidableEq, Repr

namespace WsOpcode

def Continuation : WsOpcode := ⟨0x0⟩
def Text : WsOpcode := ⟨0x1⟩
def Binary : WsOpcode := ⟨0x2⟩
def Close : WsOpcode := ⟨0x8⟩
def Ping : WsOpcode := ⟨0x9⟩
def Pong : WsOpcode := ⟨0xA⟩

end WsOpcode

structure MaskingKey where
  k0 : UInt8
  k1 : UInt8
  k2 : UInt8
  k3 : UInt8
  deriving DecidableEq, Repr

def MaskingKey.zero : MaskingKey := ⟨0, 0, 0, 0⟩

def MaskingKey.bytes (key : MaskingKey) : Bytes := [key.k0, key.k1, key.k2, key.k3]

def MaskingKey.at (key : MaskingKey) : Nat → UInt8
  | 0 => key.k0
  | 1 => key.k1
  | 2 => key.k2
  | _ => key.k3

structure WebSocketFrame where
  fin : Bool := true
  rsv1 : UInt8 := 0
  rsv2 : UInt8 := 0
  rsv3 : UInt8 := 0
  opcode : WsOpcode := .Text
  mask : Bool := false
  maskingKey : MaskingKey := .zero
  payload : Bytes := []
  deriving DecidableEq, Repr

/-! ## The encoder -/

/-- The second byte, with the mask bit and the short length, and the extended
length behind it. -/
def lengthBytes (mask : Bool) (payloadLen : Nat) : Bytes :=
  let byte2 : UInt8 := if mask then 0x80 else 0x00
  if payloadLen ≤ 125 then [byte2 ||| UInt8.ofNat payloadLen]
  else if payloadLen ≤ 65535 then (byte2 ||| 126) :: bigEndian 2 payloadLen
  else (byte2 ||| 127) :: bigEndian 8 payloadLen

/-- What the frame has behind its first byte. `key` is what the random generator
gave, and goes out only with the mask bit. -/
def encodeAfterFirst (mask : Bool) (key : MaskingKey) (payload : Bytes) : Bytes :=
  lengthBytes mask payload.length ++
    if mask then key.bytes ++ payload.mapIdx (fun i x => x ^^^ key.at (i &&& 3)) else payload

def encodeRaw (opcode : WsOpcode) (payload : Bytes) (fin : Bool) (mask : Bool)
    (key : MaskingKey) : Bytes :=
  let byte1 : UInt8 := (if fin then (0x80 : UInt8) else 0x00) ||| (opcode.value &&& 0x0F)
  byte1 :: encodeAfterFirst mask key payload

/-- The first byte: FIN, the three RSV bits and the opcode. -/
def firstByte (fin : Bool) (rsv1 rsv2 rsv3 : UInt8) (opcode : WsOpcode) : UInt8 :=
  (if fin then (0x80 : UInt8) else 0x00) ||| ((rsv1 &&& 0x01) <<< 6) |||
    ((rsv2 &&& 0x01) <<< 5) ||| ((rsv3 &&& 0x01) <<< 4) ||| (opcode.value &&& 0x0F)

def encode (frame : WebSocketFrame) (mask : Bool) (key : MaskingKey) : Bytes :=
  firstByte frame.fin frame.rsv1 frame.rsv2 frame.rsv3 frame.opcode ::
    encodeAfterFirst mask key frame.payload

def encodeText (text : Bytes) : Bytes := encodeRaw .Text text true false .zero

def encodeBinary (data : Bytes) : Bytes := encodeRaw .Binary data true false .zero

def encodeClose (code : UInt16) (reason : Bytes) : Bytes :=
  encode { opcode := .Close, payload := bigEndian 2 code.toNat ++ reason } false .zero

def encodePong (pingData : Bytes) : Bytes :=
  encode { opcode := .Pong, payload := pingData } false .zero

def encodePing (data : Bytes) : Bytes :=
  encode { opcode := .Ping, payload := data } false .zero

/-! ## The decoder -/

inductive DecodeResult
  | ok (frame : WebSocketFrame) (consumed : Nat)
  | incomplete
  | error
  deriving DecidableEq, Repr

/-- What the decoder knows when it reaches its completeness check. -/
structure Header where
  fin : Bool
  rsv1 : UInt8
  rsv2 : UInt8
  rsv3 : UInt8
  opcode : WsOpcode
  mask : Bool
  maskingKey : MaskingKey
  payloadLen : Nat
  headerSize : Nat
  deriving DecidableEq, Repr

/-- `for (i = 2; i < 10; ++i) payloadLen = (payloadLen << 8) | data[i]` -/
def readLength (data : Bytes) (i : Nat) : Nat → Nat → Except Fault Nat
  | 0, payloadLen => .ok payloadLen
  | n + 1, payloadLen => do
    let b ← readAt data i
    readLength data (i + 1) n (pushByte payloadLen b)

/-- The payload length and the header size so far, from the 7-bit length. `none`
is `Incomplete`. -/
def decodeLength (data : Bytes) (len7 : Nat) : Except Fault (Option (Nat × Nat)) :=
  if len7 = 126 then
    if data.length < 4 then return none
    else do
      let b2 ← readAt data 2
      let b3 ← readAt data 3
      return some ((b2.toNat <<< 8) ||| b3.toNat, 4)
  else if len7 = 127 then
    if data.length < 10 then return none
    else do
      let payloadLen ← readLength data 2 8 0
      return some (payloadLen, 10)
  else return some (len7, 2)

def readKey (data : Bytes) (i : Nat) : Except Fault MaskingKey := do
  return ⟨← readAt data i, ← readAt data (i + 1), ← readAt data (i + 2), ← readAt data (i + 3)⟩

/-- The decoder up to its completeness check. `none` is `Incomplete`. -/
def decodeHeader (data : Bytes) : Except Fault (Option Header) :=
  if data.length < 2 then return none
  else do
    let b0 ← readAt data 0
    let b1 ← readAt data 1
    let fin := b0 &&& 0x80 != 0
    let rsv1 := (b0 >>> 6) &&& 0x01
    let rsv2 := (b0 >>> 5) &&& 0x01
    let rsv3 := (b0 >>> 4) &&& 0x01
    let opcode : WsOpcode := ⟨b0 &&& 0x0F⟩
    let mask := b1 &&& 0x80 != 0
    match ← decodeLength data (b1 &&& 0x7F).toNat with
    | none => return none
    | some (payloadLen, headerSize) =>
      if mask then
        if data.length < add64 headerSize 4 then return none
        else do
          let key ← readKey data headerSize
          return some ⟨fin, rsv1, rsv2, rsv3, opcode, mask, key, payloadLen, add64 headerSize 4⟩
      else
        return some ⟨fin, rsv1, rsv2, rsv3, opcode, mask, .zero, payloadLen, headerSize⟩

/-- `len < headerSize + payloadLen`, in 64-bit words -/
def Header.pastEnd (h : Header) (len : Nat) : Bool := len < add64 h.headerSize h.payloadLen

/-- The decoder behind its completeness check: the payload is sized first. -/
def decodePayload (data : Bytes) (h : Header) : Except Fault DecodeResult := do
  let _ ← resize [] (0 : UInt8) h.payloadLen
  let raw ← readFrom data h.headerSize h.payloadLen
  let payload :=
    if h.mask then raw.mapIdx (fun i x => x ^^^ h.maskingKey.at (i % 4)) else raw
  return .ok ⟨h.fin, h.rsv1, h.rsv2, h.rsv3, h.opcode, h.mask, h.maskingKey, payload⟩
    (add64 h.headerSize h.payloadLen)

def decode (data : Bytes) : Except Fault DecodeResult := do
  match ← decodeHeader data with
  | none => return .incomplete
  | some h => if h.pastEnd data.length then return .incomplete else decodePayload data h

/-! ## The handshake key -/

def base64Chars : Bytes := text "ABCDEFGHIJKLMNOPQRSTUVWXYZabcdefghijklmnopqrstuvwxyz0123456789+/"

def shaDigestLength : Nat := 20

/-- One round of the Base64 loop: three bytes from `i` on, four characters. -/
def base64Round (hash : Bytes) (i : Nat) : Bytes :=
  let char (k : Nat) : UInt8 := base64Chars.getD (k &&& 0x3F) 0
  let n := ((hash.getD i 0).toNat <<< 16) |||
    (if i + 1 < shaDigestLength then (hash.getD (i + 1) 0).toNat <<< 8 else 0) |||
    (if i + 2 < shaDigestLength then (hash.getD (i + 2) 0).toNat else 0)
  [char (n >>> 18), char (n >>> 12), if i + 1 < shaDigestLength then char (n >>> 6) else 61,
    if i + 2 < shaDigestLength then char n else 61]

/-- `Sec-WebSocket-Accept` for a key, with the hash function as an argument. -/
def computeAcceptKey (sha1 : Bytes → Bytes) (clientKey : Bytes) : Bytes :=
  let hash := sha1 (clientKey ++ text "258EAFA5-E914-47DA-95CA-C5AB0DC85B11")
  [0, 3, 6, 9, 12, 15, 18].flatMap (base64Round hash)

/-! ## What the header says -/

def isMasked (b1 : UInt8) : Bool := b1 &&& 0x80 != 0

def shortLength (b1 : UInt8) : Nat := (b1 &&& 0x7F).toNat

/-- The header size without the masking key, from the 7-bit length. -/
def lengthEnd (len7 : Nat) : Nat := if len7 = 126 then 4 else if len7 = 127 then 10 else 2

/-- The header size that the second byte asks for. -/
def headerEnd (b1 : UInt8) : Nat :=
  lengthEnd (shortLength b1) + if isMasked b1 then 4 else 0

/-- The payload length that the header declares. -/
def declaredLength (len7 : Nat) (data : Bytes) : Nat :=
  if len7 = 126 then bigEndianValue 0 ((data.drop 2).take 2)
  else if len7 = 127 then bigEndianValue 0 ((data.drop 2).take 8)
  else len7

def keyAt (data : Bytes) (i : Nat) : MaskingKey :=
  ⟨data.getD i 0, data.getD (i + 1) 0, data.getD (i + 2) 0, data.getD (i + 3) 0⟩

/-- The header of a frame whose first two bytes are `b0` and `b1`. -/
def headerOf (b0 b1 : UInt8) (data : Bytes) : Header where
  fin := b0 &&& 0x80 != 0
  rsv1 := (b0 >>> 6) &&& 0x01
  rsv2 := (b0 >>> 5) &&& 0x01
  rsv3 := (b0 >>> 4) &&& 0x01
  opcode := ⟨b0 &&& 0x0F⟩
  mask := isMasked b1
  maskingKey := if isMasked b1 then keyAt data (lengthEnd (shortLength b1)) else .zero
  payloadLen := declaredLength (shortLength b1) data
  headerSize := headerEnd b1

theorem lengthEnd_le (len7 : Nat) : lengthEnd len7 ≤ 10 := by
  unfold lengthEnd
  split
  · omega
  · split <;> omega

theorem two_le_lengthEnd (len7 : Nat) : 2 ≤ lengthEnd len7 := by
  unfold lengthEnd
  split
  · omega
  · split <;> omega

theorem readLength_eq (data : Bytes) (i n acc : Nat) (h : i + n ≤ data.length) :
    readLength data i n acc = .ok (((data.drop i).take n).foldl pushByte acc) := by
  induction n generalizing i acc with
  | zero => simp [readLength]
  | succ n ih =>
    have hi : i < data.length := by omega
    unfold readLength
    rw [readAt_eq hi]
    dsimp only [bind, Except.bind]
    rw [ih (i + 1) _ (by omega), drop_eq_getElem_cons hi, take_succ_cons, foldl_cons]

theorem decodeLength_eq (data : Bytes) (len7 : Nat) (h : 2 ≤ data.length) :
    decodeLength data len7 = .ok (if data.length < lengthEnd len7 then none
      else some (declaredLength len7 data, lengthEnd len7)) := by
  unfold decodeLength declaredLength lengthEnd
  by_cases h126 : len7 = 126
  · simp only [if_pos h126]
    split
    · rfl
    · have htake : (data.drop 2).take 2 = [data[2], data[3]] := by
        rw [drop_eq_getElem_cons (by omega), drop_eq_getElem_cons (by omega)]
        rfl
      rw [readAt_eq (by omega), readAt_eq (by omega), htake]
      dsimp only [bind, Except.bind, pure, Except.pure]
      rw [shift_or_byte]
      simp [bigEndianValue]
  · simp only [if_neg h126]
    by_cases h127 : len7 = 127
    · simp only [if_pos h127]
      split
      · rfl
      · have htake : ((data.drop 2).take 8).length = 8 := by
          rw [length_take, length_drop]
          omega
        rw [readLength_eq data 2 8 0 (by omega), foldl_pushByte 0 _ (by rw [htake]; decide)]
        rfl
    · simp only [if_neg h127]
      rw [if_neg (by omega)]
      rfl

theorem readKey_eq (data : Bytes) (i : Nat) (h : i + 4 ≤ data.length) :
    readKey data i = .ok (keyAt data i) := by
  unfold readKey keyAt
  simp only [readAt_eq (v := data) (i := i) (by omega),
    readAt_eq (v := data) (i := i + 1) (by omega),
    readAt_eq (v := data) (i := i + 2) (by omega), readAt_eq (v := data) (i := i + 3) (by omega),
    getD_eq_getElem?_getD]
  simp [bind, Except.bind, pure, Except.pure,
    show i < data.length by omega, show i + 1 < data.length by omega,
    show i + 2 < data.length by omega, show i + 3 < data.length by omega]

/-- The header decoder reads no byte outside the input, and stops early exactly
when the input is shorter than the header. -/
theorem decodeHeader_eq (b0 b1 : UInt8) (rest : Bytes) :
    decodeHeader (b0 :: b1 :: rest) =
      .ok (if (b0 :: b1 :: rest).length < headerEnd b1 then none
        else some (headerOf b0 b1 (b0 :: b1 :: rest))) := by
  have hlen : 2 ≤ (b0 :: b1 :: rest).length := by simp
  unfold decodeHeader headerOf headerEnd
  rw [if_neg (by omega)]
  generalize hdata : b0 :: b1 :: rest = data at hlen ⊢
  have h0 : readAt data 0 = .ok b0 := by rw [← hdata]; rfl
  have h1 : readAt data 1 = .ok b1 := by rw [← hdata]; rfl
  rw [h0]
  dsimp only [bind, Except.bind]
  rw [h1]
  dsimp only
  rw [decodeLength_eq data _ hlen]
  change _ = Except.ok (if data.length < lengthEnd (shortLength b1) + _ then _ else _)
  have hend := lengthEnd_le (shortLength b1)
  change (match (if data.length < lengthEnd (shortLength b1) then none
    else some (declaredLength (shortLength b1) data, lengthEnd (shortLength b1)) :
      Option (Nat × Nat)) with
    | none => _
    | some (payloadLen, headerSize) => _) = _
  by_cases hshort : data.length < lengthEnd (shortLength b1)
  · rw [if_pos hshort, if_pos (by omega)]
    rfl
  · rw [if_neg hshort]
    change (if isMasked b1 then _ else _) = _
    by_cases hm : isMasked b1 = true
    · simp only [if_pos hm]
      rw [add64_eq (by omega)]
      by_cases hk : data.length < lengthEnd (shortLength b1) + 4
      · rw [if_pos hk, if_pos hk]
        rfl
      · rw [if_neg hk, if_neg hk, readKey_eq data _ (by omega)]
        rfl
    · simp only [if_neg hm]
      rw [if_neg (by omega)]
      rfl

/-! ## The round trip -/

/-- A frame of the wire format: RSV bits of one bit, an opcode of four, and a
payload whose length fits. -/
structure WebSocketFrame.Encodable (frame : WebSocketFrame) : Prop where
  rsv1 : frame.rsv1 < 2
  rsv2 : frame.rsv2 < 2
  rsv3 : frame.rsv3 < 2
  opcode : frame.opcode.value < 16
  payload : frame.payload.length < 2 ^ 63

def shortForm (n : Nat) : Nat := if n ≤ 125 then n else if n ≤ 65535 then 126 else 127

def secondByte (mask : Bool) (n : Nat) : UInt8 :=
  (if mask then (0x80 : UInt8) else 0x00) ||| UInt8.ofNat (shortForm n)

def extendedLength (n : Nat) : Bytes :=
  if n ≤ 125 then [] else if n ≤ 65535 then bigEndian 2 n else bigEndian 8 n

variable (mask : Bool)

theorem lengthBytes_eq (n : Nat) : lengthBytes mask n = secondByte mask n :: extendedLength n := by
  unfold lengthBytes secondByte shortForm extendedLength
  dsimp only
  split
  · rfl
  · split <;> rfl

theorem shortForm_lt (n : Nat) : shortForm n < 128 := by
  unfold shortForm
  split
  · omega
  · split <;> omega

theorem secondByte_fields (n : Nat) :
    isMasked (secondByte mask n) = mask ∧ shortLength (secondByte mask n) = shortForm n := by
  have hall : ∀ (mask : Bool) (k : Fin 128),
      isMasked ((if mask then (0x80 : UInt8) else 0x00) ||| UInt8.ofNat k.val) = mask ∧
        shortLength ((if mask then (0x80 : UInt8) else 0x00) ||| UInt8.ofNat k.val) = k.val := by
    decide +kernel
  exact hall mask ⟨shortForm n, shortForm_lt n⟩

theorem firstByte_fields (fin : Bool) {rsv1 rsv2 rsv3 : UInt8} {opcode : WsOpcode}
    (h1 : rsv1 < 2) (h2 : rsv2 < 2) (h3 : rsv3 < 2) (ho : opcode.value < 16) :
    let b0 := firstByte fin rsv1 rsv2 rsv3 opcode
    (b0 &&& 0x80 != 0) = fin ∧ (b0 >>> 6) &&& 0x01 = rsv1 ∧ (b0 >>> 5) &&& 0x01 = rsv2 ∧
      (b0 >>> 4) &&& 0x01 = rsv3 ∧ (⟨b0 &&& 0x0F⟩ : WsOpcode) = opcode := by
  have hall : ∀ (fin : Bool) (a b c : Fin 2) (o : Fin 16),
      let b0 := firstByte fin (UInt8.ofNat a) (UInt8.ofNat b) (UInt8.ofNat c) ⟨UInt8.ofNat o⟩
      (b0 &&& 0x80 != 0) = fin ∧ (b0 >>> 6) &&& 0x01 = UInt8.ofNat a ∧
        (b0 >>> 5) &&& 0x01 = UInt8.ofNat b ∧ (b0 >>> 4) &&& 0x01 = UInt8.ofNat c ∧
        (⟨b0 &&& 0x0F⟩ : WsOpcode) = ⟨UInt8.ofNat o⟩ := by
    decide +kernel
  have hbits := hall fin ⟨rsv1.toNat, h1⟩ ⟨rsv2.toNat, h2⟩ ⟨rsv3.toNat, h3⟩ ⟨opcode.value.toNat, ho⟩
  simpa only [UInt8.ofNat_toNat] using hbits

theorem length_extendedLength (n : Nat) :
    (extendedLength n).length + 2 = lengthEnd (shortForm n) := by
  unfold extendedLength shortForm lengthEnd
  by_cases h1 : n ≤ 125
  · simp only [if_pos h1]
    rw [if_neg (by omega), if_neg (by omega)]
    rfl
  · by_cases h2 : n ≤ 65535 <;> simp [h1, h2]

theorem declaredLength_encoded {n : Nat} (h : n < 2 ^ 63) (b0 b1 : UInt8) (rest : Bytes) :
    declaredLength (shortForm n) (b0 :: b1 :: (extendedLength n ++ rest)) = n := by
  unfold declaredLength shortForm extendedLength
  by_cases h1 : n ≤ 125
  · simp only [if_pos h1]
    rw [if_neg (by omega), if_neg (by omega)]
  · by_cases h2 : n ≤ 65535
    · simp only [if_neg h1, if_pos h2, if_pos, drop_succ_cons, drop_zero]
      rw [take_left' (length_bigEndian 2 n), bigEndianValue_of_lt (by omega)]
    · simp only [if_neg h1, if_neg h2, drop_succ_cons, drop_zero]
      rw [if_neg (by omega), if_pos trivial, take_left' (length_bigEndian 8 n),
        bigEndianValue_of_lt (by omega)]

theorem keyAt_append (pre : Bytes) (key : MaskingKey) (rest : Bytes) {i : Nat}
    (h : i = pre.length) : keyAt (pre ++ (key.bytes ++ rest)) i = key := by
  subst h
  unfold keyAt MaskingKey.bytes
  simp [getD_eq_getElem?_getD]

variable (key : MaskingKey)

theorem unmask_mask (payload : Bytes) :
    (payload.mapIdx (fun i x => x ^^^ key.at (i &&& 3))).mapIdx (fun i x => x ^^^ key.at (i % 4)) =
      payload := by
  have hand : ∀ i : Nat, i &&& 3 = i % 4 := fun i => Nat.and_two_pow_sub_one_eq_mod i 2
  rw [mapIdx_mapIdx]
  simp only [hand, Function.comp_def, UInt8.xor_assoc, UInt8.xor_self, UInt8.xor_zero]
  simp [mapIdx_eq_zipIdx_map]

/-- What stands between the extended length and the payload. -/
def keyBytes (mask : Bool) (key : MaskingKey) : Bytes := if mask then key.bytes else []

def wirePayload (mask : Bool) (key : MaskingKey) (payload : Bytes) : Bytes :=
  if mask then payload.mapIdx (fun i x => x ^^^ key.at (i &&& 3)) else payload

variable (frame : WebSocketFrame)

theorem encode_eq (mask : Bool) (key : MaskingKey) :
    encode frame mask key =
      firstByte frame.fin frame.rsv1 frame.rsv2 frame.rsv3 frame.opcode ::
        secondByte mask frame.payload.length :: (extendedLength frame.payload.length ++
          (keyBytes mask key ++ wirePayload mask key frame.payload)) := by
  unfold encode encodeAfterFirst keyBytes wirePayload
  rw [lengthBytes_eq]
  cases mask <;> simp

theorem length_wirePayload (payload : Bytes) :
    (wirePayload mask key payload).length = payload.length := by
  unfold wirePayload
  cases mask <;> simp

theorem headerEnd_secondByte (n : Nat) :
    headerEnd (secondByte mask n) = 2 + (extendedLength n).length + (keyBytes mask key).length := by
  obtain ⟨hm, hs⟩ := secondByte_fields mask n
  have hl := length_extendedLength n
  unfold headerEnd keyBytes
  rw [hm, hs, ← hl]
  cases mask
  · simp [Nat.add_comm]
  · simp [MaskingKey.bytes]
    omega

def headerBytes (frame : WebSocketFrame) (mask : Bool) (key : MaskingKey) : Bytes :=
  firstByte frame.fin frame.rsv1 frame.rsv2 frame.rsv3 frame.opcode ::
    secondByte mask frame.payload.length ::
      (extendedLength frame.payload.length ++ keyBytes mask key)

theorem encode_eq_append (mask : Bool) (key : MaskingKey) :
    encode frame mask key = headerBytes frame mask key ++ wirePayload mask key frame.payload := by
  rw [encode_eq]
  simp [headerBytes]

theorem length_headerBytes (mask : Bool) (key : MaskingKey) :
    (headerBytes frame mask key).length = headerEnd (secondByte mask frame.payload.length) := by
  rw [headerEnd_secondByte mask key]
  simp only [headerBytes, length_cons, length_append]
  omega

theorem headerEnd_le (b1 : UInt8) : headerEnd b1 ≤ 14 := by
  have := lengthEnd_le (shortLength b1)
  unfold headerEnd
  split <;> omega

variable {frame : WebSocketFrame}

theorem decodeHeader_headerBytes (h : frame.Encodable) (mask : Bool) (key : MaskingKey)
    (rest : Bytes) :
    decodeHeader (headerBytes frame mask key ++ rest) =
      .ok (some ⟨frame.fin, frame.rsv1, frame.rsv2, frame.rsv3, frame.opcode, mask,
        if mask then key else .zero, frame.payload.length,
        (headerBytes frame mask key).length⟩) := by
  have hlen := length_headerBytes frame mask key
  obtain ⟨hm, hs⟩ := secondByte_fields mask frame.payload.length
  obtain ⟨hf, h1, h2, h3, ho⟩ := firstByte_fields frame.fin h.rsv1 h.rsv2 h.rsv3 h.opcode
  have hdecl : declaredLength (shortLength (secondByte mask frame.payload.length))
      (headerBytes frame mask key ++ rest) = frame.payload.length := by
    rw [hs]
    simp only [headerBytes, cons_append, append_assoc]
    exact declaredLength_encoded h.payload _ _ _
  have hkey : (if isMasked (secondByte mask frame.payload.length) then
      keyAt (headerBytes frame mask key ++ rest)
        (lengthEnd (shortLength (secondByte mask frame.payload.length))) else .zero) =
      if mask then key else .zero := by
    rw [hm, hs]
    cases mask
    · rfl
    · simp only [if_true, headerBytes, keyBytes, cons_append, append_assoc]
      rw [← cons_append, ← cons_append]
      apply keyAt_append
      rw [← length_extendedLength]
      simp
  have hshape : headerBytes frame mask key ++ rest =
      firstByte frame.fin frame.rsv1 frame.rsv2 frame.rsv3 frame.opcode ::
        secondByte mask frame.payload.length ::
          ((extendedLength frame.payload.length ++ keyBytes mask key) ++ rest) := rfl
  rw [hshape, decodeHeader_eq, ← hshape, if_neg (by rw [length_append]; omega)]
  unfold headerOf
  rw [hdecl, hkey, hf, h1, h2, h3, ho, hm, hlen]

variable {h : Header}

theorem pastEnd_iff (hsum : h.headerSize + h.payloadLen < 2 ^ 64) (len : Nat) :
    h.pastEnd len = true ↔ len < h.headerSize + h.payloadLen := by
  unfold Header.pastEnd
  rw [add64_eq hsum, decide_eq_true_eq]

variable {data : Bytes}

theorem decode_of_header (hh : decodeHeader data = .ok (some h)) :
    decode data = if h.pastEnd data.length then .ok .incomplete else decodePayload data h := by
  unfold decode
  rw [hh]
  rfl

theorem pastEnd_headerBytes (h : frame.Encodable) (mask : Bool) (key : MaskingKey)
    {header : Header} (hlen : header.payloadLen = frame.payload.length)
    (hsize : header.headerSize = (headerBytes frame mask key).length) (rest : Bytes) :
    header.pastEnd (headerBytes frame mask key ++ rest).length = true ↔
      rest.length < frame.payload.length := by
  have hn := h.payload
  have hend := headerEnd_le (secondByte mask frame.payload.length)
  have hbytes := length_headerBytes frame mask key
  rw [pastEnd_iff (by omega), length_append]
  omega

theorem decode_short_payload (h : frame.Encodable) (mask : Bool) (key : MaskingKey) {rest : Bytes}
    (hrest : rest.length < frame.payload.length) :
    decode (headerBytes frame mask key ++ rest) = .ok .incomplete := by
  rw [decode_of_header (decodeHeader_headerBytes h mask key rest),
    if_pos ((pastEnd_headerBytes h mask key rfl rfl rest).mpr hrest)]

theorem decode_whole_payload (h : frame.Encodable) (mask : Bool) (key : MaskingKey) {wire : Bytes}
    (hwire : wire.length = frame.payload.length) (t : Bytes) :
    decode (headerBytes frame mask key ++ (wire ++ t)) =
      .ok (.ok ⟨frame.fin, frame.rsv1, frame.rsv2, frame.rsv3, frame.opcode, mask,
          if mask then key else .zero,
          if mask then wire.mapIdx (fun i x => x ^^^ key.at (i % 4)) else wire⟩
        ((headerBytes frame mask key).length + frame.payload.length)) := by
  have hn := h.payload
  have hend := headerEnd_le (secondByte mask frame.payload.length)
  have hlen := length_headerBytes frame mask key
  have hfull : ¬(wire ++ t).length < frame.payload.length := by
    rw [length_append]
    omega
  rw [decode_of_header (decodeHeader_headerBytes h mask key (wire ++ t)),
    if_neg (mt (pastEnd_headerBytes h mask key rfl rfl (wire ++ t)).mp hfull)]
  unfold decodePayload resize
  dsimp only
  rw [if_neg (by unfold maxSize; omega),
    readFrom_eq (by simp only [length_append]; omega), drop_left,
    take_left' hwire, add64_eq (by omega)]
  cases mask <;> rfl

theorem decode_short_header {p : Bytes} (hp : p <+: headerBytes frame mask key)
    (hlt : p.length < (headerBytes frame mask key).length) : decode p = .ok .incomplete := by
  rw [length_headerBytes] at hlt
  match p, hp, hlt with
  | [], _, _ | [_], _, _ => rfl
  | b0 :: b1 :: rest, hp, hlt =>
    -- the second byte is there, and it asks for more bytes
    have hb1 : b1 = secondByte mask frame.payload.length := by
      unfold headerBytes at hp
      rw [cons_prefix_cons, cons_prefix_cons] at hp
      exact hp.2.1
    subst hb1
    unfold decode
    rw [decodeHeader_eq, if_pos hlt]
    rfl

theorem decode_encoded (h : frame.Encodable) (mask : Bool) (key : MaskingKey) (t : Bytes) :
    decode (encode frame mask key ++ t) =
      .ok (.ok { frame with mask := mask, maskingKey := if mask then key else .zero }
        (encode frame mask key).length) := by
  have hwire := length_wirePayload mask key frame.payload
  rw [encode_eq_append, append_assoc, decode_whole_payload h mask key hwire t, length_append, hwire]
  unfold wirePayload
  cases mask
  · rfl
  · simp only [if_true, unmask_mask]

theorem decode_part (h : frame.Encodable) {mask : Bool} {key : MaskingKey} {p : Bytes}
    (hp : p <+: encode frame mask key) (hne : p ≠ encode frame mask key) :
    decode p = .ok .incomplete := by
  have hwire := length_wirePayload mask key frame.payload
  rw [encode_eq_append] at hp hne
  have htake := prefix_iff_eq_take.mp hp
  by_cases hlt : p.length < (headerBytes frame mask key).length
  · apply decode_short_header mask key _ hlt
    rw [htake, take_append_of_le_length (by omega)]
    exact List.take_prefix _ _
  · have hshort :
        p.length < (headerBytes frame mask key ++ wirePayload mask key frame.payload).length := by
      rcases Nat.lt_or_ge p.length
        (headerBytes frame mask key ++ wirePayload mask key frame.payload).length with hl | hl
      · exact hl
      · exact absurd (List.IsPrefix.eq_of_length_le hp hl) hne
    rw [length_append] at hshort
    rw [htake, take_append, take_of_length_le (by omega)]
    apply decode_short_payload h
    rw [length_take]
    omega

/-- A frame decodes to itself, with or without a mask and whatever follows it, and
no proper prefix of it decodes to anything. -/
theorem decode_encode (frame : WebSocketFrame) (h : frame.Encodable) (mask : Bool)
    (key : MaskingKey) (t : Bytes) :
    decode (encode frame mask key ++ t) =
        .ok (.ok { frame with mask := mask, maskingKey := if mask then key else .zero }
          (encode frame mask key).length) ∧
      ∀ p, p <+: encode frame mask key → p ≠ encode frame mask key →
        decode p = .ok .incomplete :=
  ⟨decode_encoded h mask key t, fun _ hp hne => decode_part h hp hne⟩

/-- A masked text frame with bytes of the next frame behind it. -/
theorem decode_encode_masked_hi :
    decode (encode { payload := [72, 105] } true ⟨1, 2, 3, 4⟩ ++ [0x81]) =
      .ok (.ok { mask := true, maskingKey := ⟨1, 2, 3, 4⟩, payload := [72, 105] } 8) :=
  (decode_encode { payload := [72, 105] }
    ⟨by decide, by decide, by decide, by decide, by decide⟩ true ⟨1, 2, 3, 4⟩ [0x81]).1

/-! ## Staying inside the input -/

/-- Past its completeness check the decoder has the whole frame in its input. It
reads nothing beyond it and sizes no payload longer than it, and it consumes the
header and the payload. -/
structure StaysInside (data : Bytes) : Prop where
  complete : ∀ h, decodeHeader data = .ok (some h) → h.pastEnd data.length = false →
    h.headerSize + h.payloadLen ≤ data.length
  fault : ∀ f, decode data = .error f → f = .lengthError ∧ maxSize < data.length
  consumed : ∀ frame consumed, decode data = .ok (.ok frame consumed) →
    2 ≤ consumed ∧ consumed ≤ data.length ∧
      ∃ h, decodeHeader data = .ok (some h) ∧ consumed = h.headerSize + frame.payload.length

/-- The header is there and has the 64-bit length form, and the declared length
with the size of the header is `2 ^ 64` or more. -/
def LengthWraps (data : Bytes) : Prop :=
  match data with
  | b0 :: b1 :: rest =>
    shortLength b1 = 127 ∧ headerEnd b1 ≤ (b0 :: b1 :: rest).length ∧
      2 ^ 64 ≤ headerEnd b1 + bigEndianValue 0 (rest.take 8)
  | _ => False

theorem decodeHeader_some (hh : decodeHeader data = .ok (some h)) :
    ∃ b0 b1 rest, data = b0 :: b1 :: rest ∧ headerEnd b1 ≤ data.length ∧
      h = headerOf b0 b1 data := by
  match data, hh with
  | [], hh | [_], hh => cases hh
  | b0 :: b1 :: rest, hh =>
    rw [decodeHeader_eq] at hh
    by_cases hlen : (b0 :: b1 :: rest).length < headerEnd b1
    · rw [if_pos hlen] at hh
      cases hh
    · rw [if_neg hlen] at hh
      cases hh
      exact ⟨b0, b1, rest, rfl, not_lt.mp hlen, rfl⟩

theorem two_le_headerEnd (b1 : UInt8) : 2 ≤ headerEnd b1 := by
  have := two_le_lengthEnd (shortLength b1)
  unfold headerEnd
  omega

/-- Only the 64-bit length form can declare so much that the sum wraps. -/
theorem sum_lt_of_not_wraps (hh : decodeHeader data = .ok (some h)) (hw : ¬LengthWraps data) :
    h.headerSize + h.payloadLen < 2 ^ 64 := by
  obtain ⟨b0, b1, rest, rfl, hlen, rfl⟩ := decodeHeader_some hh
  have hend := headerEnd_le b1
  dsimp only [headerOf]
  by_cases h127 : shortLength b1 = 127
  · have hsum : ¬2 ^ 64 ≤ headerEnd b1 + bigEndianValue 0 (rest.take 8) := by
      intro hsum
      exact hw ⟨h127, hlen, hsum⟩
    unfold declaredLength
    rw [if_neg (by omega), if_pos h127]
    simpa using hsum
  · have hsmall : declaredLength (shortLength b1) (b0 :: b1 :: rest) < 2 ^ 16 := by
      unfold declaredLength
      split
      · refine lt_of_lt_of_le (bigEndianValue_lt 0 _) ?_
        have htake := length_take_le 2 ((b0 :: b1 :: rest).drop 2)
        calc (0 + 1) * 256 ^ (((b0 :: b1 :: rest).drop 2).take 2).length
            ≤ (0 + 1) * 256 ^ 2 := Nat.mul_le_mul_left _ (Nat.pow_le_pow_right (by omega) htake)
          _ ≤ 2 ^ 16 := by decide
      · exact lt_trans (b1 &&& 0x7F).toNat_lt (by decide)
    omega

theorem decode_of_no_header (hh : ∀ h, decodeHeader data ≠ .ok (some h)) :
    decode data = .ok .incomplete := by
  match data, hh with
  | [], _ | [_], _ => rfl
  | b0 :: b1 :: rest, hh =>
    unfold decode
    rw [decodeHeader_eq] at hh ⊢
    by_cases hlen : (b0 :: b1 :: rest).length < headerEnd b1
    · rw [if_pos hlen]
      rfl
    · rw [if_neg hlen] at hh
      exact absurd rfl (hh _)

theorem decodePayload_inside (hin : h.headerSize + h.payloadLen ≤ data.length)
    (hlen : data.length < 2 ^ 64) :
    (∃ frame, decodePayload data h = .ok (.ok frame (h.headerSize + h.payloadLen)) ∧
        frame.payload.length = h.payloadLen) ∨
      decodePayload data h = .error .lengthError ∧ maxSize < h.payloadLen := by
  unfold decodePayload resize
  by_cases hmax : maxSize < h.payloadLen
  · right
    rw [if_pos hmax]
    exact ⟨rfl, hmax⟩
  · left
    rw [if_neg hmax, readFrom_eq hin, add64_eq (by omega)]
    refine ⟨_, rfl, ?_⟩
    split <;> simp only [length_mapIdx, length_take, length_drop] <;> omega

theorem staysInside_of_incomplete
    (hin : ∀ h, decodeHeader data = .ok (some h) → h.pastEnd data.length = false →
      h.headerSize + h.payloadLen ≤ data.length)
    (hdec : decode data = .ok .incomplete) : StaysInside data := by
  refine ⟨hin, ?_, ?_⟩
  · intro f hf
    rw [hdec] at hf
    cases hf
  · intro frame consumed hok
    rw [hdec] at hok
    cases hok

theorem staysInside_of_not_wraps (hlen : data.length < 2 ^ 64) (hw : ¬LengthWraps data) :
    StaysInside data := by
  have hin : ∀ h, decodeHeader data = .ok (some h) → h.pastEnd data.length = false →
      h.headerSize + h.payloadLen ≤ data.length := by
    intro h hh hpast
    by_contra hlt
    rw [(pastEnd_iff (sum_lt_of_not_wraps hh hw) _).mpr (by omega)] at hpast
    cases hpast
  by_cases hh : ∃ h, decodeHeader data = .ok (some h)
  · obtain ⟨h, hh⟩ := hh
    have hdec := decode_of_header hh
    by_cases hpast : h.pastEnd data.length = true
    · rw [if_pos hpast] at hdec
      exact staysInside_of_incomplete hin hdec
    · rw [if_neg hpast] at hdec
      have hsum := hin h hh (by simpa using hpast)
      obtain ⟨b0, b1, rest, hdata, -, hheader⟩ := decodeHeader_some hh
      have htwo : 2 ≤ h.headerSize := by
        rw [hheader]
        exact two_le_headerEnd b1
      rcases decodePayload_inside hsum hlen with ⟨frame, heq, hpay⟩ | ⟨heq, hmax⟩
      · refine ⟨hin, ?_, ?_⟩
        · intro f hf
          rw [hdec, heq] at hf
          cases hf
        · intro frame' consumed hok
          rw [hdec, heq] at hok
          cases hok
          exact ⟨by omega, hsum, h, hh, by omega⟩
      · refine ⟨hin, ?_, ?_⟩
        · intro f hf
          rw [hdec, heq] at hf
          cases hf
          exact ⟨rfl, by omega⟩
        · intro frame consumed hok
          rw [hdec, heq] at hok
          cases hok
  · exact staysInside_of_incomplete hin (decode_of_no_header (fun h hc => hh ⟨h, hc⟩))

/-- The decoder stays inside its input exactly when the declared length does not
wrap around with the size of the header. -/
theorem decode_stays_inside_iff_no_wrap (data : Bytes) (hlen : data.length < 2 ^ 64) :
    StaysInside data ↔ ¬LengthWraps data := by
  constructor
  · intro hin hw
    match data, hlen, hin, hw with
    | b0 :: b1 :: rest, hlen, hin, ⟨h127, hend, hsum⟩ =>
      -- the wrapped sum is below the size of the header, so the check passes
      have hh : decodeHeader (b0 :: b1 :: rest) =
          .ok (some (headerOf b0 b1 (b0 :: b1 :: rest))) := by
        rw [decodeHeader_eq, if_neg (not_lt.mpr hend)]
      have hdecl : (headerOf b0 b1 (b0 :: b1 :: rest)).payloadLen =
          bigEndianValue 0 (rest.take 8) := by
        simp [headerOf, declaredLength, h127]
      have hlt : bigEndianValue 0 (rest.take 8) < 2 ^ 64 := by
        refine lt_of_lt_of_le (bigEndianValue_lt 0 _) ?_
        calc (0 + 1) * 256 ^ (rest.take 8).length
            ≤ (0 + 1) * 256 ^ 8 :=
              Nat.mul_le_mul_left _ (Nat.pow_le_pow_right (by omega) (length_take_le 8 rest))
          _ ≤ 2 ^ 64 := by decide
      have hpast :
          (headerOf b0 b1 (b0 :: b1 :: rest)).pastEnd (b0 :: b1 :: rest).length = false := by
        unfold Header.pastEnd add64
        rw [hdecl, decide_eq_false_iff_not, not_lt]
        dsimp only [headerOf]
        omega
      have hle := hin.complete _ hh hpast
      rw [hdecl] at hle
      dsimp only [headerOf] at hle
      omega
  · exact staysInside_of_not_wraps hlen

/-- A frame with a payload of one byte. -/
theorem decode_stays_inside_one_byte : StaysInside [0x82, 0x01, 0x41] :=
  (decode_stays_inside_iff_no_wrap [0x82, 0x01, 0x41] (by decide)).mpr (by
    intro hw
    exact absurd hw.1 (by decide))

/-- Ten bytes that declare a payload of `2 ^ 64 - 1` pass the completeness check,
and the payload cannot be sized. -/
theorem a_wrapped_length_passes_the_completeness_check :
    let data : Bytes := [0x82, 0x7F, 0xFF, 0xFF, 0xFF, 0xFF, 0xFF, 0xFF, 0xFF, 0xFF]
    decode data = .error .lengthError ∧
      ¬∀ h, decodeHeader data = .ok (some h) → h.pastEnd data.length = false →
        h.headerSize + h.payloadLen ≤ data.length := by
  refine ⟨by decide +kernel, ?_⟩
  intro hall
  have hle := hall ⟨true, 0, 0, 0, .Binary, false, .zero, 2 ^ 64 - 1, 10⟩ (by decide +kernel)
    (by decide +kernel)
  exact absurd hle (by decide +kernel)

end mymuduo.websocket_frame
