-- The two frame encoders of src/websocket/WebSocketFrame.h, push by push as the code runs
-- them. `encodeRaw` takes a pointer and a length and has its own copy of the length forms
-- and of the masking loop.
import Mymuduo.WebSocketFrame

open List bytes words

namespace mymuduo.websocket_frame

/-! ## The encoders -/

/-- `encodeRaw` on the vector that it fills. `payload` is `none` for a null pointer. -/
def encodeRawInPlace (opcode : WsOpcode) (payload : Option Bytes) (payloadLen : Nat)
    (fin mask : Bool) (key : MaskingKey) : Bytes :=
  let byte1 : UInt8 := (if fin then 0x80 else 0x00) ||| (opcode.value &&& 0x0F)
  let data := [byte1]
  let byte2 : UInt8 := if mask then 0x80 else 0x00
  let data :=
    if payloadLen ≤ 125 then data ++ [byte2 ||| UInt8.ofNat payloadLen]
    else if payloadLen ≤ 65535 then
      data ++ [byte2 ||| 126] ++ [UInt8.ofNat ((payloadLen >>> 8) &&& 0xFF)] ++
        [UInt8.ofNat (payloadLen &&& 0xFF)]
    else
      [7, 6, 5, 4, 3, 2, 1, 0].foldl
        (fun data i => data ++ [UInt8.ofNat ((payloadLen >>> (i * 8)) &&& 0xFF)])
        (data ++ [byte2 ||| 127])
  let data := if mask then [0, 1, 2, 3].foldl (fun data i => data ++ [key.at i]) data else data
  match payload with
  | none => data
  | some payload =>
    if 0 < payloadLen then
      if !mask then data ++ payload.take payloadLen
      else
        (range payloadLen).foldl
          (fun dst i => dst.set (data.length + i) (payload.getD i 0 ^^^ key.at (i &&& 3)))
          (data ++ replicate payloadLen 0)
    else data

/-- `encode` on the vector that it fills. -/
def encodeInPlace (frame : WebSocketFrame) (mask : Bool) (key : MaskingKey) : Bytes :=
  let payloadLen := frame.payload.length
  let data := [firstByte frame.fin frame.rsv1 frame.rsv2 frame.rsv3 frame.opcode]
  let byte2 : UInt8 := if mask then 0x80 else 0x00
  let data :=
    if payloadLen ≤ 125 then data ++ [byte2 ||| UInt8.ofNat payloadLen]
    else if payloadLen ≤ 65535 then
      data ++ [byte2 ||| 126] ++ [UInt8.ofNat ((payloadLen >>> 8) &&& 0xFF)] ++
        [UInt8.ofNat (payloadLen &&& 0xFF)]
    else
      [7, 6, 5, 4, 3, 2, 1, 0].foldl
        (fun data i => data ++ [UInt8.ofNat ((payloadLen >>> (i * 8)) &&& 0xFF)])
        (data ++ [byte2 ||| 127])
  let data := if mask then [0, 1, 2, 3].foldl (fun data i => data ++ [key.at i]) data else data
  if 0 < payloadLen then
    if !mask then data ++ frame.payload
    else
      (range payloadLen).foldl
        (fun dst i => dst.set (data.length + i) (frame.payload.getD i 0 ^^^ key.at (i &&& 3)))
        (data ++ replicate payloadLen 0)
  else data

/-! ## What the loops do -/

theorem foldl_set (data : Bytes) (f : Nat → UInt8) (n m : Nat) :
    (range n).foldl (fun dst i => dst.set (data.length + i) (f i)) (data ++ replicate (n + m) 0) =
      data ++ (range n).map f ++ replicate m 0 := by
  induction n generalizing m with
  | zero => simp
  | succ n ih =>
    rw [range_succ, foldl_append, Nat.add_right_comm, Nat.add_assoc, ih (m + 1), map_append]
    simp [replicate_succ]

theorem foldl_mask (data : Bytes) (key : MaskingKey) (payload : Bytes) :
    (range payload.length).foldl
        (fun dst i => dst.set (data.length + i) (payload.getD i 0 ^^^ key.at (i &&& 3)))
        (data ++ replicate payload.length 0) =
      data ++ payload.mapIdx (fun i x => x ^^^ key.at (i &&& 3)) := by
  have hloop := foldl_set data (fun i => payload.getD i 0 ^^^ key.at (i &&& 3)) payload.length 0
  rw [Nat.add_zero, replicate_zero, append_nil] at hloop
  rw [hloop]
  congr 1
  refine ext_getElem (by simp) fun i hi hi' => ?_
  simp at hi'
  simp [hi']

theorem pushed_length (byte1 byte2 : UInt8) (n : Nat) :
    (if n ≤ 125 then [byte1] ++ [byte2 ||| UInt8.ofNat n]
    else if n ≤ 65535 then
      [byte1] ++ [byte2 ||| 126] ++ [UInt8.ofNat ((n >>> 8) &&& 0xFF)] ++ [UInt8.ofNat (n &&& 0xFF)]
    else
      [7, 6, 5, 4, 3, 2, 1, 0].foldl
        (fun data i => data ++ [UInt8.ofNat ((n >>> (i * 8)) &&& 0xFF)])
        ([byte1] ++ [byte2 ||| 127])) =
      byte1 :: if n ≤ 125 then [byte2 ||| UInt8.ofNat n]
        else if n ≤ 65535 then (byte2 ||| 126) :: bigEndian 2 n
        else (byte2 ||| 127) :: bigEndian 8 n := by
  split
  · rfl
  · split <;> rfl

/-- The loops write what the model of `encode` says. -/
theorem encodeInPlace_eq (frame : WebSocketFrame) (mask : Bool) (key : MaskingKey) :
    encodeInPlace frame mask key = encode frame mask key := by
  unfold encodeInPlace
  dsimp only
  rw [pushed_length, foldl_mask]
  have hempty : ¬0 < frame.payload.length → frame.payload = [] := by simp
  cases mask with
  | false =>
    split
    · rfl
    · rename_i hlength
      simp [encode, encodeAfterFirst, lengthBytes, hempty hlength]
  | true =>
    split
    · simp [encode, encodeAfterFirst, lengthBytes, MaskingKey.bytes, MaskingKey.at]
    · rename_i hlength
      simp [encode, encodeAfterFirst, lengthBytes, MaskingKey.bytes, MaskingKey.at, hempty hlength]

/-- The two encoders agree on every frame without reserved bits. -/
theorem frame_encoders_agree (opcode : WsOpcode) (payload : Bytes) (fin mask : Bool)
    (key : MaskingKey) :
    encodeRawInPlace opcode (some payload) payload.length fin mask key =
      encodeInPlace { fin, opcode, payload } mask key := by
  have hbyte : firstByte fin 0 0 0 opcode =
      (if fin then 0x80 else 0x00) ||| (opcode.value &&& 0x0F) := by simp [firstByte]
  unfold encodeRawInPlace encodeInPlace
  dsimp only
  rw [hbyte, take_length]

end mymuduo.websocket_frame
