-- The three Base64 encoders: of the etcd client (src/util/EtcdClient.h), of the
-- WebSocket client (src/websocket/WebSocketClient.h) and inside `computeAcceptKey`
-- (src/websocket/WebSocketFrame.h).
import Mymuduo.EtcdWatch
import Mymuduo.WebSocketClient

open List bytes

namespace mymuduo.base64_encoders

open etcd_client (tbl sextet base64 unbase64)
open websocket_frame (base64Chars computeAcceptKey base64Round shaDigestLength)
open websocket_client (base64Encode base64Group)

/-! ## Groups of three bytes -/

theorem base64Chars_eq_tbl : base64Chars = tbl := rfl

theorem base64Group_behind (a b c : UInt8) (rest : Bytes) (i : Nat) :
    base64Group (a :: b :: c :: rest) (i + 3) = base64Group rest i := by
  unfold base64Group
  simp only [length_cons, getD_cons_succ, Nat.add_lt_add_iff_right, Nat.add_right_comm i 3]

theorem base64Encode_cons (a b c : UInt8) (rest : Bytes) :
    base64Encode (a :: b :: c :: rest) =
      base64Group (a :: b :: c :: rest) 0 ++ base64Encode rest := by
  have hrounds : ((a :: b :: c :: rest).length + 2) / 3 = (rest.length + 2) / 3 + 1 := by
    simp only [length_cons]
    omega
  unfold base64Encode
  rw [hrounds, range_succ_eq_map, flatMap_cons, flatMap_map]
  congr 1
  refine flatMap_congr ?_
  intro k _
  rw [Nat.succ_eq_add_one, Nat.mul_add, base64Group_behind]

theorem base64_eq_base64Encode (data : Bytes) : base64 data = base64Encode data := by
  induction data using mymuduo.etcd_client.base64.induct with
  | case1 a b c rest ih =>
    rw [base64, ih, base64Encode_cons]
    rfl
  | case2 a b | case3 a => simp [base64, sextet, base64Encode, base64Group, base64Chars_eq_tbl]
  | case4 => rfl

/-! ## The accept key -/

/-- For a hash of the right length the two loops by index ask the same questions. -/
theorem base64Round_eq_base64Group {hash : Bytes} (h : hash.length = shaDigestLength) (i : Nat) :
    base64Round hash i = base64Group hash i := by
  unfold base64Round base64Group
  rw [h]

theorem computeAcceptKey_eq_base64Encode {sha1 : Bytes → Bytes} {clientKey hash : Bytes}
    (hsha1 : sha1 (clientKey ++ text "258EAFA5-E914-47DA-95CA-C5AB0DC85B11") = hash)
    (h : hash.length = 20) : computeAcceptKey sha1 clientKey = base64Encode hash := by
  have hrounds : (hash.length + 2) / 3 = 7 := by omega
  have hstarts : [0, 3, 6, 9, 12, 15, 18] = (range 7).map (3 * ·) := rfl
  unfold computeAcceptKey base64Encode
  rw [hsha1, hrounds, hstarts, flatMap_map]
  exact flatMap_congr (fun k _ => base64Round_eq_base64Group h (3 * k))

/-- The etcd client reads back what it writes, the WebSocket client writes the same text, and
so does `computeAcceptKey` for every hash of 20 bytes. -/
theorem base64_encoders_agree (s : Bytes) :
    unbase64 (base64 s) = s ∧ base64 s = base64Encode s ∧
      ∀ (sha1 : Bytes → Bytes) (clientKey : Bytes),
        sha1 (clientKey ++ text "258EAFA5-E914-47DA-95CA-C5AB0DC85B11") = s → s.length = 20 →
          computeAcceptKey sha1 clientKey = base64 s ∧
            computeAcceptKey sha1 clientKey = base64Encode s := by
  have hagree := base64_eq_base64Encode s
  refine ⟨etcd_client.unbase64_base64 s, hagree, ?_⟩
  intro sha1 clientKey hsha1 hlength
  have hkey := computeAcceptKey_eq_base64Encode hsha1 hlength
  exact ⟨hkey.trans hagree.symm, hkey⟩

theorem base64_encoders_agree_on_a_digest :
    (replicate 20 (7 : UInt8)).length = 20 ∧
      computeAcceptKey (fun _ => replicate 20 7) (text "key") =
        base64 (replicate 20 7) := by
  have hlength : (replicate 20 (7 : UInt8)).length = 20 := by decide
  obtain ⟨-, -, hkey⟩ := base64_encoders_agree (replicate 20 7)
  exact ⟨hlength, (hkey (fun _ => replicate 20 7) (text "key") rfl hlength).1⟩

end mymuduo.base64_encoders
