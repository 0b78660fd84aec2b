-- Frames with their length in front: four bytes in network order, read back as an
-- `int32_t`, and then the data. A reader accepts the lengths from one up to a
-- limit; behind any other length it reads nothing more.
import Mymuduo.Bytes
import Mymuduo.Segments

open List bytes runs segments words

namespace length_prefix

/-- A frame as it is written. The length is cut to 32 bits. -/
def frame (data : Bytes) : Bytes := bigEndian 4 data.length ++ data

/-- `ntohl` of the first four bytes, as an `int32_t`. -/
def declared (buf : Bytes) : Int := signed32 (bigEndianValue 0 (buf.take 4))

/-- What the front of a buffer is. -/
inductive Front
  | incomplete
  | invalid
  | frame (data rest : Bytes)
  deriving DecidableEq

/-- The front of the buffer, for frames of at most `limit` bytes. -/
def front (limit : Nat) (buf : Bytes) : Front :=
  if buf.length < 4 then .incomplete
  else
    let len := declared buf
    if len ≤ 0 ∨ limit < sizeT len then .invalid
    else if buf.length < 4 + sizeT len then .incomplete
    else .frame ((buf.drop 4).take (sizeT len)) ((buf.drop 4).drop (sizeT len))

/-! ## Lengths -/

theorem length_frame (data : Bytes) : (frame data).length = 4 + data.length := by
  rw [frame, length_append, length_bigEndian]

theorem declared_frame {data : Bytes} (h : data.length < 2 ^ 31) (rest : Bytes) :
    declared (frame data ++ rest) = data.length := by
  unfold declared frame
  rw [append_assoc, take_left' (length_bigEndian 4 _), bigEndianValue_of_lt (by omega)]
  unfold signed32
  rw [Nat.mod_eq_of_lt (by omega), if_pos h]

variable {buf : Bytes}

theorem take_four_of_declared (h : 4 ≤ buf.length) (hpos : 0 < declared buf) :
    buf.take 4 = bigEndian 4 (declared buf).toNat ∧ (declared buf).toNat < 2 ^ 31 := by
  have hlength : (buf.take 4).length = 4 := by
    rw [length_take]
    omega
  have hlt := bigEndianValue_lt 0 (buf.take 4)
  rw [hlength] at hlt
  have hvalue : (declared buf).toNat = bigEndianValue 0 (buf.take 4) ∧
      bigEndianValue 0 (buf.take 4) < 2 ^ 31 := by
    unfold declared signed32 at hpos ⊢
    split at hpos <;> omega
  rw [hvalue.1, bigEndian_bigEndianValue hlength]
  exact ⟨rfl, hvalue.2⟩

theorem declared_append (h : 4 ≤ buf.length) (more : Bytes) :
    declared (buf ++ more) = declared buf := by
  unfold declared
  rw [take_append_of_le_length h]

theorem sizeT_declared (hpos : 0 < declared buf) (h : (declared buf).toNat < 2 ^ 31) :
    sizeT (declared buf) = (declared buf).toNat := by
  have hlow : 0 ≤ declared buf := by omega
  have := sizeT_eq hlow (by omega)
  omega

/-! ## The front of a buffer -/

variable {limit : Nat}

/-- A whole frame of an allowed length is at the front exactly when it was written
there. -/
theorem front_eq_frame_iff (hlimit : limit < 2 ^ 31) {data rest : Bytes} :
    front limit buf = .frame data rest ↔
      buf = frame data ++ rest ∧ 0 < data.length ∧ data.length ≤ limit := by
  constructor
  · intro h
    unfold front at h
    split at h
    · cases h
    · dsimp only at h
      split at h
      · cases h
      · rename_i hvalid
        rw [not_or, not_le, not_lt] at hvalid
        split at h
        · cases h
        · rename_i hwhole
          obtain ⟨htake, hlt⟩ := take_four_of_declared (by omega) hvalid.1
          rw [sizeT_declared hvalid.1 hlt] at h hwhole hvalid
          cases h
          have hdata : ((buf.drop 4).take (declared buf).toNat).length = (declared buf).toNat := by
            rw [length_take, length_drop]
            omega
          refine ⟨?_, by omega, by omega⟩
          rw [frame, hdata, append_assoc, take_append_drop, ← htake, take_append_drop]
  · rintro ⟨rfl, hpos, hle⟩
    have hshort : data.length < 2 ^ 31 := by omega
    have hdeclared := declared_frame hshort rest
    have hsize : sizeT (declared (frame data ++ rest)) = data.length := by
      rw [sizeT_declared (by omega) (by omega), hdeclared, Int.toNat_natCast]
    have hlength := length_frame data
    unfold front
    dsimp only
    rw [hsize, if_neg (by rw [length_append]; omega), if_neg (by omega),
      if_neg (by rw [length_append]; omega)]
    unfold frame
    rw [append_assoc, drop_left' (length_bigEndian 4 _), take_left, drop_left]

theorem front_eq_invalid_iff :
    front limit buf = .invalid ↔
      4 ≤ buf.length ∧ (declared buf ≤ 0 ∨ limit < sizeT (declared buf)) := by
  unfold front
  split
  · exact ⟨fun h => (nomatch h), fun h => absurd h.1 (by omega)⟩
  · dsimp only
    split
    · rename_i hbad
      exact ⟨fun _ => ⟨by omega, hbad⟩, fun _ => rfl⟩
    · rename_i hgood
      refine ⟨fun h => ?_, fun h => absurd h.2 hgood⟩
      split at h <;> cases h

theorem front_invalid_of_declared (h : 4 ≤ buf.length)
    (hbad : ¬(1 ≤ declared buf ∧ declared buf ≤ limit)) : front limit buf = .invalid := by
  rw [front_eq_invalid_iff]
  refine ⟨h, ?_⟩
  by_cases hpos : 0 < declared buf
  · rw [sizeT_declared hpos (take_four_of_declared h hpos).2]
    omega
  · exact Or.inl (by omega)

theorem front_invalid_append (h : front limit buf = .invalid) (more : Bytes) :
    front limit (buf ++ more) = .invalid := by
  rw [front_eq_invalid_iff] at h ⊢
  rw [declared_append h.1, length_append]
  exact ⟨by omega, h.2⟩

theorem frame_inj {data data' rest rest' : Bytes} (h : data.length < 2 ^ 31)
    (h' : data'.length < 2 ^ 31) (heq : frame data ++ rest = frame data' ++ rest') :
    data = data' ∧ rest = rest' := by
  have hlength : data.length = data'.length := by
    have hdeclared := declared_frame h rest
    rw [heq, declared_frame h' rest'] at hdeclared
    omega
  have hframe := append_inj heq (by rw [length_frame, length_frame, hlength])
  refine ⟨?_, hframe.2⟩
  have hsplit : bigEndian 4 data.length ++ data = bigEndian 4 data'.length ++ data' := hframe.1
  exact (append_inj hsplit (by rw [length_bigEndian, length_bigEndian])).2

theorem frames_unique {read written : List Bytes} {rest : Bytes}
    (hread : ∀ data ∈ read, data.length < 2 ^ 31)
    (hwritten : ∀ data ∈ written, data.length < 2 ^ 31)
    (h : (read.map frame).flatten ++ rest = (written.map frame).flatten) : read <+: written := by
  induction read generalizing written with
  | nil => exact nil_prefix
  | cons data read ih =>
    rw [map_cons, flatten_cons, append_assoc] at h
    cases written with
    | nil =>
      have hempty := congrArg List.length h
      rw [length_append, length_frame, map_nil, flatten_nil, length_nil] at hempty
      omega
    | cons data' written =>
      obtain ⟨rfl, hrest⟩ := frame_inj (hread data (mem_cons_self ..))
        (hwritten data' (mem_cons_self ..)) h
      rw [cons_prefix_cons]
      exact ⟨rfl, ih (fun d hd => hread d (mem_cons_of_mem data hd))
        (fun d hd => hwritten d (mem_cons_of_mem data hd)) hrest⟩

/-! ## Frames as items of a stream -/

/-- The data of the frames, up to the first length that is not allowed. -/
def reader (limit : Nat) (hlimit : limit < 2 ^ 31) : Reader UInt8 Bytes where
  next buf :=
    match front limit buf with
    | .frame data rest => some (data, rest)
    | _ => none
  shrinks := by
    intro buf data rest h
    split at h
    · rename_i hfront
      cases h
      rw [((front_eq_frame_iff hlimit).mp hfront).1, List.length_append, length_frame]
      omega
    · cases h
  stable := by
    intro buf data rest h more
    split at h
    · rename_i hfront
      cases h
      obtain ⟨hbuf, hlen⟩ := (front_eq_frame_iff hlimit).mp hfront
      have hmore : front limit (buf ++ more) = .frame data (rest ++ more) := by
        rw [front_eq_frame_iff hlimit, hbuf, List.append_assoc]
        exact ⟨rfl, hlen⟩
      rw [hmore]
    · cases h
  exact := by
    intro buf data rest h
    split at h
    · rename_i hfront
      cases h
      obtain ⟨hbuf, hlen⟩ := (front_eq_frame_iff hlimit).mp hfront
      have hwhole : front limit (frame data) = .frame data [] := by
        rw [front_eq_frame_iff hlimit, List.append_nil]
        exact ⟨rfl, hlen⟩
      refine ⟨frame data, hbuf, ?_⟩
      rw [hwhole]
    · cases h

section Reader

variable {limit : Nat} (hlimit : limit < 2 ^ 31)

theorem reader_next_of_frame {buf data rest : Bytes} (h : front limit buf = .frame data rest) :
    (reader limit hlimit).next buf = some (data, rest) := by
  dsimp only [reader]
  rw [h]

theorem reader_next_eq_none_iff {buf : Bytes} :
    (reader limit hlimit).next buf = none ↔ ∀ data rest, front limit buf ≠ .frame data rest := by
  dsimp only [reader]
  split
  · rename_i data rest hfront
    exact ⟨fun h => (nomatch h), fun h => absurd hfront (h data rest)⟩
  · rename_i hother
    exact ⟨fun _ data rest hfront => hother data rest hfront, fun _ => rfl⟩

theorem reader_next_frame {data : Bytes} (hpos : 0 < data.length) (hle : data.length ≤ limit) :
    (reader limit hlimit).next (frame data) = some (data, []) := by
  apply reader_next_of_frame
  rw [front_eq_frame_iff hlimit, append_nil]
  exact ⟨rfl, hpos, hle⟩

theorem items_frames {payloads : List Bytes}
    (h : ∀ data ∈ payloads, 0 < data.length ∧ data.length ≤ limit) (rest : Bytes) :
    (reader limit hlimit).items ((payloads.map frame).flatten ++ rest) =
        payloads ++ (reader limit hlimit).items rest ∧
      (reader limit hlimit).leftover ((payloads.map frame).flatten ++ rest) =
        (reader limit hlimit).leftover rest := by
  induction payloads with
  | nil => exact ⟨rfl, rfl⟩
  | cons data payloads ih =>
    obtain ⟨hpos, hle⟩ := h data (mem_cons_self ..)
    obtain ⟨hitems, hleft⟩ := ih (fun d hd => h d (mem_cons_of_mem data hd))
    have hnext := (reader limit hlimit).stable (reader_next_frame hlimit hpos hle)
      ((payloads.map frame).flatten ++ rest)
    rw [nil_append] at hnext
    rw [map_cons, flatten_cons, append_assoc]
    refine ⟨?_, ?_⟩
    · rw [Reader.items_of_next_some _ hnext, hitems, cons_append]
    · rw [Reader.leftover_of_next_some _ hnext, hleft]

theorem items_of_invalid {buf : Bytes} (h : front limit buf = .invalid) :
    (reader limit hlimit).items buf = [] ∧ (reader limit hlimit).leftover buf = buf := by
  have hnone : (reader limit hlimit).next buf = none := by
    rw [reader_next_eq_none_iff]
    intro data rest hframe
    rw [h] at hframe
    cases hframe
  exact ⟨Reader.items_of_next_none _ hnone, Reader.leftover_of_next_none _ hnone⟩

end Reader

end length_prefix
