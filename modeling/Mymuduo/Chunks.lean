-- The chunks of HTTP bodies: a size line in hexadecimal digits, the data and a line
-- break. A body in chunks ends in an empty chunk. A row of written chunks is such a
-- body exactly when the empty chunk stands at its end and nowhere else, and then the
-- decoder gives the data of the chunks in a row.
import Mymuduo.Lines

open List

namespace bytes

/-- The size line of a chunk: hexadecimal digits, and an extension behind a `;`. -/
def chunkSize (line : Bytes) : Option Nat := hexValue (line.takeWhile (· ≠ 59))

/-- The data of the first chunk, and what follows the chunk. -/
def readChunk (bs : Bytes) : Option (Bytes × Bytes) :=
  match find crlf bs with
  | none => none
  | some lineEnd =>
    match chunkSize (bs.take lineEnd) with
    | none => none
    | some size =>
      let afterLine := bs.drop (lineEnd + 2)
      if (afterLine.drop size).take 2 = crlf then
        some (afterLine.take size, afterLine.drop (size + 2))
      else none

def writeChunk (data : Bytes) : Bytes := hex data.length ++ (crlf ++ (data ++ crlf))

/-- Chunks in a row. The last one, and no other, is empty, and nothing follows it. -/
inductive WellChunked : Bytes → Prop
  | last {bs : Bytes} (h : readChunk bs = some ([], [])) : WellChunked bs
  | more {bs data rest : Bytes} (h : readChunk bs = some (data, rest)) (hdata : data ≠ [])
      (hrest : WellChunked rest) : WellChunked bs

/-- The first line, and what follows it. -/
def readLine (bs : Bytes) : Option (Bytes × Bytes) :=
  (find crlf bs).map (fun lineEnd => (bs.take lineEnd, bs.drop (lineEnd + 2)))

/-- Trailer fields are dropped, up to the blank line. -/
def dropTrailer : Nat → Bytes → Option Bytes
  | 0, _ => none
  | fuel + 1, bs =>
    match readLine bs with
    | none => none
    | some (line, rest) => if line = [] then some rest else dropTrailer fuel rest

/-- The chunks up to the first one of size 0, and the trailer. -/
def decodeChunks : Nat → Bytes → Bytes → Option (Bytes × Bytes)
  | 0, _, _ => none
  | fuel + 1, decoded, bs =>
    match readLine bs with
    | none => none
    | some (line, rest) =>
      match chunkSize line with
      | none => none
      | some size =>
        if size = 0 then (dropTrailer (rest.length + 1) rest).map (fun behind => (decoded, behind))
        else if (rest.drop size).take 2 = crlf then
          decodeChunks fuel (decoded ++ rest.take size) (rest.drop (size + 2))
        else none

/-- The decoder of a body in chunks: the decoded bytes, and what follows the body. -/
def decodeChunked (bs : Bytes) : Option (Bytes × Bytes) := decodeChunks (bs.length + 1) [] bs

/-! ## One chunk -/

theorem chunkSize_hex (n : Nat) : chunkSize (hex n) = some n := by
  have hdigits : (hex n).takeWhile (· ≠ 59) = hex n := by
    rw [takeWhile_eq_self_iff]
    intro c hc
    simpa using (hexDigit_of_mem_hex hc).2.2
  unfold chunkSize
  rw [hdigits, hexValue_hex]

theorem writeChunk_append (data rest : Bytes) :
    writeChunk data ++ rest = hex data.length ++ (crlf ++ (data ++ (crlf ++ rest))) := by
  simp [writeChunk]

theorem readChunk_writeChunk (data rest : Bytes) :
    readChunk (writeChunk data ++ rest) = some (data, rest) := by
  have hcr : 13 ∉ hex data.length := fun h => (hexDigit_of_mem_hex h).1 rfl
  have hcrlf : crlf.length = 2 := rfl
  unfold readChunk
  rw [writeChunk_append, find_crlf hcr]
  dsimp only
  rw [take_left, chunkSize_hex]
  dsimp only
  rw [← length_append_crlf, ← append_assoc (hex data.length), drop_left, drop_left,
    ← hcrlf, take_left, if_pos rfl, take_left, hcrlf, ← length_append_crlf,
    ← append_assoc data, drop_left]

/-! ## The decoder -/

theorem readLine_append {line : Bytes} (h : 13 ∉ line) (rest : Bytes) :
    readLine (line ++ (crlf ++ rest)) = some (line, rest) := by
  unfold readLine
  rw [find_crlf h, Option.map_some, take_left, ← length_append_crlf, ← append_assoc, drop_left]

theorem readLine_hex (n : Nat) (rest : Bytes) :
    readLine (hex n ++ (crlf ++ rest)) = some (hex n, rest) :=
  readLine_append (fun h => (hexDigit_of_mem_hex h).1 rfl) rest

theorem decodeChunks_writeChunk {data : Bytes} (h : data ≠ []) (fuel : Nat) (decoded rest : Bytes) :
    decodeChunks (fuel + 1) decoded (writeChunk data ++ rest) =
      decodeChunks fuel (decoded ++ data) rest := by
  have hsize : ¬data.length = 0 := fun hzero => h (length_eq_zero_iff.mp hzero)
  have hbreak : (crlf ++ rest).take 2 = crlf := take_left' rfl
  rw [decodeChunks, writeChunk_append, readLine_hex]
  dsimp only
  rw [chunkSize_hex]
  dsimp only
  rw [if_neg hsize, drop_left, hbreak, if_pos rfl, take_left, ← length_append_crlf,
    ← append_assoc data, drop_left]

theorem decodeChunks_last (fuel : Nat) (decoded rest : Bytes) :
    decodeChunks (fuel + 1) decoded (writeChunk [] ++ rest) = some (decoded, rest) := by
  have hblank : readLine (crlf ++ rest) = some ([], rest) := readLine_append not_mem_nil rest
  rw [decodeChunks, writeChunk_append, readLine_hex]
  dsimp only
  rw [chunkSize_hex]
  dsimp only
  rw [if_pos length_nil, nil_append, dropTrailer, hblank]
  rfl

theorem decodeChunks_written {chunks : List Bytes} (h : ∀ chunk ∈ chunks, chunk ≠ []) {fuel : Nat}
    (hfuel : chunks.length < fuel) (decoded rest : Bytes) :
    decodeChunks fuel decoded ((chunks ++ [[]]).flatMap writeChunk ++ rest) =
      some (decoded ++ chunks.flatten, rest) := by
  induction chunks generalizing fuel decoded with
  | nil =>
    obtain ⟨fuel, rfl⟩ := Nat.exists_eq_succ_of_ne_zero (Nat.ne_zero_of_lt hfuel)
    rw [nil_append, flatMap_singleton, decodeChunks_last, flatten_nil, append_nil]
  | cons chunk chunks ih =>
    obtain ⟨fuel, rfl⟩ := Nat.exists_eq_succ_of_ne_zero (Nat.ne_zero_of_lt hfuel)
    rw [cons_append, flatMap_cons, append_assoc,
      decodeChunks_writeChunk (h chunk (mem_cons_self ..)),
      ih (fun c hc => h c (mem_cons_of_mem chunk hc)) (Nat.lt_of_succ_lt_succ hfuel),
      flatten_cons, append_assoc]

theorem length_le_length_flatMap_writeChunk (chunks : List Bytes) :
    chunks.length ≤ (chunks.flatMap writeChunk).length := by
  induction chunks with
  | nil => exact Nat.le_refl _
  | cons chunk chunks ih =>
    have hcrlf : crlf.length = 2 := rfl
    rw [flatMap_cons, length_append, length_cons, writeChunk]
    simp only [length_append]
    omega

theorem decodeChunked_written {chunks : List Bytes} (h : ∀ chunk ∈ chunks, chunk ≠ []) :
    decodeChunked ((chunks ++ [[]]).flatMap writeChunk) = some (chunks.flatten, []) := by
  have hcount := length_le_length_flatMap_writeChunk (chunks ++ [[]])
  have hfuel : chunks.length < ((chunks ++ [[]]).flatMap writeChunk).length + 1 := by
    rw [length_append, length_singleton] at hcount
    omega
  have hdecoded := decodeChunks_written h hfuel [] []
  rw [append_nil, nil_append] at hdecoded
  exact hdecoded

/-! ## A row of chunks -/

theorem wellChunked_of_read {bs data rest : Bytes} (h : readChunk bs = some (data, rest)) :
    WellChunked bs ↔ (data = [] ∧ rest = []) ∨ (data ≠ [] ∧ WellChunked rest) := by
  constructor
  · intro hwell
    cases hwell with
    | last hlast =>
      rw [h] at hlast
      cases hlast
      exact Or.inl ⟨rfl, rfl⟩
    | more hmore hdata hrest =>
      rw [h] at hmore
      cases hmore
      exact Or.inr ⟨hdata, hrest⟩
  · rintro (⟨rfl, rfl⟩ | ⟨hdata, hrest⟩)
    · exact .last h
    · exact .more h hdata hrest

theorem not_wellChunked_nil : ¬WellChunked [] := by
  intro h
  cases h with
  | last h | more h _ _ =>
    cases h

/-- Written chunks are a well-formed body exactly when the empty chunk stands at the
end and nowhere else. -/
theorem wellChunked_written_iff (chunks : List Bytes) :
    WellChunked (chunks.flatMap writeChunk) ↔
      chunks.getLast? = some [] ∧ [] ∉ chunks.dropLast := by
  induction chunks with
  | nil => exact iff_of_false not_wellChunked_nil (by simp)
  | cons chunk chunks ih =>
    rw [flatMap_cons, wellChunked_of_read (readChunk_writeChunk chunk _), ih]
    cases chunks with
    | nil => simp
    | cons next chunks =>
      -- a chunk follows, so this one must not be empty
      have hrest : (next :: chunks).flatMap writeChunk ≠ [] := by simp [writeChunk, hex_ne_nil]
      rw [getLast?_cons_cons, dropLast_cons_cons, mem_cons, not_or]
      constructor
      · rintro (⟨-, hnil⟩ | ⟨hchunk, hlast, hinner⟩)
        · exact absurd hnil hrest
        · exact ⟨hlast, fun h => hchunk h.symm, hinner⟩
      · rintro ⟨hlast, hchunk, hinner⟩
        exact Or.inr ⟨fun h => hchunk h.symm, hlast, hinner⟩

end bytes
