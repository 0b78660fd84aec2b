-- `Buffer` (src/net/Buffer.h, src/net/Buffer.cc): a vector of bytes with a
-- reader index and a writer index. The indices are `size_t` and wrap, and a
-- copy faults outside the vector. Over any sequence of calls the readable bytes
-- are a queue.
import Mymuduo.Bytes
import Mymuduo.Runs
import Mymuduo.Vectors

open List bytes runs vectors words

namespace mymuduo.buffer

/-! ## The buffer -/

structure Buffer where
  buffer_ : Bytes
  readerIndex_ : Nat
  writerIndex_ : Nat
  deriving DecidableEq, Repr

def kCheapPrepend : Nat := 8

def kExtraBuf : Nat := 65536

namespace Buffer

def new (initialSize : Nat) : Except Fault Buffer := do
  let v ← resize [] 0 (add64 initialSize kCheapPrepend)
  return ⟨v, kCheapPrepend, kCheapPrepend⟩

def readableBytes (b : Buffer) : Nat := sub64 b.writerIndex_ b.readerIndex_

def writableBytes (b : Buffer) : Nat := sub64 b.buffer_.length b.writerIndex_

def prependableBytes (b : Buffer) : Nat := b.readerIndex_

/-- Grow, or move the readable bytes to the front. -/
def makeSpace (b : Buffer) (len : Nat) : Except Fault Buffer :=
  if add64 b.writableBytes b.prependableBytes < add64 len kCheapPrepend then do
    let v ← resize b.buffer_ 0 (add64 b.writerIndex_ len)
    return { b with buffer_ := v }
  else do
    let readable := b.readableBytes
    let v ← copyWithin b.buffer_ b.readerIndex_ kCheapPrepend readable
    return ⟨v, kCheapPrepend, add64 kCheapPrepend readable⟩

def ensureWritableBytes (b : Buffer) (len : Nat) : Except Fault Buffer :=
  if b.writableBytes < len then b.makeSpace len else return b

def append (b : Buffer) (data : Bytes) : Except Fault Buffer := do
  let b ← b.ensureWritableBytes data.length
  let v ← copyInto b.buffer_ b.writerIndex_ data
  return { b with buffer_ := v, writerIndex_ := add64 b.writerIndex_ data.length }

def retrieveAll (b : Buffer) : Buffer :=
  { b with readerIndex_ := kCheapPrepend, writerIndex_ := kCheapPrepend }

def retrieve (b : Buffer) (len : Nat) : Buffer :=
  if len < b.readableBytes then { b with readerIndex_ := add64 b.readerIndex_ len }
  else b.retrieveAll

def retrieveAsString (b : Buffer) (len : Nat) : Except Fault (Bytes × Buffer) := do
  let str ← readFrom b.buffer_ b.readerIndex_ len
  return (str, b.retrieve len)

/-- The bytes that the `readv` of `readFd` asks for: the writable part of the
vector, and `extrabuf` when that part is smaller. -/
def readCapacity (b : Buffer) : Nat :=
  if b.writableBytes < kExtraBuf then b.writableBytes + kExtraBuf else b.writableBytes

/-- `readFd`, where `readv` delivered `data` or failed. `readv` fills the
writable part of the vector first, and then what it got of `extrabuf`. -/
def readFd (b : Buffer) (data : Option Bytes) : Except Fault Buffer :=
  match data with
  | none => return b
  | some data => do
    let writable := b.writableBytes
    let v ← copyInto b.buffer_ b.writerIndex_ (data.take writable)
    let extrabuf := if writable < kExtraBuf then (data.drop writable).take kExtraBuf else []
    if (data.length : Int) ≤ signed64 writable then
      return { b with buffer_ := v, writerIndex_ := add64 b.writerIndex_ data.length }
    else
      let extra ← readFrom extrabuf 0 (sub64 data.length writable)
      append { b with buffer_ := v, writerIndex_ := v.length } extra

/-! ## What the calls keep -/

/-- The bytes between the reader index and the writer index. -/
def readable (b : Buffer) : Bytes :=
  (b.buffer_.drop b.readerIndex_).take (b.writerIndex_ - b.readerIndex_)

structure WellFormed (b : Buffer) : Prop where
  prepend : kCheapPrepend ≤ b.readerIndex_
  order : b.readerIndex_ ≤ b.writerIndex_
  inside : b.writerIndex_ ≤ b.buffer_.length
  size : b.buffer_.length ≤ maxSize

variable {b : Buffer}

theorem WellFormed.lt (h : b.WellFormed) : b.buffer_.length < 2 ^ 63 := by
  have := h.size
  unfold maxSize at this
  omega

theorem readableBytes_eq (h : b.WellFormed) :
    b.readableBytes = b.writerIndex_ - b.readerIndex_ := by
  have := h.lt
  exact sub64_eq h.order (by have := h.inside; omega)

theorem writableBytes_eq (h : b.WellFormed) :
    b.writableBytes = b.buffer_.length - b.writerIndex_ := by
  have := h.lt
  exact sub64_eq h.inside (by omega)

theorem length_readable (h : b.WellFormed) :
    b.readable.length = b.writerIndex_ - b.readerIndex_ := by
  have := h.inside
  simp only [readable, length_take, length_drop]
  omega

theorem grow_keeps (h : b.WellFormed) {n : Nat} (hn : b.buffer_.length ≤ n) (hmax : n ≤ maxSize)
    {v : Bytes} (hv : v = b.buffer_ ++ List.replicate (n - b.buffer_.length) 0) :
    WellFormed { b with buffer_ := v } ∧ readable { b with buffer_ := v } = b.readable := by
  have hlen : v.length = n := by
    rw [hv, length_append, length_replicate]
    omega
  have := h.inside
  have := h.order
  refine ⟨⟨h.prepend, h.order, ?_, ?_⟩, ?_⟩
  · dsimp only
    omega
  · dsimp only
    omega
  · dsimp only [readable]
    rw [hv, drop_append_of_le_length (by omega), take_append_of_le_length]
    rw [length_drop]
    omega

theorem write_keeps (h : b.WellFormed) {data v : Bytes}
    (hroom : b.writerIndex_ + data.length ≤ b.buffer_.length)
    (hv : v =
      b.buffer_.take b.writerIndex_ ++ data ++ b.buffer_.drop (b.writerIndex_ + data.length)) :
    WellFormed ⟨v, b.readerIndex_, b.writerIndex_ + data.length⟩ ∧
      readable ⟨v, b.readerIndex_, b.writerIndex_ + data.length⟩ = b.readable ++ data ∧
      v.length = b.buffer_.length := by
  have h2 := h.order
  have hfront : (b.buffer_.take b.writerIndex_).length = b.writerIndex_ := by
    rw [length_take]
    omega
  have hlen : v.length = b.buffer_.length := by
    rw [hv, length_append, length_append, hfront, length_drop]
    omega
  refine ⟨⟨h.prepend, ?_, ?_, ?_⟩, ?_, hlen⟩
  · dsimp only
    omega
  · dsimp only
    omega
  · rw [hlen]
    exact h.size
  · have hfirst : (b.buffer_.take b.writerIndex_).drop b.readerIndex_ = b.readable := by
      rw [drop_take]
      rfl
    have hread := length_readable h
    dsimp only [readable]
    rw [hv, append_assoc, drop_append_of_le_length (by omega), hfirst, ← append_assoc]
    apply take_left'
    rw [length_append]
    omega

theorem compact_keeps (h : b.WellFormed) {v : Bytes}
    (hv : v = b.buffer_.take kCheapPrepend ++ b.readable ++
      b.buffer_.drop (kCheapPrepend + b.readable.length)) :
    WellFormed ⟨v, kCheapPrepend, kCheapPrepend + b.readable.length⟩ ∧
      readable ⟨v, kCheapPrepend, kCheapPrepend + b.readable.length⟩ = b.readable ∧
      v.length = b.buffer_.length := by
  have hr := length_readable h
  have h1 := h.prepend
  have h2 := h.order
  have h3 := h.inside
  -- it is a write to the buffer without its readable bytes
  have hempty : WellFormed ⟨b.buffer_, kCheapPrepend, kCheapPrepend⟩ :=
    ⟨le_refl _, le_refl _, h1.trans (h2.trans h3), h.size⟩
  have hnone : readable ⟨b.buffer_, kCheapPrepend, kCheapPrepend⟩ = [] := by simp [readable]
  have hwrite := write_keeps hempty (by dsimp only; omega) hv
  rwa [hnone, nil_append] at hwrite

/-- `makeSpace` gives room for `len` bytes behind the writer index, or the vector
that it asks for is too long. -/
theorem makeSpace_cases (h : b.WellFormed) {len : Nat} (hlen : b.writerIndex_ + len < 2 ^ 64)
    (hneed : b.writableBytes < len) :
    (∃ b', b.makeSpace len = .ok b' ∧ b'.WellFormed ∧ b'.readable = b.readable ∧
        b'.writerIndex_ + len ≤ b'.buffer_.length) ∨
      b.makeSpace len = .error .lengthError ∧ maxSize < b.writerIndex_ + len := by
  have h1 := h.prepend
  have h2 := h.order
  have h3 := h.inside
  have hr := length_readable h
  rw [writableBytes_eq h] at hneed
  unfold makeSpace
  rw [writableBytes_eq h, readableBytes_eq h, add64_eq hlen,
    add64_eq (a := len) (b := kCheapPrepend) (by omega)]
  unfold prependableBytes
  rw [add64_eq (a := b.buffer_.length - b.writerIndex_) (by omega)]
  split
  · by_cases hmax : maxSize < b.writerIndex_ + len
    · right
      unfold resize
      rw [if_pos hmax]
      exact ⟨rfl, hmax⟩
    · left
      unfold resize
      rw [if_neg hmax, take_of_length_le (by omega)]
      obtain ⟨hwf, hread⟩ := grow_keeps h (n := b.writerIndex_ + len) (by omega) (by omega) rfl
      refine ⟨_, rfl, hwf, hread, ?_⟩
      dsimp only
      rw [length_append, length_replicate]
      omega
  · left
    dsimp only
    rw [copyWithin_eq b.buffer_ _ _ _ h.prepend (by omega), ← hr,
      add64_eq (a := kCheapPrepend) (by omega)]
    have hread : (b.buffer_.drop b.readerIndex_).take b.readable.length = b.readable := by
      rw [hr]
      rfl
    rw [hread]
    obtain ⟨hwf, hsame, hsize⟩ := compact_keeps h rfl
    refine ⟨_, rfl, hwf, hsame, ?_⟩
    dsimp only
    omega

theorem ensureWritableBytes_cases (h : b.WellFormed) {len : Nat}
    (hlen : b.writerIndex_ + len < 2 ^ 64) :
    (∃ b', b.ensureWritableBytes len = .ok b' ∧ b'.WellFormed ∧ b'.readable = b.readable ∧
        b'.writerIndex_ + len ≤ b'.buffer_.length) ∨
      b.ensureWritableBytes len = .error .lengthError ∧ maxSize < b.writerIndex_ + len := by
  unfold ensureWritableBytes
  by_cases hneed : b.writableBytes < len
  · rw [if_pos hneed]
    exact makeSpace_cases h hlen hneed
  · rw [if_neg hneed]
    rw [writableBytes_eq h] at hneed
    have := h.inside
    exact Or.inl ⟨b, rfl, h, rfl, by omega⟩

theorem append_cases (h : b.WellFormed) (data : Bytes)
    (hlen : b.writerIndex_ + data.length < 2 ^ 64) :
    (∃ b', b.append data = .ok b' ∧ b'.WellFormed ∧ b'.readable = b.readable ++ data) ∨
      b.append data = .error .lengthError ∧ maxSize < b.writerIndex_ + data.length := by
  unfold append
  rcases ensureWritableBytes_cases h hlen with ⟨b', heq, hwf, hread, hroom⟩ | ⟨heq, hmax⟩
  · left
    have := hwf.lt
    obtain ⟨hwf', hread', -⟩ := write_keeps hwf hroom rfl
    refine ⟨_, ?_, hwf', hread'.trans (by rw [hread])⟩
    rw [heq]
    dsimp only [bind, Except.bind]
    rw [copyInto_eq _ _ _ hroom, add64_eq (by omega)]
    rfl
  · right
    rw [heq]
    exact ⟨rfl, hmax⟩

/-- `readFd` adds what `readv` delivered, whether it ends in the vector or in
`extrabuf`. -/
theorem readFd_cases (h : b.WellFormed) {data : Bytes} (hcap : data.length ≤ b.readCapacity)
    (hlen : b.writerIndex_ + data.length < 2 ^ 64) :
    (∃ b', b.readFd (some data) = .ok b' ∧ b'.WellFormed ∧ b'.readable = b.readable ++ data) ∨
      b.readFd (some data) = .error .lengthError ∧ maxSize < b.writerIndex_ + data.length := by
  have h3 := h.inside
  have h4 := h.lt
  have hroom : b.writerIndex_ + (data.take b.writableBytes).length ≤ b.buffer_.length := by
    rw [writableBytes_eq h, length_take]
    omega
  obtain ⟨hwf, hread, hsize⟩ := write_keeps h hroom rfl
  unfold readFd
  dsimp only
  rw [copyInto_eq _ _ _ hroom, signed64_eq (by rw [writableBytes_eq h]; omega)]
  dsimp only [bind, Except.bind]
  by_cases hfit : data.length ≤ b.writableBytes
  · left
    rw [take_of_length_le hfit] at hwf hread ⊢
    rw [if_pos (by exact_mod_cast hfit), add64_eq hlen]
    exact ⟨_, rfl, hwf, hread⟩
  · have hall : (data.take b.writableBytes).length = b.writableBytes := by
      rw [length_take]
      omega
    have hend : b.writerIndex_ + b.writableBytes = b.buffer_.length := by
      rw [writableBytes_eq h]
      omega
    unfold readCapacity at hcap
    have hsmall : b.writableBytes < kExtraBuf := by
      by_contra hbig
      rw [if_neg hbig] at hcap
      exact hfit hcap
    rw [if_pos hsmall] at hcap
    have hextra : readFrom ((data.drop b.writableBytes).take kExtraBuf) 0
        (data.length - b.writableBytes) = .ok (data.drop b.writableBytes) := by
      have htake : (data.drop b.writableBytes).take kExtraBuf = data.drop b.writableBytes :=
        take_of_length_le (by rw [length_drop]; omega)
      unfold readFrom
      rw [htake, if_pos (by rw [length_drop]; omega), drop_zero,
        take_of_length_le (by rw [length_drop])]
    rw [hall, hend] at hwf hread hsize ⊢
    rw [if_neg (by exact_mod_cast hfit), if_pos hsmall, sub64_eq (by omega) (by omega), hextra,
      hsize]
    have hdrop : b.buffer_.length + (data.drop b.writableBytes).length =
        b.writerIndex_ + data.length := by
      rw [length_drop]
      omega
    rcases append_cases hwf (data.drop b.writableBytes) (by dsimp only; omega) with
      ⟨b', heq, hwf', hread'⟩ | ⟨heq, hmax⟩
    · refine Or.inl ⟨b', heq, hwf', ?_⟩
      rw [hread', hread, append_assoc, take_append_drop]
    · rw [hdrop] at hmax
      exact Or.inr ⟨heq, hmax⟩

theorem retrieve_keeps (h : b.WellFormed) (len : Nat) :
    (b.retrieve len).WellFormed ∧ (b.retrieve len).readable = b.readable.drop len := by
  have h1 := h.prepend
  have h2 := h.order
  have h3 := h.inside
  have h4 := h.lt
  unfold retrieve
  rw [readableBytes_eq h]
  split
  · rw [add64_eq (by omega)]
    refine ⟨⟨?_, ?_, h3, h.size⟩, ?_⟩
    · dsimp only
      omega
    · dsimp only
      omega
    · dsimp only [readable]
      rw [drop_take, drop_drop]
      congr 1
      omega
  · refine ⟨⟨le_refl _, le_refl _, ?_, h.size⟩, ?_⟩
    · dsimp only [retrieveAll]
      omega
    · rw [drop_of_length_le (by rw [length_readable h]; omega)]
      simp [readable, retrieveAll]

theorem readFrom_readable (h : b.WellFormed) {len : Nat} (hlen : len ≤ b.readableBytes) :
    readFrom b.buffer_ b.readerIndex_ len = .ok (b.readable.take len) := by
  have h2 := h.order
  have h3 := h.inside
  rw [readableBytes_eq h] at hlen
  unfold readFrom readable
  rw [if_pos (by omega), take_take, min_eq_left hlen]

/-! ## The queue -/

inductive Op
  | append (data : Bytes)
  | retrieve (len : Nat)
  | retrieveAll
  | retrieveAsString (len : Nat)
  | ensureWritableBytes (len : Nat)
  | readFd (data : Option Bytes)
  deriving DecidableEq, Repr

/-- One call: the buffer after it, and the strings that it returns. -/
def call (b : Buffer) : Op → Except Fault (Buffer × List Bytes)
  | .append data => do return (← b.append data, [])
  | .retrieve len => return (b.retrieve len, [])
  | .retrieveAll => return (b.retrieveAll, [])
  | .retrieveAsString len => do
    let (str, b) ← b.retrieveAsString len
    return (b, [str])
  | .ensureWritableBytes len => do return (← b.ensureWritableBytes len, [])
  | .readFd data => do return (← b.readFd data, [])

/-- What a caller owes: a string within the readable bytes, sizes whose sum with
the writer index is a `size_t`, and a `readv` that delivers no more than it was
asked for. -/
def Allowed (b : Buffer) : Op → Prop
  | .append data => b.writerIndex_ + data.length < 2 ^ 64
  | .retrieveAsString len => len ≤ b.readableBytes
  | .ensureWritableBytes len => b.writerIndex_ + len < 2 ^ 64
  | .readFd (some data) =>
    data.length ≤ b.readCapacity ∧ b.writerIndex_ + data.length < 2 ^ 64
  | _ => True

/-- The call asks for no vector above `max_size()`. -/
def Fits (b : Buffer) : Op → Prop
  | .append data => b.writerIndex_ + data.length ≤ maxSize
  | .ensureWritableBytes len => b.writerIndex_ + len ≤ maxSize
  | .readFd (some data) => b.writerIndex_ + data.length ≤ maxSize
  | _ => True

end Buffer

open Buffer

/-- The abstract side: a queue of bytes, and the strings taken out of it. -/
structure ByteQueue where
  contents : Bytes
  strings : List Bytes
  deriving DecidableEq, Repr

def ByteQueue.step (q : ByteQueue) : Op → ByteQueue
  | .append data => { q with contents := q.contents ++ data }
  | .retrieve len => { q with contents := q.contents.drop len }
  | .retrieveAll => { q with contents := [] }
  | .retrieveAsString len =>
    { contents := q.contents.drop len, strings := q.strings ++ [q.contents.take len] }
  | .ensureWritableBytes _ => q
  | .readFd none => q
  | .readFd (some data) => { q with contents := q.contents ++ data }

theorem growing_call_cases {b : Buffer} {op : Op} {result : Except Fault Buffer} {contents : Bytes}
    {size : Nat} (hcall : b.call op = do return (← result, []))
    (hstep : ∀ strings, ByteQueue.step ⟨b.readable, strings⟩ op = ⟨contents, strings⟩)
    (hfits : b.Fits op → size ≤ maxSize)
    (h : (∃ b', result = .ok b' ∧ b'.WellFormed ∧ b'.readable = contents) ∨
      result = .error .lengthError ∧ maxSize < size) :
    (∃ b' out, b.call op = .ok (b', out) ∧ b'.WellFormed ∧
        ∀ strings, ByteQueue.step ⟨b.readable, strings⟩ op = ⟨b'.readable, strings ++ out⟩) ∨
      b.call op = .error .lengthError ∧ ¬b.Fits op := by
  rcases h with ⟨b', heq, hwf, hread⟩ | ⟨heq, hmax⟩
  · refine Or.inl ⟨b', [], by rw [hcall, heq]; rfl, hwf, fun strings => ?_⟩
    rw [hstep, hread, append_nil]
  · refine Or.inr ⟨by rw [hcall, heq]; rfl, fun hfit => ?_⟩
    have := hfits hfit
    omega

/-- What one call does to the buffer is what the queue does to its readable
bytes. A call that fails asked for a vector above `max_size()`. -/
theorem call_cases {b : Buffer} (h : b.WellFormed) {op : Op} (hok : b.Allowed op) :
    (∃ b' out, b.call op = .ok (b', out) ∧ b'.WellFormed ∧
        ∀ strings, ByteQueue.step ⟨b.readable, strings⟩ op = ⟨b'.readable, strings ++ out⟩) ∨
      b.call op = .error .lengthError ∧ ¬b.Fits op := by
  cases op with
  | append data => exact growing_call_cases rfl (fun _ => rfl) id (append_cases h data hok)
  | retrieve len =>
    obtain ⟨hwf, hread⟩ := retrieve_keeps h len
    refine Or.inl ⟨b.retrieve len, [], rfl, hwf, fun strings => ?_⟩
    simp [ByteQueue.step, hread]
  | retrieveAll =>
    have h1 := h.prepend
    have h2 := h.order
    have h3 := h.inside
    refine Or.inl ⟨b.retrieveAll, [], rfl, ⟨le_refl _, le_refl _, ?_, h.size⟩, fun strings => ?_⟩
    · dsimp only [retrieveAll]
      omega
    · simp [ByteQueue.step, readable, retrieveAll]
  | retrieveAsString len =>
    obtain ⟨hwf, hread⟩ := retrieve_keeps h len
    refine Or.inl ⟨b.retrieve len, [b.readable.take len], ?_, hwf, fun strings => ?_⟩
    · dsimp only [call, retrieveAsString]
      rw [readFrom_readable h hok]
      rfl
    · simp [ByteQueue.step, hread]
  | ensureWritableBytes len =>
    apply growing_call_cases rfl (fun _ => rfl) id
    rcases ensureWritableBytes_cases h hok with ⟨b', heq, hwf, hread, -⟩ | hfail
    · exact Or.inl ⟨b', heq, hwf, hread⟩
    · exact Or.inr hfail
  | readFd data =>
    cases data with
    | none => exact Or.inl ⟨b, [], rfl, h, fun strings => by simp [ByteQueue.step]⟩
    | some data => exact growing_call_cases rfl (fun _ => rfl) id (readFd_cases h hok.1 hok.2)

/-! ## Sequences of calls -/

/-- A buffer with the strings that its calls returned, or the first fault. -/
abbrev Session := Except Fault (Buffer × List Bytes)

def Session.start (initialSize : Nat) : Session := do
  return (← Buffer.new initialSize, [])

def Session.step (s : Session) (op : Op) : Session := do
  let (b, strings) ← s
  let (b, out) ← b.call op
  return (b, strings ++ out)

/-- The condition `ok` of the call on the buffer that it finds, if there is one. -/
def Session.Finds (ok : Buffer → Op → Prop) (s : Session) (op : Op) : Prop :=
  match s with
  | .ok (b, _) => ok b op
  | .error _ => True

/-- The buffer is well formed and holds the queue. A fault is the exception of a
vector that would be too long, never an access outside the vector. -/
def Session.Refines (s : Session) (q : ByteQueue) : Prop :=
  match s with
  | .ok (b, strings) => b.WellFormed ∧ b.readable = q.contents ∧ strings = q.strings
  | .error f => f = .lengthError

theorem refines_step (s : Session) (q : ByteQueue) (op : Op) (hok : s.Finds Allowed op)
    (h : s.Refines q) : (s.step op).Refines (q.step op) := by
  match s, hok, h with
  | .error f, _, h => exact h
  | .ok (b, strings), hok, ⟨hwf, hread, hstr⟩ =>
    dsimp only [Session.step, bind, Except.bind]
    rcases call_cases hwf hok with ⟨b', out, heq, hwf', hq⟩ | ⟨heq, -⟩
    · have hstep := hq q.strings
      rw [hread] at hstep
      rw [heq, hstep]
      exact ⟨hwf', rfl, by rw [hstr]⟩
    · rw [heq]
      rfl

theorem succeeds_step (s : Session) (op : Op) (hok : s.Finds Allowed op ∧ s.Finds Fits op)
    (h : ∃ b strings, s = .ok (b, strings) ∧ b.WellFormed) :
    ∃ b strings, s.step op = .ok (b, strings) ∧ b.WellFormed := by
  obtain ⟨b, strings, rfl, hwf⟩ := h
  rcases call_cases hwf hok.1 with ⟨b', out, heq, hwf', -⟩ | ⟨-, hbig⟩
  · refine ⟨b', strings ++ out, ?_, hwf'⟩
    dsimp only [Session.step, bind, Except.bind]
    rw [heq]
    rfl
  · exact absurd hok.2 hbig

theorem start_cases {initialSize : Nat} (hinit : kCheapPrepend + initialSize < 2 ^ 64) :
    (∃ b, Session.start initialSize = .ok (b, []) ∧ b.WellFormed ∧ b.readable = []) ∨
      Session.start initialSize = .error .lengthError ∧ maxSize < kCheapPrepend + initialSize := by
  rw [Nat.add_comm] at hinit ⊢
  unfold Session.start Buffer.new resize
  rw [add64_eq hinit]
  by_cases hmax : maxSize < initialSize + kCheapPrepend
  · right
    rw [if_pos hmax]
    exact ⟨rfl, hmax⟩
  · left
    rw [if_neg hmax, take_nil, nil_append, length_nil, Nat.sub_zero]
    refine ⟨_, rfl, ⟨le_refl _, le_refl _, ?_, ?_⟩, ?_⟩
    · dsimp only
      rw [length_replicate]
      omega
    · rw [length_replicate]
      omega
    · simp [readable]

instance (b : Buffer) (op : Op) : Decidable (b.Allowed op) :=
  match op with
  | .append _ => inferInstanceAs (Decidable (_ < _))
  | .retrieve _ => inferInstanceAs (Decidable True)
  | .retrieveAll => inferInstanceAs (Decidable True)
  | .retrieveAsString _ => inferInstanceAs (Decidable (_ ≤ _))
  | .ensureWritableBytes _ => inferInstanceAs (Decidable (_ < _))
  | .readFd none => inferInstanceAs (Decidable True)
  | .readFd (some _) => inferInstanceAs (Decidable (_ ∧ _))

instance (ok : Buffer → Op → Prop) [∀ b op, Decidable (ok b op)] (s : Session) (op : Op) :
    Decidable (s.Finds ok op) :=
  match s with
  | .ok (b, _) => inferInstanceAs (Decidable (ok b op))
  | .error _ => inferInstanceAs (Decidable True)

/-- After every sequence of calls the indices are in order inside the vector, no
copy went outside it, and the readable bytes and the returned strings are those
of a byte queue. The only fault is the exception of a vector above `max_size()`,
and no sequence whose sizes stay below that faults. -/
theorem buffer_is_a_byte_queue (initialSize : Nat) (ops : List Op)
    (hinit : kCheapPrepend + initialSize < 2 ^ 64)
    (hops : Meets Session.step (Session.Finds Allowed) (Session.start initialSize) ops) :
    (run Session.step (Session.start initialSize) ops).Refines (run ByteQueue.step ⟨[], []⟩ ops) ∧
      (kCheapPrepend + initialSize ≤ maxSize →
        Meets Session.step (Session.Finds Fits) (Session.start initialSize) ops →
        ∃ b strings, run Session.step (Session.start initialSize) ops = .ok (b, strings)) := by
  rcases start_cases hinit with ⟨b, heq, hwf, hread⟩ | ⟨heq, hmax⟩
  · refine ⟨simulation_run ByteQueue.step Session.Refines refines_step hops ?_, fun _ hfits => ?_⟩
    · rw [heq]
      exact ⟨hwf, hread, rfl⟩
    · obtain ⟨b', strings, hrun, -⟩ :=
        invariant_run succeeds_step (meets_and Session.step hops hfits) ⟨b, [], heq, hwf⟩
      exact ⟨b', strings, hrun⟩
  · refine ⟨simulation_run ByteQueue.step Session.Refines refines_step hops ?_, fun hfits => ?_⟩
    · rw [heq]
      rfl
    · exact absurd hfits (not_le.mpr hmax)

/-- The vector grows, then moves its bytes to the front, then a read overflows
into `extrabuf`. -/
theorem buffer_is_a_byte_queue_grow_move_read :
    let ops : List Op := [.append [1, 2, 3], .retrieveAsString 2, .append [4, 5],
      .readFd (some [6, 7, 8])]
    Meets Session.step (Session.Finds Allowed) (Session.start 2) ops ∧
      run ByteQueue.step ⟨[], []⟩ ops = ⟨[3, 4, 5, 6, 7, 8], [[1, 2]]⟩ ∧
      (run Session.step (Session.start 2) ops).Refines (run ByteQueue.step ⟨[], []⟩ ops) :=
  ⟨by decide, by decide, (buffer_is_a_byte_queue 2 _ (by decide) (by decide)).1⟩

/-- The size in the constructor wraps like every other size: this buffer has
seven bytes and indices beyond them. -/
example : Buffer.new (2 ^ 64 - 1) = .ok ⟨List.replicate 7 0, 8, 8⟩ := by decide

end mymuduo.buffer
