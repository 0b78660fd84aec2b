-- The timer wheel under a clock (src/timer/TimerQueue.h, src/timer/Timer.h): each call
-- comes with the time that it reads, and a record says when a timer was added and in
-- which calls of `tick` its callback ran.
import Mathlib.Data.Rat.Floor
import Mymuduo.TimerQueue

open runs words

namespace mymuduo.timer_accuracy

open timer_queue
open timer_queue.TimerQueue (addTicks repeatTicks)

/-! ## The record of a timer -/

/-- A callback that ran: in which call of `tick`, counted from the first one, the time that
this call read, and the time when the callback began. -/
structure Firing where
  call : Nat
  tickTime : Int
  time : Int
  deriving DecidableEq, Repr

/-- What is known of a timer from outside: the call of `addTimer`, with its time and the
number of `tick` calls before it, whether `cancelTimer` was called, and the firings. -/
structure Record where
  added : Int
  delayMs : Int
  intervalMs : Int
  calls : Nat
  cancelled : Bool
  firings : List Firing
  deriving DecidableEq, Repr

/-- `ceil(ms / tickMs)` -/
def ticksFor (w : Shape) (ms : Int) : Nat := ⌈(ms : ℚ) / w.tickMs_⌉₊

namespace Record

def expiration (r : Record) (before : List Firing) : Int :=
  match before.getLast? with
  | none => r.added + r.delayMs
  | some f => f.tickTime + r.intervalMs

/-- The number of the `tick` call that fires the timer at the latest, behind these
firings. The first call behind `addTimer` has the number `calls`. -/
def deadline (w : Shape) (r : Record) (before : List Firing) : Nat :=
  match before.getLast? with
  | none => r.calls + max 1 (ticksFor w r.delayMs)
  | some f => f.call + ticksFor w r.intervalMs

/-- No argument is negative, and the sums that the code computes are `int` values. -/
structure InRange (w : Shape) (r : Record) : Prop where
  delay_nonneg : 0 ≤ r.delayMs
  interval_nonneg : 0 ≤ r.intervalMs
  delay : r.delayMs + w.tickMs_ - 1 < 2 ^ 31
  interval : r.intervalMs + w.tickMs_ - 1 < 2 ^ 31

def fire (r : Record) (f : Firing) : Record := { r with firings := r.firings ++ [f] }

theorem expiration_nil (r : Record) : r.expiration [] = r.added + r.delayMs := rfl

theorem expiration_concat (r : Record) (before : List Firing) (f : Firing) :
    r.expiration (before ++ [f]) = f.tickTime + r.intervalMs := by
  unfold expiration
  rw [List.getLast?_concat]

theorem deadline_nil (w : Shape) (r : Record) :
    r.deadline w [] = r.calls + max 1 (ticksFor w r.delayMs) := rfl

theorem deadline_concat (w : Shape) (r : Record) (before : List Firing) (f : Firing) :
    r.deadline w (before ++ [f]) = f.call + ticksFor w r.intervalMs := by
  unfold deadline
  rw [List.getLast?_concat]

end Record

/-! ## The queue under a clock -/

/-- The calls on the queue, with the times that they read. `runTimer` is the callback of
the next collected timer, and runs at `now`. -/
inductive Event (κ : Type*)
  | addTimer (cb : Option κ) (delayMs intervalMs now : Int)
  | cancelTimer (id : Nat)
  | tick (now : Int)
  | runTimer (now : Int)
  | otherQueue
  deriving DecidableEq

/-- The queue, the last time that was read, the number of `tick` calls, the time that the
last one read, and the records. -/
structure Watch (κ : Type*) where
  queue : TimerQueue κ
  clock : Int
  calls : Nat
  tickTime : Int
  record : Nat → Option Record

section Model

variable {κ : Type*} (w : Shape)

namespace Watch

def start (now : Int) : Watch κ where
  queue := .start
  clock := now
  calls := 0
  tickTime := 0
  record := fun _ => none

def note (s : Watch κ) (id : Nat) (f : Record → Record) : Watch κ :=
  { s with record := Function.update s.record id ((s.record id).map f) }

/-- One call. The next `tick` begins behind the end of the one before. -/
def step (s : Watch κ) : Event κ → Watch κ
  | .addTimer cb delayMs intervalMs now =>
    let r : Record := ⟨now, delayMs, intervalMs, s.calls, false, []⟩
    { s with
      queue := s.queue.addTimer w cb delayMs intervalMs now
      clock := now
      record := Function.update s.record s.queue.nextId_ (some r) }
  | .cancelTimer id =>
    { s with queue := s.queue.cancelTimer id }.note id (fun r => { r with cancelled := true })
  | .tick now =>
    if s.queue.expiredTimers = [] then
      { s with
        queue := s.queue.tickInPlace w now, clock := now, calls := s.calls + 1, tickTime := now }
    else s
  | .runTimer now =>
    match s.queue.expiredTimers with
    | [] => s
    | id :: _ =>
      let s' := { s with queue := s.queue.runTimer, clock := now }
      if (s.queue.timer id).cancelled_ then s'
      else s'.note id (fun r => r.fire ⟨s.calls - 1, s.tickTime, now⟩)
  | .otherQueue => { s with queue := { s.queue with nextId_ := s.queue.nextId_ + 1 } }

def returned (s : Watch κ) : Nat :=
  if s.queue.expiredTimers = [] then s.calls else s.calls - 1

end Watch

/-- The clock does not go back, and a `tick` comes a period behind the one before. -/
def Paced (s : Watch κ) : Event κ → Prop
  | .addTimer _ _ _ now => s.clock ≤ now
  | .tick now => s.clock ≤ now ∧ (0 < s.calls → s.tickTime + w.tickMs_ ≤ now)
  | .runTimer now => s.clock ≤ now
  | _ => True

instance (s : Watch κ) (e : Event κ) : Decidable (Paced w s e) :=
  match e with
  | .addTimer _ _ _ _ => inferInstanceAs (Decidable (_ ≤ _))
  | .cancelTimer _ => isTrue trivial
  | .tick _ => inferInstanceAs (Decidable (_ ∧ _))
  | .runTimer _ => inferInstanceAs (Decidable (_ ≤ _))
  | .otherQueue => isTrue trivial

/-- The largest number of buckets: `wheel_.resize(buckets)` throws beyond the `max_size()`
of a vector of lists. -/
def maxBuckets : Nat := (2 ^ 63 - 1) / 24

structure Accurate (s : Watch κ) (id : Nat) (r : Record) : Prop where
  /-- It does not fire before its expiration time. -/
  notEarly : Each (fun before f => r.expiration before ≤ f.time) r.firings
  /-- It fires in a call behind `addTimer` and behind its last firing, and at the latest in
  the call of its deadline. -/
  inTime : Each (fun before f => r.calls ≤ f.call ∧ (∀ g ∈ before, g.call < f.call) ∧
    f.call ≤ r.deadline w before) r.firings
  /-- As long as it has still to fire, the call of its deadline has not returned. -/
  fires : r.cancelled = false → r.firings = [] ∨ 0 < r.intervalMs →
    s.returned ≤ r.deadline w r.firings
  /-- A one-shot timer fires once. -/
  once : r.intervalMs = 0 → r.firings.length ≤ 1 ∧
    (r.cancelled = false → r.deadline w [] < s.returned → r.firings.length = 1)
  /-- The firings are the calls of the callback, if there is one. -/
  runs : s.queue.log.count (.ran id) =
    if (s.queue.timer id).callback_.isSome then r.firings.length else 0

/-! ## The numbers of ticks -/

theorem le_ticksFor (ms : Int) : ms ≤ ticksFor w ms * w.tickMs_ := by
  have hpos : (0 : ℚ) < w.tickMs_ := by exact_mod_cast w.tickMs_pos
  have hceil : (ms : ℚ) / w.tickMs_ ≤ (ticksFor w ms : ℚ) := Nat.le_ceil _
  rw [div_le_iff₀ hpos] at hceil
  exact_mod_cast hceil

variable {ms : Int}

theorem ticksFor_pos (h : 0 < ms) : 1 ≤ ticksFor w ms := by
  have hle := le_ticksFor w ms
  by_contra hzero
  rw [show ticksFor w ms = 0 by omega] at hle
  omega

theorem ediv_eq_ticksFor (h : 0 ≤ ms) : (ms + w.tickMs_ - 1) / w.tickMs_ = ticksFor w ms := by
  have htick := w.tickMs_pos
  have hpos : (0 : ℚ) < w.tickMs_ := by exact_mod_cast htick
  have hceil : ⌈(ms : ℚ) / w.tickMs_⌉ = (ms + w.tickMs_ - 1) / w.tickMs_ := by
    rw [Int.ceil_eq_iff, lt_div_iff₀ hpos, div_le_iff₀ hpos]
    have hlow := Int.ediv_mul_le (ms + w.tickMs_ - 1) htick.ne'
    have hhigh := Int.lt_ediv_add_one_mul_self (ms + w.tickMs_ - 1) htick
    generalize (ms + w.tickMs_ - 1) / w.tickMs_ = k at hlow hhigh ⊢
    constructor
    · have : (k - 1) * w.tickMs_ < ms := by linarith
      exact_mod_cast this
    · have : ms ≤ k * w.tickMs_ := by linarith
      exact_mod_cast this
  unfold ticksFor
  rw [← Int.ceil_toNat, hceil]
  exact (Int.toNat_of_nonneg (Int.ediv_nonneg (by omega) htick.le)).symm

theorem ticksFor_lt (h : 0 ≤ ms) (hint : ms + w.tickMs_ - 1 < 2 ^ 31) : ticksFor w ms < 2 ^ 31 := by
  have heq := ediv_eq_ticksFor w h
  have hle : (ms + w.tickMs_ - 1) / w.tickMs_ ≤ ms + w.tickMs_ - 1 :=
    Int.ediv_le_self _ (by have := w.tickMs_pos; omega)
  omega

theorem addTicks_eq (h : 0 ≤ ms) (hint : ms + w.tickMs_ - 1 < 2 ^ 31) :
    addTicks w ms = max 1 (ticksFor w ms) := by
  have htick := w.tickMs_pos
  have hlt := ticksFor_lt w h hint
  have hsize := sizeT_eq (a := ticksFor w ms) (by omega) (by omega)
  unfold addTicks
  dsimp only
  rw [int32_eq (by omega) (by omega), Int.tdiv_eq_ediv_of_nonneg (by omega), ediv_eq_ticksFor w h]
  split <;> omega

theorem repeatTicks_eq (h : 0 ≤ ms) (hint : ms + w.tickMs_ - 1 < 2 ^ 31) :
    repeatTicks w ms = ticksFor w ms := by
  have htick := w.tickMs_pos
  have hlt := ticksFor_lt w h hint
  have hsize := sizeT_eq (a := ticksFor w ms) (by omega) (by omega)
  unfold repeatTicks
  rw [Int.tdiv_eq_ediv_of_nonneg (by omega), ediv_eq_ticksFor w h]
  omega

theorem bucketAt_eq (hw : w.buckets_ ≤ maxBuckets) {q : TimerQueue κ} {calls ticks : Nat}
    (hcur : q.currentBucket_ = calls % w.buckets_) (hticks : ticks < 2 ^ 31) :
    q.bucketAt w ticks = (calls + ticks) % w.buckets_ := by
  have hlt : q.currentBucket_ < w.buckets_ := hcur ▸ Nat.mod_lt _ w.buckets_pos
  unfold maxBuckets at hw
  unfold TimerQueue.bucketAt
  rw [add64_eq (by omega), hcur, Nat.mod_add_mod]

end Model

end mymuduo.timer_accuracy
