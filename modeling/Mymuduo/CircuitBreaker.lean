-- The circuit breaker (src/util/CircuitBreaker.h) and the log of the operations on
-- it. Each operation runs under the lock, and `execute` is two of them, one before
-- and one behind the call it protects, with any other operations between.
import Mymuduo.Runs
import Mymuduo.Words

open List runs words

namespace mymuduo.circuit_breaker

/-! ## The breaker -/

inductive State
  | closed
  | «open»
  | halfOpen
  deriving DecidableEq

structure CircuitBreaker where
  failureThreshold_ : Int
  successThreshold_ : Int
  timeoutMs_ : Int
  state_ : State := .closed
  failureCount_ : Int := 0
  successCount_ : Int := 0
  lastFailureTime_ : Int := 0

/-- The constructor, with the product of two `int`. -/
def construct (failureThreshold successThreshold timeoutSec : Int) : CircuitBreaker :=
  { failureThreshold_ := failureThreshold, successThreshold_ := successThreshold,
    timeoutMs_ := int32 (timeoutSec * 1000) }

/-- The milliseconds of a reading of the steady clock, which counts nanoseconds. -/
def nowMs (clock : Int64) : Int := clock.toInt.tdiv 1000000

namespace CircuitBreaker

/-- `nowMs() - lastFailureTime_ >= timeoutMs_` -/
def expired (b : CircuitBreaker) (clock : Int64) : Bool :=
  b.timeoutMs_ ≤ int64 (nowMs clock - b.lastFailureTime_)

def state (b : CircuitBreaker) (clock : Int64) : CircuitBreaker :=
  if b.state_ = .open ∧ b.expired clock then { b with state_ := .halfOpen, successCount_ := 0 }
  else b

def allow (b : CircuitBreaker) (clock : Int64) : Bool × CircuitBreaker :=
  match b.state_ with
  | .closed => (true, b)
  | .open =>
    if b.expired clock then (true, { b with state_ := .halfOpen, successCount_ := 0 })
    else (false, b)
  | .halfOpen => (true, b)

def recordSuccess (b : CircuitBreaker) : CircuitBreaker :=
  match b.state_ with
  | .closed => { b with failureCount_ := 0 }
  | .halfOpen =>
    if b.successThreshold_ ≤ int32 (b.successCount_ + 1) then
      { b with state_ := .closed, failureCount_ := 0, successCount_ := 0 }
    else { b with successCount_ := int32 (b.successCount_ + 1) }
  | .open => b

def recordFailure (b : CircuitBreaker) (clock : Int64) : CircuitBreaker :=
  match b.state_ with
  | .closed =>
    { b with
      lastFailureTime_ := nowMs clock
      failureCount_ := int32 (b.failureCount_ + 1)
      state_ := if b.failureThreshold_ ≤ int32 (b.failureCount_ + 1) then .open else .closed }
  | .halfOpen => { b with lastFailureTime_ := nowMs clock, state_ := .open }
  | .open => { b with lastFailureTime_ := nowMs clock }

end CircuitBreaker

/-! ## Operations and their log -/

inductive Op
  | allow (clock : Int64)
  | state (clock : Int64)
  | success
  | failure (clock : Int64)
  deriving DecidableEq

/-- An operation, the state it found and left, and what `allow` returned. -/
structure Entry where
  op : Op
  was : State
  now : State
  allowed : Bool
  deriving DecidableEq

/-- `active` has the calls of `execute` whose function is running. -/
structure System where
  breaker : CircuitBreaker
  active : Nat → Bool := fun _ => false
  log : List Entry := []

inductive Event
  | allow (clock : Int64)
  | state (clock : Int64)
  | recordSuccess
  | recordFailure (clock : Int64)
  | execute (call : Nat) (clock : Int64)
  | finish (call : Nat) (throws : Bool) (clock : Int64)

def CircuitBreaker.perform (b : CircuitBreaker) : Op → Bool × CircuitBreaker
  | .allow clock => b.allow clock
  | .state clock => (true, b.state clock)
  | .success => (true, b.recordSuccess)
  | .failure clock => (true, b.recordFailure clock)

namespace System

def perform (s : System) (op : Op) : System :=
  { s with
    breaker := (s.breaker.perform op).2
    log :=
      s.log ++ [⟨op, s.breaker.state_, (s.breaker.perform op).2.state_, (s.breaker.perform op).1⟩] }

/-- The first half of `execute`: its function runs when `allow` returns true. -/
def execute (s : System) (call : Nat) (clock : Int64) : System :=
  if s.active call then s
  else
    { s.perform (.allow clock) with
      active := Function.update s.active call (s.breaker.allow clock).1 }

/-- The second half: the function has returned or thrown. -/
def finish (s : System) (call : Nat) (throws : Bool) (clock : Int64) : System :=
  if s.active call then
    { s.perform (if throws then .failure clock else .success) with
      active := Function.update s.active call false }
  else s

def step (s : System) : Event → System
  | .allow clock => s.perform (.allow clock)
  | .state clock => s.perform (.state clock)
  | .recordSuccess => s.perform .success
  | .recordFailure clock => s.perform (.failure clock)
  | .execute call clock => s.execute call clock
  | .finish call throws clock => s.finish call throws clock

end System

/-! ## The property -/

def Entry.isFailure (e : Entry) : Bool :=
  match e.op with
  | .failure _ => true
  | _ => false

def Entry.restartsFailures (e : Entry) : Bool :=
  e.op = .success && e.was = .closed || e.was ≠ .closed && e.now = .closed

def Entry.opensHalf (e : Entry) : Bool := e.was ≠ .halfOpen && e.now = .halfOpen

/-- The failures recorded since the later of the last success in Closed and the last entry to
Closed. -/
def failures (log : List Entry) : Nat := (since Entry.restartsFailures log).countP Entry.isFailure

def successes (log : List Entry) : Nat :=
  (since Entry.opensHalf log).countP (fun e => e.op = .success)

def lastFailure (log : List Entry) : Option Int :=
  log.foldl (fun last e =>
    match e.op with
    | .failure clock => some (nowMs clock)
    | _ => last) none

/-- The state that the operations so far have left. -/
def stateAfter (log : List Entry) : State := (log.getLast?.map Entry.now).getD .closed

/-- The timeout has passed since the last recorded failure. -/
def passed (timeoutMs : Int) (log : List Entry) (clock : Int64) : Bool :=
  match lastFailure log with
  | some time => timeoutMs ≤ nowMs clock - time
  | none => false

/-- The breaker that decides from the log alone: the state behind an operation. -/
def nextState (failureThreshold successThreshold timeoutMs : Int) (log : List Entry) : Op → State :=
  fun op =>
    match stateAfter log, op with
    | .closed, .failure _ => if (failures log : Int) + 1 = failureThreshold then .open else .closed
    | .closed, _ => .closed
    | .open, .allow clock => if passed timeoutMs log clock then .halfOpen else .open
    | .open, .state clock => if passed timeoutMs log clock then .halfOpen else .open
    | .open, _ => .open
    | .halfOpen, .success =>
      if (successes log : Int) + 1 = successThreshold then .closed else .halfOpen
    | .halfOpen, .failure _ => .open
    | .halfOpen, _ => .halfOpen

def nextAllowed (timeoutMs : Int) (log : List Entry) : Op → Bool :=
  fun op =>
    match stateAfter log, op with
    | .open, .allow clock => passed timeoutMs log clock
    | _, _ => true

/-- An operation behind the operations `log` does what the breaker of the log does. -/
structure Lawful (failureThreshold successThreshold timeoutMs : Int) (log : List Entry)
    (e : Entry) :
    Prop where
  was : e.was = stateAfter log
  now : e.now = nextState failureThreshold successThreshold timeoutMs log e.op
  allowed : e.allowed = nextAllowed timeoutMs log e.op

/-! ## The log with one entry more -/

section
variable (log : List Entry) (e : Entry)

@[simp] theorem stateAfter_append : stateAfter (log ++ [e]) = e.now := by
  simp [stateAfter]

theorem lastFailure_append : lastFailure (log ++ [e]) =
    match e.op with
    | .failure clock => some (nowMs clock)
    | _ => lastFailure log := by
  simp only [lastFailure, foldl_append, foldl_cons, foldl_nil]

theorem failures_append : failures (log ++ [e]) =
    if e.restartsFailures then 0 else failures log + if e.isFailure then 1 else 0 := by
  unfold failures
  cases h : e.restartsFailures with
  | true => simp [since_append_of_pos h]
  | false => simp [since_append_of_neg h, countP_append, countP_singleton]

theorem successes_append : successes (log ++ [e]) =
    if e.opensHalf then 0 else successes log + if e.op = .success then 1 else 0 := by
  unfold successes
  cases h : e.opensHalf with
  | true => simp [since_append_of_pos h]
  | false => simp [since_append_of_neg h, countP_append, countP_singleton]

end

/-! ## The breaker and its log -/

open CircuitBreaker (allow expired recordSuccess recordFailure)

/-- A reading counts nanoseconds in 64 bits, so its milliseconds are far from the ends. -/
theorem nowMs_bounds (clock : Int64) :
    -9223372036855 ≤ nowMs clock ∧ nowMs clock ≤ 9223372036855 := by
  have hlow := Int64.le_toInt clock
  have hhigh := Int64.toInt_lt clock
  unfold nowMs
  rcases Int.le_total 0 clock.toInt with hpos | hneg
  · rw [Int.tdiv_eq_ediv_of_nonneg hpos]
    omega
  · rw [← Int.neg_neg clock.toInt, Int.neg_tdiv, Int.tdiv_eq_ediv_of_nonneg (by omega)]
    omega

/-- The fields of the breaker are what the log says. -/
structure Agrees (F S T : Int) (s : System) : Prop where
  failureThreshold : s.breaker.failureThreshold_ = F
  successThreshold : s.breaker.successThreshold_ = S
  timeoutMs : s.breaker.timeoutMs_ = T
  state : s.breaker.state_ = stateAfter s.log
  failureCount : s.breaker.state_ = .closed →
    s.breaker.failureCount_ = failures s.log ∧ s.breaker.failureCount_ < F
  successCount : s.breaker.state_ = .halfOpen →
    s.breaker.successCount_ = successes s.log ∧ s.breaker.successCount_ < S
  lastFailureTime : ∀ time, lastFailure s.log = some time → s.breaker.lastFailureTime_ = time
  hasFailed : s.breaker.state_ = .open → (lastFailure s.log).isSome
  bounds : -9223372036855 ≤ s.breaker.lastFailureTime_ ∧ s.breaker.lastFailureTime_ ≤ 9223372036855
  lawful : Each (Lawful F S T) s.log

/-! ### The operations in each state -/

section
variable {b : CircuitBreaker} (op : Op)

theorem perform_closed (hwas : b.state_ = .closed) : b.perform op =
    match op with
    | .success => (true, { b with failureCount_ := 0 })
    | .failure clock => (true, b.recordFailure clock)
    | _ => (true, b) := by
  cases op <;> simp [CircuitBreaker.perform, allow, CircuitBreaker.state, recordSuccess, hwas]

theorem perform_open (hwas : b.state_ = .open) : b.perform op =
    match op with
    | .allow clock => b.allow clock
    | .state clock => (true, (b.allow clock).2)
    | .success => (true, b)
    | .failure clock => (true, { b with lastFailureTime_ := nowMs clock }) := by
  cases op <;> simp [CircuitBreaker.perform, allow, CircuitBreaker.state,
    recordSuccess, recordFailure, hwas]
  split <;> rfl

theorem perform_halfOpen (hwas : b.state_ = .halfOpen) : b.perform op =
    match op with
    | .success => (true, b.recordSuccess)
    | .failure clock => (true, { b with lastFailureTime_ := nowMs clock, state_ := .open })
    | _ => (true, b) := by
  cases op <;> simp [CircuitBreaker.perform, allow, CircuitBreaker.state, recordFailure, hwas]

end

section
variable {F S T : Int} {s : System}

theorem expired_eq (h : Agrees F S T s) (hopen : s.breaker.state_ = .open) (clock : Int64) :
    s.breaker.expired clock = passed T s.log clock := by
  obtain ⟨time, htime⟩ := Option.isSome_iff_exists.mp (h.hasFailed hopen)
  have hnow := nowMs_bounds clock
  have hlast := h.bounds
  unfold expired passed
  rw [htime, ← h.lastFailureTime time htime, h.timeoutMs, int64_eq (by omega) (by omega)]

theorem Agrees.count_failure (h : Agrees F S T s) (hF : F < 2 ^ 31)
    (hwas : s.breaker.state_ = .closed) :
    int32 (s.breaker.failureCount_ + 1) = failures s.log + 1 := by
  obtain ⟨hcount, hbelow⟩ := h.failureCount hwas
  rw [← hcount, int32_eq (by omega) (by omega)]

theorem Agrees.count_success (h : Agrees F S T s) (hS : S < 2 ^ 31)
    (hwas : s.breaker.state_ = .halfOpen) :
    int32 (s.breaker.successCount_ + 1) = successes s.log + 1 := by
  obtain ⟨hcount, hbelow⟩ := h.successCount hwas
  rw [← hcount, int32_eq (by omega) (by omega)]

theorem Agrees.lawful_entry (h : Agrees F S T s) (hF : F < 2 ^ 31) (hS : S < 2 ^ 31) (op : Op) :
    Lawful F S T s.log
      ⟨op, s.breaker.state_, (s.breaker.perform op).2.state_, (s.breaker.perform op).1⟩ := by
  have hstate := h.state
  refine ⟨hstate, ?_, ?_⟩ <;> dsimp only [nextState, nextAllowed] <;> rw [← hstate]
  · cases hwas : s.breaker.state_ with
    | closed =>
      rw [perform_closed op hwas]
      cases op with
      | failure clock =>
        have hbelow := h.failureCount hwas
        have hreached : F ≤ (failures s.log : Int) + 1 ↔ (failures s.log : Int) + 1 = F := by omega
        simp [recordFailure, hwas, h.count_failure hF hwas, h.failureThreshold, hreached]
      | _ => exact hwas
    | «open» =>
      rw [perform_open op hwas]
      cases op <;> simp [allow, hwas, expired_eq h hwas] <;> split <;> simp [hwas]
    | halfOpen =>
      rw [perform_halfOpen op hwas]
      cases op with
      | success =>
        have hbelow := h.successCount hwas
        have hreached :
            S ≤ (successes s.log : Int) + 1 ↔ (successes s.log : Int) + 1 = S := by omega
        simp only [recordSuccess, hwas, h.count_success hS hwas, h.successThreshold, hreached]
        split <;> rfl
      | failure clock => rfl
      | _ => exact hwas
  · cases hwas : s.breaker.state_ with
    | closed =>
      rw [perform_closed op hwas]
      cases op <;> rfl
    | «open» =>
      rw [perform_open op hwas]
      cases op with
      | allow clock =>
        simp only [allow, hwas, expired_eq h hwas]
        split <;> simp_all
      | _ => rfl
    | halfOpen =>
      rw [perform_halfOpen op hwas]
      cases op <;> rfl

theorem Agrees.failureCount_perform (h : Agrees F S T s) (hF : 1 ≤ F ∧ F < 2 ^ 31) {op : Op}
    (hclosed : (s.perform op).breaker.state_ = .closed) :
    (s.perform op).breaker.failureCount_ = failures (s.perform op).log ∧
      (s.perform op).breaker.failureCount_ < F := by
  simp only [System.perform] at hclosed ⊢
  rw [failures_append, hclosed]
  cases hwas : s.breaker.state_ with
  | closed =>
    have hcount := h.failureCount hwas
    rw [perform_closed op hwas] at hclosed ⊢
    cases op with
    | failure clock =>
      simp only [recordFailure, hwas, h.count_failure hF.2 hwas, h.failureThreshold] at hclosed ⊢
      have hbelow : ¬F ≤ (failures s.log : Int) + 1 := by simpa using hclosed
      simpa [Entry.restartsFailures, Entry.isFailure] using hbelow
    | success =>
      have hpos : 0 < F := by omega
      simpa [Entry.restartsFailures] using hpos
    | _ => simpa [Entry.restartsFailures, Entry.isFailure] using hcount
  | «open» =>
    -- no operation leads from Open to Closed
    rw [perform_open op hwas] at hclosed
    cases op <;> simp_all [allow] <;> split at hclosed <;> simp_all
  | halfOpen =>
    rw [perform_halfOpen op hwas] at hclosed ⊢
    cases op with
    | success =>
      simp only [recordSuccess, hwas] at hclosed ⊢
      have hpos : 0 < F := by omega
      split at hclosed <;> simp_all [Entry.restartsFailures]
    | _ => simp_all

theorem Agrees.successCount_perform (h : Agrees F S T s) (hS : 1 ≤ S ∧ S < 2 ^ 31) {op : Op}
    (hhalf : (s.perform op).breaker.state_ = .halfOpen) :
    (s.perform op).breaker.successCount_ = successes (s.perform op).log ∧
      (s.perform op).breaker.successCount_ < S := by
  simp only [System.perform] at hhalf ⊢
  rw [successes_append, hhalf]
  cases hwas : s.breaker.state_ with
  | closed =>
    rw [perform_closed op hwas] at hhalf
    cases op with
    | failure clock =>
      simp only [recordFailure, hwas] at hhalf
      split at hhalf <;> cases hhalf
    | _ => simp_all
  | «open» =>
    rw [perform_open op hwas] at hhalf ⊢
    have hpos : 0 < S := by omega
    cases op <;> simp_all [allow, Entry.opensHalf] <;> split at hhalf <;> simp_all
  | halfOpen =>
    have hcount := h.successCount hwas
    rw [perform_halfOpen op hwas] at hhalf ⊢
    cases op with
    | success =>
      simp only [recordSuccess, hwas, h.count_success hS.2 hwas, h.successThreshold] at hhalf ⊢
      split at hhalf <;> rename_i hreached
      · cases hhalf
      · rw [if_neg hreached]
        simpa [Entry.opensHalf] using hreached
    | failure clock => cases hhalf
    | _ => simpa [Entry.opensHalf] using hcount

theorem perform_settings (b : CircuitBreaker) (op : Op) :
    (b.perform op).2.failureThreshold_ = b.failureThreshold_ ∧
      (b.perform op).2.successThreshold_ = b.successThreshold_ ∧
      (b.perform op).2.timeoutMs_ = b.timeoutMs_ ∧
      (b.perform op).2.lastFailureTime_ =
        match op with
        | .failure clock => nowMs clock
        | _ => b.lastFailureTime_ := by
  cases op <;> simp only [CircuitBreaker.perform, allow, CircuitBreaker.state,
    recordSuccess, recordFailure]
  all_goals
    repeat' split
    all_goals exact ⟨rfl, rfl, rfl, rfl⟩

theorem open_of_perform_open {b : CircuitBreaker} {op : Op}
    (hfailure : ∀ clock, op ≠ .failure clock) (h : (b.perform op).2.state_ = .open) :
    b.state_ = .open := by
  cases hwas : b.state_ with
  | closed =>
    rw [perform_closed op hwas] at h
    cases op <;> simp_all
  | «open» => rfl
  | halfOpen =>
    rw [perform_halfOpen op hwas] at h
    cases op with
    | success =>
      simp only [recordSuccess, hwas] at h
      split at h <;> cases h
    | _ => simp_all

theorem Agrees.perform (h : Agrees F S T s) (hF : 1 ≤ F ∧ F < 2 ^ 31) (hS : 1 ≤ S ∧ S < 2 ^ 31)
    (op : Op) : Agrees F S T (s.perform op) := by
  obtain ⟨hfailures, hsuccesses, htimeout, htime⟩ := perform_settings s.breaker op
  refine ⟨hfailures.trans h.failureThreshold, hsuccesses.trans h.successThreshold,
    htimeout.trans h.timeoutMs, by simp [System.perform], h.failureCount_perform hF,
    h.successCount_perform hS, ?_, ?_, ?_, ?_⟩
  · change ∀ time, lastFailure (s.log ++ [_]) = some time →
      (s.breaker.perform op).2.lastFailureTime_ = time
    rw [htime, lastFailure_append]
    cases op with
    | failure clock => simp
    | _ => exact h.lastFailureTime
  · intro hopen
    change (lastFailure (s.log ++ [_])).isSome
    rw [lastFailure_append]
    cases op with
    | failure clock => rfl
    | _ => exact h.hasFailed (open_of_perform_open (by simp) hopen)
  · change _ ≤ (s.breaker.perform op).2.lastFailureTime_ ∧
      (s.breaker.perform op).2.lastFailureTime_ ≤ _
    rw [htime]
    cases op with
    | failure clock => exact nowMs_bounds clock
    | _ => exact h.bounds
  · change Each _ (s.log ++ [_])
    rw [each_concat_iff]
    exact ⟨h.lawful, h.lawful_entry hF.2 hS.2 op⟩

theorem Agrees.setActive (h : Agrees F S T s) (active : Nat → Bool) :
    Agrees F S T { s with active } := { h with }

theorem agrees_step (hF : 1 ≤ F ∧ F < 2 ^ 31) (hS : 1 ≤ S ∧ S < 2 ^ 31) (s : System) (e : Event)
    (h : Agrees F S T s) : Agrees F S T (s.step e) := by
  cases e with
  | allow clock | state clock | recordSuccess | recordFailure clock => exact h.perform hF hS _
  | execute call clock => exact guarded_not h fun _ => (h.perform hF hS _).setActive _
  | finish call throws clock => exact guarded h fun _ => (h.perform hF hS _).setActive _

theorem agrees_construct (hF : 1 ≤ F) (timeoutSec : Int) :
    Agrees F S (int32 (timeoutSec * 1000)) { breaker := construct F S timeoutSec } := by
  refine ⟨rfl, rfl, rfl, rfl, ?_, by simp [construct], ?_, by simp [construct], ?_, each_nil _⟩
  · intro _
    exact ⟨rfl, by simpa [construct] using (by omega : (0 : Int) < F)⟩
  · intro time htime
    cases htime
  · exact ⟨by simp [construct], by simp [construct]⟩

end

/-- Over every sequence of operations, with any readings of the clock, the breaker moves exactly
as the breaker that decides from the log of the operations. -/
theorem circuit_breaker_follows_its_log (failureThreshold successThreshold timeoutSec : Int)
    (hfailure : 1 ≤ failureThreshold ∧ failureThreshold < 2 ^ 31)
    (hsuccess : 1 ≤ successThreshold ∧ successThreshold < 2 ^ 31)
    (htimeout : 0 ≤ timeoutSec ∧ timeoutSec * 1000 < 2 ^ 31) (events : List Event) :
    Each (Lawful failureThreshold successThreshold (timeoutSec * 1000))
        (run System.step { breaker := construct failureThreshold successThreshold timeoutSec }
          events).log ∧
      (run System.step { breaker := construct failureThreshold successThreshold timeoutSec }
        events).breaker.state_ =
        stateAfter (run System.step
          { breaker := construct failureThreshold successThreshold timeoutSec } events).log := by
  have hstart : Agrees failureThreshold successThreshold (int32 (timeoutSec * 1000))
      { breaker := construct failureThreshold successThreshold timeoutSec } :=
    agrees_construct hfailure.1 timeoutSec
  rw [int32_eq (by omega) (by omega)] at hstart
  have hend := invariant_always (agrees_step hfailure hsuccess) hstart events
  exact ⟨hend.lawful, hend.state⟩

/-- Two failures open the breaker, and a call behind the timeout closes it again. -/
def openAndClose : List Event :=
  [.recordFailure 1000000, .recordFailure 2000000, .allow 3000000, .execute 0 1002000000,
    .finish 0 false 1002000000]

theorem circuit_breaker_follows_its_log_openAndClose :
    Each (Lawful 2 1 1000) (run System.step { breaker := construct 2 1 1 } openAndClose).log ∧
      (run System.step { breaker := construct 2 1 1 } openAndClose).log.map Entry.now =
        [.closed, .open, .open, .halfOpen, .closed] := by
  refine ⟨?_, by decide⟩
  exact (circuit_breaker_follows_its_log 2 1 1 (by decide) (by decide) (by decide) openAndClose).1

end mymuduo.circuit_breaker
