-- The timers of an `EventLoop` (src/net/EventLoop.cc): `runAfter`, `runEvery` and
-- `cancel` from any thread, and `handleTimerRead`, which turns the wheel by one bucket
-- for each call. All of them read one clock, and time passes between the steps.
import Mymuduo.TimerQueue

open List runs words

namespace mymuduo.loop_timers

open timer_queue

/-! ## The model -/

def kTimerBuckets : Nat := 60

def kTimerTickMs : Int := 1000

def loopShape : Shape := ⟨kTimerBuckets, kTimerTickMs, by decide, by decide⟩

/-- A call of `runAfter` or `runEvery`, with its time in whole milliseconds: the `int`
that the code gets from the seconds. -/
inductive Request
  | runAfter (delayMs : Int)
  | runEvery (intervalMs : Int)
  deriving DecidableEq, Repr

def Request.delay : Request → Int
  | .runAfter delayMs => if delayMs < 0 then 0 else delayMs
  | .runEvery intervalMs => if intervalMs ≤ 0 then 1 else intervalMs

def Request.interval : Request → Int
  | .runAfter _ => 0
  | .runEvery intervalMs => if intervalMs ≤ 0 then 1 else intervalMs

/-- The functors that other threads queue. `call` is the number of the `runAfter` or
`runEvery` call. -/
inductive Functor
  | addTimer (call : Nat) (request : Request)
  | cancelTimer (call id : Nat)
  deriving DecidableEq, Repr

/-- `cancelled` is a `cancel` of the timer of a call that was processed before the
expiration of the timer. -/
inductive CallNotice
  | cancelled (call : Nat)
  | ran (call : Nat)
  deriving DecidableEq, Repr

/-- The calls of `runAfter` and `runEvery` are numbered. `idPtr` is the cell that the
functor of a call fills, with `none` for `-1`, and `returned` the `TimerId` that the
call gave back. `lastRead` is the time of the last `handleTimerRead`. -/
structure Loop where
  timerQueue_ : TimerQueue Nat
  clock : Int
  lastRead : Int
  pendingFunctors_ : List Functor
  calls : Nat
  idPtr : Nat → Option Nat
  returned : Nat → Option (Option Nat)
  log : List CallNotice

/-- One step. `runInLoop` and `cancelInLoop` are calls in the loop thread, wherever it runs
user code. `post` and `readId` are the two halves of a call in another thread, and
`otherQueue` is a timer of another loop. -/
inductive Event
  | advance (ms : Nat)
  | runInLoop (request : Request)
  | post (request : Request)
  | readId (call : Nat)
  | cancelInLoop (call : Nat)
  | cancelFrom (call : Nat)
  | runFunctor
  | handleTimerRead (howmany : Nat)
  | runTimer
  | otherQueue
  deriving DecidableEq, Repr

namespace Loop

def start : Loop where
  timerQueue_ := .start
  clock := 0
  lastRead := 0
  pendingFunctors_ := []
  calls := 0
  idPtr := fun _ => none
  returned := fun _ => none
  log := []

def addTimer (s : Loop) (call : Nat) (request : Request) : Loop :=
  { s with
    timerQueue_ :=
      s.timerQueue_.addTimer loopShape (some call) request.delay request.interval s.clock
    idPtr := Function.update s.idPtr call (some s.timerQueue_.nextId_) }

/-- The timer of the call has its expiration still ahead, or is not added yet. -/
def inTime (s : Loop) (call : Nat) : Bool :=
  match s.idPtr call with
  | none => true
  | some id => s.clock < (s.timerQueue_.timer id).expiration_

/-- The loop is done with a `cancel` of the timer of a call. -/
def noteCancel (s : Loop) (call : Nat) : Loop :=
  { s with log := if s.inTime call then s.log ++ [.cancelled call] else s.log }

def cancelTimer (s : Loop) (call id : Nat) : Loop :=
  { s.noteCancel call with timerQueue_ := s.timerQueue_.cancelTimer id }

/-- The next functor of the queue. The functors run in the order of their insertion. -/
def runFunctor (s : Loop) : Loop :=
  match s.pendingFunctors_ with
  | [] => s
  | .addTimer call request :: rest => { s with pendingFunctors_ := rest }.addTimer call request
  | .cancelTimer call id :: rest => { s with pendingFunctors_ := rest }.cancelTimer call id

/-- The callback of the next timer that the tick collected, if it runs. -/
def nextCall (s : Loop) : Option Nat :=
  match s.timerQueue_.expiredTimers with
  | [] => none
  | id :: _ =>
    if (s.timerQueue_.timer id).cancelled_ then none else (s.timerQueue_.timer id).callback_

/-- A step that cannot happen changes nothing. `handleTimerRead` comes the reported number
of periods behind the call before. -/
def step (s : Loop) : Event → Loop
  | .advance ms => { s with clock := s.clock + ms }
  | .runInLoop request =>
    { s.addTimer s.calls request with
      calls := s.calls + 1
      returned := Function.update s.returned s.calls (some (some s.timerQueue_.nextId_)) }
  | .post request =>
    { s with
      calls := s.calls + 1
      pendingFunctors_ := s.pendingFunctors_ ++ [.addTimer s.calls request] }
  | .readId call =>
    if call < s.calls ∧ s.returned call = none then
      { s with returned := Function.update s.returned call (some (s.idPtr call)) }
    else s
  | .cancelInLoop call =>
    match s.returned call with
    | some (some id) => s.cancelTimer call id
    | some none => s.noteCancel call
    | none => s
  | .cancelFrom call =>
    match s.returned call with
    | some (some id) => { s with pendingFunctors_ := s.pendingFunctors_ ++ [.cancelTimer call id] }
    | some none => s.noteCancel call
    | none => s
  | .runFunctor => if s.timerQueue_.expiredTimers = [] then s.runFunctor else s
  | .handleTimerRead howmany =>
    if s.timerQueue_.expiredTimers = [] ∧ 1 ≤ howmany ∧
        s.clock = s.lastRead + howmany * kTimerTickMs then
      { s with timerQueue_ := s.timerQueue_.tick loopShape s.clock, lastRead := s.clock }
    else s
  | .runTimer =>
    { s with
      timerQueue_ := s.timerQueue_.runTimer
      log := match s.nextCall with
        | some call => s.log ++ [.ran call]
        | none => s.log }
  | .otherQueue => { s with timerQueue_ := s.timerQueue_.step loopShape .otherQueue }

/-! ## The wheel below the loop -/

theorem queue_step (s : Loop) (e : Event) :
    (s.step e).timerQueue_ = s.timerQueue_ ∨
      ∃ op, (s.step e).timerQueue_ = s.timerQueue_.step loopShape op := by
  cases e with
  | advance ms | post request => exact Or.inl rfl
  | runInLoop request =>
    exact Or.inr ⟨.addTimer (some s.calls) request.delay request.interval s.clock, rfl⟩
  | readId call =>
    simp only [step]
    split <;> exact Or.inl rfl
  | cancelInLoop call =>
    simp only [step]
    split
    · rename_i id hid
      exact Or.inr ⟨.cancelTimer id, rfl⟩
    · exact Or.inl rfl
    · exact Or.inl rfl
  | cancelFrom call =>
    simp only [step]
    split <;> exact Or.inl rfl
  | runFunctor =>
    simp only [step]
    split
    · unfold runFunctor
      split
      · exact Or.inl rfl
      · rename_i call request rest hpending
        exact Or.inr ⟨.addTimer (some call) request.delay request.interval s.clock, rfl⟩
      · rename_i call id rest hpending
        exact Or.inr ⟨.cancelTimer id, rfl⟩
    · exact Or.inl rfl
  | handleTimerRead howmany =>
    simp only [step]
    split
    · rename_i hguard
      refine Or.inr ⟨.tick s.clock, ?_⟩
      simp only [TimerQueue.step, hguard.1, if_true]
    · exact Or.inl rfl
  | runTimer => exact Or.inr ⟨.runTimer, rfl⟩
  | otherQueue => exact Or.inr ⟨.otherQueue, rfl⟩

theorem queue_invariant {inv : TimerQueue Nat → Prop}
    (hstep : ∀ q op, inv q → inv (q.step loopShape op)) (s : Loop) (e : Event)
    (h : inv s.timerQueue_) : inv (s.step e).timerQueue_ := by
  rcases queue_step s e with hsame | ⟨op, hop⟩
  · rw [hsame]
    exact h
  · rw [hop]
    exact hstep _ op h

/-! ## No timer before its time -/

/-- `due` has a time for some calls: their timers fire once, and not before it. The calls are
told apart by their numbers, and none has a number that is still to come. -/
structure Promised (due : Nat → Option Int) (q : TimerQueue Nat) (clock : Int)
    (pending : List Functor) (calls : Nat) : Prop where
  collected : ∀ id ∈ q.expiredTimers, (q.timer id).repeat_ = false →
    (q.timer id).expiration_ ≤ clock
  timer : ∀ id call, (q.timer id).callback_ = some call → call < calls ∧
    ∀ time, due call = some time → (q.timer id).repeat_ = false ∧ time ≤ (q.timer id).expiration_
  waits : ∀ call request, .addTimer call request ∈ pending → call < calls ∧ due call = none
  later : ∀ call, calls ≤ call → due call = none

def Keeps (due : Nat → Option Int) (s : Loop) : Prop :=
  Promised due s.timerQueue_ s.clock s.pendingFunctors_ s.calls

variable {due : Nat → Option Int} {q q' : TimerQueue Nat} {clock : Int} {pending : List Functor}
  {calls : Nat} {s : Loop}

section Promised

variable (h : Promised due q clock pending calls)

include h

theorem Promised.next (time : Option Int) :
    Promised (Function.update due calls time) q clock pending (calls + 1) := by
  have hold : ∀ call, call ≠ calls → Function.update due calls time call = due call :=
    fun call hne => Function.update_of_ne hne _ _
  refine ⟨h.collected, ?_, ?_, ?_⟩
  · intro id call hcall
    obtain ⟨hlt, hdue⟩ := h.timer id call hcall
    rw [hold call (by omega)]
    exact ⟨by omega, hdue⟩
  · intro call request hcall
    obtain ⟨hlt, hdue⟩ := h.waits call request hcall
    rw [hold call (by omega)]
    exact ⟨by omega, hdue⟩
  · intro call hle
    rw [hold call (by omega)]
    exact h.later call (by omega)

theorem Promised.less {pending' : List Functor}
    (hless : ∀ call request, .addTimer call request ∈ pending' → .addTimer call request ∈ pending) :
    Promised due q clock pending' calls :=
  { h with waits := fun call request hcall => h.waits call request (hless call request hcall) }

theorem Promised.addTimer (hs : q.Sound) {call : Nat} (hcall : call < calls)
    {delayMs intervalMs : Int}
    (hdue : ∀ time, due call = some time → intervalMs = 0 ∧ time ≤ clock + delayMs) :
    Promised due (q.addTimer loopShape (some call) delayMs intervalMs clock) clock pending
      calls := by
  refine { h with collected := ?_, timer := ?_ }
  · intro id hid
    rw [TimerQueue.timer_addTimer, if_neg (hs.expired_lt id hid).ne]
    exact h.collected id hid
  · intro id call' hcallback
    rw [TimerQueue.timer_addTimer] at hcallback ⊢
    by_cases hid : id = q.nextId_
    · rw [if_pos hid] at hcallback ⊢
      obtain rfl := Option.some.inj hcallback
      refine ⟨hcall, fun time htime => ?_⟩
      obtain ⟨rfl, hle⟩ := hdue time htime
      exact ⟨rfl, hle⟩
    · rw [if_neg hid] at hcallback ⊢
      exact h.timer id call' hcallback

/-- What else may happen to the wheel: a periodic timer gets a new expiration, and timers that
are due are collected. -/
theorem Promised.wheel
    (htimer : ∀ id, (q'.timer id).callback_ = (q.timer id).callback_ ∧
      (q'.timer id).repeat_ = (q.timer id).repeat_ ∧
      ((q.timer id).repeat_ = false → (q'.timer id).expiration_ = (q.timer id).expiration_))
    (hexpired : ∀ id ∈ q'.expiredTimers, id ∈ q.expiredTimers ∨ (q.timer id).expiration_ ≤ clock) :
    Promised due q' clock pending calls := by
  refine { h with collected := ?_, timer := ?_ }
  · intro id hid hrepeat
    obtain ⟨-, hsame, hkept⟩ := htimer id
    rw [hsame] at hrepeat
    rw [hkept hrepeat]
    exact (hexpired id hid).elim (h.collected id · hrepeat) (fun hle => hle)
  · intro id call hcall
    obtain ⟨hcallback, hsame, hkept⟩ := htimer id
    rw [hcallback] at hcall
    refine ⟨(h.timer id call hcall).1, fun time htime => ?_⟩
    obtain ⟨hrepeat, hle⟩ := (h.timer id call hcall).2 time htime
    rw [hsame, hkept hrepeat]
    exact ⟨hrepeat, hle⟩

theorem Promised.cancelTimer (gone : Nat) :
    Promised due (q.cancelTimer gone) clock pending calls := by
  refine h.wheel (fun id => ?_) (fun id hid => ?_)
  · rw [TimerQueue.timer_cancelTimer]
    split <;> exact ⟨rfl, rfl, fun _ => rfl⟩
  · rw [(TimerQueue.cancelTimer_same q gone).2.1] at hid
    exact Or.inl hid

theorem Promised.tick (hs : q.Sound) :
    Promised due (q.tick loopShape clock) clock pending calls := by
  have hticked := TimerQueue.tick_ticked loopShape clock q (hs.nodup _)
  refine h.wheel (fun id => ?_) (fun id hid => ?_)
  · obtain ⟨-, hrepeat, hcallback⟩ := hticked.timer_same loopShape id
    refine ⟨hcallback, hrepeat, fun honce => ?_⟩
    rw [hticked.timer_of_once loopShape honce]
  · exact ((hticked.expired id).mp hid).imp_right
      (fun hfate => ((TimerQueue.collected_iff _ _).mp hfate.2).1)

theorem Promised.runTimer : Promised due q.runTimer clock pending calls := by
  cases hexp : q.expiredTimers with
  | nil => rwa [TimerQueue.runTimer_nil hexp]
  | cons first rest =>
    rw [TimerQueue.runTimer_cons hexp]
    exact h.wheel (fun _ => ⟨rfl, rfl, fun _ => rfl⟩)
      (fun _ hid => Or.inl (hexp ▸ mem_cons_of_mem _ hid))

end Promised

theorem keeps_runFunctor (h : s.Keeps due) (hs : s.timerQueue_.Sound) : s.runFunctor.Keeps due := by
  unfold runFunctor
  split
  · exact h
  · rename_i call request rest hpending
    obtain ⟨hcall, hdue⟩ := h.waits call request (hpending ▸ mem_cons_self)
    refine (h.addTimer hs hcall ?_).less (fun _ _ hmem => hpending ▸ mem_cons_of_mem _ hmem)
    rw [hdue]
    exact fun time htime => nomatch htime
  · rename_i call gone rest hpending
    exact (h.cancelTimer gone).less (fun _ _ hmem => hpending ▸ mem_cons_of_mem _ hmem)

theorem keeps_step (h : s.Keeps due) (hs : s.timerQueue_.Sound) (e : Event) :
    (s.step e).Keeps due := by
  have hnext := h.next none
  rw [← h.later s.calls (Nat.le_refl _), Function.update_eq_self] at hnext
  cases e with
  | advance ms =>
    refine { h with collected := fun id hid hrepeat => ?_ }
    exact (h.collected id hid hrepeat).trans (Int.le_add_of_nonneg_right (Int.natCast_nonneg ms))
  | runInLoop request =>
    refine hnext.addTimer hs (Nat.lt_succ_self _) ?_
    rw [h.later s.calls (Nat.le_refl _)]
    exact fun time htime => nomatch htime
  | post request =>
    refine { hnext with waits := fun call request' hmem => ?_ }
    rcases mem_append.mp hmem with hmem | hmem
    · exact hnext.waits call request' hmem
    · cases mem_singleton.mp hmem
      exact ⟨Nat.lt_succ_self _, h.later s.calls (Nat.le_refl _)⟩
  | readId call =>
    simp only [step]
    split <;> exact h
  | cancelInLoop call =>
    simp only [step]
    split
    · exact h.cancelTimer _
    · exact h
    · exact h
  | cancelFrom call =>
    simp only [step]
    split
    · refine h.less fun call' request hmem => ?_
      simpa using hmem
    · exact h
    · exact h
  | runFunctor => exact guarded h fun _ => keeps_runFunctor h hs
  | handleTimerRead howmany => exact guarded h fun _ => h.tick hs
  | runTimer => exact h.runTimer
  | otherQueue => exact { h with }

theorem Keeps.nextCall (h : s.Keeps due) {call : Nat} {time : Int} (hcall : s.nextCall = some call)
    (hdue : due call = some time) : time ≤ s.clock := by
  unfold Loop.nextCall at hcall
  split at hcall
  · cases hcall
  · rename_i id rest hexp
    obtain ⟨-, hcallback⟩ := Option.ite_none_left_eq_some.mp hcall
    obtain ⟨hrepeat, hle⟩ := (h.timer id call hcallback).2 time hdue
    exact hle.trans (h.collected id (hexp ▸ mem_cons_self) hrepeat)

end Loop

end mymuduo.loop_timers
