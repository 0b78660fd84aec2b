-- The thread pool (src/util/ThreadPool.h): one queue for each worker. A worker leaves
-- when it finds `running_` false and its queue empty, and a call that passed its test
-- of `running_` before can still push behind it.
import Mathlib.Algebra.Order.BigOperators.Group.Finset
import Mymuduo.Runs
import Mymuduo.Words

open runs words

namespace mymuduo.thread_pool

/-! ## The pool -/

/-- Where a worker is in `workerLoop`. A worker that is asleep is in `cv.wait`. -/
inductive Phase
  | looping
  | asleep
  | running (task : Nat)
  | exited
  deriving DecidableEq

structure Worker where
  phase : Phase := .looping
  queue : List Nat := []

inductive Route
  | submit
  | submitAffinity (key : Nat)
  deriving DecidableEq

/-- Where a call of `submit` or `submitAffinity` is. A task is named by the call that
brings it. -/
inductive Submission
  | notMade
  | admitted (route : Route)
  | picked (idx : Nat)
  | pushed (idx : Nat)
  | returned (accepted : Bool)
  deriving DecidableEq

/-- Where the call of `stop` is, with the index of its loop. -/
inductive Stop
  | notMade
  | waking (i : Nat)
  | joining (i : Nat)
  | returned
  deriving DecidableEq

/-- `executed` has the tasks that were run to their end or to an exception, in order. -/
structure Pool where
  numThreads_ : Nat
  maxQueueDepth_ : Nat
  running_ : Bool := true
  nextRoundRobin_ : Nat := 0
  droppedTasks_ : Nat := 0
  workers_ : Nat → Worker := fun _ => {}
  calls : Nat → Submission := fun _ => .notMade
  stopCall : Stop := .notMade
  executed : List Nat := []

/-- One atomic step of one thread. `wake` is a notification or a spurious wakeup. -/
inductive Event
  | submit (call : Nat) (route : Route)
  | pick (call : Nat)
  | enqueue (call : Nat)
  | notify (call : Nat)
  | workerLoop (w : Nat)
  | wake (w : Nat)
  | runTask (w : Nat)
  | stop
  | stopWake
  | stopJoin
  deriving DecidableEq

namespace Pool

def setCall (p : Pool) (call : Nat) (at_ : Submission) : Pool :=
  { p with calls := Function.update p.calls call at_ }

def setWorker (p : Pool) (w : Nat) (worker : Worker) : Pool :=
  { p with workers_ := Function.update p.workers_ w worker }

/-- The test of `running_`, outside any lock. -/
def submit (p : Pool) (call : Nat) (route : Route) : Pool :=
  if p.calls call = .notMade then
    if !p.running_ || p.numThreads_ = 0 then p.setCall call (.returned false)
    else p.setCall call (.admitted route)
  else p

/-- `fetch_add(1) % numThreads_`, or the key -/
def pick (p : Pool) (call : Nat) : Pool :=
  match p.calls call with
  | .admitted .submit =>
    { p.setCall call (.picked (p.nextRoundRobin_ % p.numThreads_)) with
      nextRoundRobin_ := add64 p.nextRoundRobin_ 1 }
  | .admitted (.submitAffinity key) => p.setCall call (.picked (key % p.numThreads_))
  | _ => p

/-- The locked part of `enqueue`, which does not look at `running_`. -/
def enqueue (p : Pool) (call : Nat) : Pool :=
  match p.calls call with
  | .picked idx =>
    if p.maxQueueDepth_ ≤ (p.workers_ idx).queue.length then
      { p.setCall call (.returned false) with droppedTasks_ := add64 p.droppedTasks_ 1 }
    else
      (p.setWorker idx { p.workers_ idx with queue := (p.workers_ idx).queue ++ [call] }).setCall
        call
        (.pushed idx)
  | _ => p

/-- A worker in `cv.wait` is back at its predicate. -/
def wake (p : Pool) (w : Nat) : Pool :=
  if (p.workers_ w).phase = .asleep then p.setWorker w { p.workers_ w with phase := .looping }
  else p

def notify (p : Pool) (call : Nat) : Pool :=
  match p.calls call with
  | .pushed idx => (p.wake idx).setCall call (.returned true)
  | _ => p

/-- The locked part of `workerLoop`: the predicate of the wait, the exit, and the front of
the queue. -/
def workerLoop (p : Pool) (w : Nat) : Pool :=
  if w < p.numThreads_ ∧ (p.workers_ w).phase = .looping then
    match (p.workers_ w).queue with
    | [] => p.setWorker w ⟨if p.running_ then .asleep else .exited, []⟩
    | task :: rest => p.setWorker w ⟨.running task, rest⟩
  else p

/-- `task()`, with its exceptions caught. -/
def runTask (p : Pool) (w : Nat) : Pool :=
  match (p.workers_ w).phase with
  | .running task =>
    { p.setWorker w { p.workers_ w with phase := .looping } with executed := p.executed ++ [task] }
  | _ => p

/-- `running_.exchange(false)`. The pool is stopped once. -/
def stop (p : Pool) : Pool :=
  if p.stopCall = .notMade then
    { p with running_ := false, stopCall := if p.running_ then .waking 0 else .returned }
  else p

/-- The first loop of `stop`: `notify_all` under the lock of a worker. -/
def stopWake (p : Pool) : Pool :=
  match p.stopCall with
  | .waking i =>
    if i < p.numThreads_ then { p.wake i with stopCall := .waking (i + 1) }
    else { p with stopCall := .joining 0 }
  | _ => p

/-- The second loop: `join` waits for a worker that has not left. -/
def stopJoin (p : Pool) : Pool :=
  match p.stopCall with
  | .joining i =>
    if i < p.numThreads_ then
      if (p.workers_ i).phase = .exited then { p with stopCall := .joining (i + 1) } else p
    else { p with stopCall := .returned }
  | _ => p

def step (p : Pool) : Event → Pool
  | .submit call route => p.submit call route
  | .pick call => p.pick call
  | .enqueue call => p.enqueue call
  | .notify call => p.notify call
  | .workerLoop w => p.workerLoop w
  | .wake w => p.wake w
  | .runTask w => p.runTask w
  | .stop => p.stop
  | .stopWake => p.stopWake
  | .stopJoin => p.stopJoin

end Pool

def started (numThreads_ maxQueueDepth_ : Nat) : Pool := { numThreads_, maxQueueDepth_ }

/-! ## The property -/

def Submission.handedOver : Submission → Bool
  | .pushed _ => true
  | .returned accepted => accepted
  | _ => false

/-- How often a worker has the task, in its queue or in its hands. -/
def Worker.held (worker : Worker) (task : Nat) : Nat :=
  worker.queue.count task + if worker.phase = .running task then 1 else 0

def Worker.inHand (worker : Worker) : List Nat :=
  match worker.phase with
  | .running task => [task]
  | _ => []

/-- The tasks of a worker, the oldest first. -/
def Worker.line (worker : Worker) : List Nat := worker.inHand ++ worker.queue

namespace Pool

/-- `stop` has returned, and no call is under way. -/
structure Over (p : Pool) : Prop where
  stopped : p.stopCall = .returned
  settled : ∀ call, p.calls call = .notMade ∨ ∃ accepted, p.calls call = .returned accepted

/-- Every task that was accepted has been executed, once. -/
def RunsAccepted (p : Pool) : Prop :=
  ∀ call, p.calls call = .returned true → p.executed.count call = 1

/-- A push finds its worker still there. -/
def PushesInTime (p : Pool) : Event → Prop
  | .enqueue call => ∀ idx, p.calls call = .picked idx →
    (p.workers_ idx).queue.length < p.maxQueueDepth_ → (p.workers_ idx).phase ≠ .exited
  | _ => True

def Drained (p : Pool) : Prop :=
  ∀ w, (p.workers_ w).phase = .exited → (p.workers_ w).queue = []

def held (p : Pool) (task : Nat) : Nat := ∑ w ∈ Finset.range p.numThreads_, (p.workers_ w).held task

/-- A task is somewhere exactly once when its call has handed it over, and nowhere before. -/
structure Conserved (p : Pool) : Prop where
  admitted : ∀ call route, p.calls call = .admitted route → 0 < p.numThreads_
  picked : ∀ call idx, p.calls call = .picked idx → idx < p.numThreads_
  inRange : ∀ w, (p.workers_ w).phase ≠ .looping → w < p.numThreads_
  once : ∀ call, p.held call + p.executed.count call = if (p.calls call).handedOver then 1 else 0

/-- The workers that `stop` has joined have left. -/
structure Joined (p : Pool) : Prop where
  running : p.stopCall = .notMade → p.running_ = true
  joining : ∀ i, p.stopCall = .joining i → ∀ w < i, (p.workers_ w).phase = .exited
  returned : p.stopCall = .returned → ∀ w < p.numThreads_, (p.workers_ w).phase = .exited

/-! ## What a change of one call or one worker does -/

variable {p : Pool}

@[simp] theorem setCall_calls_self (p : Pool) (call : Nat) (next : Submission) :
    (p.setCall call next).calls call = next := Function.update_self ..

variable {call : Nat}

theorem setCall_calls_of_ne (p : Pool) {other : Nat} (h : other ≠ call) (next : Submission) :
    (p.setCall call next).calls other = p.calls other := Function.update_of_ne h ..

@[simp] theorem setCall_workers_ (p : Pool) (call : Nat) (next : Submission) :
    (p.setCall call next).workers_ = p.workers_ := rfl

@[simp] theorem setCall_held (p : Pool) (call : Nat) (next : Submission) (task : Nat) :
    (p.setCall call next).held task = p.held task := rfl

@[simp] theorem setCall_executed (p : Pool) (call : Nat) (next : Submission) :
    (p.setCall call next).executed = p.executed := rfl

@[simp] theorem setWorker_workers_self (p : Pool) (w : Nat) (worker : Worker) :
    (p.setWorker w worker).workers_ w = worker := Function.update_self ..

theorem setWorker_workers_of_ne (p : Pool) {w v : Nat} (h : v ≠ w) (worker : Worker) :
    (p.setWorker w worker).workers_ v = p.workers_ v := Function.update_of_ne h ..

@[simp] theorem setWorker_calls (p : Pool) (w : Nat) (worker : Worker) :
    (p.setWorker w worker).calls = p.calls := rfl

@[simp] theorem setWorker_executed (p : Pool) (w : Nat) (worker : Worker) :
    (p.setWorker w worker).executed = p.executed := rfl

theorem forall_setCall {P : Nat → Submission → Prop} {next : Submission} (hnext : P call next)
    (h : ∀ other, P other (p.calls other)) (other : Nat) :
    P other ((p.setCall call next).calls other) :=
  (Function.forall_update_iff p.calls P).mpr ⟨hnext, fun other _ => h other⟩ other

theorem held_setWorker (p : Pool) {w : Nat} (hw : w < p.numThreads_) (worker : Worker)
    (task : Nat) :
    (p.setWorker w worker).held task + (p.workers_ w).held task =
      p.held task + worker.held task := by
  have hmem : w ∈ Finset.range p.numThreads_ := Finset.mem_range.mpr hw
  have hold : p.held task = _ :=
    (Finset.add_sum_erase _ (fun v => (p.workers_ v).held task) hmem).symm
  have hnew : (p.setWorker w worker).held task = _ :=
    (Finset.add_sum_erase _ (fun v => ((p.setWorker w worker).workers_ v).held task) hmem).symm
  have hrest : ∀ v ∈ (Finset.range p.numThreads_).erase w,
      ((p.setWorker w worker).workers_ v).held task = (p.workers_ v).held task := by
    intro v hv
    rw [setWorker_workers_of_ne p (Finset.ne_of_mem_erase hv)]
  rw [Finset.sum_congr rfl hrest, setWorker_workers_self] at hnew
  omega

variable {w : Nat} {worker : Worker}

theorem held_setWorker_of_held_eq {task : Nat} (h : worker.held task = (p.workers_ w).held task) :
    (p.setWorker w worker).held task = p.held task := by
  refine Finset.sum_congr rfl fun v _ => ?_
  rcases eq_or_ne v w with rfl | hv
  · rw [setWorker_workers_self, h]
  · rw [setWorker_workers_of_ne p hv]

theorem Conserved.of_same {running_ : Bool} {nextRoundRobin_ droppedTasks_ : Nat} {stopCall : Stop}
    (h : p.Conserved) : Conserved { p with running_, nextRoundRobin_, droppedTasks_, stopCall } :=
  { h with }

theorem Conserved.inRange_setWorker (h : p.Conserved)
    (hrange : worker.phase ≠ .looping → w < p.numThreads_) :
    ∀ v, ((p.setWorker w worker).workers_ v).phase ≠ .looping → v < p.numThreads_ :=
  (Function.forall_update_iff p.workers_ (fun _ worker => worker.phase ≠ .looping → _)).mpr
    ⟨hrange, fun v _ => h.inRange v⟩

theorem Conserved.setCall (h : p.Conserved) {next : Submission}
    (hsame : next.handedOver = (p.calls call).handedOver)
    (hadmitted : ∀ route, next = .admitted route → 0 < p.numThreads_)
    (hpicked : ∀ idx, next = .picked idx → idx < p.numThreads_) :
    (p.setCall call next).Conserved := by
  refine ⟨?_, ?_, h.inRange, ?_⟩
  · exact forall_setCall (P := fun _ at_ => ∀ route, at_ = .admitted route → 0 < p.numThreads_)
      hadmitted h.admitted
  · exact forall_setCall (P := fun _ at_ => ∀ idx, at_ = .picked idx → idx < p.numThreads_)
      hpicked h.picked
  · refine forall_setCall (P := fun other at_ =>
      p.held other + p.executed.count other = if at_.handedOver then 1 else 0) ?_ h.once
    rw [hsame]
    exact h.once call

theorem Conserved.setWorker (h : p.Conserved) (hrange : worker.phase ≠ .looping → w < p.numThreads_)
    (hheld : ∀ task, worker.held task = (p.workers_ w).held task) :
    (p.setWorker w worker).Conserved := by
  refine ⟨h.admitted, h.picked, ?_, ?_⟩
  · exact h.inRange_setWorker hrange
  · intro call
    rw [held_setWorker_of_held_eq (hheld call)]
    exact h.once call

/-! ## Tasks are conserved -/

theorem Conserved.submit (h : p.Conserved) (call : Nat) (route : Route) :
    (p.submit call route).Conserved := by
  unfold Pool.submit
  split
  case isFalse => exact h
  case isTrue hnotMade =>
    split
    case isTrue =>
      exact h.setCall (by rw [hnotMade]; rfl) (by simp) (by simp)
    case isFalse hopen =>
      have hthreads : 0 < p.numThreads_ := by
        simp only [Bool.or_eq_true, decide_eq_true_eq, not_or] at hopen
        exact Nat.pos_of_ne_zero hopen.2
      exact h.setCall (by rw [hnotMade]; rfl) (fun _ _ => hthreads) (by simp)

theorem Conserved.setPicked (h : p.Conserved) {route : Route}
    (hcall : p.calls call = .admitted route) (number : Nat) :
    (p.setCall call (.picked (number % p.numThreads_))).Conserved := by
  refine h.setCall (by rw [hcall]; rfl) (by simp) ?_
  intro idx hidx
  obtain rfl : number % p.numThreads_ = idx := by simpa using hidx
  exact Nat.mod_lt _ (h.admitted call route hcall)

theorem Conserved.pick (h : p.Conserved) (call : Nat) : (p.pick call).Conserved := by
  unfold Pool.pick
  split
  · rename_i hcall
    exact (h.setPicked hcall p.nextRoundRobin_).of_same
  · rename_i hcall
    exact h.setPicked hcall _
  · exact h

theorem held_append (worker : Worker) (call task : Nat) :
    Worker.held { worker with queue := worker.queue ++ [call] } task =
      worker.held task + if call = task then 1 else 0 := by
  simp only [Worker.held, List.count_append, List.count_singleton, beq_iff_eq]
  omega

theorem Conserved.enqueue (h : p.Conserved) (call : Nat) : (p.enqueue call).Conserved := by
  unfold Pool.enqueue
  split
  case h_2 => exact h
  case h_1 idx hcall =>
    split
    case isTrue =>
      have hrefused : (p.setCall call (.returned false)).Conserved :=
        h.setCall (by rw [hcall]; rfl) (by simp) (by simp)
      exact hrefused.of_same
    case isFalse =>
      have hidx : idx < p.numThreads_ := h.picked call idx hcall
      refine ⟨?_, ?_, ?_, ?_⟩
      · intro _ _ _
        exact Nat.zero_lt_of_lt hidx
      · exact forall_setCall (P := fun _ at_ => ∀ idx, at_ = .picked idx → idx < p.numThreads_)
          nofun h.picked
      · exact h.inRange_setWorker fun _ => hidx
      · intro task
        have hheld := held_setWorker p hidx
          { p.workers_ idx with queue := (p.workers_ idx).queue ++ [call] } task
        rw [held_append] at hheld
        have honce := h.once task
        rcases eq_or_ne task call with rfl | hne
        · rw [hcall] at honce
          simp only [setCall_held, setCall_calls_self, setCall_executed, setWorker_executed,
            Submission.handedOver, if_true, Bool.false_eq_true, if_false] at honce hheld ⊢
          omega
        · rw [if_neg hne.symm] at hheld
          simp only [setCall_held, setCall_calls_of_ne _ hne, setCall_executed, setWorker_executed,
            setWorker_calls] at honce hheld ⊢
          omega

theorem Conserved.wake (h : p.Conserved) (w : Nat) : (p.wake w).Conserved := by
  unfold Pool.wake
  split
  case isFalse => exact h
  case isTrue hasleep =>
    refine h.setWorker (by simp) ?_
    intro task
    simp [Worker.held, hasleep]

theorem wake_calls (p : Pool) (w : Nat) : (p.wake w).calls = p.calls := by
  unfold wake
  split <;> rfl

theorem Conserved.notify (h : p.Conserved) (call : Nat) : (p.notify call).Conserved := by
  unfold Pool.notify
  split
  case h_2 => exact h
  case h_1 idx hcall =>
    refine (h.wake idx).setCall ?_ (by simp) (by simp)
    rw [wake_calls, hcall]
    rfl

/-- A worker takes the front of its queue into its hands, or has nothing to take. -/
theorem Conserved.workerLoop (h : p.Conserved) (w : Nat) : (p.workerLoop w).Conserved := by
  unfold Pool.workerLoop
  split
  case isFalse => exact h
  case isTrue hw =>
    obtain ⟨hrange, hlooping⟩ := hw
    split
    case h_1 hqueue =>
      refine h.setWorker (fun _ => hrange) ?_
      intro task
      cases hrunning : p.running_ <;> simp [Worker.held, hqueue, hlooping]
    case h_2 front rest hqueue =>
      refine h.setWorker (fun _ => hrange) ?_
      intro task
      simp [Worker.held, hqueue, hlooping, List.count_cons]

theorem Conserved.runTask (h : p.Conserved) (w : Nat) : (p.runTask w).Conserved := by
  unfold Pool.runTask
  split
  case h_2 => exact h
  case h_1 task hphase =>
    have hw : w < p.numThreads_ := h.inRange w (by rw [hphase]; simp)
    refine ⟨h.admitted, h.picked, ?_, ?_⟩
    · exact h.inRange_setWorker fun _ => hw
    · intro call
      have hheld := held_setWorker p hw { p.workers_ w with phase := .looping } call
      have honce := h.once call
      simp only [Worker.held, hphase, Phase.running.injEq, reduceCtorEq, if_false] at hheld
      change (p.setWorker w { p.workers_ w with phase := .looping }).held call +
        (p.executed ++ [task]).count call = if (p.calls call).handedOver then 1 else 0
      simp only [List.count_append, List.count_singleton, beq_iff_eq]
      omega

theorem conserved_step (p : Pool) (e : Event) (h : p.Conserved) : (p.step e).Conserved := by
  cases e with
  | submit call route => exact h.submit call route
  | pick call => exact h.pick call
  | enqueue call => exact h.enqueue call
  | notify call => exact h.notify call
  | workerLoop w => exact h.workerLoop w
  | wake w => exact h.wake w
  | runTask w => exact h.runTask w
  | stop =>
    simp only [step, Pool.stop]
    split <;> exact h.of_same
  | stopWake =>
    simp only [step, Pool.stopWake]
    split
    · split
      · exact (h.wake _).of_same
      · exact h.of_same
    · exact h
  | stopJoin =>
    simp only [step, Pool.stopJoin]
    split
    · split
      · split <;> exact h.of_same
      · exact h.of_same
    · exact h

/-! ## What a step does to a worker -/

/-- A worker goes on in its loop, with the tasks that it had. -/
structure GoesOn (worker worker' : Worker) : Prop where
  before : worker.phase ≠ .exited
  after : worker'.phase ≠ .exited
  line : worker'.line = worker.line
  queue : worker'.queue.length ≤ worker.queue.length

theorem wake_worker (p : Pool) (w v : Nat) :
    (p.wake w).workers_ v = p.workers_ v ∨ GoesOn (p.workers_ v) ((p.wake w).workers_ v) := by
  unfold wake
  split
  case isFalse => exact Or.inl rfl
  case isTrue hasleep =>
    rcases eq_or_ne v w with rfl | hne
    · rw [setWorker_workers_self]
      exact Or.inr ⟨by simp [hasleep], by simp, by simp [Worker.line, Worker.inHand, hasleep],
        le_rfl⟩
    · exact Or.inl (setWorker_workers_of_ne p hne _)

/-- A worker stays as it is, goes on, leaves with an empty queue, has done its task, or gets
a task. -/
theorem worker_step (p : Pool) (e : Event) (v : Nat) :
    (p.step e).workers_ v = p.workers_ v ∨
    GoesOn (p.workers_ v) ((p.step e).workers_ v) ∨
    (p.workers_ v = ⟨.looping, []⟩ ∧ (p.step e).workers_ v = ⟨.exited, []⟩) ∨
    (∃ task, e = .runTask v ∧ (p.workers_ v).phase = .running task ∧
      (p.step e).workers_ v = ⟨.looping, (p.workers_ v).queue⟩) ∨
    ∃ call, e = .enqueue call ∧ p.calls call = .picked v ∧
      (p.workers_ v).queue.length < p.maxQueueDepth_ ∧
      (p.step e).workers_ v = ⟨(p.workers_ v).phase, (p.workers_ v).queue ++ [call]⟩ := by
  cases e with
  | submit call route =>
    left
    simp only [step, submit]
    split
    · split <;> rfl
    · rfl
  | pick call =>
    left
    simp only [step, pick]
    split <;> rfl
  | enqueue call =>
    simp only [step, enqueue]
    split
    case h_2 => exact Or.inl rfl
    case h_1 idx hcall =>
      split
      case isTrue => exact Or.inl rfl
      case isFalse hroom =>
        rcases eq_or_ne v idx with rfl | hne
        · exact Or.inr (Or.inr (Or.inr (Or.inr
            ⟨call, rfl, hcall, Nat.not_le.mp hroom, setWorker_workers_self ..⟩)))
        · exact Or.inl (setWorker_workers_of_ne p hne _)
  | notify call =>
    simp only [step, notify]
    split
    case h_1 idx _ => exact (wake_worker p idx v).imp_right Or.inl
    case h_2 => exact Or.inl rfl
  | workerLoop w =>
    simp only [step, workerLoop]
    split
    case isFalse => exact Or.inl rfl
    case isTrue hw =>
      rcases eq_or_ne v w with rfl | hne
      · have hlooping : (p.workers_ v).phase ≠ .exited := by simp [hw.2]
        split
        case h_1 hqueue =>
          rw [setWorker_workers_self]
          cases p.running_ with
          | false => exact Or.inr (Or.inr (Or.inl ⟨by rw [← hw.2, ← hqueue], rfl⟩))
          | true =>
            exact Or.inr (Or.inl ⟨hlooping, by simp,
              by simp [Worker.line, Worker.inHand, hw.2, hqueue], Nat.zero_le _⟩)
        case h_2 hqueue =>
          rw [setWorker_workers_self]
          exact Or.inr (Or.inl ⟨hlooping, by simp,
            by simp [Worker.line, Worker.inHand, hw.2, hqueue], by simp [hqueue]⟩)
      · left
        split <;> exact setWorker_workers_of_ne p hne _
  | wake w => exact (wake_worker p w v).imp_right Or.inl
  | runTask w =>
    simp only [step, runTask]
    split
    case h_2 => exact Or.inl rfl
    case h_1 task hphase =>
      rcases eq_or_ne v w with rfl | hne
      · exact Or.inr (Or.inr (Or.inr (Or.inl ⟨task, rfl, hphase, setWorker_workers_self ..⟩)))
      · exact Or.inl (setWorker_workers_of_ne p hne _)
  | stop =>
    left
    simp only [step, stop]
    split <;> rfl
  | stopWake =>
    simp only [step, stopWake]
    split
    case h_2 => exact Or.inl rfl
    case h_1 i _ =>
      split
      case isTrue => exact (wake_worker p i v).imp_right Or.inl
      case isFalse => exact Or.inl rfl
  | stopJoin =>
    left
    simp only [step, stopJoin]
    split
    · split
      · split <;> rfl
      · rfl
    · rfl

theorem exited_step {v : Nat} (h : (p.workers_ v).phase = .exited) (e : Event) :
    ((p.step e).workers_ v).phase = .exited := by
  rcases worker_step p e v with
    hsame | hgoes | ⟨hlooping, -⟩ | ⟨task, -, hphase, -⟩ | ⟨call, -, -, -, hgets⟩
  · rw [hsame, h]
  · exact absurd h hgoes.before
  · rw [hlooping] at h
    cases h
  · rw [hphase] at h
    cases h
  · rw [hgets]
    exact h

/-- A step leaves tasks behind a worker that has left exactly when it pushes them there. -/
theorem drained_step (p : Pool) (e : Event) :
    (p.step e).Drained ↔ p.Drained ∧ p.PushesInTime e := by
  constructor
  · intro h
    constructor
    · intro v hexited
      have hnext := h v (exited_step hexited e)
      rcases worker_step p e v with
        hsame | hgoes | ⟨hlooping, -⟩ | ⟨task, -, hphase, -⟩ | ⟨call, -, -, -, hgets⟩
      · rwa [hsame] at hnext
      · exact absurd hexited hgoes.before
      · rw [hlooping]
      · rw [hphase] at hexited
        cases hexited
      · rw [hgets] at hnext
        simp at hnext
    · cases e with
      | enqueue call =>
        intro idx hcall hroom hexited
        have hnext := h idx (exited_step hexited _)
        simp [step, enqueue, hcall, if_neg (Nat.not_le.mpr hroom)] at hnext
      | _ => trivial
  · rintro ⟨h, hpush⟩ v hexited
    rcases worker_step p e v with
      hsame | hgoes | ⟨-, hleft⟩ | ⟨task, -, -, hdone⟩ | ⟨call, rfl, hcall, hroom, hgets⟩
    · rw [hsame] at hexited ⊢
      exact h v hexited
    · exact absurd hexited hgoes.after
    · rw [hleft]
    · rw [hdone] at hexited
      cases hexited
    · rw [hgets] at hexited
      exact absurd hexited (hpush v hcall hroom)

/-! ## The workers are joined -/

theorem Joined.keep {q : Pool} (h : p.Joined)
    (hsame : (q.stopCall = p.stopCall ∧ q.running_ = p.running_) ∧ q.numThreads_ = p.numThreads_)
    (hexited : ∀ w, (p.workers_ w).phase = .exited → (q.workers_ w).phase = .exited) :
    q.Joined := by
  obtain ⟨⟨hstop, hrunning⟩, hthreads⟩ := hsame
  refine ⟨?_, ?_, ?_⟩
  · rw [hstop, hrunning]
    exact h.running
  · intro i hi w hw
    exact hexited w (h.joining i (hstop ▸ hi) w hw)
  · intro hreturned w hw
    exact hexited w (h.returned (hstop ▸ hreturned) w (hthreads ▸ hw))

theorem step_same (p : Pool) (e : Event) :
    (p.step e).numThreads_ = p.numThreads_ ∧ (p.step e).maxQueueDepth_ = p.maxQueueDepth_ := by
  cases e <;> simp only [step, submit, pick, enqueue, notify, workerLoop, wake, runTask, stop,
    stopWake, stopJoin]
  all_goals
    repeat' split
    all_goals exact ⟨rfl, rfl⟩

theorem stopCall_step (p : Pool) {e : Event} (h : e ∉ [.stop, .stopWake, .stopJoin]) :
    (p.step e).stopCall = p.stopCall ∧ (p.step e).running_ = p.running_ := by
  cases e with
  | stop | stopWake | stopJoin => simp at h
  | _ =>
    simp only [step, submit, pick, enqueue, notify, workerLoop, wake, runTask]
    repeat' split
    all_goals exact ⟨rfl, rfl⟩

theorem joined_step (p : Pool) (e : Event) (h : p.Joined) : (p.step e).Joined := by
  have hexited := fun w (hw : (p.workers_ w).phase = .exited) => exited_step hw e
  cases e with
  | stop =>
    simp only [step, stop]
    split
    case isFalse => exact h
    case isTrue hnotMade =>
      have hrunning := h.running hnotMade
      exact ⟨by simp [hrunning], by simp [hrunning], by simp [hrunning]⟩
  | stopWake =>
    simp only [step, stopWake]
    split
    case h_2 => exact h
    case h_1 i _ =>
      split
      case isTrue => exact ⟨by simp, by simp, by simp⟩
      case isFalse => exact ⟨by simp, by simp, by simp⟩
  | stopJoin =>
    simp only [step, stopJoin]
    split
    case h_2 => exact h
    case h_1 i hjoining =>
      have hbefore := h.joining i hjoining
      split
      case isFalse hall =>
        refine ⟨by simp, by simp, fun _ w hw => hbefore w ?_⟩
        exact Nat.lt_of_lt_of_le hw (Nat.not_lt.mp hall)
      case isTrue =>
        split
        case isFalse => exact h
        case isTrue hexit =>
          refine ⟨by simp, ?_, by simp⟩
          intro j hj w hw
          obtain rfl : i + 1 = j := by simpa using hj
          rcases Nat.lt_succ_iff_lt_or_eq.mp hw with hlt | rfl
          · exact hbefore w hlt
          · exact hexit
  | _ => exact h.keep ⟨stopCall_step p (by simp), (step_same p _).1⟩ hexited

/-! ## Accepted tasks -/

theorem conserved_started (numThreads_ maxQueueDepth_ : Nat) :
    (started numThreads_ maxQueueDepth_).Conserved := by
  refine ⟨by simp [started], by simp [started], by simp [started], ?_⟩
  intro call
  simp [started, held, Worker.held, Submission.handedOver]

theorem joined_started (numThreads_ maxQueueDepth_ : Nat) :
    (started numThreads_ maxQueueDepth_).Joined :=
  ⟨by simp [started], by simp [started], by simp [started]⟩

theorem runsAccepted_iff_drained (hover : p.Over) (hjoined : p.Joined) (h : p.Conserved) :
    p.RunsAccepted ↔ p.Drained := by
  have hexited := hjoined.returned hover.stopped
  constructor
  · intro hruns w hw
    have hrange : w < p.numThreads_ := h.inRange w (by rw [hw]; simp)
    by_contra hqueue
    obtain ⟨task, htask⟩ := List.exists_mem_of_ne_nil _ hqueue
    have hpos : 0 < p.held task := by
      refine Finset.sum_pos' (fun _ _ => Nat.zero_le _) ⟨w, Finset.mem_range.mpr hrange, ?_⟩
      exact Nat.add_pos_left (List.count_pos_iff.mpr htask) _
    have honce := h.once task
    rcases hover.settled task with hcall | ⟨accepted, hcall⟩
    · rw [hcall] at honce
      simp [Submission.handedOver] at honce
      omega
    · cases accepted with
      | false =>
        rw [hcall] at honce
        simp [Submission.handedOver] at honce
        omega
      | true =>
        have hcount := hruns task hcall
        rw [hcall] at honce
        simp [Submission.handedOver] at honce
        omega
  · intro hdrained task hcall
    have hnone : p.held task = 0 := by
      refine Finset.sum_eq_zero fun w hw => ?_
      have hleft := hexited w (Finset.mem_range.mp hw)
      simp [Worker.held, hleft, hdrained w hleft]
    have honce := h.once task
    rw [hcall, hnone, Nat.zero_add] at honce
    exact honce

/-- When `stop` and all calls have returned, every accepted task has been executed exactly
once if and only if no call pushed its task behind a worker that had left. -/
theorem accepted_tasks_executed_once_iff (numThreads_ maxQueueDepth_ : Nat) (events : List Event)
    (hover : (run step (started numThreads_ maxQueueDepth_) events).Over) :
    (run step (started numThreads_ maxQueueDepth_) events).RunsAccepted ↔
      Meets step PushesInTime (started numThreads_ maxQueueDepth_) events := by
  have hjoined := invariant_always joined_step (joined_started numThreads_ maxQueueDepth_) events
  have hconserved :=
    invariant_always conserved_step (conserved_started numThreads_ maxQueueDepth_) events
  have hdrained : (run step (started numThreads_ maxQueueDepth_) events).Drained ↔
      (started numThreads_ maxQueueDepth_).Drained ∧
        Meets step PushesInTime (started numThreads_ maxQueueDepth_) events :=
    law_run_iff Drained (fun _ _ _ => trivial) (fun p e (_ : True) => drained_step p e) trivial
      events
  rw [runsAccepted_iff_drained hover hjoined hconserved, hdrained]
  exact and_iff_right (fun _ _ => rfl)

/-- One task is pushed, taken and executed before the only worker leaves. -/
def servedRun : List Event :=
  [.submit 0 .submit, .pick 0, .enqueue 0, .notify 0, .workerLoop 0, .runTask 0, .stop, .stopWake,
    .stopWake, .workerLoop 0, .stopJoin, .stopJoin]

theorem servedRun_over : (run step (started 1 10240) servedRun).Over := by
  refine ⟨rfl, ?_⟩
  intro call
  cases call with
  | zero => exact Or.inr ⟨true, rfl⟩
  | succ call => exact Or.inl rfl

theorem servedRun_inTime : Meets step PushesInTime (started 1 10240) servedRun := by
  refine ⟨trivial, trivial, ?_, trivial, trivial, trivial, trivial, trivial, trivial, trivial,
    trivial, trivial, trivial⟩
  intro idx hcall _
  exact Phase.noConfusion

theorem accepted_tasks_executed_once_served :
    (run step (started 1 10240) servedRun).Over ∧
      (run step (started 1 10240) servedRun).RunsAccepted :=
  ⟨servedRun_over, (accepted_tasks_executed_once_iff 1 10240 servedRun servedRun_over).mpr
    servedRun_inTime⟩

/-- The call passes its test of `running_`, then `stop` runs to its end, then the call pushes. -/
def lateRun : List Event :=
  [.submit 0 .submit, .pick 0, .stop, .stopWake, .stopWake, .workerLoop 0, .stopJoin, .stopJoin,
    .enqueue 0, .notify 0]

theorem late_push_is_accepted_and_never_executed :
    (run step (started 1 10240) lateRun).stopCall = .returned ∧
    (run step (started 1 10240) lateRun).calls 0 = .returned true ∧
    (∀ call ≠ 0, (run step (started 1 10240) lateRun).calls call = .notMade) ∧
    (run step (started 1 10240) lateRun).executed = [] := by
  refine ⟨rfl, rfl, ?_, rfl⟩
  intro call hcall
  cases call with
  | zero => exact absurd rfl hcall
  | succ call => rfl

end Pool

end mymuduo.thread_pool
