-- The order of tasks in the thread pool (src/util/ThreadPool.h). All tasks of a key go to
-- one worker, and its queue gives them out in the order of their pushes, whatever else is
-- in it and whatever the tasks throw.
import Mymuduo.ThreadPool

open List runs words

namespace mymuduo.thread_pool

/-! ## What is pushed and what is refused -/

namespace Pool

def enqueued (p : Pool) : Event → List Nat
  | .enqueue call =>
    match p.calls call with
    | .picked idx => if p.maxQueueDepth_ ≤ (p.workers_ idx).queue.length then [] else [call]
    | _ => []
  | _ => []

/-- The call that a step refuses because the queue is full. -/
def refused (p : Pool) : Event → List Nat
  | .enqueue call =>
    match p.calls call with
    | .picked idx => if p.maxQueueDepth_ ≤ (p.workers_ idx).queue.length then [call] else []
    | _ => []
  | _ => []

theorem droppedTasks_step {p : Pool} {d : Nat} (h : p.droppedTasks_ = d % 2 ^ 64) (e : Event) :
    (p.step e).droppedTasks_ = (d + (p.refused e).length) % 2 ^ 64 := by
  cases e with
  | enqueue call =>
    simp only [step, enqueue, refused]
    cases p.calls call with
    | picked idx =>
      dsimp only
      split
      · exact (congrArg (add64 · 1) h).trans (Nat.mod_add_mod ..)
      · exact h
    | _ => exact h
  | _ =>
    simp only [step, submit, pick, notify, workerLoop, wake, runTask, stop, stopWake, stopJoin]
    repeat' split
    all_goals exact h

theorem executed_step {e : Event} (h : ∀ w, e ≠ .runTask w) (p : Pool) :
    (p.step e).executed = p.executed := by
  cases e with
  | runTask w => exact absurd rfl (h w)
  | _ =>
    simp only [step, submit, pick, enqueue, notify, workerLoop, wake, stop, stopWake, stopJoin]
    repeat' split
    all_goals rfl

/-! ## Where the tasks of a key are -/

variable (routes : Nat → Route)

/-- `routes` says how each call is made. -/
def MadeAs (p : Pool) : Event → Prop
  | .submit call route => p.calls call = .notMade → route = routes call
  | _ => True

def Follows (numThreads_ : Nat) (route : Route) : Submission → Prop
  | .admitted admitted => admitted = route
  | .picked idx => ∀ key, route = .submitAffinity key → idx = key % numThreads_
  | _ => True

/-- The tasks of a key are with the worker of the key, and no queue is too long. -/
structure Kept (p : Pool) : Prop where
  follows : ∀ call, Follows p.numThreads_ (routes call) (p.calls call)
  worker : ∀ v, (p.workers_ v).queue.length ≤ p.maxQueueDepth_ ∧
    ∀ task ∈ (p.workers_ v).line, ∀ key, routes task = .submitAffinity key → v = key % p.numThreads_

def ofKey (key task : Nat) : Bool := routes task = .submitAffinity key

/-- The tasks of a key that were enqueued, in order: executed, in hand, waiting. -/
def history (key : Nat) (p : Pool) : List Nat :=
  (p.executed ++ (p.workers_ (key % p.numThreads_)).line).filter (ofKey routes key)

variable {routes} {p : Pool}

theorem follows_setCall (h : ∀ call, Follows p.numThreads_ (routes call) (p.calls call))
    {call : Nat} {next : Submission} (hnext : Follows p.numThreads_ (routes call) next)
    (other : Nat) : Follows p.numThreads_ (routes other) ((p.setCall call next).calls other) :=
  forall_setCall (P := fun call => Follows p.numThreads_ (routes call)) hnext h other

theorem follows_step {e : Event} (hmade : MadeAs routes p e)
    (h : ∀ call, Follows p.numThreads_ (routes call) (p.calls call)) (call : Nat) :
    Follows p.numThreads_ (routes call) ((p.step e).calls call) := by
  cases e with
  | submit made route =>
    simp only [step, submit]
    split
    · rename_i hnew
      split <;> refine follows_setCall h ?_ call
      · trivial
      · exact hmade hnew
    · exact h call
  | pick made =>
    have hroute := h made
    simp only [step, pick]
    split <;> rename_i hcall
    · rw [hcall] at hroute
      refine follows_setCall h ?_ call
      exact fun key hkey => Route.noConfusion (hroute.trans hkey)
    · rw [hcall] at hroute
      refine follows_setCall h ?_ call
      intro key hkey
      cases hroute.trans hkey
      rfl
    · exact h call
  | enqueue made =>
    simp only [step, enqueue]
    split
    · split <;> exact follows_setCall h (by trivial) call
    · exact h call
  | notify made =>
    simp only [step, notify]
    split
    · refine forall_setCall (P := fun call => Follows p.numThreads_ (routes call)) ?_ ?_ call
      · trivial
      · rwa [wake_calls]
    · exact h call
  | _ =>
    simp only [step, workerLoop, wake, runTask, stop, stopWake, stopJoin]
    repeat' split
    all_goals exact h call

theorem line_push (worker : Worker) (call : Nat) :
    Worker.line ⟨worker.phase, worker.queue ++ [call]⟩ = worker.line ++ [call] := by
  simp [Worker.line, Worker.inHand]

theorem line_of_running {worker : Worker} {task : Nat} (h : worker.phase = .running task) :
    worker.line = task :: Worker.line ⟨.looping, worker.queue⟩ := by
  simp [Worker.line, Worker.inHand, h]

theorem Kept.ofKey_picked (h : p.Kept routes) {call idx key : Nat}
    (hcall : p.calls call = .picked idx) (hkey : routes call = .submitAffinity key) :
    idx = key % p.numThreads_ := by
  have hfollows := h.follows call
  rw [hcall] at hfollows
  exact hfollows key hkey

theorem kept_step (p : Pool) (e : Event) (hmade : MadeAs routes p e) (h : p.Kept routes) :
    (p.step e).Kept routes := by
  obtain ⟨hthreads, hmax⟩ := step_same p e
  refine ⟨fun call => hthreads ▸ follows_step hmade h.follows call, fun v => ?_⟩
  obtain ⟨hdepth, hplace⟩ := h.worker v
  rw [hthreads, hmax]
  rcases worker_step p e v with
    hsame | hgoes | ⟨-, hleft⟩ | ⟨done, -, hphase, hdone⟩ | ⟨call, -, hcall, hroom, hgets⟩
  · rw [hsame]
    exact ⟨hdepth, hplace⟩
  · rw [hgoes.line]
    exact ⟨hgoes.queue.trans hdepth, hplace⟩
  · rw [hleft]
    exact ⟨Nat.zero_le _, nofun⟩
  · rw [hdone]
    rw [line_of_running hphase] at hplace
    exact ⟨hdepth, (forall_mem_cons.mp hplace).2⟩
  · rw [hgets, line_push, forall_mem_append, forall_mem_singleton, length_append]
    exact ⟨hroom, hplace, fun key => h.ofKey_picked hcall⟩

theorem line_step {e : Event} (hrun : ∀ w, e ≠ .runTask w) (hpush : ∀ call, e ≠ .enqueue call)
    (p : Pool) (v : Nat) : ((p.step e).workers_ v).line = (p.workers_ v).line := by
  rcases worker_step p e v with
    hsame | hgoes | ⟨hlooping, hleft⟩ | ⟨_, he, _⟩ | ⟨call, he, _⟩
  · rw [hsame]
  · exact hgoes.line
  · rw [hlooping, hleft]
    rfl
  · exact absurd he (hrun v)
  · exact absurd he (hpush call)

/-- A task of the key is pushed behind the others of the key, and the first of them ends. -/
theorem history_step (key : Nat) (p : Pool) (e : Event) (h : p.Kept routes) :
    (p.step e).history routes key =
      p.history routes key ++ (p.enqueued e).filter (ofKey routes key) := by
  unfold history
  rw [(step_same p e).1]
  cases e with
  | enqueue call =>
    rw [executed_step (by simp)]
    cases hcall : p.calls call with
    | picked idx =>
      by_cases hroom : p.maxQueueDepth_ ≤ (p.workers_ idx).queue.length
      · simp [step, enqueue, enqueued, hcall, hroom]
      · have hnew : p.enqueued (.enqueue call) = [call] := by simp [enqueued, hcall, hroom]
        have hworkers : (p.step (.enqueue call)).workers_ = (p.setWorker idx
            ⟨(p.workers_ idx).phase, (p.workers_ idx).queue ++ [call]⟩).workers_ := by
          simp [step, enqueue, hcall, hroom]
        rw [hnew, hworkers]
        rcases eq_or_ne (key % p.numThreads_) idx with rfl | hne
        · rw [setWorker_workers_self, line_push, ← append_assoc, filter_append]
        · have hother : ofKey routes key call = false :=
            decide_eq_false fun hkey => hne (h.ofKey_picked hcall hkey).symm
          rw [setWorker_workers_of_ne p hne]
          simp [hother]
    | _ => simp [step, enqueue, enqueued, hcall]
  | runTask w =>
    cases hphase : (p.workers_ w).phase with
    | running task =>
      have hstep : p.step (.runTask w) = { p.setWorker w ⟨.looping, (p.workers_ w).queue⟩ with
          executed := p.executed ++ [task] } := by
        simp [step, runTask, hphase]
      have hnew : p.enqueued (.runTask w) = [] := rfl
      rw [hstep, hnew, filter_nil, append_nil]
      dsimp only
      rw [append_assoc]
      rcases eq_or_ne (key % p.numThreads_) w with rfl | hne
      · rw [setWorker_workers_self, line_of_running hphase]
        rfl
      · have hother : ofKey routes key task = false := by
          refine decide_eq_false fun hkey => hne ((h.worker w).2 task ?_ key hkey).symm
          rw [line_of_running hphase]
          exact mem_cons_self ..
        rw [setWorker_workers_of_ne p hne]
        simp [hother]
    | _ => simp [step, runTask, hphase, enqueued]
  | _ =>
    rw [executed_step (by simp), line_step (by simp) (by simp)]
    simp [enqueued]

theorem droppedTasks_run {d : Nat} (h : p.droppedTasks_ = d % 2 ^ 64) (events : List Event) :
    (run step p events).droppedTasks_ =
      (d + (collect step refused p events).length) % 2 ^ 64 := by
  induction events generalizing p d with
  | nil => exact h
  | cons e events ih =>
    rw [run_cons, ih (droppedTasks_step h e), Nat.add_assoc, ← length_append]
    rfl

/-- Of the tasks of a key, as they were enqueued, the first are executed, at most one is in
the hands of the one worker of the key, and the others wait there in order. No queue is too
long, no task is taken twice, and the counter says how many calls met a full queue. -/
theorem affinity_keeps_the_order (routes : Nat → Route) (numThreads_ maxQueueDepth_ : Nat)
    (events : List Event)
    (hmade : Meets step (MadeAs routes) (started numThreads_ maxQueueDepth_) events) :
    let p := run step (started numThreads_ maxQueueDepth_) events
    (∀ key, collect step (fun p e => (p.enqueued e).filter (ofKey routes key))
        (started numThreads_ maxQueueDepth_) events =
      (p.executed ++ (p.workers_ (key % p.numThreads_)).inHand ++
        (p.workers_ (key % p.numThreads_)).queue).filter (ofKey routes key)) ∧
    (∀ key v task, (p.workers_ v).phase = .running task → ofKey routes key task = true →
      v = key % p.numThreads_) ∧
    (∀ v, (p.workers_ v).queue.length ≤ maxQueueDepth_) ∧
    (∀ task, p.held task + p.executed.count task ≤ 1) ∧
    p.droppedTasks_ =
      (collect step refused (started numThreads_ maxQueueDepth_) events).length % 2 ^ 64 := by
  intro p
  have hstart : (started numThreads_ maxQueueDepth_).Kept routes :=
    ⟨fun _ => trivial, fun _ => ⟨Nat.zero_le _, nofun⟩⟩
  have h : p.Kept routes := invariant_run kept_step hmade hstart
  have hmax : p.maxQueueDepth_ = maxQueueDepth_ :=
    invariant_always (fun p e h => (step_same p e).2.trans h) rfl events
  refine ⟨fun key => ?_, fun key v task hphase hkey => ?_, ?_, fun task => ?_, ?_⟩
  · have hhistory := conserved_run (history routes key) _ kept_step
      (fun p e _ h => history_step key p e h) hmade hstart
    rw [append_assoc]
    exact hhistory.symm
  · refine (h.worker v).2 task ?_ key (by simpa [ofKey] using hkey)
    rw [line_of_running hphase]
    exact mem_cons_self ..
  · rw [← hmax]
    exact fun v => (h.worker v).1
  · have honce := (invariant_always conserved_step
      (conserved_started numThreads_ maxQueueDepth_) events).once task
    rw [honce]
    split <;> simp
  · have hnone : (started numThreads_ maxQueueDepth_).droppedTasks_ = 0 % 2 ^ 64 := rfl
    rw [droppedTasks_run hnone, Nat.zero_add]

/-- Three tasks of one key: one is in hand, one waits, and one meets a full queue. -/
theorem affinity_keeps_the_order_of_three :
    let route := Route.submitAffinity 3
    let events : List Event := [.submit 0 route, .pick 0, .enqueue 0, .workerLoop 1,
      .submit 1 route, .pick 1, .enqueue 1, .submit 2 route, .pick 2, .enqueue 2]
    let p := run step (started 2 1) events
    (p.workers_ 1).line = [0, 1] ∧ ∀ v, (p.workers_ v).queue.length ≤ 1 := by
  intro route events p
  have horder := affinity_keeps_the_order (fun _ => route) 2 1 events
    (by simp [events, Meets, MadeAs])
  exact ⟨by decide, horder.2.2.1⟩

end Pool

end mymuduo.thread_pool
