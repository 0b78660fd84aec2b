-- The task queue of `EventLoop` (src/net/EventLoop.cc): `queueInLoop` from any
-- thread, the eventfd that wakes the loop, and `doPendingFunctors`. Each section
-- under the mutex is one step, and a wakeup is a later step, so a run of steps is
-- an interleaving of the threads.
import Mathlib.Algebra.Group.Nat.Defs
import Mymuduo.Runs

open runs

namespace mymuduo.event_loop

/-! ## The model -/

/-- Where the loop thread is. `checking` is `while (!quit_)`, and `polling` is the
call of `poll`. User code of the loop thread runs outside of `loop`, in the callbacks
of the channels and in a functor. -/
inductive Phase
  | outside
  | checking
  | polling
  | handling
  | swapping
  | batching
  | functor
  deriving DecidableEq, Repr

/-- `ι` names the other threads and `φ` the functors. `wakeupFd_` is the counter of
the eventfd, and `reported` says that `poll` found it readable. `functors` is the
rest of the batch that `doPendingFunctors` runs, and `executed` what it ran. A
thread of `waking` left its section in `queueInLoop` and did not wake the loop yet.
`queued` says so of the loop thread. `swapped` says that this call of `loop` was in
`doPendingFunctors`. -/
structure EventLoop (ι φ : Type*) where
  phase : Phase
  quit_ : Bool
  callingPendingFunctors_ : Bool
  pendingFunctors_ : List φ
  functors : List φ
  wakeupFd_ : Nat
  reported : Bool
  waking : List ι
  queued : Bool
  executed : List φ
  swapped : Bool

/-- One step of a thread. The first four are of other threads, and `quit` and
`wakeup` are of any thread. -/
inductive Step (ι φ : Type*)
  | insert (thread : ι) (cb : φ)
  | wake (thread : ι)
  | quit
  | wakeup
  | queueInLoop (cb : φ)
  | wakeAfterQueue
  | loop
  | check
  | poll (reported : Bool)
  | handleRead
  | doPendingFunctors
  | swap
  | runFunctor
  | functorReturns
  | endBatch

namespace EventLoop

variable {ι φ : Type*} [DecidableEq ι]

def start : EventLoop ι φ where
  phase := .outside
  quit_ := false
  callingPendingFunctors_ := false
  pendingFunctors_ := []
  functors := []
  wakeupFd_ := 0
  reported := false
  waking := []
  queued := false
  executed := []
  swapped := false

/-- `write` of a one to the eventfd. The kernel refuses it at the largest value. -/
def wakeup (s : EventLoop ι φ) : EventLoop ι φ :=
  { s with wakeupFd_ := if s.wakeupFd_ < 2 ^ 64 - 2 then s.wakeupFd_ + 1 else s.wakeupFd_ }

/-- The section of `queueInLoop` under the mutex. -/
def emplace (s : EventLoop ι φ) (cb : φ) : EventLoop ι φ :=
  { s with pendingFunctors_ := s.pendingFunctors_ ++ [cb] }

/-- User code of the loop thread runs, and it is not inside of `queueInLoop`. -/
def inUserCode (s : EventLoop ι φ) : Bool :=
  !s.queued && (s.phase = .outside || s.phase = .handling || s.phase = .functor)

/-- A step that the thread cannot take where it is changes nothing. -/
def step (s : EventLoop ι φ) : Step ι φ → EventLoop ι φ
  | .insert thread cb =>
    if thread ∈ s.waking then s else { s.emplace cb with waking := thread :: s.waking }
  | .wake thread =>
    if thread ∈ s.waking then { s.wakeup with waking := s.waking.erase thread } else s
  | .quit => { s with quit_ := true }
  | .wakeup => s.wakeup
  | .queueInLoop cb => if s.inUserCode then { s.emplace cb with queued := true } else s
  -- `if (!isInLoopThread() || callingPendingFunctors_) wakeup();`
  | .wakeAfterQueue =>
    if s.queued then
      { if s.callingPendingFunctors_ then s.wakeup else s with queued := false }
    else s
  | .loop =>
    if s.phase = .outside && !s.queued then
      { s with phase := .checking, quit_ := false, swapped := false }
    else s
  | .check =>
    if s.phase = .checking then { s with phase := if s.quit_ then .outside else .polling } else s
  -- `poll` can only report a counter that is not zero, and it need not report it
  | .poll reported =>
    if s.phase = .polling then
      { s with phase := .handling, reported := reported && 0 < s.wakeupFd_ }
    else s
  | .handleRead =>
    if s.phase = .handling && !s.queued && s.reported then
      { s with wakeupFd_ := 0, reported := false }
    else s
  | .doPendingFunctors =>
    if s.phase = .handling && !s.queued then
      { s with phase := .swapping, callingPendingFunctors_ := true }
    else s
  | .swap =>
    if s.phase = .swapping then
      { s with
        phase := .batching
        functors := s.pendingFunctors_
        pendingFunctors_ := []
        swapped := true }
    else s
  | .runFunctor =>
    match s.phase, s.functors with
    | .batching, cb :: functors =>
      { s with phase := .functor, functors := functors, executed := s.executed ++ [cb] }
    | _, _ => s
  | .functorReturns =>
    if s.phase = .functor && !s.queued then { s with phase := .batching } else s
  | .endBatch =>
    if s.phase = .batching && s.functors.isEmpty then
      { s with phase := .checking, callingPendingFunctors_ := false }
    else s

def inserts (s : EventLoop ι φ) : Step ι φ → List φ
  | .insert thread cb => if thread ∈ s.waking then [] else [cb]
  | .queueInLoop cb => if s.inUserCode then [cb] else []
  | _ => []

/-! ## The property -/

/-- What the queue has seen: what ran, the rest of the batch, and what waits. -/
def held (s : EventLoop ι φ) : List φ := s.executed ++ s.functors ++ s.pendingFunctors_

/-- The loop does not go to sleep on functors that nobody wakes it for. -/
def NoLostWakeup (s : EventLoop ι φ) : Prop :=
  s.phase = .polling ∧ s.swapped = true ∧ s.pendingFunctors_ ≠ [] →
    0 < s.wakeupFd_ ∨ s.waking ≠ []

/-! ## The invariant -/

/-- From the swap on until the loop is back in `poll`, a functor in the queue came
behind the swap. -/
def behindSwap : Phase → Bool
  | .batching | .functor | .checking | .polling => true
  | _ => false

structure Sound (s : EventLoop ι φ) : Prop where
  batch : s.phase ≠ .batching → s.phase ≠ .functor → s.functors = []
  calling : s.phase = .swapping ∨ s.phase = .batching ∨ s.phase = .functor →
    s.callingPendingFunctors_ = true
  queued : s.phase ≠ .outside → s.phase ≠ .handling → s.phase ≠ .functor → s.queued = false
  awake : s.swapped = true → behindSwap s.phase = true → s.pendingFunctors_ ≠ [] →
    0 < s.wakeupFd_ ∨ s.waking ≠ [] ∨ s.queued = true

section

omit [DecidableEq ι]

theorem sound_start : (start : EventLoop ι φ).Sound :=
  ⟨fun _ _ => rfl, by simp [start], fun _ _ _ => rfl, by simp [start]⟩

theorem wakeup_pos (s : EventLoop ι φ) : 0 < s.wakeup.wakeupFd_ := by
  dsimp only [wakeup]
  split <;> omega

variable {s t : EventLoop ι φ} {p : Phase} {guard : Prop} [Decidable guard]

theorem Sound.batch_at (h : s.Sound) (hphase : s.phase = p) (hp : p ≠ .batching ∧ p ≠ .functor) :
    s.functors = [] := h.batch (hphase ▸ hp.1) (hphase ▸ hp.2)

theorem Sound.queued_at (h : s.Sound) (hphase : s.phase = p)
    (hp : p ≠ .outside ∧ p ≠ .handling ∧ p ≠ .functor) : s.queued = false :=
  h.queued (hphase ▸ hp.1) (hphase ▸ hp.2.1) (hphase ▸ hp.2.2)

theorem Sound.awake_at (h : s.Sound) (hphase : s.phase = p) (hp : behindSwap p = true)
    (hswapped : s.swapped = true) (hpending : s.pendingFunctors_ ≠ []) :
    0 < s.wakeupFd_ ∨ s.waking ≠ [] ∨ s.queued = true :=
  h.awake hswapped (hphase ▸ hp) hpending

theorem held_guarded (h : guard → t.held = s.held) :
    (if guard then t else s).held = s.held ++ [] := by
  rw [List.append_nil]
  split
  · rename_i hguard
    exact h hguard
  · rfl

theorem Sound.noLostWakeup (h : s.Sound) : s.NoLostWakeup := by
  rintro ⟨hphase, hswapped, hpending⟩
  rcases h.awake_at hphase rfl hswapped hpending with hfd | hwaking | hqueued
  · exact Or.inl hfd
  · exact Or.inr hwaking
  · rw [h.queued_at hphase (by decide)] at hqueued
    cases hqueued

end

variable {s : EventLoop ι φ}

theorem sound_wakeAfterQueue (h : s.Sound) : (s.step .wakeAfterQueue).Sound := by
  refine guarded h (fun _ => ?_)
  split
  · exact ⟨h.batch, h.calling, fun _ _ _ => rfl, fun _ _ _ => Or.inl (wakeup_pos s)⟩
  · -- without the flag the loop thread is in front of the swap
    refine ⟨h.batch, h.calling, fun _ _ _ => rfl, ?_⟩
    intro _ hbehind
    have hcalling := h.calling
    have hqueued := h.queued
    cases hphase : s.phase <;> simp_all [behindSwap]

theorem sound_queueInLoop (h : s.Sound) (cb : φ) : (s.step (.queueInLoop cb)).Sound := by
  refine guarded h (fun huser => ?_)
  have hphase : s.phase = .outside ∨ s.phase = .handling ∨ s.phase = .functor := by
    simpa [or_assoc] using (Bool.and_eq_true_iff.mp huser).2
  refine ⟨h.batch, h.calling, ?_, fun _ _ _ => Or.inr (Or.inr rfl)⟩
  tauto

theorem sound_step (s : EventLoop ι φ) (a : Step ι φ) (h : s.Sound) : (s.step a).Sound := by
  cases a with
  | insert thread cb =>
    exact guarded_not h fun _ =>
      ⟨h.batch, h.calling, h.queued, fun _ _ _ => Or.inr (Or.inl (List.cons_ne_nil _ _))⟩
  | wake thread =>
    exact guarded h fun _ => ⟨h.batch, h.calling, h.queued, fun _ _ _ => Or.inl (wakeup_pos s)⟩
  | quit => exact { h with }
  | wakeup => exact ⟨h.batch, h.calling, h.queued, fun _ _ _ => Or.inl (wakeup_pos s)⟩
  | queueInLoop cb => exact sound_queueInLoop h cb
  | wakeAfterQueue => exact sound_wakeAfterQueue h
  | loop =>
    refine guarded h (fun hguard => ?_)
    simp only [Bool.and_eq_true, decide_eq_true_eq, Bool.not_eq_true'] at hguard
    exact ⟨fun _ _ => h.batch_at hguard.1 (by decide), by simp, fun _ _ _ => hguard.2, by simp⟩
  | check =>
    refine guarded h (fun hphase => ?_)
    refine ⟨fun _ _ => h.batch_at hphase (by decide), ?_,
      fun _ _ _ => h.queued_at hphase (by decide), fun hswapped _ => h.awake_at hphase rfl hswapped⟩
    intro hp
    cases hquit : s.quit_ <;> simp [hquit] at hp
  | poll reported =>
    refine guarded h (fun hphase => ?_)
    exact ⟨fun _ _ => h.batch_at hphase (by decide), by simp,
      fun _ _ _ => h.queued_at hphase (by decide), by simp [behindSwap]⟩
  | handleRead =>
    refine guarded h (fun hguard => ?_)
    simp only [Bool.and_eq_true, decide_eq_true_eq, Bool.not_eq_true'] at hguard
    exact ⟨h.batch, h.calling, h.queued, fun _ hbehind => by
      simp [hguard.1.1, behindSwap] at hbehind⟩
  | doPendingFunctors =>
    refine guarded h (fun hguard => ?_)
    simp only [Bool.and_eq_true, decide_eq_true_eq, Bool.not_eq_true'] at hguard
    exact ⟨fun _ _ => h.batch_at hguard.1 (by decide), fun _ => rfl, fun _ _ _ => hguard.2,
      by simp [behindSwap]⟩
  | swap =>
    refine guarded h (fun hphase => ?_)
    exact ⟨by simp, fun _ => h.calling (Or.inl hphase),
      fun _ _ _ => h.queued_at hphase (by decide), by simp⟩
  | runFunctor =>
    dsimp only [step]
    split
    · rename_i hphase hfunctors
      exact ⟨by simp, fun _ => h.calling (by simp [hphase]), by simp,
        fun hswapped _ => h.awake_at hphase rfl hswapped⟩
    · exact h
  | functorReturns =>
    refine guarded h (fun hguard => ?_)
    simp only [Bool.and_eq_true, decide_eq_true_eq, Bool.not_eq_true'] at hguard
    exact ⟨by simp, fun _ => h.calling (by simp [hguard]), fun _ _ _ => hguard.2,
      fun hswapped _ => h.awake_at hguard.1 rfl hswapped⟩
  | endBatch =>
    refine guarded h (fun hguard => ?_)
    simp only [Bool.and_eq_true, decide_eq_true_eq, List.isEmpty_iff] at hguard
    exact ⟨fun _ _ => hguard.2, by simp, fun _ _ _ => h.queued_at hguard.1 (by decide),
      fun hswapped _ => h.awake_at hguard.1 rfl hswapped⟩

/-! ## The queue -/

theorem held_step (s : EventLoop ι φ) (a : Step ι φ) (h : s.Sound) :
    (s.step a).held = s.held ++ s.inserts a := by
  cases a with
  | insert thread cb | queueInLoop cb =>
    simp only [step, inserts]
    split <;> simp [held, emplace]
  | swap =>
    refine held_guarded (fun hphase => ?_)
    simp [held, h.batch_at hphase (by decide)]
  | runFunctor =>
    simp only [step, inserts]
    split
    · rename_i cb functors hphase hfunctors
      simp [held, hfunctors]
    · simp
  | wake thread | loop | check | poll reported | handleRead | doPendingFunctors
  | functorReturns | endBatch => exact held_guarded fun _ => rfl
  | wakeAfterQueue =>
    refine held_guarded (fun _ => ?_)
    split <;> rfl
  | quit | wakeup => exact (List.append_nil _).symm

/-- In every interleaving, the functors run in the order of their insertion, each at most
once, and the loop does not sleep on a functor that nobody wakes it for. -/
theorem task_queue_is_fifo_and_wakes (steps : List (Step ι φ)) :
    (run step start steps).executed ++ (run step start steps).functors ++
        (run step start steps).pendingFunctors_ =
          collect step inserts (start : EventLoop ι φ) steps ∧
      (run step (start : EventLoop ι φ) steps).NoLostWakeup := by
  refine ⟨?_, (invariant_always sound_step sound_start steps).noLostWakeup⟩
  exact conserved_run held inserts (fun s a _ => sound_step s a) (fun s a _ => held_step s a)
    (meets_true _ _ _) sound_start

/-- A functor that queues another one: the loop thread wakes itself. -/
example :
    let s := run step (start : EventLoop Nat Nat)
      [.insert 0 10, .loop, .check, .wake 0, .poll true, .handleRead, .doPendingFunctors, .swap,
        .runFunctor, .queueInLoop 11, .wakeAfterQueue, .functorReturns, .endBatch, .check]
    s.phase = .polling ∧ s.pendingFunctors_ = [11] ∧ s.wakeupFd_ = 1 := by decide

end EventLoop

/-! ## The loops of a server -/

/-- The `size()` of `loops_`, the next place in it, and what `getNextLoop` has returned:
`some i` for `loops_[i]`, and `none` for `baseLoop_`. -/
structure EventLoopThreadPool where
  size : Nat
  next_ : Nat := 0
  returned : List (Option Nat) := []

namespace EventLoopThreadPool

def getNextLoop (pool : EventLoopThreadPool) : EventLoopThreadPool :=
  if pool.size = 0 then { pool with returned := pool.returned ++ [none] }
  else
    { pool with
      next_ := if pool.size ≤ pool.next_ + 1 then 0 else pool.next_ + 1
      returned := pool.returned ++ [some pool.next_] }

/-- Behind any number of connections, the loops before the next one have had one more than the
others. -/
theorem loops_take_turns (threads calls : Nat) :
    let pool := getNextLoop^[calls] { size := threads + 1 }
    pool.size = threads + 1 ∧ pool.next_ ≤ threads ∧
      ∃ turns, calls = turns * (threads + 1) + pool.next_ ∧ ∀ i ≤ threads,
        pool.returned.count (some i) = turns + if i < pool.next_ then 1 else 0 := by
  induction calls with
  | zero => exact ⟨rfl, Nat.zero_le _, 0, by simp⟩
  | succ calls ih =>
    rw [Function.iterate_succ_apply']
    obtain ⟨hsize, hnext, turns, hcalls, hcount⟩ := ih
    generalize getNextLoop^[calls] { size := threads + 1 } = pool at hsize hnext hcalls hcount ⊢
    simp only [getNextLoop, hsize, Nat.succ_ne_zero, if_false, List.count_append,
      List.count_singleton]
    -- a turn ends with the last loop
    by_cases hlast : pool.next_ = threads
    · exact ⟨trivial, by grind, turns + 1, by grind, by grind⟩
    · exact ⟨trivial, by grind, turns, by grind, by grind⟩

end EventLoopThreadPool

end mymuduo.event_loop
