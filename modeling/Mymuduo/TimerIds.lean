-- The `TimerId` that `runAfter` and `runEvery` return (src/net/EventLoop.cc,
-- src/net/TimerId.h). In another thread the id comes from a functor that the loop
-- may not have run yet, and `cancel` ignores the id `-1` that the caller then gets.
import Mymuduo.LoopTimers

open List runs words
open Function (update update_self update_of_ne)

namespace mymuduo.loop_timers

open timer_queue timer_queue.TimerQueue

/-! ## The property -/

/-- The callback of a call does not run behind a cancel that was processed in time. -/
def CancelIsFinal (log : List CallNotice) : Prop :=
  Each (fun before n => ∀ call, n = .ran call → .cancelled call ∉ before) log

/-- The thread that reads the id of its call finds it set: the loop has run the functor. -/
def IdIsSet (s : Loop) : Event → Prop
  | .readId call => call < s.calls ∧ s.returned call = none → (s.idPtr call).isSome = true
  | _ => True

instance (s : Loop) (e : Event) : Decidable (IdIsSet s e) :=
  match e with
  | .readId _ => inferInstanceAs (Decidable (_ → _))
  | .advance _ => isTrue trivial
  | .runInLoop _ => isTrue trivial
  | .post _ => isTrue trivial
  | .cancelInLoop _ => isTrue trivial
  | .cancelFrom _ => isTrue trivial
  | .runFunctor => isTrue trivial
  | .handleTimerRead _ => isTrue trivial
  | .runTimer => isTrue trivial
  | .otherQueue => isTrue trivial

/-! ## The timers that a cancel reaches -/

/-- A timer that `cancelTimer` does not find is cancelled, or it is a one-shot timer past its
expiration. -/
def Reaches (q : TimerQueue Nat) (clock : Int) : Prop :=
  ∀ id, .added id ∈ q.log → id ∉ q.timers_ → (q.timer id).cancelled_ = true ∨
    (q.timer id).repeat_ = false ∧ (q.timer id).expiration_ ≤ clock

variable {q : TimerQueue Nat} {clock : Int}

theorem reaches_advance {clock' : Int} (h : Reaches q clock) (hle : clock ≤ clock') :
    Reaches q clock' := by
  intro id hadded hmem
  rcases h id hadded hmem with h' | ⟨hrep, hexp⟩
  · exact Or.inl h'
  · exact Or.inr ⟨hrep, by omega⟩

theorem reaches_addTimer (h : Reaches q clock) (cb : Option Nat) (delayMs intervalMs now : Int) :
    Reaches (q.addTimer loopShape cb delayMs intervalMs now) clock := by
  intro id hadded hmem
  change _ ∈ q.log ++ [.added q.nextId_] at hadded
  change _ ∉ q.nextId_ :: q.timers_ at hmem
  rw [mem_cons, not_or] at hmem
  rw [mem_append, mem_singleton] at hadded
  rw [timer_addTimer, if_neg hmem.1]
  refine h id (hadded.resolve_right ?_) hmem.2
  intro hc
  cases hc
  exact hmem.1 rfl

theorem reaches_cancelTimer (h : Reaches q clock) (gone : Nat) :
    Reaches (q.cancelTimer gone) clock := by
  obtain ⟨-, -, -, -, hlog⟩ := cancelTimer_same q gone
  intro id hadded hmem
  rw [hlog, mem_append] at hadded
  have hadded := hadded.resolve_right (by simp)
  rw [mem_timers_cancelTimer, not_and_or, not_not] at hmem
  rw [timer_cancelTimer]
  split
  · exact Or.inl rfl
  · rename_i hnot
    refine h id hadded (hmem.elim (fun hm => hm) (fun hgone hm => ?_))
    exact hnot ⟨hgone, hgone ▸ hm⟩

theorem reaches_tick {q' : TimerQueue Nat} (h : Reaches q clock)
    (ht : Ticked loopShape clock q q') : Reaches q' clock := by
  intro id hadded hmem
  obtain ⟨hcancel, hrepeat, -⟩ := ht.timer_same loopShape id
  rw [ht.log] at hadded
  rw [hcancel, hrepeat]
  -- the tick takes a timer off the map when it ran or was cancelled
  by_contra hnot
  rw [not_or] at hnot
  have hold : id ∈ q.timers_ := by
    by_contra hold
    rcases h id hadded hold with hmark | ⟨hrep, hle⟩
    · exact hnot.1 hmark
    · exact hnot.2 ⟨hrep, (ht.timer_of_once loopShape hrep).symm ▸ hle⟩
  refine hmem ((ht.timers_ id).mpr ⟨hold, fun _ =>
    stays_of_live (by simpa using hnot.1) ?_⟩)
  cases hrep : (q.timer id).repeat_
  · refine Or.inr (lt_of_not_ge fun hle => hnot.2 ⟨hrep, ?_⟩)
    rwa [ht.timer_of_once loopShape hrep]
  · exact Or.inl rfl

theorem cancelled_of_reaches (h : Reaches q clock) {id : Nat} (hadded : .added id ∈ q.log)
    (htime : clock < (q.timer id).expiration_) :
    ((q.cancelTimer id).timer id).cancelled_ = true := by
  rw [timer_cancelTimer]
  split
  · rfl
  · rename_i hnot
    rcases h id hadded (fun hmem => hnot ⟨rfl, hmem⟩) with h' | ⟨-, hexp⟩
    · exact h'
    · omega

/-! ## The invariant -/

/-- The call whose timer a functor adds. -/
def Functor.asks : Functor → Option Nat
  | .addTimer call _ => some call
  | .cancelTimer _ _ => none

/-- Each call has at most one timer, the cell of the call has its id, and every `TimerId`
that was returned is valid. The timer of a call that was cancelled in time is marked. -/
structure Tracked (s : Loop) : Prop where
  reaches : Reaches s.timerQueue_ s.clock
  pointed : ∀ call id, s.idPtr call = some id → .added id ∈ s.timerQueue_.log
  owned : ∀ call id, (s.timerQueue_.timer id).callback_ = some call → s.idPtr call = some id
  unused : ∀ call, s.calls ≤ call → s.idPtr call = none
  asked : ∀ call request, .addTimer call request ∈ s.pendingFunctors_ →
    call < s.calls ∧ s.idPtr call = none
  distinct : (s.pendingFunctors_.filterMap Functor.asks).Nodup
  valid : ∀ call timerId, s.returned call = some timerId →
    timerId = s.idPtr call ∧ (s.idPtr call).isSome = true
  cancels : ∀ call id, .cancelTimer call id ∈ s.pendingFunctors_ → s.idPtr call = some id
  final : ∀ call, .cancelled call ∈ s.log →
    ∃ id, s.idPtr call = some id ∧ (s.timerQueue_.timer id).cancelled_ = true
  law : CancelIsFinal s.log

theorem tracked_start : Tracked .start := by
  refine ⟨?_, ?_, ?_, ?_, ?_, ?_, ?_, ?_, ?_, each_nil _⟩ <;>
    simp [Reaches, Loop.start, TimerQueue.start]

variable {s : Loop} {lastRead : Int} {pending : List Functor} {calls : Nat}
  {returned : Nat → Option (Option Nat)}

theorem tracked_addTimer (hs : s.timerQueue_.Sound) (h : Tracked s) {call : Nat} {request : Request}
    (hnone : s.idPtr call = none) (hcalls : s.calls ≤ calls) (hcall : call < calls)
    (hpending : pending ⊆ s.pendingFunctors_) (hother : ∀ request, .addTimer call request ∉ pending)
    (hdistinct : (pending.filterMap Functor.asks).Nodup)
    (hreturned : ∀ c timerId, returned c = some timerId → s.returned c = some timerId ∨ c = call ∧
      timerId = some s.timerQueue_.nextId_) :
    Tracked ⟨(s.addTimer call request).timerQueue_, s.clock, lastRead, pending, calls,
      update s.idPtr call (some s.timerQueue_.nextId_), returned, s.log⟩ := by
  have hset : ∀ c id, s.idPtr c = some id →
      update s.idPtr call (some s.timerQueue_.nextId_) c = some id := by
    intro c id hc
    rw [update_of_ne]
    · exact hc
    · rintro rfl
      rw [hnone] at hc
      cases hc
  have htimer : ∀ id, (s.addTimer call request).timerQueue_.timer id =
      if id = s.timerQueue_.nextId_ then
        ⟨some call, s.clock + request.delay, request.interval, false⟩
      else s.timerQueue_.timer id := fun _ => timer_addTimer ..
  refine ⟨reaches_addTimer h.reaches _ _ _ _, ?_, ?_, ?_, ?_, hdistinct, ?_, ?_, ?_, h.law⟩
  · intro c id hc
    change _ ∈ s.timerQueue_.log ++ [.added s.timerQueue_.nextId_]
    by_cases hcc : c = call
    · subst hcc
      simp only [update_self] at hc
      cases hc
      simp
    · simp only [update_of_ne hcc] at hc
      exact mem_append_left _ (h.pointed c id hc)
  · intro c id hcb
    simp only [htimer id] at hcb
    split at hcb
    · rename_i hid
      cases hcb
      simp only [update_self, hid]
    · exact hset c id (h.owned c id hcb)
  · intro c hc
    dsimp only at hc ⊢
    rw [update_of_ne (by omega)]
    exact h.unused c (by omega)
  · intro c request' hf
    have hne : c ≠ call := by
      rintro rfl
      exact hother request' hf
    obtain ⟨hlt, hcell⟩ := h.asked c request' (hpending hf)
    simp only [update_of_ne hne]
    exact ⟨by omega, hcell⟩
  · intro c timerId hc
    rcases hreturned c timerId hc with hold | ⟨rfl, rfl⟩
    · obtain ⟨rfl, hsome⟩ := h.valid c timerId hold
      obtain ⟨id, hid⟩ := Option.isSome_iff_exists.mp hsome
      simp [hset c id hid, hid]
    · simp
  · intro c id hf
    exact hset c id (h.cancels c id (hpending hf))
  · intro c hc
    obtain ⟨id, hid, hmark⟩ := h.final c hc
    refine ⟨id, hset c id hid, ?_⟩
    simp only [htimer id, if_neg (hs.added_lt id (h.pointed c id hid)).ne]
    exact hmark

theorem tracked_cancelTimer (h : Tracked s) {call id : Nat} (hptr : s.idPtr call = some id)
    (hpending : pending ⊆ s.pendingFunctors_) (hdistinct : (pending.filterMap Functor.asks).Nodup) :
    Tracked ⟨s.timerQueue_.cancelTimer id, s.clock, lastRead, pending, s.calls, s.idPtr, s.returned,
      (s.noteCancel call).log⟩ := by
  have hmarked : ∀ j, (s.timerQueue_.timer j).cancelled_ = true →
      ((s.timerQueue_.cancelTimer id).timer j).cancelled_ = true := by
    intro j hj
    rw [timer_cancelTimer]
    split
    · rfl
    · exact hj
  have hnotice : (s.noteCancel call).log = s.log ∨ s.clock < (s.timerQueue_.timer id).expiration_ ∧
      (s.noteCancel call).log = s.log ++ [.cancelled call] := by
    simp only [Loop.noteCancel, Loop.inTime, hptr]
    split
    · rename_i htime
      exact Or.inr ⟨by simpa using htime, rfl⟩
    · exact Or.inl rfl
  refine { h with
    reaches := reaches_cancelTimer h.reaches id
    pointed := ?_
    owned := ?_
    asked := fun c request hf => h.asked c request (hpending hf)
    distinct := hdistinct
    cancels := fun c j hf => h.cancels c j (hpending hf)
    final := ?_
    law := ?_ }
  · intro c j hc
    rw [(cancelTimer_same s.timerQueue_ id).2.2.2.2]
    exact mem_append_left _ (h.pointed c j hc)
  · intro c j hcb
    rw [timer_cancelTimer] at hcb
    refine h.owned c j ?_
    split at hcb <;> exact hcb
  · intro c hc
    have hold : .cancelled c ∈ s.log → ∃ j, s.idPtr c = some j ∧
        ((s.timerQueue_.cancelTimer id).timer j).cancelled_ = true := by
      intro hc
      obtain ⟨j, hj, hmark⟩ := h.final c hc
      exact ⟨j, hj, hmarked j hmark⟩
    rcases hnotice with hsame | ⟨htime, hnew⟩
    · rw [hsame] at hc
      exact hold hc
    · rw [hnew, mem_append, mem_singleton] at hc
      rcases hc with hc | hc
      · exact hold hc
      · cases hc
        exact ⟨id, hptr, cancelled_of_reaches h.reaches (h.pointed call id hptr) htime⟩
  · rcases hnotice with hsame | ⟨-, hnew⟩
    · rw [hsame]
      exact h.law
    · rw [hnew]
      unfold CancelIsFinal
      rw [each_concat_iff]
      exact ⟨h.law, fun c hc => nomatch hc⟩

theorem tracked_tick (hs : s.timerQueue_.Sound) (h : Tracked s) :
    Tracked { s with
      timerQueue_ := s.timerQueue_.tick loopShape s.clock, lastRead := s.clock } := by
  have ht := tick_ticked loopShape s.clock s.timerQueue_ (hs.nodup _)
  refine { h with reaches := reaches_tick h.reaches ht, pointed := ?_, owned := ?_, final := ?_ }
  · intro call id hid
    rw [ht.log]
    exact h.pointed call id hid
  · intro call id hcb
    rw [(ht.timer_same loopShape id).2.2] at hcb
    exact h.owned call id hcb
  · intro call hcall
    obtain ⟨id, hid, hmark⟩ := h.final call hcall
    refine ⟨id, hid, ?_⟩
    rw [(ht.timer_same loopShape id).1]
    exact hmark

theorem nextCall_not_cancelled (h : Tracked s) {call : Nat} (hnext : s.nextCall = some call) :
    .cancelled call ∉ s.log := by
  intro hcall
  obtain ⟨id, hid, hmark⟩ := h.final call hcall
  unfold Loop.nextCall at hnext
  split at hnext
  · cases hnext
  · rename_i head rest hexp
    split at hnext
    · cases hnext
    · rename_i hlive
      rw [h.owned call head hnext] at hid
      cases hid
      exact hlive hmark

theorem tracked_runTimer (h : Tracked s) : Tracked (s.step .runTimer) := by
  obtain ⟨htimer, -, htimers, -, hlog⟩ := runTimer_same s.timerQueue_
  have hnotice : (s.step .runTimer).log = s.log ∨ ∃ call, s.nextCall = some call ∧
      (s.step .runTimer).log = s.log ++ [.ran call] := by
    simp only [Loop.step]
    split
    · rename_i call hcall
      exact Or.inr ⟨call, hcall, rfl⟩
    · exact Or.inl rfl
  refine { h with reaches := ?_, pointed := ?_, owned := ?_, final := ?_, law := ?_ }
  · change Reaches s.timerQueue_.runTimer s.clock
    intro id hadded hmem
    rw [hlog] at hadded
    rw [htimers] at hmem
    rw [htimer]
    exact h.reaches id hadded hmem
  · intro call id hid
    exact (hlog id).mpr (h.pointed call id hid)
  · intro call id hcb
    change (s.timerQueue_.runTimer.timer id).callback_ = some call at hcb
    rw [htimer] at hcb
    exact h.owned call id hcb
  · intro call hcall
    have hold : .cancelled call ∈ s.log := by
      rcases hnotice with hsame | ⟨c, -, hnew⟩
      · rwa [hsame] at hcall
      · rw [hnew, mem_append] at hcall
        exact hcall.resolve_right (by simp)
    obtain ⟨id, hid, hmark⟩ := h.final call hold
    refine ⟨id, hid, ?_⟩
    change (s.timerQueue_.runTimer.timer id).cancelled_ = true
    rw [htimer]
    exact hmark
  · rcases hnotice with hsame | ⟨c, hnext, hnew⟩
    · rw [hsame]
      exact h.law
    · rw [hnew]
      unfold CancelIsFinal
      rw [each_concat_iff]
      refine ⟨h.law, ?_⟩
      intro call hcall
      cases hcall
      exact nextCall_not_cancelled h hnext

theorem tracked_runFunctor (hs : s.timerQueue_.Sound) (h : Tracked s) : Tracked s.runFunctor := by
  have hdistinct := h.distinct
  unfold Loop.runFunctor
  split
  · exact h
  · rename_i call request rest hpending
    obtain ⟨hcall, hcell⟩ := h.asked call request (by rw [hpending]; simp)
    rw [hpending] at hdistinct
    simp only [filterMap_cons, Functor.asks, List.nodup_cons] at hdistinct
    refine tracked_addTimer hs h hcell (le_refl _) hcall (hpending ▸ subset_cons_self _ _) ?_
      hdistinct.2 (fun _ _ hr => Or.inl hr)
    intro request' hf
    exact hdistinct.1 (mem_filterMap.mpr ⟨_, hf, rfl⟩)
  · rename_i call id rest hpending
    rw [hpending] at hdistinct
    simp only [filterMap_cons, Functor.asks] at hdistinct
    exact tracked_cancelTimer h (h.cancels call id (by rw [hpending]; simp))
      (hpending ▸ subset_cons_self _ _) hdistinct

theorem tracked_step (s : Loop) (e : Event) (hs : s.timerQueue_.Sound) (hset : IdIsSet s e)
    (h : Tracked s) : Tracked (s.step e) := by
  cases e with
  | advance ms =>
    exact { h with reaches := reaches_advance h.reaches (by simp [Loop.step]) }
  | runInLoop request =>
    refine tracked_addTimer hs h (h.unused s.calls (le_refl _)) (Nat.le_succ _)
      (Nat.lt_succ_self _) (Subset.refl _) ?_ h.distinct ?_
    · intro request' hf
      exact lt_irrefl _ (h.asked s.calls request' hf).1
    · intro c timerId hc
      by_cases hcc : c = s.calls
      · subst hcc
        rw [update_self, Option.some.injEq] at hc
        exact Or.inr ⟨rfl, hc.symm⟩
      · rw [update_of_ne hcc] at hc
        exact Or.inl hc
  | post request =>
    refine { h with
      unused := fun call hcall => h.unused call (Nat.le_of_succ_le hcall)
      asked := ?_
      distinct := ?_
      cancels := ?_ }
    · intro call request' hf
      simp only [Loop.step, mem_append, mem_singleton] at hf
      rcases hf with hf | hf
      · exact (h.asked call request' hf).imp_left Nat.lt_succ_of_lt
      · cases hf
        exact ⟨Nat.lt_succ_self _, h.unused s.calls (le_refl _)⟩
    · -- the new call is above all calls that wait
      simp only [Loop.step, filterMap_append, filterMap_cons, Functor.asks, filterMap_nil]
      rw [nodup_append]
      refine ⟨h.distinct, nodup_singleton _, ?_⟩
      intro call hcall call' hcall'
      obtain ⟨f, hf, hasks⟩ := mem_filterMap.mp hcall
      rw [mem_singleton] at hcall'
      cases f with
      | addTimer c request' =>
        cases hasks
        have := (h.asked call request' hf).1
        omega
      | cancelTimer c id => cases hasks
    · intro call id hf
      simp only [Loop.step, mem_append, mem_singleton] at hf
      exact h.cancels call id (hf.resolve_right (by simp))
  | readId call =>
    refine guarded h fun hguard => { h with valid := fun c timerId hc => ?_ }
    by_cases hcc : c = call
    · subst hcc
      simp only [update_self, Option.some.injEq] at hc
      exact ⟨hc.symm, hset hguard⟩
    · simp only [update_of_ne hcc] at hc
      exact h.valid c timerId hc
  | cancelInLoop call =>
    simp only [Loop.step]
    split
    · rename_i id hid
      obtain ⟨hptr, -⟩ := h.valid call (some id) hid
      exact tracked_cancelTimer h hptr.symm (Subset.refl _) h.distinct
    · rename_i hnone
      exact absurd (h.valid call none hnone) (by rintro ⟨hptr, hsome⟩; simp [← hptr] at hsome)
    · exact h
  | cancelFrom call =>
    simp only [Loop.step]
    split
    · rename_i id hid
      obtain ⟨hptr, -⟩ := h.valid call (some id) hid
      refine { h with asked := ?_, distinct := ?_, cancels := ?_ }
      · intro c request hf
        rw [mem_append] at hf
        exact h.asked c request (hf.resolve_right (by simp))
      · rw [filterMap_append, filterMap_cons_none rfl, filterMap_nil, append_nil]
        exact h.distinct
      · intro c j hf
        simp only [mem_append, mem_singleton] at hf
        rcases hf with hf | hf
        · exact h.cancels c j hf
        · cases hf
          exact hptr.symm
    · rename_i hnone
      exact absurd (h.valid call none hnone) (by rintro ⟨hptr, hsome⟩; simp [← hptr] at hsome)
    · exact h
  | runFunctor => exact guarded h fun _ => tracked_runFunctor hs h
  | handleTimerRead howmany => exact guarded h fun _ => tracked_tick hs h
  | runTimer => exact tracked_runTimer h
  | otherQueue =>
    exact { h with }

/-! ## Runs -/

/-- In every interleaving in which each thread finds the id of its call set, a cancel that the
loop processes before the expiration of the timer is final. -/
theorem cancel_in_time_is_final (events : List Event)
    (hset : Meets Loop.step IdIsSet .start events) :
    CancelIsFinal (run Loop.step .start events).log := by
  have hstep : ∀ s e, IdIsSet s e → s.timerQueue_.Sound ∧ Tracked s →
      (s.step e).timerQueue_.Sound ∧ Tracked (s.step e) :=
    fun s e hset h => ⟨Loop.queue_invariant (sound_step loopShape) s e h.1,
      tracked_step s e h.1 hset h.2⟩
  obtain ⟨-, htracked⟩ := invariant_run hstep hset ⟨sound_start, tracked_start⟩
  exact htracked.law

/-- A call of another thread whose functor runs before the thread reads the id, and a cancel
from that thread. -/
def cancelledFromThread : List Event :=
  [.post (.runAfter 1000), .runFunctor, .readId 0, .cancelFrom 0, .runFunctor, .advance 1000,
    .handleTimerRead 1, .advance 1000, .handleTimerRead 1, .runTimer]

theorem cancel_in_time_is_final_cancelledFromThread :
    Meets Loop.step IdIsSet .start cancelledFromThread ∧
      CancelIsFinal (run Loop.step .start cancelledFromThread).log := by
  have hset : Meets Loop.step IdIsSet .start cancelledFromThread := by decide
  exact ⟨hset, cancel_in_time_is_final cancelledFromThread hset⟩

/-- The thread reads the cell first and gets `-1`. Its cancel is ignored, and the timer fires. -/
def cancelledTooEarly : List Event :=
  [.post (.runAfter 1000), .readId 0, .cancelFrom 0, .runFunctor, .advance 1000,
    .handleTimerRead 1, .advance 1000, .handleTimerRead 1, .runTimer]

theorem invalid_id_is_not_cancelled :
    ¬CancelIsFinal (run Loop.step .start cancelledTooEarly).log := by
  have hlog : (run Loop.step .start cancelledTooEarly).log = [.cancelled 0, .ran 0] := by decide
  rw [hlog]
  intro h
  exact h [.cancelled 0] (.ran 0) [] rfl 0 rfl (by simp)

end mymuduo.loop_timers
