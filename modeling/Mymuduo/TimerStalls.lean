-- How late a timer fires. The wheel turns by one bucket for each
-- `handleTimerRead`, and the clock by one period for each expiration of the
-- timerfd. As long as each call reports one period, a timer fires within two
-- periods of its expiration.
import Mymuduo.LoopTimers

open List runs words

namespace mymuduo.loop_timers

open timer_queue timer_queue.TimerQueue

/-! ## The property -/

/-- Between two calls of `handleTimerRead`, a timer of `runAfter` that is not cancelled and
expired two periods before the last call has run. -/
def OnTime (s : Loop) : Prop :=
  s.timerQueue_.expiredTimers = [] → ∀ id, .added id ∈ s.timerQueue_.log →
    (s.timerQueue_.timer id).repeat_ = false → (s.timerQueue_.timer id).cancelled_ = false →
    (s.timerQueue_.timer id).expiration_ + 2 * kTimerTickMs ≤ s.lastRead →
    .ran id ∈ s.timerQueue_.log

/-- The sum that `addTimer` computes in `int` does not overflow. -/
def Request.Fits : Request → Prop
  | .runAfter delayMs => delayMs + kTimerTickMs - 1 < 2 ^ 31
  | .runEvery _ => True

instance (request : Request) : Decidable request.Fits :=
  match request with
  | .runAfter _ => inferInstanceAs (Decidable (_ < _))
  | .runEvery _ => isTrue trivial

/-- A `handleTimerRead` reports one period, or it finds no one-shot timer. -/
def KeepsPace (s : Loop) : Event → Prop
  | .handleTimerRead howmany =>
    howmany ≤ 1 ∨ ∀ id ∈ s.timerQueue_.timers_, (s.timerQueue_.timer id).repeat_ = true
  | .runInLoop request => request.Fits
  | .post request => request.Fits
  | _ => True

instance (s : Loop) (e : Event) : Decidable (KeepsPace s e) :=
  match e with
  | .handleTimerRead _ => inferInstanceAs (Decidable (_ ∨ _))
  | .runInLoop request => inferInstanceAs (Decidable request.Fits)
  | .post request => inferInstanceAs (Decidable request.Fits)
  | .advance _ => isTrue trivial
  | .readId _ => isTrue trivial
  | .cancelInLoop _ => isTrue trivial
  | .cancelFrom _ => isTrue trivial
  | .runFunctor => isTrue trivial
  | .runTimer => isTrue trivial
  | .otherQueue => isTrue trivial

/-! ## A timer is somewhere -/

section Accounted

variable {κ : Type*} (w : Shape)

/-- A one-shot timer with a callback that is not cancelled is in the wheel, waits to run in
the tick in progress, or has run. -/
def Accounted (q : TimerQueue κ) : Prop :=
  ∀ id, .added id ∈ q.log → (q.timer id).repeat_ = false → (q.timer id).cancelled_ = false →
    (q.timer id).callback_.isSome = true →
    (∃ b, id ∈ q.wheel_ b) ∨ id ∈ q.expiredTimers ∨ .ran id ∈ q.log

theorem accounted_addTimer {q : TimerQueue κ} (hs : q.Sound) (h : Accounted q) (cb : Option κ)
    (delayMs intervalMs now : Int) : Accounted (q.addTimer w cb delayMs intervalMs now) := by
  intro id hadded hrep hlive hcb
  change _ ∈ q.log ++ [.added q.nextId_] at hadded
  rw [mem_append, mem_singleton] at hadded
  rcases hadded with hadded | hnew
  · have hlt := hs.added_lt id hadded
    rw [timer_addTimer, if_neg hlt.ne] at hrep hlive hcb
    rcases h id hadded hrep hlive hcb with ⟨b, hb⟩ | hexp | hran
    · exact Or.inl ⟨b, (mem_wheel_addTimer ..).mpr (Or.inl hb)⟩
    · exact Or.inr (Or.inl hexp)
    · exact Or.inr (Or.inr (mem_append_left _ hran))
  · cases hnew
    exact Or.inl ⟨_, (mem_wheel_addTimer ..).mpr (Or.inr ⟨rfl, rfl⟩)⟩

theorem accounted_cancelTimer {q : TimerQueue κ} (h : Accounted q) (gone : Nat) :
    Accounted (q.cancelTimer gone) := by
  obtain ⟨hwheel, hexpired, -, -, hlog⟩ := cancelTimer_same q gone
  intro id hadded hrep hlive hcb
  rw [hlog, mem_append] at hadded
  have hcb' : (q.timer id).callback_.isSome = true := by
    rw [timer_cancelTimer] at hcb
    split at hcb <;> exact hcb
  rw [repeat_cancelTimer] at hrep
  have hold := h id (hadded.resolve_right (by simp)) hrep (live_cancelTimer hlive).1 hcb'
  rw [hwheel, hexpired, hlog]
  rcases hold with hb | hexp | hran
  · exact Or.inl hb
  · exact Or.inr (Or.inl hexp)
  · exact Or.inr (Or.inr (mem_append_left _ hran))

theorem accounted_tick {now : Int} {q q' : TimerQueue κ} (ht : Ticked w now q q')
    (h : Accounted q) : Accounted q' := by
  intro id hadded hrep hlive hcb
  obtain ⟨hcancel, hrepeat, hcallback⟩ := ht.timer_same w id
  rw [ht.log] at hadded
  rw [hrepeat] at hrep
  rw [hcancel] at hlive
  rw [hcallback] at hcb
  rw [ht.log]
  rcases h id hadded hrep hlive hcb with ⟨b, hb⟩ | hexp | hran
  · by_cases hcur : b = q.currentBucket_
    · subst hcur
      -- the tick runs a one-shot timer of its bucket or keeps it there
      by_cases hdue : (q.timer id).expiration_ ≤ now
      · refine Or.inr (Or.inl ((ht.expired id).mpr (Or.inr ⟨hb, ?_⟩)))
        exact (collected_iff _ _).mpr ⟨hdue, hlive⟩
      · refine Or.inl ⟨_, (ht.mem_wheel w id _).mpr (Or.inr (Or.inl ⟨rfl, hb, ?_⟩))⟩
        exact (fate_kept_iff _ _).mpr ⟨by omega, hlive⟩
    · exact Or.inl ⟨b, (ht.mem_wheel w id b).mpr (Or.inl ⟨hcur, hb⟩)⟩
  · exact Or.inr (Or.inl ((ht.expired id).mpr (Or.inl hexp)))
  · exact Or.inr (Or.inr hran)

theorem accounted_runTimer {q : TimerQueue κ} (h : Accounted q) : Accounted q.runTimer := by
  cases hexp : q.expiredTimers with
  | nil => rwa [runTimer_nil hexp]
  | cons head rest =>
    have hsame := (runTimer_same q).2.2.2.2
    rw [runTimer_cons hexp] at hsame ⊢
    intro id hadded hrep hlive hcb
    dsimp only at hadded hrep hlive hcb ⊢
    have hold : .added id ∈ q.log := (hsame id).mp hadded
    rcases h id hold hrep hlive hcb with hb | hmem | hran
    · exact Or.inl hb
    · rw [hexp, mem_cons] at hmem
      rcases hmem with rfl | hmem
      · simp [hlive, hcb]
      · exact Or.inr (Or.inl hmem)
    · refine Or.inr (Or.inr ?_)
      split
      · exact mem_append_left _ hran
      · exact hran

theorem accounted_step (q : TimerQueue κ) (op : Op κ) (h : q.Sound ∧ Accounted q) :
    (q.step w op).Sound ∧ Accounted (q.step w op) := by
  refine ⟨sound_step w q op h.1, ?_⟩
  cases op with
  | addTimer cb delayMs intervalMs now =>
    exact accounted_addTimer w h.1 h.2 cb delayMs intervalMs now
  | cancelTimer id => exact accounted_cancelTimer h.2 id
  | tick now =>
    exact guarded h.2 fun _ => accounted_tick w (tick_ticked w now q (h.1.nodup _)) h.2
  | runTimer => exact accounted_runTimer h.2
  | otherQueue => exact h.2

end Accounted

/-! ## The schedule -/

theorem addTicks_eq {delayMs : Int} (hpos : 0 ≤ delayMs) (hfits : delayMs + 999 < 2 ^ 31) :
    ∃ ticks : Nat, addTicks loopShape delayMs = ticks ∧ 1 ≤ ticks ∧ delayMs ≤ ticks * 1000 ∧
      (ticks : Int) * 1000 ≤ delayMs + 1000 ∧ ticks < 2 ^ 32 := by
  have hint : int32 (delayMs + loopShape.tickMs_ - 1) = delayMs + 999 := by
    change int32 (delayMs + 1000 - 1) = _
    rw [int32_eq (by omega) (by omega)]
    omega
  have hdiv : (delayMs + 999).tdiv loopShape.tickMs_ = (delayMs + 999) / 1000 :=
    Int.tdiv_eq_ediv_of_nonneg (by omega)
  have hsize := sizeT_eq (a := (delayMs + 999) / 1000) (by omega) (by omega)
  unfold addTicks
  rw [hint, hdiv]
  dsimp only
  split
  · exact ⟨1, rfl, by omega, by omega, by omega, by omega⟩
  · exact ⟨_, rfl, by omega, by omega, by omega, by omega⟩

/-- A timer that expires at `expiration` is in bucket `b`, and the tick that reaches it comes
at or behind its expiration, and at most two periods behind it. The first half holds as
long as the clock is not past the next period. -/
def Placed (current : Nat) (lastRead clock : Int) (b : Nat) (expiration : Int) : Prop :=
  ∃ left : Nat, b = (current + left) % 60 ∧
    (expiration ≤ lastRead + (left + 1) * 1000 ∨ lastRead + 1000 < clock) ∧
    lastRead + (left + 1) * 1000 ≤ expiration + 2000

/-- Every one-shot timer of the wheel that is not cancelled is placed in time. -/
def OnSchedule (q : TimerQueue Nat) (lastRead clock : Int) : Prop :=
  ∀ id b, id ∈ q.wheel_ b → (q.timer id).repeat_ = false → (q.timer id).cancelled_ = false →
    Placed q.currentBucket_ lastRead clock b (q.timer id).expiration_

variable {q : TimerQueue Nat} {lastRead clock : Int}

theorem onSchedule_advance {clock' : Int} (h : OnSchedule q lastRead clock) (hle : clock ≤ clock') :
    OnSchedule q lastRead clock' := by
  intro id b hid hrep hlive
  obtain ⟨left, hb, hearly, hlate⟩ := h id b hid hrep hlive
  refine ⟨left, hb, ?_, hlate⟩
  rcases hearly with h' | h'
  · exact Or.inl h'
  · exact Or.inr (by omega)

theorem onSchedule_addTimer (hs : q.Sound) (h : OnSchedule q lastRead clock)
    (hcur : q.currentBucket_ < 60) (hle : lastRead ≤ clock) {request : Request}
    (hfits : request.Fits) (cb : Option Nat) :
    OnSchedule (q.addTimer loopShape cb request.delay request.interval clock) lastRead clock := by
  intro id b hid hrep hlive
  rw [timer_addTimer] at hrep hlive ⊢
  rcases (mem_wheel_addTimer ..).mp hid with hid | ⟨rfl, hb⟩
  · have hne : id ≠ q.nextId_ := (hs.wheel_lt id b hid).ne
    rw [if_neg hne] at hrep hlive ⊢
    exact h id b hid hrep hlive
  · rw [if_pos rfl] at hrep ⊢
    cases request with
    | runEvery intervalMs =>
      -- a periodic timer is none of the timers of the schedule
      simp only [Timer.repeat_, Request.interval] at hrep
      split at hrep <;> simp at hrep
      omega
    | runAfter delayMs =>
      have hdelay : 0 ≤ (Request.runAfter delayMs).delay ∧
          (Request.runAfter delayMs).delay + 999 < 2 ^ 31 := by
        simp only [Request.Fits, kTimerTickMs] at hfits
        simp only [Request.delay]
        split <;> omega
      obtain ⟨ticks, hticks, hone, hup, hdown, hsmall⟩ := addTicks_eq hdelay.1 hdelay.2
      refine ⟨ticks, ?_, ?_, ?_⟩
      · rw [hb, hticks]
        change add64 q.currentBucket_ ticks % 60 = (q.currentBucket_ + ticks) % 60
        rw [add64_eq (by omega)]
      · dsimp only
        by_cases hstall : lastRead + 1000 < clock
        · exact Or.inr hstall
        · exact Or.inl (by omega)
      · dsimp only
        omega

theorem onSchedule_cancelTimer (h : OnSchedule q lastRead clock) (gone : Nat) :
    OnSchedule (q.cancelTimer gone) lastRead clock := by
  obtain ⟨hwheel, -, -, hcurrent, -⟩ := cancelTimer_same q gone
  intro id b hid hrep hlive
  have hexp : ((q.cancelTimer gone).timer id).expiration_ = (q.timer id).expiration_ := by
    rw [timer_cancelTimer]
    split <;> rfl
  rw [hwheel] at hid
  rw [repeat_cancelTimer] at hrep
  rw [hexp, hcurrent]
  exact h id b hid hrep (live_cancelTimer hlive).1

/-- A tick one period behind the one before: what it reaches is due, and every other timer
is one bucket nearer. -/
theorem onSchedule_tick {q' : TimerQueue Nat} (hs : q.Sound) (h : OnSchedule q lastRead clock)
    (hcur : q.currentBucket_ < 60) (ht : Ticked loopShape clock q q')
    (hpace : clock = lastRead + 1000 ∨ ∀ id ∈ q.timers_, (q.timer id).repeat_ = true) :
    OnSchedule q' clock clock := by
  intro id b hid hrep hlive
  obtain ⟨hcancel, hrepeat, -⟩ := ht.timer_same loopShape id
  rw [hrepeat] at hrep
  rw [hcancel] at hlive
  have hnext : q'.currentBucket_ = (q.currentBucket_ + 1) % 60 := ht.currentBucket_
  rw [ht.timer_of_once loopShape hrep, hnext]
  -- where the timer was, and that the tick did not reach its turn
  have hbefore : id ∈ q.wheel_ b ∧ (b = q.currentBucket_ → clock < (q.timer id).expiration_) := by
    rcases (ht.mem_wheel loopShape id b).mp hid with ⟨hb, hid⟩ | ⟨-, hid, hkept⟩ | ⟨-, hagain, -⟩
    · exact ⟨hid, fun hc => absurd hc hb⟩
    · exact ⟨hid, fun _ => ((fate_kept_iff _ _).mp hkept).1⟩
    · rw [((fate_again_iff _ _).mp hagain).2] at hrep
      cases hrep
  obtain ⟨hid, hlater⟩ := hbefore
  rcases hpace with hpace | hperiodic
  · obtain ⟨left, hb, hearly, hlate⟩ := h id b hid hrep hlive
    exact ⟨left - 1, by omega, Or.inl (by omega), by omega⟩
  · rw [hperiodic id (hs.wheel_live id b hid hlive)] at hrep
    cases hrep

/-! ## Runs -/

structure InPace (s : Loop) : Prop where
  callbacks : ∀ id, .added id ∈ s.timerQueue_.log →
    (s.timerQueue_.timer id).callback_.isSome = true
  current : s.timerQueue_.currentBucket_ < 60
  clock : s.lastRead ≤ s.clock
  pending : ∀ call request, .addTimer call request ∈ s.pendingFunctors_ → request.Fits
  schedule : OnSchedule s.timerQueue_ s.lastRead s.clock

theorem inPace_start : InPace .start where
  callbacks := by simp [Loop.start, TimerQueue.start]
  current := by simp [Loop.start, TimerQueue.start]
  clock := le_refl _
  pending := by simp [Loop.start]
  schedule := by simp [OnSchedule, Loop.start, TimerQueue.start]

variable {s : Loop} {pending : List Functor} {calls : Nat} {idPtr : Nat → Option Nat}
  {returned : Nat → Option (Option Nat)} {log : List CallNotice}

theorem inPace_addTimer (hs : s.timerQueue_.Sound) (h : InPace s) {request : Request}
    (hfits : request.Fits) (call : Nat) (hpending : pending ⊆ s.pendingFunctors_) :
    InPace ⟨(s.addTimer call request).timerQueue_, s.clock, s.lastRead, pending, calls, idPtr,
      returned, log⟩ := by
  refine ⟨?_, h.current, h.clock, fun call request hf => h.pending call request (hpending hf),
    onSchedule_addTimer hs h.schedule h.current h.clock hfits (some call)⟩
  intro id hadded
  change _ ∈ s.timerQueue_.log ++ [.added s.timerQueue_.nextId_] at hadded
  simp only [Loop.addTimer, timer_addTimer]
  split
  · rfl
  · rename_i hne
    rw [mem_append, mem_singleton] at hadded
    refine h.callbacks id (hadded.resolve_right ?_)
    intro hc
    cases hc
    exact hne rfl

theorem inPace_cancelTimer (h : InPace s) (gone : Nat) (hpending : pending ⊆ s.pendingFunctors_) :
    InPace ⟨s.timerQueue_.cancelTimer gone, s.clock, s.lastRead, pending, calls, idPtr, returned,
      log⟩ := by
  obtain ⟨-, -, -, hcurrent, hlog⟩ := cancelTimer_same s.timerQueue_ gone
  refine ⟨?_, hcurrent.trans_lt h.current, h.clock,
    fun call request hf => h.pending call request (hpending hf),
    onSchedule_cancelTimer h.schedule gone⟩
  intro id hadded
  rw [hlog, mem_append] at hadded
  rw [timer_cancelTimer]
  have := h.callbacks id (hadded.resolve_right (by simp))
  split <;> exact this

theorem inPace_same (h : InPace s) {clock : Int} (hclock : s.clock ≤ clock)
    (hpending : ∀ call request, .addTimer call request ∈ pending → request.Fits) :
    InPace ⟨s.timerQueue_, clock, s.lastRead, pending, calls, idPtr, returned, log⟩ :=
  { h with
    clock := h.clock.trans hclock
    pending := hpending
    schedule := onSchedule_advance h.schedule hclock }

theorem inPace_handleTimerRead (hs : s.timerQueue_.Sound) (h : InPace s) {howmany : Nat}
    (hone : 1 ≤ howmany) (hclock : s.clock = s.lastRead + howmany * kTimerTickMs)
    (hpace : KeepsPace s (.handleTimerRead howmany)) :
    InPace { s with timerQueue_ := s.timerQueue_.tick loopShape s.clock, lastRead := s.clock } := by
  have ht := tick_ticked loopShape s.clock s.timerQueue_ (hs.nodup _)
  refine ⟨?_, ?_, le_refl _, h.pending, ?_⟩
  · intro id hadded
    rw [ht.log] at hadded
    rw [(ht.timer_same loopShape id).2.2]
    exact h.callbacks id hadded
  · rw [ht.currentBucket_]
    exact Nat.mod_lt _ (by decide)
  · refine onSchedule_tick hs h.schedule h.current ht ?_
    rcases hpace with hpace | hperiodic
    · have : howmany = 1 := by omega
      subst this
      exact Or.inl (by simpa [kTimerTickMs] using hclock)
    · exact Or.inr hperiodic

theorem inPace_runTimer (h : InPace s) : InPace (s.step .runTimer) := by
  obtain ⟨htimer, hwheel, -, hcurrent, hlog⟩ := runTimer_same s.timerQueue_
  refine ⟨?_, hcurrent.trans_lt h.current, h.clock, h.pending, ?_⟩
  · intro id hadded
    simp only [Loop.step, htimer]
    exact h.callbacks id ((hlog id).mp hadded)
  · simp only [Loop.step, OnSchedule, htimer, hwheel, hcurrent]
    exact h.schedule

theorem inPace_step (s : Loop) (e : Event) (hs : s.timerQueue_.Sound) (hpace : KeepsPace s e)
    (h : InPace s) : InPace (s.step e) := by
  cases e with
  | advance ms => exact inPace_same h (by simp) h.pending
  | runInLoop request => exact inPace_addTimer hs h hpace s.calls (Subset.refl _)
  | post request =>
    refine inPace_same h (le_refl _) ?_
    intro call request' hf
    rw [mem_append, mem_singleton] at hf
    rcases hf with hf | hf
    · exact h.pending call request' hf
    · cases hf
      exact hpace
  | readId call =>
    simp only [Loop.step]
    split <;> exact { h with }
  | cancelInLoop call =>
    simp only [Loop.step]
    split
    · exact inPace_cancelTimer h _ (Subset.refl _)
    · exact { h with }
    · exact h
  | cancelFrom call =>
    simp only [Loop.step]
    split
    · refine inPace_same h (le_refl _) ?_
      intro call' request hf
      rw [mem_append] at hf
      exact h.pending call' request (hf.resolve_right (by simp))
    · exact { h with }
    · exact h
  | runFunctor =>
    refine guarded h fun _ => ?_
    unfold Loop.runFunctor
    split
    · exact h
    · rename_i call request rest hpending
      exact inPace_addTimer hs h (h.pending call request (by rw [hpending]; simp)) call
        (hpending ▸ subset_cons_self _ _)
    · rename_i call id rest hpending
      exact inPace_cancelTimer h id (hpending ▸ subset_cons_self _ _)
  | handleTimerRead howmany =>
    exact guarded h fun hguard => inPace_handleTimerRead hs h hguard.2.1 hguard.2.2 hpace
  | runTimer => exact inPace_runTimer h
  | otherQueue => exact { h with }

/-- A timer of the wheel has not been expired for two periods. -/
theorem InPace.onTime (h : InPace s) (haccounted : Accounted s.timerQueue_) : OnTime s := by
  intro hnone id hadded hrep hlive hlate
  rcases haccounted id hadded hrep hlive (h.callbacks id hadded) with ⟨b, hb⟩ | hexp | hran
  · obtain ⟨left, -, -, hplaced⟩ := h.schedule id b hb hrep hlive
    unfold kTimerTickMs at hlate
    omega
  · rw [hnone] at hexp
    cases hexp
  · exact hran

/-- In every run in which each `handleTimerRead` reports one period or finds no one-shot
timer, and no delay overflows an `int`, timers fire within two periods. -/
theorem timers_fire_within_two_periods (events : List Event)
    (hpace : Meets Loop.step KeepsPace .start events) : OnTime (run Loop.step .start events) := by
  have hstart : (TimerQueue.start : TimerQueue Nat).Sound ∧ Accounted (.start : TimerQueue Nat) :=
    ⟨sound_start, by simp [Accounted, TimerQueue.start]⟩
  -- the wheel keeps its own invariant, whatever the loop does to it
  have hstep : ∀ s e, KeepsPace s e → (s.timerQueue_.Sound ∧ Accounted s.timerQueue_) ∧ InPace s →
      ((s.step e).timerQueue_.Sound ∧ Accounted (s.step e).timerQueue_) ∧ InPace (s.step e) :=
    fun s e hpace h => ⟨Loop.queue_invariant (accounted_step loopShape) s e h.1,
      inPace_step s e h.1.1 hpace h.2⟩
  obtain ⟨⟨-, haccounted⟩, hin⟩ := invariant_run hstep hpace ⟨hstart, inPace_start⟩
  exact hin.onTime haccounted

/-- A timer of one and a half seconds, with a call of `handleTimerRead` each second. -/
def threeSeconds : List Event :=
  [.advance 200, .runInLoop (.runAfter 1500), .advance 800, .handleTimerRead 1, .advance 1000,
    .handleTimerRead 1, .advance 1000, .handleTimerRead 1, .runTimer]

theorem timers_fire_within_two_periods_threeSeconds :
    Meets Loop.step KeepsPace .start threeSeconds ∧
      OnTime (run Loop.step .start threeSeconds) := by
  have hpace : Meets Loop.step KeepsPace .start threeSeconds := by decide
  exact ⟨hpace, timers_fire_within_two_periods threeSeconds hpace⟩

/-- A loop that stands still for ten seconds: the wheel is one bucket further, and the timer
of three seconds waits for two calls more. -/
def tenSecondStall : List Event :=
  [.runInLoop (.runAfter 3000), .advance 10000, .handleTimerRead 10]

theorem late_after_stall : ¬OnTime (run Loop.step .start tenSecondStall) := by
  intro h
  have hran := h (by decide) 0 (by decide) (by decide) (by decide) (by decide)
  revert hran
  decide

end mymuduo.loop_timers
