-- Cancelled timers and the callbacks of one tick (src/timer/TimerQueue.h). A
-- periodic timer is still in `timers_` while it waits to run, a one-shot timer is
-- not, so a `cancelTimer` between two callbacks of a tick reaches only the first.
import Mymuduo.TimerQueue

open List runs words

namespace mymuduo.timer_queue

/-! ## The property -/

/-- A `cancelTimer` of the timer has returned since the timer was added. -/
def CancelledSince (log : List Notice) (id : Nat) : Prop :=
  ∃ before after, log = before ++ .added id :: after ∧ .cancelled id ∈ after

/-- A callback does not begin behind a `cancelTimer` of its timer. -/
def NeverAfterCancel (log : List Notice) : Prop :=
  Each (fun before n => ∀ id, n = .ran id → ¬CancelledSince before id) log

variable (log : List Notice)

theorem cancelledSince_append_iff (n : Notice) (id : Nat) :
    CancelledSince (log ++ [n]) id ↔
      CancelledSince log id ∨ n = .cancelled id ∧ .added id ∈ log := by
  unfold CancelledSince
  rw [exists_entry_append_iff]
  constructor
  · rintro (⟨-, hnil⟩ | ⟨before, after, hlog, hmem⟩)
    · cases hnil
    · rw [mem_append, mem_singleton] at hmem
      rcases hmem with hmem | hmem
      · exact Or.inl ⟨before, after, hlog, hmem⟩
      · exact Or.inr ⟨hmem.symm, by rw [hlog]; simp⟩
  · rintro (⟨before, after, hlog, hmem⟩ | ⟨rfl, hmem⟩)
    · exact Or.inr ⟨before, after, hlog, mem_append_left _ hmem⟩
    · obtain ⟨before, after, hlog⟩ := append_of_mem hmem
      exact Or.inr ⟨before, after, hlog, by simp⟩

theorem neverAfterCancel_append_iff (n : Notice) :
    NeverAfterCancel (log ++ [n]) ↔
      NeverAfterCancel log ∧ ∀ id, n = .ran id → ¬CancelledSince log id :=
  each_concat_iff log n

theorem CancelledSince.added {log : List Notice} {id : Nat} (h : CancelledSince log id) :
    .added id ∈ log := by
  obtain ⟨before, after, hlog, -⟩ := h
  rw [hlog]
  simp

section Laws

variable {κ : Type*} (w : Shape)

namespace TimerQueue

/-- A `cancelTimer` does not name a one-shot timer with a callback that the tick in
progress has collected and not yet run. -/
def CancelReaches (q : TimerQueue κ) : Op κ → Prop
  | .cancelTimer id =>
    id ∈ q.expiredTimers → (q.timer id).repeat_ = true ∨ (q.timer id).callback_.isSome = false
  | _ => True

/-! ## The law -/

/-- A cancelled timer is out of the reach of `cancelTimer`, and the timers of the wheel and
of the tick in progress were added. -/
structure Gone (q : TimerQueue κ) : Prop where
  gone : ∀ id, CancelledSince q.log id → id ∉ q.timers_
  wheel_added : ∀ id b, id ∈ q.wheel_ b → .added id ∈ q.log
  expired_added : ∀ id ∈ q.expiredTimers, .added id ∈ q.log

/-- The tick in progress is not going to run a cancelled timer. -/
def NoneOwed (q : TimerQueue κ) : Prop :=
  ∀ id ∈ q.expiredTimers, (q.timer id).cancelled_ = false → (q.timer id).callback_.isSome = true →
    ¬CancelledSince q.log id

/-- No callback began behind a cancel, and none is going to. -/
def Right (q : TimerQueue κ) : Prop := NeverAfterCancel q.log ∧ q.NoneOwed

theorem gone_start : (start : TimerQueue κ).Gone := by
  refine ⟨?_, by simp [start], by simp [start]⟩
  rintro id ⟨before, after, hlog, -⟩
  simp [start] at hlog

theorem right_start : (start : TimerQueue κ).Right :=
  ⟨each_nil _, by simp [NoneOwed, start]⟩

theorem cancelledSince_added_iff (id new : Nat) :
    CancelledSince (log ++ [.added new]) id ↔ CancelledSince log id := by
  rw [cancelledSince_append_iff]
  simp

theorem cancelledSince_ran_iff (id j : Nat) :
    CancelledSince (log ++ [.ran j]) id ↔ CancelledSince log id := by
  rw [cancelledSince_append_iff]
  simp

theorem gone_step (q : TimerQueue κ) (op : Op κ) (hs : q.Sound) (h : q.Gone) :
    (q.step w op).Gone := by
  cases op with
  | addTimer cb delayMs intervalMs now =>
    refine ⟨?_, ?_, ?_⟩
    · intro id hid hmem
      have hold : CancelledSince q.log id := (cancelledSince_added_iff q.log id q.nextId_).mp hid
      rcases mem_cons.mp hmem with rfl | hmem
      · exact lt_irrefl _ (hs.added_lt _ hold.added)
      · exact h.gone id hold hmem
    · intro id b hid
      change _ ∈ q.log ++ [.added q.nextId_]
      rcases (mem_wheel_addTimer w q cb delayMs intervalMs now id b).mp hid with hid | ⟨rfl, -⟩
      · exact mem_append_left _ (h.wheel_added id b hid)
      · simp
    · intro id hid
      exact mem_append_left _ (h.expired_added id hid)
  | cancelTimer gone =>
    obtain ⟨hwheel, hexpired, -, -, hlog⟩ := cancelTimer_same q gone
    simp only [step]
    refine ⟨?_, ?_, ?_⟩
    · intro id hid hmem
      obtain ⟨hmem, hne⟩ := (mem_timers_cancelTimer q gone id).mp hmem
      rw [hlog, cancelledSince_append_iff] at hid
      rcases hid with hid | ⟨hid, -⟩
      · exact h.gone id hid hmem
      · cases hid
        exact hne rfl
    · intro id b hid
      rw [hwheel] at hid
      rw [hlog]
      exact mem_append_left _ (h.wheel_added id b hid)
    · intro id hid
      rw [hexpired] at hid
      rw [hlog]
      exact mem_append_left _ (h.expired_added id hid)
  | tick now =>
    simp only [step]
    split
    · have hticked := tick_ticked w now q (hs.nodup _)
      refine ⟨?_, ?_, ?_⟩
      · intro id hid hmem
        rw [hticked.log] at hid
        exact h.gone id hid ((hticked.timers_ id).mp hmem).1
      · intro id b hid
        obtain ⟨b', hid⟩ := hticked.mem_wheel_before w hid
        rw [hticked.log]
        exact h.wheel_added id b' hid
      · intro id hid
        rw [hticked.log]
        rcases (hticked.expired id).mp hid with hid | ⟨hid, -⟩
        · exact h.expired_added id hid
        · exact h.wheel_added id _ hid
    · exact h
  | runTimer =>
    simp only [step]
    cases hexp : q.expiredTimers with
    | nil => rwa [runTimer_nil hexp]
    | cons id rest =>
      have hsub : ∀ j ∈ rest, j ∈ q.expiredTimers := fun j hj => hexp ▸ mem_cons_of_mem _ hj
      rw [runTimer_cons hexp]
      split
      · refine ⟨?_, ?_, ?_⟩
        · intro j hj
          exact h.gone j ((cancelledSince_ran_iff q.log j id).mp hj)
        · exact fun j b hj => mem_append_left _ (h.wheel_added j b hj)
        · exact fun j hj => mem_append_left _ (h.expired_added j (hsub j hj))
      · exact ⟨h.gone, h.wheel_added, fun j hj => h.expired_added j (hsub j hj)⟩
  | otherQueue => exact { h with }

variable {q : TimerQueue κ}

/-- A cancel that finds the timer gone is a cancel that comes too late. -/
theorem right_cancelTimer_iff (hs : q.Sound) (h : q.Gone) (gone : Nat) :
    (q.cancelTimer gone).Right ↔ q.Right ∧ q.CancelReaches (.cancelTimer gone) := by
  obtain ⟨-, hexpired, -, -, hlog⟩ := cancelTimer_same q gone
  unfold Right
  rw [hlog, neverAfterCancel_append_iff]
  constructor
  · rintro ⟨⟨hnever, -⟩, howed⟩
    have hkeep : ∀ id ∈ q.expiredTimers, (q.timer id).cancelled_ = false →
        (q.timer id).callback_.isSome = true → (id = gone → gone ∉ q.timers_) →
        ¬CancelledSince (q.log ++ [.cancelled gone]) id := by
      intro id hid hlive hcb hout
      have hnot : ¬(id = gone ∧ gone ∈ q.timers_) := fun hc => hout hc.1 hc.2
      have := howed id (by rwa [hexpired])
      rw [timer_cancelTimer, if_neg hnot, hlog] at this
      exact this hlive hcb
    refine ⟨⟨hnever, ?_⟩, ?_⟩
    · intro id hid hlive hcb hdead
      -- a timer that is cancelled already is not in `timers_` either
      exact hkeep id hid hlive hcb (fun heq => heq ▸ h.gone id hdead)
        ((cancelledSince_append_iff _ _ _).mpr (Or.inl hdead))
    · intro hid
      by_contra hnot
      rw [not_or] at hnot
      have honce : (q.timer gone).repeat_ = false := by simpa using hnot.1
      obtain ⟨hlive, hout⟩ := hs.once_gone gone hid honce
      exact hkeep gone hid hlive (Bool.eq_true_of_not_eq_false hnot.2) (fun _ => hout)
        ((cancelledSince_append_iff _ _ _).mpr (Or.inr ⟨rfl, h.expired_added gone hid⟩))
  · rintro ⟨⟨hnever, howed⟩, hreach⟩
    refine ⟨⟨hnever, fun id hn => nomatch hn⟩, ?_⟩
    intro id hid hlive hcb hdead
    rw [hexpired] at hid
    have hcb' : (q.timer id).callback_.isSome = true := by
      rw [timer_cancelTimer] at hcb
      split at hcb <;> exact hcb
    obtain ⟨hlive, hne⟩ := live_cancelTimer hlive
    rw [hlog, cancelledSince_append_iff] at hdead
    rcases hdead with hdead | ⟨heq, -⟩
    · exact howed id hid hlive hcb' hdead
    · cases heq
      rcases hreach hid with hrep | hnone
      · exact hne (hs.again_live gone hid hrep hlive) rfl
      · rw [hnone] at hcb'
        cases hcb'

/-- A tick collects only timers that no cancel has reached. -/
theorem right_tick_iff {now : Int} {q' : TimerQueue κ} (hs : q.Sound) (h : q.Gone)
    (hnone : q.expiredTimers = []) (ht : Ticked w now q q') : q'.Right ↔ q.Right := by
  have howed : q.NoneOwed := by
    intro id hid
    rw [hnone] at hid
    cases hid
  have howed' : q'.NoneOwed := by
    intro id hid hlive hcb hdead
    rw [ht.log] at hdead
    rw [(ht.timer_same w id).1] at hlive
    rcases (ht.expired id).mp hid with hid | ⟨hid, -⟩
    · rw [hnone] at hid
      cases hid
    · exact h.gone id hdead (hs.wheel_live id _ hid hlive)
  unfold Right
  rw [ht.log]
  exact ⟨fun hr => ⟨hr.1, howed⟩, fun hr => ⟨hr.1, howed'⟩⟩

theorem right_runTimer_iff (q : TimerQueue κ) : q.runTimer.Right ↔ q.Right := by
  cases hexp : q.expiredTimers with
  | nil => rw [runTimer_nil hexp]
  | cons id rest =>
    rw [runTimer_cons hexp]
    unfold Right NoneOwed
    dsimp only
    rw [hexp, forall_mem_cons]
    by_cases hruns : (!(q.timer id).cancelled_ && (q.timer id).callback_.isSome) = true
    · rw [if_pos hruns, neverAfterCancel_append_iff]
      simp only [Bool.and_eq_true, Bool.not_eq_true'] at hruns
      simp only [cancelledSince_ran_iff, hruns, Notice.ran.injEq, forall_eq', forall_const]
      tauto
    · rw [if_neg hruns]
      simp only [Bool.and_eq_true, Bool.not_eq_true'] at hruns
      tauto

theorem right_addTimer_iff (hs : q.Sound) (cb : Option κ) (delayMs intervalMs now : Int) :
    (q.addTimer w cb delayMs intervalMs now).Right ↔ q.Right := by
  have hlog : (q.addTimer w cb delayMs intervalMs now).log = q.log ++ [.added q.nextId_] := rfl
  have hexpired : (q.addTimer w cb delayMs intervalMs now).expiredTimers = q.expiredTimers := rfl
  have howed : (q.addTimer w cb delayMs intervalMs now).NoneOwed ↔ q.NoneOwed := by
    unfold NoneOwed
    rw [hlog, hexpired]
    refine forall₂_congr fun id hid => ?_
    rw [timer_addTimer, if_neg (hs.expired_lt id hid).ne, cancelledSince_added_iff]
  unfold Right
  rw [howed, hlog, neverAfterCancel_append_iff]
  simp

theorem right_step_iff (q : TimerQueue κ) (op : Op κ) (hs : q.Sound) (h : q.Gone) :
    (q.step w op).Right ↔ q.Right ∧ q.CancelReaches op := by
  cases op with
  | addTimer cb delayMs intervalMs now =>
    rw [show q.CancelReaches (.addTimer cb delayMs intervalMs now) = True from rfl, and_true]
    exact right_addTimer_iff w hs cb delayMs intervalMs now
  | cancelTimer gone => exact right_cancelTimer_iff hs h gone
  | tick now =>
    rw [show q.CancelReaches (.tick now) = True from rfl, and_true]
    simp only [step]
    split
    · rename_i hnone
      exact right_tick_iff w hs h hnone (tick_ticked w now q (hs.nodup _))
    · exact Iff.rfl
  | runTimer =>
    rw [show q.CancelReaches (.runTimer) = True from rfl, and_true]
    exact right_runTimer_iff q
  | otherQueue =>
    rw [show q.CancelReaches (.otherQueue) = True from rfl, and_true]
    exact Iff.rfl

/-! ## Runs -/

/-- In every sequence of calls and callbacks in which each cancel comes in time, no callback
begins behind a cancel of its timer. And a sequence that ends with a complete tick has
no such callback only if each cancel comes in time. -/
theorem cancelled_timers_never_run_iff (ops : List (Op κ)) :
    (Meets (step w) CancelReaches start ops →
        NeverAfterCancel (run (step w) (start : TimerQueue κ) ops).log) ∧
      ((run (step w) (start : TimerQueue κ) ops).expiredTimers = [] →
        NeverAfterCancel (run (step w) (start : TimerQueue κ) ops).log →
        Meets (step w) CancelReaches (start : TimerQueue κ) ops) := by
  have hlaw := law_run_iff Right (fun q op (h : q.Sound ∧ q.Gone) =>
    ⟨sound_step w q op h.1, gone_step w q op h.1 h.2⟩)
    (fun q op h => right_step_iff w q op h.1 h.2) ⟨sound_start, gone_start⟩ ops
  refine ⟨fun hok => (hlaw.mpr ⟨right_start, hok⟩).1, fun hdone hnever => ?_⟩
  refine (hlaw.mp ⟨hnever, ?_⟩).2
  intro id hid
  rw [hdone] at hid
  cases hid

end TimerQueue

end Laws

/-! ## Two timers of one tick -/

/-- A wheel of ten buckets and 50 ms, as in the test of the queue. -/
def tenBuckets : Shape := ⟨10, 50, by decide, by decide⟩

/-- Two one-shot timers of one bucket, and the tick that finds both due. The callback of
the first cancels the second. -/
def cancelWithinTick : List (Op Unit) :=
  [.addTimer (some ()) 50 0 0, .addTimer (some ()) 50 0 0, .tick 50, .tick 100, .runTimer,
    .cancelTimer 1, .runTimer]

theorem log_cancelWithinTick :
    (run (TimerQueue.step tenBuckets) TimerQueue.start cancelWithinTick).log =
      [.added 0, .added 1, .ran 0, .cancelled 1, .ran 1] := by decide

/-- The second timer runs behind its cancel. -/
theorem cancelled_timer_runs :
    ¬NeverAfterCancel (run (TimerQueue.step tenBuckets) TimerQueue.start cancelWithinTick).log := by
  rw [log_cancelWithinTick]
  intro h
  exact h [.added 0, .added 1, .ran 0, .cancelled 1] (.ran 1) [] rfl 1 rfl
    ⟨[.added 0], [.ran 0, .cancelled 1], rfl, by decide⟩

end mymuduo.timer_queue
