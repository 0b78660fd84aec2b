-- When the timers of the wheel fire. A timer is placed by the number of `tick` calls
-- until its expiration, modulo the number of buckets, and fires by its expiration time.
-- As long as two calls of `tick` are a period apart, the call that the timer is placed
-- for finds it expired.
import Mymuduo.TimerWatch

open List runs words
open Function (update update_self update_of_ne)

namespace mymuduo.timer_accuracy

open timer_queue timer_queue.TimerQueue

variable {s s' : Watch κ}

section Model

variable {κ : Type*} (w : Shape)

/-! ## What a run keeps -/

def Watch.nextTick (s : Watch κ) : Int :=
  if s.calls = 0 then s.clock else max s.clock (s.tickTime + w.tickMs_)

/-- The firings of a timer, with the one that the `tick` in progress has collected and not
run yet. -/
def Watch.shots (s : Watch κ) (id : Nat) (r : Record) : List Firing :=
  r.firings ++ if id ∈ s.queue.expiredTimers then [⟨s.calls - 1, s.tickTime, s.tickTime⟩] else []

/-- The timer is in the bucket of its deadline, and the call that comes then comes behind
its expiration. -/
structure Armed (s : Watch κ) (id : Nat) (r : Record) (shots : List Firing) : Prop where
  place : id ∈ s.queue.wheel_ (r.deadline w shots % w.buckets_)
  expires : (s.queue.timer id).expiration_ = r.expiration shots
  ahead : s.calls ≤ r.deadline w shots
  reached : r.expiration shots ≤ s.nextTick w + (r.deadline w shots - s.calls : Nat) * w.tickMs_

/-- A firing that the wheel collected at its time. -/
def Timely (r : Record) (before : List Firing) (f : Firing) : Prop :=
  r.expiration before ≤ f.tickTime ∧ r.calls ≤ f.call ∧ (∀ g ∈ before, g.call < f.call) ∧
    f.call ≤ r.deadline w before

/-- How the queue stands to the record of a timer. -/
structure Tracked (s : Watch κ) (id : Nat) (r : Record) : Prop where
  interval : (s.queue.timer id).interval_ = r.intervalMs
  gone : (s.queue.timer id).cancelled_ = true → r.cancelled = true
  erased : r.cancelled = true → id ∉ s.queue.timers_
  calls_le : r.calls ≤ s.calls
  timely : Each (Timely w r) (s.shots id r)
  earlier : ∀ f ∈ s.shots id r, f.call < s.calls
  times : ∀ f ∈ r.firings, f.tickTime ≤ f.time
  spent : r.intervalMs = 0 → s.shots id r ≠ [] →
    (s.shots id r).length = 1 ∧ ∀ b, id ∉ s.queue.wheel_ b
  armed : r.cancelled = false → s.shots id r = [] ∨ 0 < r.intervalMs →
    Armed w s id r (s.shots id r)
  runs : s.queue.log.count (.ran id) =
    if (s.queue.timer id).callback_.isSome then r.firings.length else 0

structure Kept (s : Watch κ) : Prop where
  sound : s.queue.Sound
  bucket : s.queue.currentBucket_ = s.calls % w.buckets_
  nodup : s.queue.expiredTimers.Nodup
  clock : 0 < s.calls → s.tickTime ≤ s.clock
  begun : s.queue.expiredTimers ≠ [] → 0 < s.calls
  recorded : ∀ id r, s.record id = some r → id < s.queue.nextId_
  ran_lt : ∀ id, .ran id ∈ s.queue.log → id < s.queue.nextId_
  tracked : ∀ id r, s.record id = some r → r.InRange w → Tracked w s id r

variable {w}

theorem kept_start (now : Int) : Kept w (.start now : Watch κ) where
  sound := sound_start
  bucket := (Nat.zero_mod _).symm
  nodup := List.nodup_nil
  clock := by simp [Watch.start]
  begun := by simp [Watch.start, TimerQueue.start]
  recorded := by simp [Watch.start]
  ran_lt := by simp [Watch.start, TimerQueue.start]
  tracked := by simp [Watch.start]

variable {id : Nat}

theorem shots_of_notMem {s : Watch κ} (h : id ∉ s.queue.expiredTimers) (r : Record) :
    s.shots id r = r.firings := by
  unfold Watch.shots
  rw [if_neg h, append_nil]

theorem shots_of_mem {s : Watch κ} (h : id ∈ s.queue.expiredTimers) (r : Record) :
    s.shots id r = r.firings ++ [⟨s.calls - 1, s.tickTime, s.tickTime⟩] := by
  unfold Watch.shots
  rw [if_pos h]

variable {queue : TimerQueue κ} {clock : Int} {record : Nat → Option Record}

theorem nextTick_mono {s : Watch κ} (hclock : s.clock ≤ clock) :
    s.nextTick w ≤ Watch.nextTick w ⟨queue, clock, s.calls, s.tickTime, record⟩ := by
  unfold Watch.nextTick
  split
  · exact hclock
  · exact max_le_max_right _ hclock

variable {r : Record}

theorem Tracked.of_shots (h : Tracked w s id r) (hcalls : s.calls ≤ s'.calls)
    (htimer : s'.queue.timer id = s.queue.timer id)
    (htimers : id ∈ s'.queue.timers_ → id ∈ s.queue.timers_)
    (hwheel : ∀ b, id ∈ s'.queue.wheel_ b → ∃ b', id ∈ s.queue.wheel_ b')
    (hshots : s'.shots id r = s.shots id r)
    (hlog : s'.queue.log.count (.ran id) = s.queue.log.count (.ran id))
    (harmed : r.cancelled = false → Armed w s id r (s.shots id r) →
      Armed w s' id r (s.shots id r)) : Tracked w s' id r := by
  refine ⟨?_, ?_, fun hc hmem => h.erased hc (htimers hmem), h.calls_le.trans hcalls, ?_, ?_,
    h.times,
    ?_, ?_, ?_⟩
  · rw [htimer]
    exact h.interval
  · rw [htimer]
    exact h.gone
  · rw [hshots]
    exact h.timely
  · rw [hshots]
    exact fun f hf => (h.earlier f hf).trans_le hcalls
  · rw [hshots]
    intro hzero hne
    obtain ⟨hone, hout⟩ := h.spent hzero hne
    refine ⟨hone, fun b hb => ?_⟩
    obtain ⟨b', hb'⟩ := hwheel b hb
    exact hout b' hb'
  · rw [hshots]
    exact fun hc hmore => harmed hc (h.armed hc hmore)
  · rw [hlog, htimer]
    exact h.runs

theorem Tracked.of_same {s : Watch κ} (h : Tracked w s id r) (hclock : s.clock ≤ clock)
    (htimer : queue.timer id = s.queue.timer id)
    (htimers : id ∈ queue.timers_ → id ∈ s.queue.timers_)
    (hwheel : ∀ b, id ∈ queue.wheel_ b ↔ id ∈ s.queue.wheel_ b)
    (hexpired : id ∈ queue.expiredTimers ↔ id ∈ s.queue.expiredTimers)
    (hlog : queue.log.count (.ran id) = s.queue.log.count (.ran id)) :
    Tracked w ⟨queue, clock, s.calls, s.tickTime, record⟩ id r := by
  refine h.of_shots (Nat.le_refl _) htimer htimers (fun b hb => ⟨b, (hwheel b).mp hb⟩) ?_ hlog ?_
  · simp only [Watch.shots, hexpired]
  · rintro - ⟨hplace, hexpires, hahead, hreached⟩
    exact ⟨(hwheel _).mpr hplace, htimer ▸ hexpires, hahead,
      hreached.trans (add_le_add (nextTick_mono hclock) le_rfl)⟩

theorem count_ran_append (log : List Notice) {notice : Notice} (h : notice ≠ .ran id) :
    (log ++ [notice]).count (.ran id) = log.count (.ran id) := by
  have hnone : [notice].count (.ran id) = 0 := count_eq_zero.mpr (by simpa using h.symm)
  rw [count_append, hnone, Nat.add_zero]

/-! ## New timers -/

variable {now : Int}

theorem tracked_new (hw : w.buckets_ ≤ maxBuckets) {s : Watch κ} (h : Kept w s) (cb : Option κ)
    {delayMs intervalMs : Int}
    (hr : Record.InRange w ⟨now, delayMs, intervalMs, s.calls, false, []⟩) :
    Tracked w (s.step w (.addTimer cb delayMs intervalMs now)) s.queue.nextId_
      ⟨now, delayMs, intervalMs, s.calls, false, []⟩ := by
  let r : Record := ⟨now, delayMs, intervalMs, s.calls, false, []⟩
  let s' : Watch κ := s.step w (.addTimer cb delayMs intervalMs now)
  have hticks := addTicks_eq w hr.delay_nonneg hr.delay
  have hlt := ticksFor_lt w hr.delay_nonneg hr.delay
  have hle := le_ticksFor w delayMs
  have htick := w.tickMs_pos
  have htimer : s'.queue.timer s.queue.nextId_ = ⟨cb, now + delayMs, intervalMs, false⟩ := by
    change (s.queue.addTimer w cb delayMs intervalMs now).timer _ = _
    rw [timer_addTimer, if_pos rfl]
  have hexpired : s.queue.nextId_ ∉ s'.queue.expiredTimers :=
    fun hmem => lt_irrefl _ (h.sound.expired_lt _ hmem)
  have hshots : s'.shots s.queue.nextId_ r = [] := shots_of_notMem hexpired r
  have hclock : now ≤ s'.nextTick w := by
    change now ≤ if s.calls = 0 then now else max now (s.tickTime + w.tickMs_)
    split
    · exact le_refl _
    · exact le_max_left _ _
  have hmul : (ticksFor w delayMs : Int) * w.tickMs_ ≤
      (max 1 (ticksFor w delayMs) : Nat) * w.tickMs_ :=
    mul_le_mul_of_nonneg_right (by omega) htick.le
  refine ⟨?_, ?_, by simp, le_refl _, ?_, ?_, by simp, ?_, ?_, ?_⟩
  · rw [htimer]
  · rw [htimer]
    simp
  · rw [hshots]
    exact each_nil _
  · rw [hshots]
    simp
  · intro _ hne
    exact absurd hshots hne
  · intro _ _
    rw [hshots]
    refine ⟨?_, ?_, ?_, ?_⟩
    · rw [Record.deadline_nil]
      refine (mem_wheel_addTimer w s.queue cb delayMs intervalMs now _ _).mpr
        (Or.inr ⟨rfl, ?_⟩)
      rw [hticks, bucketAt_eq w hw h.bucket (by omega)]
    · rw [htimer, Record.expiration_nil]
    · rw [Record.deadline_nil]
      exact Nat.le_add_right _ _
    · rw [Record.deadline_nil, Record.expiration_nil]
      change now + delayMs ≤ s'.nextTick w +
        (s.calls + max 1 (ticksFor w delayMs) - s.calls : Nat) * w.tickMs_
      rw [Nat.add_sub_cancel_left]
      omega
  · have hnone : s.queue.log.count (.ran s.queue.nextId_) = 0 :=
      count_eq_zero.mpr (fun hmem => lt_irrefl _ (h.ran_lt _ hmem))
    change (s.queue.log ++ [Notice.added s.queue.nextId_]).count (Notice.ran s.queue.nextId_) = _
    rw [count_ran_append _ (by simp), hnone]
    simp

theorem kept_addTimer (hw : w.buckets_ ≤ maxBuckets) {s : Watch κ} (h : Kept w s) (cb : Option κ)
    (delayMs intervalMs now : Int) (hnow : s.clock ≤ now) :
    Kept w (s.step w (.addTimer cb delayMs intervalMs now)) := by
  refine ⟨sound_addTimer w h.sound cb delayMs intervalMs now, h.bucket, h.nodup,
    fun hcalls => (h.clock hcalls).trans hnow, h.begun, ?_, ?_, ?_⟩
  · intro id r hr
    change update s.record s.queue.nextId_ _ id = some r at hr
    by_cases hid : id = s.queue.nextId_
    · rw [hid]
      exact Nat.lt_succ_self _
    · rw [update_of_ne hid] at hr
      exact Nat.lt_succ_of_lt (h.recorded id r hr)
  · intro id hran
    change _ ∈ s.queue.log ++ [.added s.queue.nextId_] at hran
    rw [mem_append] at hran
    exact Nat.lt_succ_of_lt (h.ran_lt id (hran.resolve_right (by simp)))
  · intro id r hr hrange
    change update s.record s.queue.nextId_ _ id = some r at hr
    by_cases hid : id = s.queue.nextId_
    · subst hid
      rw [update_self] at hr
      cases hr
      exact tracked_new hw h cb hrange
    · rw [update_of_ne hid] at hr
      refine (h.tracked id r hr hrange).of_same hnow ?_ ?_ ?_ Iff.rfl ?_
      · exact (timer_addTimer ..).trans (if_neg hid)
      · intro hmem
        exact (mem_cons.mp hmem).resolve_left hid
      · intro b
        refine (mem_wheel_addTimer w s.queue cb delayMs intervalMs now id b).trans ?_
        exact or_iff_left (fun hnew => hid hnew.1)
      · exact count_ran_append s.queue.log (by simp)

/-! ## Cancelled timers -/

theorem tracked_cancelled {s : Watch κ} (ht : Tracked w s id r) :
    Tracked w ⟨s.queue.cancelTimer id, s.clock, s.calls, s.tickTime, record⟩ id
      { r with cancelled := true } := by
  obtain ⟨hwheel, hexpired, -, -, hlog⟩ := cancelTimer_same s.queue id
  have htimer := timer_cancelTimer s.queue id id
  have hcallback :
      ((s.queue.cancelTimer id).timer id).callback_ = (s.queue.timer id).callback_ := by
    rw [htimer]
    split <;> rfl
  set s' : Watch κ := ⟨s.queue.cancelTimer id, s.clock, s.calls, s.tickTime, record⟩
  have hshots : s'.shots id { r with cancelled := true } = s.shots id r := by
    simp only [Watch.shots, s', hexpired]
  refine ⟨?_, fun _ => rfl, ?_, ht.calls_le, ?_, ?_, ht.times, ?_, nofun, ?_⟩
  · rw [← ht.interval, htimer]
    split <;> rfl
  · exact fun _ hmem => ((mem_timers_cancelTimer s.queue id id).mp hmem).2 rfl
  · rw [hshots]
    exact ht.timely
  · rw [hshots]
    exact ht.earlier
  · rw [hshots, hwheel]
    exact ht.spent
  · rw [hlog, count_ran_append _ (by simp), hcallback]
    exact ht.runs

theorem kept_cancelTimer {s : Watch κ} (h : Kept w s) (gone : Nat) :
    Kept w (s.step w (.cancelTimer gone)) := by
  obtain ⟨hwheel, hexpired, hnext, hcurrent, hlog⟩ := cancelTimer_same s.queue gone
  refine ⟨sound_cancelTimer h.sound gone, hcurrent.trans h.bucket, hexpired.symm ▸ h.nodup,
    h.clock, hexpired.symm ▸ h.begun, ?_, ?_, ?_⟩
  · intro id r hr
    refine lt_of_lt_of_eq ?_ hnext.symm
    change update s.record gone _ id = some r at hr
    by_cases hid : id = gone
    · subst hid
      rw [update_self] at hr
      obtain ⟨r0, hr0, -⟩ := Option.map_eq_some_iff.mp hr
      exact h.recorded id r0 hr0
    · rw [update_of_ne hid] at hr
      exact h.recorded id r hr
  · intro id hran
    refine lt_of_lt_of_eq (h.ran_lt id ?_) hnext.symm
    have hmem : _ ∈ s.queue.log ++ [Notice.cancelled gone] := hlog ▸ hran
    exact (mem_append.mp hmem).resolve_right (by simp)
  · intro id r hr hrange
    change update s.record gone _ id = some r at hr
    by_cases hid : id = gone
    · subst hid
      rw [update_self] at hr
      obtain ⟨r0, hr0, rfl⟩ := Option.map_eq_some_iff.mp hr
      exact tracked_cancelled (h.tracked id r0 hr0 { hrange with })
    · rw [update_of_ne hid] at hr
      refine (h.tracked id r hr hrange).of_same (le_refl _) ?_ ?_ (fun b => hwheel ▸ Iff.rfl)
        (hexpired ▸ Iff.rfl) ?_
      · exact (timer_cancelTimer ..).trans (if_neg fun hc => hid hc.1)
      · exact fun hmem => ((mem_timers_cancelTimer s.queue gone id).mp hmem).1
      · exact hlog ▸ count_ran_append s.queue.log (by simp)

/-! ## Callbacks -/

variable {rest : List Nat}

theorem Kept.nodup_cons {s : Watch κ} (h : Kept w s) (hexp : s.queue.expiredTimers = id :: rest) :
    id ∉ rest ∧ rest.Nodup := by
  have hnodup := h.nodup
  rw [hexp] at hnodup
  exact List.nodup_cons.mp hnodup

/-- The timer that runs: its firing is the one that the tick collected. -/
theorem tracked_ran {s : Watch κ} (h : Kept w s) (ht : Tracked w s id r) (hnow : s.clock ≤ now)
    (hexp : s.queue.expiredTimers = id :: rest) (hlive : (s.queue.timer id).cancelled_ = false)
    (record : Nat → Option Record) :
    Tracked w ⟨s.queue.runTimer, now, s.calls, s.tickTime, record⟩ id
      (r.fire ⟨s.calls - 1, s.tickTime, now⟩) := by
  have hmem : id ∈ s.queue.expiredTimers := hexp ▸ mem_cons_self
  have hbegun := h.begun (ne_nil_of_mem hmem)
  rw [runTimer_cons hexp, hlive]
  set s' : Watch κ := ⟨_, now, s.calls, s.tickTime, record⟩
  have hold := shots_of_mem hmem r
  have hnew : s'.shots id (r.fire ⟨s.calls - 1, s.tickTime, now⟩) =
      r.firings ++ [⟨s.calls - 1, s.tickTime, now⟩] := shots_of_notMem (h.nodup_cons hexp).1 _
  have htimely := ht.timely
  rw [hold, each_concat_iff] at htimely
  refine { ht with timely := ?_, earlier := ?_, times := ?_, spent := ?_, armed := ?_, runs := ?_ }
  · rw [hnew, each_concat_iff]
    exact htimely
  · rw [hnew]
    refine forall_mem_append.mpr ⟨?_, forall_mem_singleton.mpr (Nat.sub_lt hbegun Nat.one_pos)⟩
    exact fun f hf => ht.earlier f (by rw [hold]; exact mem_append_left _ hf)
  · exact forall_mem_append.mpr
      ⟨ht.times, forall_mem_singleton.mpr ((h.clock hbegun).trans hnow)⟩
  · intro hzero _
    obtain ⟨hone, hout⟩ := ht.spent hzero (by rw [hold]; simp)
    rw [hold] at hone
    rw [hnew]
    exact ⟨by simpa using hone, hout⟩
  · intro hc hmore
    have hpos : 0 < r.intervalMs := hmore.resolve_left (by rw [hnew]; simp)
    obtain ⟨hplace, hexpires, hahead, hreached⟩ := ht.armed hc (Or.inr hpos)
    have hnext : s.nextTick w ≤ s'.nextTick w := nextTick_mono hnow
    rw [hold, Record.deadline_concat] at hplace hahead hreached
    rw [hold, Record.expiration_concat] at hexpires
    rw [Record.expiration_concat] at hreached
    rw [hnew]
    refine ⟨?_, ?_, ?_, ?_⟩
    · rw [Record.deadline_concat]
      exact hplace
    · rw [Record.expiration_concat]
      exact hexpires
    · rw [Record.deadline_concat]
      exact hahead
    · rw [Record.deadline_concat, Record.expiration_concat]
      exact hreached.trans (add_le_add hnext le_rfl)
  · have hruns := ht.runs
    dsimp only [s', Record.fire]
    rw [length_append]
    cases hcb : (s.queue.timer id).callback_.isSome with
    | true =>
      rw [hcb, if_pos rfl] at hruns
      simp [count_append, hruns]
    | false =>
      rw [hcb, if_neg (by simp)] at hruns
      simp [hruns]

theorem tracked_skipped {s : Watch κ} (h : Kept w s) (ht : Tracked w s id r)
    (hexp : s.queue.expiredTimers = id :: rest) (hgone : (s.queue.timer id).cancelled_ = true)
    (record : Nat → Option Record) :
    Tracked w ⟨s.queue.runTimer, now, s.calls, s.tickTime, record⟩ id r := by
  have hold := shots_of_mem (hexp ▸ mem_cons_self : id ∈ s.queue.expiredTimers) r
  rw [runTimer_cons hexp, hgone]
  set s' : Watch κ := ⟨_, now, s.calls, s.tickTime, record⟩
  have hnew : s'.shots id r = r.firings := shots_of_notMem (h.nodup_cons hexp).1 r
  refine { ht with timely := ?_, earlier := ?_, spent := ?_, armed := ?_ }
  · have htimely := ht.timely
    rw [hold, each_concat_iff] at htimely
    rw [hnew]
    exact htimely.1
  · rw [hnew]
    exact fun f hf => ht.earlier f (by rw [hold]; exact mem_append_left _ hf)
  · intro hzero hne
    obtain ⟨hone, -⟩ := ht.spent hzero (by rw [hold]; simp)
    rw [hold, length_append, length_singleton] at hone
    rw [hnew] at hne
    exact absurd (eq_nil_of_length_eq_zero (by omega)) hne
  · intro hc
    rw [ht.gone hgone] at hc
    cases hc

theorem kept_runTimer {s : Watch κ} (h : Kept w s) (now : Int) (hnow : s.clock ≤ now) :
    Kept w (s.step w (.runTimer now)) := by
  cases hexp : s.queue.expiredTimers with
  | nil =>
    simp only [Watch.step, hexp]
    exact h
  | cons head rest =>
    let record : Nat → Option Record :=
      if (s.queue.timer head).cancelled_ then s.record
      else update s.record head
        ((s.record head).map fun r => r.fire ⟨s.calls - 1, s.tickTime, now⟩)
    have hstep : s.step w (.runTimer now) =
        ⟨s.queue.runTimer, now, s.calls, s.tickTime, record⟩ := by
      simp only [Watch.step, hexp, record]
      split <;> rfl
    have hother : ∀ id, id ≠ head → record id = s.record id := by
      intro id hid
      simp only [record]
      split
      · rfl
      · exact update_of_ne hid ..
    have hhead : head ∈ s.queue.expiredTimers := hexp ▸ mem_cons_self
    have hbegun : 0 < s.calls := h.begun (ne_nil_of_mem hhead)
    have hrun := runTimer_cons hexp
    rw [hstep]
    refine ⟨sound_runTimer h.sound, ?_, ?_, fun _ => (h.clock hbegun).trans hnow,
      fun _ => hbegun, ?_, ?_, ?_⟩
    · rw [hrun]
      exact h.bucket
    · rw [hrun]
      exact (h.nodup_cons hexp).2
    · intro id r hr
      rw [hrun]
      by_cases hid : id = head
      · exact hid ▸ h.sound.expired_lt head hhead
      · exact h.recorded id r (hother id hid ▸ hr)
    · intro id hran
      rw [hrun] at hran ⊢
      split at hran
      · rcases mem_append.mp hran with hran | hran
        · exact h.ran_lt id hran
        · cases mem_singleton.mp hran
          exact h.sound.expired_lt head hhead
      · exact h.ran_lt id hran
    · intro id r hr hrange
      by_cases hid : id = head
      · subst hid
        cases hgone : (s.queue.timer id).cancelled_ with
        | true =>
          simp only [record, hgone, if_true] at hr
          exact tracked_skipped h (h.tracked id r hr hrange) hexp hgone record
        | false =>
          simp only [record, hgone, Bool.false_eq_true, if_false, update_self] at hr
          obtain ⟨r0, hr0, rfl⟩ := Option.map_eq_some_iff.mp hr
          exact tracked_ran h (h.tracked id r0 hr0 { hrange with }) hnow hexp hgone record
      · rw [hrun]
        refine (h.tracked id r (hother id hid ▸ hr) hrange).of_same hnow rfl
          (fun hmem => hmem) (fun _ => Iff.rfl) ?_ ?_
        · rw [hexp, mem_cons]
          exact (or_iff_right hid).symm
        · dsimp only
          split
          · exact count_ran_append s.queue.log (by simpa using Ne.symm hid)
          · rfl

/-! ## Ticks -/

theorem Tracked.live {s : Watch κ} {b : Nat} (h : Tracked w s id r) (hs : s.queue.Sound)
    (hmem : id ∈ s.queue.wheel_ b) (hlive : (s.queue.timer id).cancelled_ = false) :
    r.cancelled = false := by
  cases hc : r.cancelled with
  | false => rfl
  | true => exact absurd (hs.wheel_live id b hmem hlive) (h.erased hc)

theorem interval_ticked {q q' : TimerQueue κ} (h : Ticked w now q q') (id : Nat) :
    (q'.timer id).interval_ = (q.timer id).interval_ := by
  rw [h.timer id]
  split
  · unfold Timer.restart
    split <;> rfl
  · rfl

structure TickedAt (w : Shape) (now : Int) (s s' : Watch κ) : Prop where
  queue : Ticked w now s.queue s'.queue
  clock : s'.clock = now
  calls : s'.calls = s.calls + 1
  tickTime : s'.tickTime = now

theorem TickedAt.nextTick (h : TickedAt w now s s') : s'.nextTick w = now + w.tickMs_ := by
  have htick := w.tickMs_pos
  unfold Watch.nextTick
  rw [h.calls, h.clock, h.tickTime, if_neg (Nat.succ_ne_zero _)]
  exact max_eq_right (by omega)

/-- A timer that the tick collects is due, and a periodic one is placed anew. -/
theorem tracked_taken (hw : w.buckets_ ≤ maxBuckets) (h : Kept w s)
    (ht : Tracked w s id r) (hr : r.InRange w) (hat : TickedAt w now s s')
    (hnone : s.queue.expiredTimers = []) (hmem : id ∈ s.queue.wheel_ s.queue.currentBucket_)
    (hfate : fate (s.queue.timer id) now = .again ∨ fate (s.queue.timer id) now = .once) :
    Tracked w s' id r := by
  obtain ⟨hexpired, hlive⟩ := (collected_iff _ _).mp hfate
  obtain ⟨hcancel, -, hcallback⟩ := hat.queue.timer_same w id
  have hold : s.shots id r = r.firings := shots_of_notMem (by rw [hnone]; simp) r
  have hnew : s'.shots id r = r.firings ++ [⟨s.calls, now, now⟩] := by
    rw [shots_of_mem ((hat.queue.expired id).mpr (Or.inr ⟨hmem, hfate⟩)), hat.calls, hat.tickTime]
    rfl
  -- a one-shot timer that has fired is not in the wheel
  have hfirst : r.intervalMs = 0 → r.firings = [] := by
    intro hzero
    by_contra hne
    exact (ht.spent hzero (hold.symm ▸ hne)).2 _ hmem
  have hmore : s.shots id r = [] ∨ 0 < r.intervalMs := by
    rw [hold]
    by_cases hzero : r.intervalMs = 0
    · exact Or.inl (hfirst hzero)
    · have := hr.interval_nonneg
      exact Or.inr (by omega)
  have harmed := ht.armed (ht.live h.sound hmem hlive) hmore
  rw [hold] at harmed
  have htimely := ht.timely
  rw [hold] at htimely
  have hearlier := ht.earlier
  rw [hold] at hearlier
  refine ⟨?_, ?_, ?_, ?_, ?_, ?_, ht.times, ?_, ?_, ?_⟩
  · rw [interval_ticked hat.queue]
    exact ht.interval
  · rw [hcancel]
    exact ht.gone
  · exact fun hc hin => ht.erased hc ((hat.queue.timers_ id).mp hin).1
  · rw [hat.calls]
    exact Nat.le_succ_of_le ht.calls_le
  · rw [hnew, each_concat_iff]
    exact ⟨htimely, harmed.expires ▸ hexpired, ht.calls_le, hearlier, harmed.ahead⟩
  · rw [hnew, hat.calls]
    exact forall_mem_append.mpr ⟨fun f hf => Nat.lt_succ_of_lt (hearlier f hf),
      forall_mem_singleton.mpr (Nat.lt_succ_self _)⟩
  · intro hzero _
    rw [hnew, hfirst hzero]
    refine ⟨rfl, fun b hb => ?_⟩
    have honce : fate (s.queue.timer id) now = .once := by
      refine hfate.resolve_left fun hagain => ?_
      have hrep := ((fate_again_iff _ _).mp hagain).2
      simp [Timer.repeat_, ht.interval, hzero] at hrep
    rcases hat.queue.stays w h.sound hb hmem with hstays | hstays
    all_goals
      rw [honce] at hstays
      cases hstays
  · intro _ hmore'
    have hpos : 0 < r.intervalMs := hmore'.resolve_left (by rw [hnew]; simp)
    have hrep : (s.queue.timer id).repeat_ = true := by
      simpa [Timer.repeat_, ht.interval] using hpos
    have hagain : fate (s.queue.timer id) now = .again :=
      (fate_again_iff _ _).mpr ⟨⟨hexpired, hlive⟩, hrep⟩
    have hticks := repeatTicks_eq w hr.interval_nonneg hr.interval
    have hone := ticksFor_pos w hpos
    have hle := le_ticksFor w r.intervalMs
    rw [hnew]
    refine ⟨?_, ?_, ?_, ?_⟩
    · rw [Record.deadline_concat, hat.queue.mem_wheel w]
      refine Or.inr (Or.inr ⟨hmem, hagain, ?_⟩)
      rw [ht.interval, hticks]
      exact bucketAt_eq w hw h.bucket (ticksFor_lt w hr.interval_nonneg hr.interval)
    · rw [Record.expiration_concat, hat.queue.timer id, if_pos ⟨hmem, hagain⟩]
      unfold Timer.restart
      rw [if_pos hrep, ← ht.interval]
    · rw [Record.deadline_concat, hat.calls]
      dsimp only
      omega
    · rw [Record.deadline_concat, Record.expiration_concat, hat.nextTick, hat.calls]
      obtain ⟨m, hm⟩ : ∃ m, ticksFor w r.intervalMs = m + 1 := ⟨_, (Nat.sub_add_cancel hone).symm⟩
      rw [hm] at hle ⊢
      rw [show s.calls + (m + 1) - (s.calls + 1) = m by omega]
      push_cast at hle
      linarith
  · rw [hat.queue.log, hcallback]
    exact ht.runs

/-- A timer that the tick does not collect comes one call nearer. -/
theorem tracked_left (h : Kept w s) (ht : Tracked w s id r)
    (hat : TickedAt w now s s') (hnow : s.nextTick w ≤ now) (hnone : s.queue.expiredTimers = [])
    (hleft : ¬(id ∈ s.queue.wheel_ s.queue.currentBucket_ ∧
      (fate (s.queue.timer id) now = .again ∨ fate (s.queue.timer id) now = .once))) :
    Tracked w s' id r := by
  have htimer : s'.queue.timer id = s.queue.timer id := by
    rw [hat.queue.timer id, if_neg fun hc => hleft ⟨hc.1, Or.inl hc.2⟩]
  have hnew : s'.shots id r = s.shots id r := by
    rw [shots_of_notMem (s := s) (by rw [hnone]; simp)]
    refine shots_of_notMem (fun hin => hleft ?_) r
    refine ((hat.queue.expired id).mp hin).resolve_left ?_
    rw [hnone]
    simp
  refine ht.of_shots (hat.calls ▸ Nat.le_succ _) htimer
    (fun hin => ((hat.queue.timers_ id).mp hin).1) (fun b hb => hat.queue.mem_wheel_before w hb)
      hnew
    (by rw [hat.queue.log]) ?_
  rintro hc ⟨hplace, hexpires, hahead, hreached⟩
  have hlive : (s.queue.timer id).cancelled_ = false := by
    cases hcancelled : (s.queue.timer id).cancelled_ with
    | false => rfl
    | true =>
      rw [ht.gone hcancelled] at hc
      cases hc
  have hkept : id ∈ s.queue.wheel_ s.queue.currentBucket_ →
      fate (s.queue.timer id) now = .kept := by
    intro hmem
    refine (fate_kept_iff _ _).mpr ⟨?_, hlive⟩
    by_contra hle
    exact hleft ⟨hmem, (collected_iff _ _).mpr ⟨not_lt.mp hle, hlive⟩⟩
  -- in the call of its deadline the timer would be due
  have hlater : s.calls + 1 ≤ r.deadline w (s.shots id r) := by
    rcases Nat.lt_or_ge s.calls (r.deadline w (s.shots id r)) with hlt | hge
    · exact hlt
    · have heq : r.deadline w (s.shots id r) = s.calls := le_antisymm hge hahead
      rw [heq, ← h.bucket] at hplace
      rw [heq, Nat.sub_self] at hreached
      have hlate := ((fate_kept_iff _ _).mp (hkept hplace)).1
      omega
  refine ⟨?_, ?_, ?_, ?_⟩
  · rw [hat.queue.mem_wheel w]
    by_cases hb : r.deadline w (s.shots id r) % w.buckets_ = s.queue.currentBucket_
    · exact Or.inr (Or.inl ⟨hb, hplace, hkept (hb ▸ hplace)⟩)
    · exact Or.inl ⟨hb, hplace⟩
  · rw [htimer]
    exact hexpires
  · rw [hat.calls]
    exact hlater
  · rw [hat.nextTick, hat.calls]
    obtain ⟨m, hm⟩ : ∃ m, r.deadline w (s.shots id r) = s.calls + 1 + m :=
      ⟨_, (Nat.add_sub_of_le hlater).symm⟩
    rw [hm, show s.calls + 1 + m - s.calls = m + 1 by omega] at hreached
    rw [hm, Nat.add_sub_cancel_left]
    push_cast at hreached
    linarith

theorem kept_tick (hw : w.buckets_ ≤ maxBuckets) {s : Watch κ} (h : Kept w s) (now : Int)
    (hpaced : Paced w s (.tick now)) : Kept w (s.step w (.tick now)) := by
  by_cases hnone : s.queue.expiredTimers = []
  · have hnodup := h.sound.nodup s.queue.currentBucket_
    have hstep : s.step w (.tick now) =
        { s with
          queue := s.queue.tick w now, clock := now, calls := s.calls + 1, tickTime := now } := by
      simp only [Watch.step, if_pos hnone, tickInPlace_eq_tick w s.queue now hnodup]
    rw [hstep]
    have hqueue := tick_ticked w now s.queue hnodup
    have hat : TickedAt w now s { s with
        queue := s.queue.tick w now, clock := now, calls := s.calls + 1, tickTime := now } :=
      ⟨hqueue, rfl, rfl, rfl⟩
    have hnow : s.nextTick w ≤ now := by
      unfold Watch.nextTick
      split
      · exact hpaced.1
      · exact max_le hpaced.1 (hpaced.2 (by omega))
    refine ⟨hqueue.sound w h.sound, ?_, nodup_expired_tick w now s.queue hnodup hnone,
      fun _ => le_refl _, fun _ => Nat.succ_pos _, ?_, ?_, ?_⟩
    · rw [hqueue.currentBucket_, h.bucket, Nat.mod_add_mod]
    · intro id r hr
      rw [hqueue.nextId_]
      exact h.recorded id r hr
    · rw [hqueue.log, hqueue.nextId_]
      exact h.ran_lt
    · intro id r hr hrange
      have ht := h.tracked id r hr hrange
      by_cases htaken : id ∈ s.queue.wheel_ s.queue.currentBucket_ ∧
          (fate (s.queue.timer id) now = .again ∨ fate (s.queue.timer id) now = .once)
      · exact tracked_taken hw h ht hrange hat hnone htaken.1 htaken.2
      · exact tracked_left h ht hat hnow hnone htaken
  · simp only [Watch.step, if_neg hnone]
    exact h

theorem kept_step (hw : w.buckets_ ≤ maxBuckets) (s : Watch κ) (e : Event κ)
    (hpaced : Paced w s e) (h : Kept w s) : Kept w (s.step w e) := by
  cases e with
  | addTimer cb delayMs intervalMs now => exact kept_addTimer hw h cb delayMs intervalMs now hpaced
  | cancelTimer id => exact kept_cancelTimer h id
  | tick now => exact kept_tick hw h now hpaced
  | runTimer now => exact kept_runTimer h now hpaced
  | otherQueue =>
    exact { h with
      sound := sound_step w s.queue .otherQueue h.sound
      recorded := fun id r hr => Nat.lt_succ_of_lt (h.recorded id r hr)
      ran_lt := fun id hran => Nat.lt_succ_of_lt (h.ran_lt id hran)
      tracked := fun id r hr hrange =>
        have ht := h.tracked id r hr hrange
        { ht with armed := fun hc hmore => { ht.armed hc hmore with } } }

/-! ## Accuracy -/

theorem Tracked.accurate {s : Watch κ} (ht : Tracked w s id r) : Accurate w s id r := by
  have htimely : Each (Timely w r) r.firings := by
    have hall := ht.timely
    exact ((each_append_iff _ _).mp hall).1
  have hfires : r.cancelled = false → r.firings = [] ∨ 0 < r.intervalMs →
      s.returned ≤ r.deadline w r.firings := by
    intro hc hmore
    by_cases hmem : id ∈ s.queue.expiredTimers
    · -- the call in progress has collected the timer
      have hlast := ht.timely
      rw [shots_of_mem hmem, each_concat_iff] at hlast
      unfold Watch.returned
      rw [if_neg (ne_nil_of_mem hmem)]
      exact hlast.2.2.2.2
    · have hshots := shots_of_notMem hmem r
      have harmed := ht.armed hc (hshots.symm ▸ hmore)
      rw [hshots] at harmed
      unfold Watch.returned
      split
      · exact harmed.ahead
      · exact (Nat.sub_le _ _).trans harmed.ahead
  refine ⟨?_, ?_, hfires, ?_, ht.runs⟩
  · intro before f after hsplit
    have hf : f ∈ r.firings := by
      rw [hsplit]
      simp
    exact (htimely before f after hsplit).1.trans (ht.times f hf)
  · exact fun before f after hsplit => (htimely before f after hsplit).2
  · intro hzero
    have hone : r.firings.length ≤ 1 := by
      by_cases hnil : s.shots id r = []
      · rw [(append_eq_nil_iff.mp hnil).1]
        simp
      · have hlen := (ht.spent hzero hnil).1
        unfold Watch.shots at hlen
        rw [length_append] at hlen
        omega
    refine ⟨hone, fun hc hlate => ?_⟩
    have hne : r.firings ≠ [] := by
      intro hnil
      have hle := hfires hc (Or.inl hnil)
      rw [hnil] at hle
      omega
    have := length_pos_of_ne_nil hne
    omega

variable (w)

/-- For every wheel and every clock that does not go back and lets a period pass between two
calls of `tick`, a timer whose arguments are in range fires at its times, whatever other
calls come in between. -/
theorem timer_wheel_accuracy (hw : w.buckets_ ≤ maxBuckets) (now : Int) (events : List (Event κ))
    (hpaced : Meets (Watch.step w) (Paced w) (.start now) events) {id : Nat} {r : Record}
    (hr : (run (Watch.step w) (.start now) events).record id = some r) (hrange : r.InRange w) :
    Accurate w (run (Watch.step w) (.start now) events) id r := by
  have hkept := invariant_run (kept_step hw) hpaced (kept_start now)
  exact (hkept.tracked id r hr hrange).accurate

end Model

def twoBuckets : Shape := ⟨2, 10, by decide, by decide⟩

/-- A one-shot timer of 25 ms, which is more than a revolution, and a periodic one that comes
back to the bucket in which it fires. -/
def fourTicks : List (Event Unit) :=
  [.addTimer (some ()) 25 0 0, .addTimer (some ()) 0 20 3, .tick 10, .tick 20, .runTimer 21,
    .tick 30, .tick 40, .runTimer 41, .runTimer 42]

theorem timer_wheel_accuracy_fourTicks :
    let s := run (Watch.step twoBuckets) (.start 0) fourTicks
    let once : Record := ⟨0, 25, 0, 0, false, [⟨3, 40, 41⟩]⟩
    let again : Record := ⟨3, 0, 20, 0, false, [⟨1, 20, 21⟩, ⟨3, 40, 42⟩]⟩
    (s.record 0 = some once ∧ Accurate twoBuckets s 0 once) ∧
      s.record 1 = some again ∧ Accurate twoBuckets s 1 again := by
  intro s once again
  have hpaced : Meets (Watch.step twoBuckets) (Paced twoBuckets) (.start 0) fourTicks := by decide
  have honce : s.record 0 = some once := by decide
  have hagain : s.record 1 = some again := by decide
  exact ⟨⟨honce, timer_wheel_accuracy twoBuckets (by decide) 0 fourTicks hpaced honce
      ⟨by decide, by decide, by decide, by decide⟩⟩,
    hagain, timer_wheel_accuracy twoBuckets (by decide) 0 fourTicks hpaced hagain
      ⟨by decide, by decide, by decide, by decide⟩⟩

end mymuduo.timer_accuracy
