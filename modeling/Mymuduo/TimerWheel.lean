-- The wheel and the table of the timer queue (src/timer/TimerQueue.h). Whatever is called
-- and whatever the clock says, the table has the timers of the wheel that are not cancelled,
-- and each of them has one place there.
import Mymuduo.TimerQueue

open List runs

namespace mymuduo.timer_queue.TimerQueue

variable {κ : Type*} (w : Shape)

/-- One step, with the loop of `tick` on the list itself. A `tick` of another thread may
come before all callbacks of the last one have run. -/
def stepInPlace (q : TimerQueue κ) : Op κ → TimerQueue κ
  | .tick now => q.tickInPlace w now
  | op => q.step w op

/-- The timers of the table have their place in the wheel. -/
structure Placed (q : TimerQueue κ) : Prop where
  sound : q.Sound
  current : q.currentBucket_ < w.buckets_
  place : ∀ id ∈ q.timers_, ∃ b < w.buckets_, id ∈ q.wheel_ b

variable {w} {q : TimerQueue κ}

theorem bucketAt_lt (q : TimerQueue κ) (ticks : Nat) : q.bucketAt w ticks < w.buckets_ :=
  Nat.mod_lt _ w.buckets_pos

theorem Placed.addTimer (h : q.Placed w) (cb : Option κ) (delayMs intervalMs now : Int) :
    (q.addTimer w cb delayMs intervalMs now).Placed w := by
  refine ⟨sound_addTimer w h.sound cb delayMs intervalMs now, h.current, fun id hid => ?_⟩
  simp only [mem_wheel_addTimer]
  rcases mem_cons.mp hid with rfl | hid
  · exact ⟨_, bucketAt_lt q _, Or.inr ⟨rfl, rfl⟩⟩
  · obtain ⟨b, hb, hmem⟩ := h.place id hid
    exact ⟨b, hb, Or.inl hmem⟩

theorem Placed.tick (h : q.Placed w) (now : Int) : (q.tick w now).Placed w := by
  have hticked := tick_ticked w now q (h.sound.nodup _)
  refine ⟨hticked.sound w h.sound, Nat.mod_lt _ w.buckets_pos, fun id hid => ?_⟩
  obtain ⟨hmem, hstays⟩ := (hticked.timers_ id).mp hid
  obtain ⟨b, hb, hplace⟩ := h.place id hmem
  simp only [hticked.mem_wheel w]
  by_cases hcurrent : b = q.currentBucket_
  · subst hcurrent
    rcases hstays hplace with hagain | hkept
    · exact ⟨_, bucketAt_lt q _, Or.inr (Or.inr ⟨hplace, hagain, rfl⟩)⟩
    · exact ⟨_, hb, Or.inr (Or.inl ⟨rfl, hplace, hkept⟩)⟩
  · exact ⟨b, hb, Or.inl ⟨hcurrent, hplace⟩⟩

theorem placed_step (q : TimerQueue κ) (op : Op κ) (h : q.Placed w) :
    (q.stepInPlace w op).Placed w := by
  cases op with
  | addTimer cb delayMs intervalMs now => exact h.addTimer cb delayMs intervalMs now
  | cancelTimer gone =>
    obtain ⟨hwheel, -, -, hcurrent, -⟩ := cancelTimer_same q gone
    refine ⟨sound_cancelTimer h.sound gone, hcurrent.trans_lt h.current, fun id hid => ?_⟩
    have hplace := h.place id ((mem_timers_cancelTimer q gone id).mp hid).1
    rw [← hwheel] at hplace
    exact hplace
  | tick now =>
    rw [stepInPlace, tickInPlace_eq_tick w q now (h.sound.nodup _)]
    exact h.tick now
  | runTimer =>
    obtain ⟨-, hwheel, htimers, hcurrent, -⟩ := runTimer_same q
    have hplace := h.place
    rw [← hwheel, ← htimers] at hplace
    exact ⟨sound_runTimer h.sound, hcurrent.trans_lt h.current, hplace⟩
  | otherQueue => exact ⟨sound_step w q .otherQueue h.sound, h.current, h.place⟩

theorem Sound.nodup_wheel (h : q.Sound) (buckets : Nat) :
    ((range buckets).flatMap q.wheel_).Nodup := by
  refine nodup_flatMap.mpr ⟨fun b _ => h.nodup b, nodup_range.imp fun hne id hid hid' => ?_⟩
  exact hne (h.single id _ _ hid hid')

/-- Between two steps, the timers of the table are not cancelled and occur once over all
buckets, and a timer of a bucket is in the table or cancelled. A `tick` visits the timers
of its bucket and, once more, those that come back, then ends, and collects none twice. -/
theorem wheel_and_table_agree (w : Shape) (ops : List (Op κ)) :
    let q := run (stepInPlace w) start ops
    (∀ id ∈ q.timers_, (q.timer id).cancelled_ = false ∧
      ((range w.buckets_).flatMap q.wheel_).count id = 1) ∧
    (∀ b, ∀ id ∈ q.wheel_ b, id ∈ q.timers_ ∨ (q.timer id).cancelled_ = true) ∧
    q.currentBucket_ < w.buckets_ ∧
    ∀ now, ∃ fuel q' fired,
      scan w now q.currentBucket_ fuel q 0 =
        some (q.wheel_ q.currentBucket_ ++ q.comingBack w now, q') ∧
      q.tickInPlace w now = { q' with currentBucket_ := (q.currentBucket_ + 1) % w.buckets_ } ∧
      q'.expiredTimers = q.expiredTimers ++ fired ∧ fired.Nodup := by
  intro q
  have h : q.Placed w := invariant_always placed_step
    ⟨sound_start, w.buckets_pos, by simp [start]⟩ ops
  refine ⟨fun id hid => ⟨h.sound.live id hid, ?_⟩, fun b id hid => ?_, h.current, fun now => ?_⟩
  · obtain ⟨b, hb, hmem⟩ := h.place id hid
    exact count_eq_one_of_mem (h.sound.nodup_wheel _)
      (mem_flatMap.mpr ⟨b, mem_range.mpr hb, hmem⟩)
  · cases hcancelled : (q.timer id).cancelled_
    · exact Or.inl (h.sound.wheel_live id b hid hcancelled)
    · exact Or.inr rfl
  · have hnodup := h.sound.nodup q.currentBucket_
    obtain ⟨q', hscan, htick⟩ := scan_bucket w q now hnodup
    have hexpired := expired_tick w now q hnodup
    rw [htick] at hexpired
    exact ⟨_, q', _, hscan, (tickInPlace_eq_tick w q now hnodup).trans htick, hexpired,
      hnodup.filter _⟩

end mymuduo.timer_queue.TimerQueue
