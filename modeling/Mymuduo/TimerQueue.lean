-- The timer wheel (src/timer/TimerQueue.h, src/timer/Timer.h). `tick` collects
-- the due timers of one bucket under the lock and runs their callbacks behind it,
-- so calls of `addTimer` and `cancelTimer` can come between two callbacks.
import Mathlib.Data.List.Nodup
import Mymuduo.Runs
import Mymuduo.Words

open List runs words
open Function (update update_self update_of_ne)

namespace mymuduo.timer_queue

/-! ## Timers -/

/-- `callback_` is `none` for an empty `std::function`. -/
structure Timer (κ : Type*) where
  callback_ : Option κ
  expiration_ : Int
  interval_ : Int
  cancelled_ : Bool
  deriving DecidableEq

namespace Timer

variable {κ : Type*}

def repeat_ (t : Timer κ) : Bool := 0 < t.interval_

def restart (t : Timer κ) (now : Int) : Timer κ :=
  if t.repeat_ then { t with expiration_ := now + t.interval_ } else t

/-- `timer->expiration() <= now && !timer->isCancelled()` -/
def isDue (t : Timer κ) (now : Int) : Bool := t.expiration_ ≤ now && !t.cancelled_

end Timer

/-! ## The wheel -/

/-- The arguments of the constructor. With a zero the code divides by zero. -/
structure Shape where
  buckets_ : Nat
  tickMs_ : Int
  buckets_pos : 0 < buckets_
  tickMs_pos : 0 < tickMs_

/-- What happened: a call of `addTimer` or `cancelTimer` returned, or a callback began. -/
inductive Notice
  | added (id : Nat)
  | cancelled (id : Nat)
  | ran (id : Nat)
  deriving DecidableEq, Repr

/-- The wheel and the map hold pointers to timers. Here they hold the id, and `timer`
has the object. `expiredTimers` is what the `tick` in progress still has to run. -/
structure TimerQueue (κ : Type*) where
  currentBucket_ : Nat
  wheel_ : Nat → List Nat
  timers_ : List Nat
  timer : Nat → Timer κ
  nextId_ : Nat
  expiredTimers : List Nat
  log : List Notice

/-- One step. `otherQueue` is a timer of another queue: the ids are numbered together. -/
inductive Op (κ : Type*)
  | addTimer (cb : Option κ) (delayMs intervalMs now : Int)
  | cancelTimer (id : Nat)
  | tick (now : Int)
  | runTimer
  | otherQueue
  deriving DecidableEq

variable (t : Timer κ)

section Model

variable {κ : Type*} (w : Shape)

def TimerQueue.start : TimerQueue κ where
  currentBucket_ := 0
  wheel_ := fun _ => []
  timers_ := []
  timer := fun _ => ⟨none, 0, 0, false⟩
  nextId_ := 0
  expiredTimers := []
  log := []

namespace TimerQueue

/-- `size_t ticks = (delayMs + tickMs_ - 1) / tickMs_`, computed in `int`, and at least one -/
def addTicks (delayMs : Int) : Nat :=
  let ticks := sizeT ((int32 (delayMs + w.tickMs_ - 1)).tdiv w.tickMs_)
  if ticks = 0 then 1 else ticks

/-- `size_t ticks = (timer->interval() + tickMs_ - 1) / tickMs_`, computed in `int64_t` -/
def repeatTicks (interval : Int) : Nat := sizeT ((interval + w.tickMs_ - 1).tdiv w.tickMs_)

def bucketAt (q : TimerQueue κ) (ticks : Nat) : Nat := add64 q.currentBucket_ ticks % w.buckets_

def push (q : TimerQueue κ) (bucket id : Nat) : TimerQueue κ :=
  { q with wheel_ := update q.wheel_ bucket (q.wheel_ bucket ++ [id]) }

def setTimer (q : TimerQueue κ) (id : Nat) (t : Timer κ) : TimerQueue κ :=
  { q with timer := update q.timer id t }

def erase (q : TimerQueue κ) (id : Nat) : TimerQueue κ :=
  { q with timers_ := q.timers_.filter (· ≠ id) }

def addTimer (q : TimerQueue κ) (cb : Option κ) (delayMs intervalMs now : Int) : TimerQueue κ :=
  let id := q.nextId_
  let q := { q.setTimer id ⟨cb, now + delayMs, intervalMs, false⟩ with nextId_ := id + 1 }
  let q := q.push (q.bucketAt w (addTicks w delayMs)) id
  { q with timers_ := id :: q.timers_, log := q.log ++ [.added id] }

def cancelTimer (q : TimerQueue κ) (id : Nat) : TimerQueue κ :=
  let q :=
    if id ∈ q.timers_ then (q.setTimer id { q.timer id with cancelled_ := true }).erase id else q
  { q with log := q.log ++ [.cancelled id] }

/-- The body of the loop of `tick`, and whether the timer stays in its bucket. A periodic
timer that is due goes into the bucket of its next expiration. -/
def visit (now : Int) (q : TimerQueue κ) (id : Nat) : TimerQueue κ × Bool :=
  let t := q.timer id
  if t.isDue now then
    let q := { q with expiredTimers := q.expiredTimers ++ [id] }
    if t.repeat_ then
      let q := q.setTimer id (t.restart now)
      (q.push (q.bucketAt w (repeatTicks w t.interval_)) id, false)
    else (q.erase id, false)
  else if t.cancelled_ then (q.erase id, false)
  else (q, true)

/-- The loop of `tick` over the timers of the current bucket, with those that stay. -/
def collect (now : Int) (q : TimerQueue κ) : List Nat → TimerQueue κ × List Nat
  | [] => (q, [])
  | id :: rest =>
    let (q, stays) := visit w now q id
    let (q, kept) := collect now q rest
    (q, if stays then id :: kept else kept)

/-- The part of `tick` under the lock. A timer whose next bucket is the current one goes
behind the others there. The loop of the code meets it again and leaves it, because
its new expiration is behind `now`. -/
def tick (q : TimerQueue κ) (now : Int) : TimerQueue κ :=
  let current := q.currentBucket_
  let (q, kept) :=
    collect w now { q with wheel_ := update q.wheel_ current [] } (q.wheel_ current)
  { q with
    wheel_ := update q.wheel_ current (kept ++ q.wheel_ current)
    currentBucket_ := (current + 1) % w.buckets_ }

def runTimer (q : TimerQueue κ) : TimerQueue κ :=
  match q.expiredTimers with
  | [] => q
  | id :: rest =>
    let q := { q with expiredTimers := rest }
    if !(q.timer id).cancelled_ && (q.timer id).callback_.isSome then
      { q with log := q.log ++ [.ran id] }
    else q

/-- A `tick` waits for the end of the one before. -/
def step (q : TimerQueue κ) : Op κ → TimerQueue κ
  | .addTimer cb delayMs intervalMs now => q.addTimer w cb delayMs intervalMs now
  | .cancelTimer id => q.cancelTimer id
  | .tick now => if q.expiredTimers = [] then q.tick w now else q
  | .runTimer => q.runTimer
  | .otherQueue => { q with nextId_ := q.nextId_ + 1 }

/-! ## What a tick does -/

inductive Fate
  | again
  | once
  | dropped
  | kept
  deriving DecidableEq

def fate (t : Timer κ) (now : Int) : Fate :=
  if t.isDue now then if t.repeat_ then .again else .once
  else if t.cancelled_ then .dropped else .kept

/-- What becomes of the queue `q` when the loop has been over `bucket`. Each timer is
treated by what it was at the start. -/
structure Collected (now : Int) (q q' : TimerQueue κ) (bucket kept : List Nat) : Prop where
  currentBucket_ : q'.currentBucket_ = q.currentBucket_
  nextId_ : q'.nextId_ = q.nextId_
  log : q'.log = q.log
  expired : q'.expiredTimers = q.expiredTimers ++
    bucket.filter fun id => fate (q.timer id) now = .again ∨ fate (q.timer id) now = .once
  kept : kept = bucket.filter fun id => fate (q.timer id) now = .kept
  timers_ : ∀ id, id ∈ q'.timers_ ↔ id ∈ q.timers_ ∧
    (id ∈ bucket → fate (q.timer id) now = .again ∨ fate (q.timer id) now = .kept)
  timer : ∀ id, q'.timer id =
    if id ∈ bucket ∧ fate (q.timer id) now = .again then (q.timer id).restart now else q.timer id
  wheel_ : ∀ b, q'.wheel_ b = q.wheel_ b ++ bucket.filter fun id =>
    fate (q.timer id) now = .again ∧ q.bucketAt w (repeatTicks w (q.timer id).interval_) = b

variable {now : Int} {q : TimerQueue κ} {id : Nat}

theorem not_again_collected {q1 : TimerQueue κ} {kept : List Nat}
    (hfate : fate (q.timer id) now ≠ .again) (hcurrent : q1.currentBucket_ = q.currentBucket_)
    (hnext : q1.nextId_ = q.nextId_) (hlog : q1.log = q.log) (htimer : q1.timer = q.timer)
    (hwheel : q1.wheel_ = q.wheel_)
    (hexpired : q1.expiredTimers = q.expiredTimers ++ if fate (q.timer id) now = .once then [id]
      else [])
    (hkept : kept = if fate (q.timer id) now = .kept then [id] else [])
    (htimers : q1.timers_ = if fate (q.timer id) now = .kept then q.timers_
      else q.timers_.filter (· ≠ id)) :
    Collected w now q q1 [id] kept := by
  refine ⟨hcurrent, hnext, hlog, ?_, ?_, ?_, ?_, ?_⟩
  · rw [hexpired]
    simp [filter_cons, hfate]
  · rw [hkept]
    simp [filter_cons]
  · intro j
    rw [htimers]
    by_cases hk : fate (q.timer id) now = .kept
    · rw [if_pos hk, mem_singleton]
      refine ⟨fun hj => ⟨hj, ?_⟩, And.left⟩
      rintro rfl
      exact Or.inr hk
    · rw [if_neg hk, mem_filter, mem_singleton]
      refine and_congr_right fun _ => ?_
      constructor
      · intro hne heq
        simp [heq] at hne
      · intro hstays
        by_contra hne
        have heq : j = id := by simpa using hne
        subst heq
        rcases hstays rfl with h | h
        · exact hfate h
        · exact hk h
  · intro j
    rw [htimer]
    split
    · rename_i hj
      simp only [mem_singleton] at hj
      exact absurd (hj.1 ▸ hj.2) hfate
    · rfl
  · intro b
    rw [hwheel]
    simp [hfate]

theorem visit_collected (now : Int) (q : TimerQueue κ) (id : Nat) :
    Collected w now q (visit w now q id).1 [id] (if (visit w now q id).2 then [id] else []) := by
  by_cases hdue : (q.timer id).isDue now = true
  · by_cases hrep : (q.timer id).repeat_ = true
    · have hfate : fate (q.timer id) now = .again := by simp [fate, hdue, hrep]
      have hvisit : visit w now q id =
          ((({ q with expiredTimers := q.expiredTimers ++ [id] }.setTimer id
            ((q.timer id).restart now)).push
              (q.bucketAt w (repeatTicks w (q.timer id).interval_)) id), false) := by
        simp only [visit, hdue, hrep, if_true]
        rfl
      rw [hvisit]
      refine ⟨rfl, rfl, rfl, ?_, ?_, ?_, ?_, ?_⟩
      · simp [push, setTimer, hfate]
      · simp [hfate]
      · intro j
        simp only [push, setTimer, mem_singleton]
        refine ⟨fun hj => ⟨hj, ?_⟩, And.left⟩
        rintro rfl
        exact Or.inl hfate
      · intro j
        by_cases hj : j = id
        · subst hj
          simp [push, setTimer, hfate]
        · simp [push, setTimer, hj]
      · intro b
        by_cases hb : q.bucketAt w (repeatTicks w (q.timer id).interval_) = b
        · subst hb
          simp [push, setTimer, hfate]
        · have hb' : b ≠ q.bucketAt w (repeatTicks w (q.timer id).interval_) := fun h => hb h.symm
          simp [push, setTimer, hfate, hb, update_of_ne hb']
    · have hfate : fate (q.timer id) now = .once := by simp [fate, hdue, hrep]
      have hvisit : visit w now q id =
          ({ q with expiredTimers := q.expiredTimers ++ [id] }.erase id, false) := by
        simp [visit, hdue, hrep]
      rw [hvisit]
      exact not_again_collected w (by simp [hfate]) rfl rfl rfl rfl rfl (by simp [erase, hfate])
        (by simp [hfate]) (by simp [erase, hfate])
  · by_cases hcancel : (q.timer id).cancelled_ = true
    · have hfate : fate (q.timer id) now = .dropped := by simp [fate, hdue, hcancel]
      have hvisit : visit w now q id = (q.erase id, false) := by simp [visit, hdue, hcancel]
      rw [hvisit]
      exact not_again_collected w (by simp [hfate]) rfl rfl rfl rfl rfl (by simp [erase, hfate])
        (by simp [hfate]) (by simp [erase, hfate])
    · have hfate : fate (q.timer id) now = .kept := by simp [fate, hdue, hcancel]
      have hvisit : visit w now q id = (q, true) := by simp [visit, hdue, hcancel]
      rw [hvisit]
      exact not_again_collected w (by simp [hfate]) rfl rfl rfl rfl rfl (by simp [hfate])
        (by simp [hfate]) (by simp [hfate])

theorem Collected.append {q1 q2 : TimerQueue κ} {b1 b2 k1 k2 : List Nat}
    (h1 : Collected w now q q1 b1 k1) (h2 : Collected w now q1 q2 b2 k2)
    (hdisj : ∀ id ∈ b2, id ∉ b1) : Collected w now q q2 (b1 ++ b2) (k1 ++ k2) := by
  -- the first part leaves the timers of the second as they were
  have htimer : ∀ id ∈ b2, q1.timer id = q.timer id := by
    intro id hid
    rw [h1.timer id, if_neg (fun hc => hdisj id hid hc.1)]
  have hbucket : ∀ ticks, q1.bucketAt w ticks = q.bucketAt w ticks := by
    intro ticks
    unfold bucketAt
    rw [h1.currentBucket_]
  refine ⟨h2.currentBucket_.trans h1.currentBucket_, h2.nextId_.trans h1.nextId_,
    h2.log.trans h1.log, ?_, ?_, ?_, ?_, ?_⟩
  · rw [h2.expired, h1.expired, filter_append, append_assoc]
    congr 2
    refine filter_congr fun id hid => ?_
    rw [htimer id hid]
  · rw [h2.kept, h1.kept, filter_append]
    congr 1
    refine filter_congr fun id hid => ?_
    rw [htimer id hid]
  · intro id
    rw [h2.timers_ id, h1.timers_ id, mem_append, and_assoc]
    refine and_congr_right fun _ => ?_
    constructor
    · rintro ⟨hstay1, hstay2⟩ (hid | hid)
      · exact hstay1 hid
      · have := hstay2 hid
        rwa [htimer id hid] at this
    · intro hstay
      refine ⟨fun hid => hstay (Or.inl hid), fun hid => ?_⟩
      rw [htimer id hid]
      exact hstay (Or.inr hid)
  · intro id
    rw [h2.timer id]
    by_cases hid : id ∈ b2
    · rw [htimer id hid]
      simp [hid]
    · rw [if_neg (fun hc => hid hc.1), h1.timer id]
      simp [hid]
  · intro b
    rw [h2.wheel_ b, h1.wheel_ b, filter_append, append_assoc]
    congr 2
    refine filter_congr fun id hid => ?_
    rw [htimer id hid, hbucket]

theorem collect_collected (now : Int) (bucket : List Nat) (hnodup : bucket.Nodup)
    (q : TimerQueue κ) :
    Collected w now q (collect w now q bucket).1 bucket (collect w now q bucket).2 := by
  induction bucket generalizing q with
  | nil => exact ⟨rfl, rfl, rfl, by simp [collect], by simp [collect], by simp [collect],
      by simp [collect], by simp [collect]⟩
  | cons id rest ih =>
    obtain ⟨hid, hrest⟩ := List.nodup_cons.mp hnodup
    have hboth := (visit_collected w now q id).append w (ih hrest (visit w now q id).1)
      (by
        intro j hj hmem
        rw [mem_singleton] at hmem
        exact hid (hmem ▸ hj))
    have hkept : (collect w now q (id :: rest)).2 =
        (if (visit w now q id).2 then [id] else []) ++
          (collect w now (visit w now q id).1 rest).2 := by
      simp only [collect]
      split <;> rfl
    rw [hkept]
    exact hboth

theorem expired_tick (now : Int) (q : TimerQueue κ) (hnodup : (q.wheel_ q.currentBucket_).Nodup) :
    (q.tick w now).expiredTimers = q.expiredTimers ++ (q.wheel_ q.currentBucket_).filter fun id =>
      fate (q.timer id) now = .again ∨ fate (q.timer id) now = .once :=
  (collect_collected w now (q.wheel_ q.currentBucket_) hnodup
    { q with wheel_ := update q.wheel_ q.currentBucket_ [] }).expired

structure Ticked (now : Int) (q q' : TimerQueue κ) : Prop where
  currentBucket_ : q'.currentBucket_ = (q.currentBucket_ + 1) % w.buckets_
  nextId_ : q'.nextId_ = q.nextId_
  log : q'.log = q.log
  expired : ∀ id, id ∈ q'.expiredTimers ↔ id ∈ q.expiredTimers ∨ id ∈ q.wheel_ q.currentBucket_ ∧
    (fate (q.timer id) now = .again ∨ fate (q.timer id) now = .once)
  timers_ : ∀ id, id ∈ q'.timers_ ↔ id ∈ q.timers_ ∧ (id ∈ q.wheel_ q.currentBucket_ →
    fate (q.timer id) now = .again ∨ fate (q.timer id) now = .kept)
  timer : ∀ id, q'.timer id =
    if id ∈ q.wheel_ q.currentBucket_ ∧ fate (q.timer id) now = .again then
      (q.timer id).restart now
    else q.timer id
  wheel_ : ∀ b, q'.wheel_ b =
    (if b = q.currentBucket_ then
      (q.wheel_ q.currentBucket_).filter fun id => fate (q.timer id) now = .kept
    else q.wheel_ b) ++
    (q.wheel_ q.currentBucket_).filter fun id => fate (q.timer id) now = .again ∧
      q.bucketAt w (repeatTicks w (q.timer id).interval_) = b

theorem tick_ticked (now : Int) (q : TimerQueue κ) (hnodup : (q.wheel_ q.currentBucket_).Nodup) :
    Ticked w now q (q.tick w now) := by
  have h := collect_collected w now (q.wheel_ q.currentBucket_) hnodup
    { q with wheel_ := update q.wheel_ q.currentBucket_ [] }
  refine ⟨rfl, h.nextId_, h.log, ?_, h.timers_, h.timer, ?_⟩
  · intro id
    rw [expired_tick w now q hnodup]
    simp
  · intro b
    dsimp only [tick]
    by_cases hb : b = q.currentBucket_
    · subst hb
      rw [if_pos rfl, update_self, h.kept, h.wheel_]
      dsimp only
      rw [update_self]
      rfl
    · rw [if_neg hb, update_of_ne hb, h.wheel_]
      dsimp only
      rw [update_of_ne hb]
      rfl

theorem nodup_expired_tick (now : Int) (q : TimerQueue κ)
    (hnodup : (q.wheel_ q.currentBucket_).Nodup) (hnone : q.expiredTimers = []) :
    (q.tick w now).expiredTimers.Nodup := by
  rw [expired_tick w now q hnodup, hnone, nil_append]
  exact hnodup.filter _

variable {q' : TimerQueue κ}

theorem Ticked.mem_wheel (h : Ticked w now q q') (id b : Nat) :
    id ∈ q'.wheel_ b ↔
      b ≠ q.currentBucket_ ∧ id ∈ q.wheel_ b ∨
      b = q.currentBucket_ ∧ id ∈ q.wheel_ b ∧ fate (q.timer id) now = .kept ∨
      id ∈ q.wheel_ q.currentBucket_ ∧ fate (q.timer id) now = .again ∧
        q.bucketAt w (repeatTicks w (q.timer id).interval_) = b := by
  rw [h.wheel_ b, mem_append]
  by_cases hb : b = q.currentBucket_
  · subst hb
    simp
  · simp [hb]

/-! ## The invariant -/

/-- A timer has one place in the wheel, ids are below the counter, and `timers_` has the
timers that a `cancelTimer` can still reach: those of the wheel and the periodic ones
that wait to run, unless they are cancelled. -/
structure Sound (q : TimerQueue κ) : Prop where
  wheel_lt : ∀ id b, id ∈ q.wheel_ b → id < q.nextId_
  timers_lt : ∀ id ∈ q.timers_, id < q.nextId_
  expired_lt : ∀ id ∈ q.expiredTimers, id < q.nextId_
  added_lt : ∀ id, .added id ∈ q.log → id < q.nextId_
  nodup : ∀ b, (q.wheel_ b).Nodup
  single : ∀ id b b', id ∈ q.wheel_ b → id ∈ q.wheel_ b' → b = b'
  live : ∀ id ∈ q.timers_, (q.timer id).cancelled_ = false
  wheel_live : ∀ id b, id ∈ q.wheel_ b → (q.timer id).cancelled_ = false → id ∈ q.timers_
  again_live : ∀ id ∈ q.expiredTimers, (q.timer id).repeat_ = true →
    (q.timer id).cancelled_ = false → id ∈ q.timers_
  once_gone : ∀ id ∈ q.expiredTimers, (q.timer id).repeat_ = false →
    (q.timer id).cancelled_ = false ∧ id ∉ q.timers_

theorem sound_start : (start : TimerQueue κ).Sound := by
  constructor <;> simp [start]

theorem wheel_addTimer (q : TimerQueue κ) (cb : Option κ) (delayMs intervalMs now : Int) (b : Nat) :
    (q.addTimer w cb delayMs intervalMs now).wheel_ b =
      if b = q.bucketAt w (addTicks w delayMs) then q.wheel_ b ++ [q.nextId_] else q.wheel_ b := by
  split
  · rename_i hb
    subst hb
    exact update_self ..
  · rename_i hb
    exact update_of_ne hb ..

theorem mem_wheel_addTimer (q : TimerQueue κ) (cb : Option κ) (delayMs intervalMs now : Int)
    (id b : Nat) :
    id ∈ (q.addTimer w cb delayMs intervalMs now).wheel_ b ↔
      id ∈ q.wheel_ b ∨ id = q.nextId_ ∧ b = q.bucketAt w (addTicks w delayMs) := by
  rw [wheel_addTimer]
  split
  · rename_i hb
    simp [hb]
  · rename_i hb
    simp [hb]

theorem timer_addTimer (q : TimerQueue κ) (cb : Option κ) (delayMs intervalMs now : Int)
    (id : Nat) :
    (q.addTimer w cb delayMs intervalMs now).timer id =
      if id = q.nextId_ then ⟨cb, now + delayMs, intervalMs, false⟩ else q.timer id := by
  simp only [addTimer, push, setTimer]
  by_cases hid : id = q.nextId_
  · simp [hid]
  · rw [update_of_ne hid, if_neg hid]

/-- The new timer has a new id, so every other timer is where and what it was. -/
theorem sound_addTimer (h : q.Sound) (cb : Option κ) (delayMs intervalMs now : Int) :
    (q.addTimer w cb delayMs intervalMs now).Sound := by
  let q' := q.addTimer w cb delayMs intervalMs now
  have hmem : ∀ id b, id ∈ q'.wheel_ b ↔ _ := mem_wheel_addTimer w q cb delayMs intervalMs now
  have htimer : ∀ id, q'.timer id = _ := timer_addTimer w q cb delayMs intervalMs now
  have hold : ∀ id < q.nextId_, q'.timer id = q.timer id :=
    fun id hid => (htimer id).trans (if_neg hid.ne)
  have hlt : ∀ {id}, id < q.nextId_ → id < q'.nextId_ := Nat.lt_succ_of_lt
  have hnew : q.nextId_ < q'.nextId_ := Nat.lt_succ_self _
  refine ⟨?_, ?_, fun id hid => hlt (h.expired_lt id hid), ?_, ?_, ?_, ?_, ?_, ?_, ?_⟩
  · intro id b hid
    rcases (hmem id b).mp hid with hid | ⟨rfl, -⟩
    · exact hlt (h.wheel_lt id b hid)
    · exact hnew
  · intro id hid
    rcases mem_cons.mp hid with rfl | hid
    · exact hnew
    · exact hlt (h.timers_lt id hid)
  · intro id hid
    rcases mem_append.mp hid with hid | hid
    · exact hlt (h.added_lt id hid)
    · cases mem_singleton.mp hid
      exact hnew
  · intro b
    rw [wheel_addTimer]
    split
    · refine nodup_append.mpr ⟨h.nodup b, nodup_singleton _, ?_⟩
      intro id hid id' hid'
      rw [mem_singleton] at hid'
      have := h.wheel_lt id b hid
      omega
    · exact h.nodup b
  · intro id b b' hid hid'
    rcases (hmem id b).mp hid with hid | ⟨rfl, hb⟩
    · rcases (hmem id b').mp hid' with hid' | ⟨rfl, -⟩
      · exact h.single id b b' hid hid'
      · exact absurd (h.wheel_lt _ _ hid) (lt_irrefl _)
    · rcases (hmem _ b').mp hid' with hid' | ⟨-, hb'⟩
      · exact absurd (h.wheel_lt _ _ hid') (lt_irrefl _)
      · rw [hb, hb']
  · intro id hid
    rcases mem_cons.mp hid with rfl | hid
    · rw [timer_addTimer, if_pos rfl]
    · rw [hold id (h.timers_lt id hid)]
      exact h.live id hid
  · intro id b hid hlive
    rcases (hmem id b).mp hid with hid | ⟨rfl, -⟩
    · rw [hold id (h.wheel_lt id b hid)] at hlive
      exact mem_cons_of_mem _ (h.wheel_live id b hid hlive)
    · exact mem_cons_self
  · intro id hid hrep hlive
    rw [hold id (h.expired_lt id hid)] at hrep hlive
    exact mem_cons_of_mem _ (h.again_live id hid hrep hlive)
  · intro id hid hrep
    have hlt := h.expired_lt id hid
    rw [hold id hlt] at hrep ⊢
    refine ⟨(h.once_gone id hid hrep).1, fun hmem => ?_⟩
    rcases mem_cons.mp hmem with rfl | hmem
    · exact lt_irrefl _ hlt
    · exact (h.once_gone id hid hrep).2 hmem

theorem mem_timers_cancelTimer (q : TimerQueue κ) (gone id : Nat) :
    id ∈ (q.cancelTimer gone).timers_ ↔ id ∈ q.timers_ ∧ id ≠ gone := by
  unfold cancelTimer
  split
  · simp [erase, setTimer]
  · rename_i hgone
    refine ⟨fun hid => ⟨hid, ?_⟩, And.left⟩
    rintro rfl
    exact hgone hid

theorem timer_cancelTimer (q : TimerQueue κ) (gone id : Nat) :
    (q.cancelTimer gone).timer id =
      if id = gone ∧ gone ∈ q.timers_ then { q.timer id with cancelled_ := true }
      else q.timer id := by
  unfold cancelTimer
  split
  · rename_i hgone
    by_cases hid : id = gone
    · subst hid
      simp [erase, setTimer, hgone]
    · simp [erase, setTimer, hid]
  · rename_i hgone
    simp [hgone]

theorem repeat_cancelTimer (q : TimerQueue κ) (gone id : Nat) :
    ((q.cancelTimer gone).timer id).repeat_ = (q.timer id).repeat_ := by
  rw [timer_cancelTimer]
  split <;> rfl

theorem cancelTimer_same (q : TimerQueue κ) (gone : Nat) :
    (q.cancelTimer gone).wheel_ = q.wheel_ ∧
      (q.cancelTimer gone).expiredTimers = q.expiredTimers ∧
      (q.cancelTimer gone).nextId_ = q.nextId_ ∧
      (q.cancelTimer gone).currentBucket_ = q.currentBucket_ ∧
      (q.cancelTimer gone).log = q.log ++ [.cancelled gone] := by
  unfold cancelTimer
  split <;> exact ⟨rfl, rfl, rfl, rfl, rfl⟩

/-- A timer that is not cancelled behind the call is another one, or one that the call did
not find. -/
theorem live_cancelTimer {gone : Nat} (hlive : ((q.cancelTimer gone).timer id).cancelled_ = false) :
    (q.timer id).cancelled_ = false ∧ (id ∈ q.timers_ → id ≠ gone) := by
  rw [timer_cancelTimer] at hlive
  split at hlive
  · cases hlive
  · rename_i hnot
    refine ⟨hlive, fun hid hgone => hnot ⟨hgone, hgone ▸ hid⟩⟩

theorem sound_cancelTimer (h : q.Sound) (gone : Nat) : (q.cancelTimer gone).Sound := by
  obtain ⟨hwheel, hexpired, hnext, -, hlog⟩ := cancelTimer_same q gone
  refine ⟨?_, ?_, ?_, ?_, ?_, ?_, ?_, ?_, ?_, ?_⟩
  · rw [hwheel, hnext]
    exact h.wheel_lt
  · intro id hid
    rw [hnext]
    exact h.timers_lt id ((mem_timers_cancelTimer q gone id).mp hid).1
  · rw [hexpired, hnext]
    exact h.expired_lt
  · intro id hid
    rw [hlog, mem_append] at hid
    rw [hnext]
    exact h.added_lt id (hid.resolve_right (by simp))
  · rw [hwheel]
    exact h.nodup
  · rw [hwheel]
    exact h.single
  · intro id hid
    obtain ⟨hmem, hne⟩ := (mem_timers_cancelTimer q gone id).mp hid
    rw [timer_cancelTimer, if_neg (fun hc => hne hc.1)]
    exact h.live id hmem
  · intro id b hid hlive
    rw [hwheel] at hid
    obtain ⟨hlive, hne⟩ := live_cancelTimer hlive
    have hmem := h.wheel_live id b hid hlive
    exact (mem_timers_cancelTimer q gone id).mpr ⟨hmem, hne hmem⟩
  · intro id hid hrep hlive
    rw [hexpired] at hid
    rw [repeat_cancelTimer] at hrep
    obtain ⟨hlive, hne⟩ := live_cancelTimer hlive
    have hmem := h.again_live id hid hrep hlive
    exact (mem_timers_cancelTimer q gone id).mpr ⟨hmem, hne hmem⟩
  · intro id hid hrep
    rw [hexpired] at hid
    rw [repeat_cancelTimer] at hrep
    obtain ⟨hlive, hmem⟩ := h.once_gone id hid hrep
    have hnot : ¬(id = gone ∧ gone ∈ q.timers_) := fun hc => hmem (hc.1 ▸ hc.2)
    refine ⟨?_, fun hc => hmem ((mem_timers_cancelTimer q gone id).mp hc).1⟩
    rw [timer_cancelTimer, if_neg hnot]
    exact hlive

theorem isDue_iff (now : Int) :
    t.isDue now = true ↔ t.expiration_ ≤ now ∧ t.cancelled_ = false := by
  simp [Timer.isDue]

theorem fate_again_iff (now : Int) :
    fate t now = .again ↔ (t.expiration_ ≤ now ∧ t.cancelled_ = false) ∧ t.repeat_ = true := by
  rw [← isDue_iff]
  unfold fate
  cases t.isDue now <;> cases t.repeat_ <;> cases t.cancelled_ <;> simp

theorem collected_iff (now : Int) :
    fate t now = .again ∨ fate t now = .once ↔ t.expiration_ ≤ now ∧ t.cancelled_ = false := by
  rw [← isDue_iff]
  unfold fate
  cases t.isDue now <;> cases t.repeat_ <;> cases t.cancelled_ <;> simp

theorem fate_kept_iff (now : Int) :
    fate t now = .kept ↔ now < t.expiration_ ∧ t.cancelled_ = false := by
  unfold fate
  by_cases hdue : t.isDue now = true
  · have := (isDue_iff t now).mp hdue
    rw [if_pos hdue]
    constructor
    · split <;> simp
    · rintro ⟨hlt, -⟩
      omega
  · rw [if_neg hdue]
    rw [isDue_iff] at hdue
    cases hc : t.cancelled_
    · simp [hc] at hdue ⊢
      omega
    · simp

/-- A timer that is not cancelled stays in the table if it is periodic or not due. -/
theorem stays_of_live {t : Timer κ} (hlive : t.cancelled_ = false)
    (h : t.repeat_ = true ∨ now < t.expiration_) : fate t now = .again ∨ fate t now = .kept := by
  by_cases hdue : t.expiration_ ≤ now
  · exact Or.inl ((fate_again_iff _ _).mpr ⟨⟨hdue, hlive⟩, h.resolve_right (by omega)⟩)
  · exact Or.inr ((fate_kept_iff _ _).mpr ⟨by omega, hlive⟩)

theorem Ticked.timer_same (h : Ticked w now q q') (id : Nat) :
    (q'.timer id).cancelled_ = (q.timer id).cancelled_ ∧
      (q'.timer id).repeat_ = (q.timer id).repeat_ ∧
      (q'.timer id).callback_ = (q.timer id).callback_ := by
  rw [h.timer id]
  split
  · unfold Timer.restart
    split <;> exact ⟨rfl, rfl, rfl⟩
  · exact ⟨rfl, rfl, rfl⟩

theorem Ticked.timer_of_once (h : Ticked w now q q') (hrep : (q.timer id).repeat_ = false) :
    q'.timer id = q.timer id := by
  rw [h.timer id, if_neg]
  rintro ⟨-, hagain⟩
  rw [((fate_again_iff _ _).mp hagain).2] at hrep
  cases hrep

theorem Ticked.mem_wheel_before (h : Ticked w now q q') {b : Nat} (hid : id ∈ q'.wheel_ b) :
    ∃ b', id ∈ q.wheel_ b' := by
  rcases (h.mem_wheel w id b).mp hid with ⟨-, hid⟩ | ⟨-, hid, -⟩ | ⟨hid, -⟩
  · exact ⟨b, hid⟩
  · exact ⟨b, hid⟩
  · exact ⟨_, hid⟩

/-- A timer that is in the wheel behind the tick was not dropped and is not one that the
tick ran once. -/
theorem Ticked.stays (h : Ticked w now q q') (hs : q.Sound) {b : Nat} (hid : id ∈ q'.wheel_ b)
    (hcur : id ∈ q.wheel_ q.currentBucket_) :
    fate (q.timer id) now = .again ∨ fate (q.timer id) now = .kept := by
  rcases (h.mem_wheel w id b).mp hid with ⟨hb, hid⟩ | ⟨-, -, hkept⟩ | ⟨-, hagain, -⟩
  · exact absurd (hs.single id b _ hid hcur) hb
  · exact Or.inr hkept
  · exact Or.inl hagain

theorem Ticked.single (h : Ticked w now q q') (hs : q.Sound) (id b b' : Nat)
    (hid : id ∈ q'.wheel_ b) (hid' : id ∈ q'.wheel_ b') : b = b' := by
  rw [h.mem_wheel w] at hid hid'
  rcases hid with ⟨hb, hid⟩ | ⟨hb, hid, hkept⟩ | ⟨hid, hagain, hto⟩ <;>
    rcases hid' with ⟨hb', hid'⟩ | ⟨hb', hid', hkept'⟩ | ⟨hid', hagain', hto'⟩
  · exact hs.single id b b' hid hid'
  · exact hs.single id b b' hid hid'
  · exact absurd (hs.single id b _ hid hid') hb
  · exact hs.single id b b' hid hid'
  · exact hb.trans hb'.symm
  · rw [hkept] at hagain'
    cases hagain'
  · exact absurd (hs.single id b' _ hid' hid) hb'
  · rw [hagain] at hkept'
    cases hkept'
  · exact hto.symm.trans hto'

theorem Ticked.nodup (h : Ticked w now q q') (hs : q.Sound) (b : Nat) : (q'.wheel_ b).Nodup := by
  rw [h.wheel_ b, nodup_append]
  refine ⟨?_, (hs.nodup _).filter _, ?_⟩
  · split
    · exact (hs.nodup _).filter _
    · exact hs.nodup b
  · intro id hid id' hid' heq
    subst heq
    simp only [mem_filter, decide_eq_true_eq] at hid'
    split at hid
    · simp only [mem_filter, decide_eq_true_eq] at hid
      rw [hid.2] at hid'
      cases hid'.2.1
    · rename_i hb
      exact hb (hs.single id b _ hid hid'.1)

theorem Ticked.sound (h : Ticked w now q q') (hs : q.Sound) : q'.Sound := by
  refine ⟨?_, ?_, ?_, ?_, h.nodup w hs, h.single w hs, ?_, ?_, ?_, ?_⟩
  · intro id b hid
    obtain ⟨b', hid⟩ := h.mem_wheel_before w hid
    rw [h.nextId_]
    exact hs.wheel_lt id b' hid
  · intro id hid
    rw [h.nextId_]
    exact hs.timers_lt id ((h.timers_ id).mp hid).1
  · intro id hid
    rw [h.nextId_]
    rcases (h.expired id).mp hid with hid | ⟨hid, -⟩
    · exact hs.expired_lt id hid
    · exact hs.wheel_lt id _ hid
  · rw [h.log, h.nextId_]
    exact hs.added_lt
  · intro id hid
    rw [(h.timer_same w id).1]
    exact hs.live id ((h.timers_ id).mp hid).1
  · intro id b hid hlive
    rw [(h.timer_same w id).1] at hlive
    obtain ⟨b', hold⟩ := h.mem_wheel_before w hid
    exact (h.timers_ id).mpr ⟨hs.wheel_live id b' hold hlive, h.stays w hs hid⟩
  · intro id hid hrep hlive
    rw [(h.timer_same w id).1] at hlive
    rw [(h.timer_same w id).2.1] at hrep
    have hmem : id ∈ q.timers_ := by
      rcases (h.expired id).mp hid with hid | ⟨hid, -⟩
      · exact hs.again_live id hid hrep hlive
      · exact hs.wheel_live id _ hid hlive
    exact (h.timers_ id).mpr ⟨hmem, fun _ => stays_of_live hlive (Or.inl hrep)⟩
  · intro id hid hrep
    rw [(h.timer_same w id).1]
    rw [(h.timer_same w id).2.1] at hrep
    rcases (h.expired id).mp hid with hid | ⟨hid, hfate⟩
    · refine ⟨(hs.once_gone id hid hrep).1, fun hmem => ?_⟩
      exact (hs.once_gone id hid hrep).2 ((h.timers_ id).mp hmem).1
    · obtain ⟨hdue, hlive⟩ := (collected_iff _ _).mp hfate
      refine ⟨hlive, fun hmem => ?_⟩
      rcases ((h.timers_ id).mp hmem).2 hid with hagain | hkept
      · rw [((fate_again_iff _ _).mp hagain).2] at hrep
        cases hrep
      · exact absurd hdue (not_le.mpr ((fate_kept_iff _ _).mp hkept).1)

theorem runTimer_nil (h : q.expiredTimers = []) : q.runTimer = q := by
  simp only [runTimer, h]

/-- What `runTimer` changes: the timer leaves the batch, and its callback may run. -/
theorem runTimer_cons {id : Nat} {rest : List Nat} (h : q.expiredTimers = id :: rest) :
    q.runTimer =
      { q with
        expiredTimers := rest
        log := if !(q.timer id).cancelled_ && (q.timer id).callback_.isSome
          then q.log ++ [.ran id] else q.log } := by
  simp only [runTimer, h]
  split <;> rfl

theorem runTimer_same (q : TimerQueue κ) :
    q.runTimer.timer = q.timer ∧ q.runTimer.wheel_ = q.wheel_ ∧ q.runTimer.timers_ = q.timers_ ∧
      q.runTimer.currentBucket_ = q.currentBucket_ ∧
      ∀ id, .added id ∈ q.runTimer.log ↔ .added id ∈ q.log := by
  cases hexp : q.expiredTimers with
  | nil =>
    rw [runTimer_nil hexp]
    exact ⟨rfl, rfl, rfl, rfl, fun _ => Iff.rfl⟩
  | cons id rest =>
    rw [runTimer_cons hexp]
    refine ⟨rfl, rfl, rfl, rfl, ?_⟩
    intro j
    dsimp only
    split <;> simp

theorem sound_runTimer (h : q.Sound) : q.runTimer.Sound := by
  cases hexp : q.expiredTimers with
  | nil => rwa [runTimer_nil hexp]
  | cons id rest =>
    have hsub : ∀ j ∈ rest, j ∈ q.expiredTimers := fun j hj => hexp ▸ mem_cons_of_mem _ hj
    have hadded : ∀ j, .added j ∈ q.runTimer.log → j < q.nextId_ := by
      intro j hj
      exact h.added_lt j (((runTimer_same q).2.2.2.2 j).mp hj)
    rw [runTimer_cons hexp] at hadded ⊢
    exact { h with
      expired_lt := fun j hj => h.expired_lt j (hsub j hj)
      added_lt := hadded
      again_live := fun j hj => h.again_live j (hsub j hj)
      once_gone := fun j hj => h.once_gone j (hsub j hj) }

theorem sound_step (q : TimerQueue κ) (op : Op κ) (h : q.Sound) : (q.step w op).Sound := by
  cases op with
  | addTimer cb delayMs intervalMs now => exact sound_addTimer w h cb delayMs intervalMs now
  | cancelTimer id => exact sound_cancelTimer h id
  | tick now => exact guarded h fun _ => (tick_ticked w now q (h.nodup _)).sound w h
  | runTimer => exact sound_runTimer h
  | otherQueue =>
    exact { h with
      wheel_lt := fun id b hid => Nat.lt_succ_of_lt (h.wheel_lt id b hid)
      timers_lt := fun id hid => Nat.lt_succ_of_lt (h.timers_lt id hid)
      expired_lt := fun id hid => Nat.lt_succ_of_lt (h.expired_lt id hid)
      added_lt := fun id hid => Nat.lt_succ_of_lt (h.added_lt id hid) }

/-! ## The loop on the list itself -/

def setBucket (q : TimerQueue κ) (b : Nat) (ids : List Nat) : TimerQueue κ :=
  { q with wheel_ := update q.wheel_ b ids }

theorem setBucket_wheel_self (q : TimerQueue κ) (b : Nat) (ids : List Nat) :
    (q.setBucket b ids).wheel_ b = ids := update_self ..

theorem setBucket_setBucket (q : TimerQueue κ) (b : Nat) (ids ids' : List Nat) :
    (q.setBucket b ids).setBucket b ids' = q.setBucket b ids' := by
  unfold setBucket
  rw [Function.update_idem]

theorem setBucket_eq_self (q : TimerQueue κ) (b : Nat) : q.setBucket b (q.wheel_ b) = q := by
  unfold setBucket
  rw [Function.update_eq_self]

/-- The loop of `tick` as the code runs it, on the list that it changes: `i` is where the
iterator stands. A timer that leaves the bucket is erased there, and one that comes back
goes to the end of the same list. -/
def tickLoop (now : Int) (current : Nat) : Nat → TimerQueue κ → Nat → TimerQueue κ
  | 0, q, _ => q
  | fuel + 1, q, i =>
    match (q.wheel_ current)[i]? with
    | none => q
    | some id =>
      let (q, stays) := visit w now q id
      if stays then tickLoop now current fuel q (i + 1)
      else tickLoop now current fuel (q.setBucket current ((q.wheel_ current).eraseIdx i)) i

/-- `tick` on the list itself. The loop meets each timer of the bucket once, and once more
if it comes back. -/
def tickInPlace (q : TimerQueue κ) (now : Int) : TimerQueue κ :=
  let current := q.currentBucket_
  { tickLoop w now current (2 * (q.wheel_ current).length + 1) q 0 with
    currentBucket_ := (current + 1) % w.buckets_ }

/-- A turn of the loop does not look at the timers that stand in front. -/
theorem visit_setBucket (now : Int) (q : TimerQueue κ) (c id : Nat) (front : List Nat) :
    visit w now (q.setBucket c (front ++ q.wheel_ c)) id =
      ((visit w now q id).1.setBucket c (front ++ (visit w now q id).1.wheel_ c),
        (visit w now q id).2) := by
  unfold visit
  dsimp only [setBucket]
  split_ifs
  · dsimp only [push, setTimer, bucketAt]
    by_cases hb : add64 q.currentBucket_ (repeatTicks w (q.timer id).interval_) % w.buckets_ = c
    · rw [hb]
      simp only [update_self, Function.update_idem, append_assoc]
    · simp only [update_of_ne hb, update_of_ne (Ne.symm hb), Function.update_comm hb]
  · rfl
  · rfl
  · rfl

theorem visit_kept (h : fate (q.timer id) now = .kept) : visit w now q id = (q, true) := by
  obtain ⟨hlater, hlive⟩ := (fate_kept_iff _ _).mp h
  have hdue : ¬(q.timer id).isDue now = true := by
    rw [isDue_iff]
    omega
  unfold visit
  rw [if_neg hdue, if_neg (by rw [hlive]; simp)]

/-- The same loop with the timers that it visits. It says nothing if it does not end. -/
def scan (now : Int) (current : Nat) : Nat → TimerQueue κ → Nat → Option (List Nat × TimerQueue κ)
  | 0, _, _ => none
  | fuel + 1, q, i =>
    match (q.wheel_ current)[i]? with
    | none => some ([], q)
    | some id =>
      let (q, stays) := visit w now q id
      (if stays then scan now current fuel q (i + 1)
      else scan now current fuel (q.setBucket current ((q.wheel_ current).eraseIdx i)) i).map
        fun (ids, q) => (id :: ids, q)

theorem tickLoop_of_scan {c fuel i : Nat} {ids : List Nat} {q q' : TimerQueue κ}
    (h : scan w now c fuel q i = some (ids, q')) : tickLoop w now c fuel q i = q' := by
  induction fuel generalizing q i ids with
  | zero => cases h
  | succ fuel ih =>
    rw [scan] at h
    rw [tickLoop]
    split at h
    · cases h
      rfl
    · rename_i id _
      dsimp only at h ⊢
      cases hstays : (visit w now q id).2 <;> rw [hstays] at h
      all_goals
        obtain ⟨⟨rest, q1⟩, hrest, hq⟩ := Option.map_eq_some_iff.mp h
        cases hq
        exact ih hrest

theorem scan_kept {c fuel i : Nat} (h : ∀ id ∈ (q.wheel_ c).drop i, fate (q.timer id) now = .kept)
    (hfuel : ((q.wheel_ c).drop i).length < fuel) :
    scan w now c fuel q i = some ((q.wheel_ c).drop i, q) := by
  induction fuel generalizing i with
  | zero => simp at hfuel
  | succ fuel ih =>
    rw [scan]
    cases hget : (q.wheel_ c)[i]? with
    | none => rw [drop_eq_nil_of_le (List.getElem?_eq_none_iff.mp hget)]
    | some id =>
      have hdrop : (q.wheel_ c).drop i = id :: (q.wheel_ c).drop (i + 1) := by
        obtain ⟨hi, hid⟩ := List.getElem?_eq_some_iff.mp hget
        rw [drop_eq_getElem_cons hi, hid]
      rw [hdrop] at h hfuel ⊢
      dsimp only
      rw [visit_kept w (h id (mem_cons_self ..)), if_pos rfl,
        ih (fun j hj => h j (mem_cons_of_mem _ hj)) (Nat.lt_of_succ_lt_succ hfuel)]
      rfl

/-- A timer that a turn of the loop puts back into the bucket is not due again. -/
theorem visit_again_kept {c : Nat}
    (hback : ∀ j ∈ q.wheel_ c, j ≠ id ∧ fate (q.timer j) now = .kept) {j : Nat}
    (hj : j ∈ (visit w now q id).1.wheel_ c) : fate ((visit w now q id).1.timer j) now = .kept := by
  have h := visit_collected w now q id
  rw [h.wheel_ c, mem_append] at hj
  rw [h.timer j]
  rcases hj with hj | hj
  · obtain ⟨hne, hkept⟩ := hback j hj
    rw [if_neg (by simp [hne])]
    exact hkept
  · simp only [mem_filter, mem_singleton, decide_eq_true_eq] at hj
    obtain ⟨rfl, hagain, -⟩ := hj
    obtain ⟨⟨-, hlive⟩, hrep⟩ := (fate_again_iff _ _).mp hagain
    have hpos : 0 < (q.timer j).interval_ := by simpa [Timer.repeat_] using hrep
    rw [if_pos ⟨mem_singleton.mpr rfl, hagain⟩, fate_kept_iff]
    unfold Timer.restart
    rw [if_pos hrep]
    exact ⟨by dsimp only; omega, hlive⟩

/-- The loop on the list itself does what the loop over a copy of the bucket does. In front
of the iterator stand the timers that stayed, behind it the ones that it has still to
meet, and at the end the ones that came back. -/
theorem scan_eq_collect (now : Int) (c : Nat) (rest : List Nat) (fuel : Nat) (q : TimerQueue κ)
    (kept : List Nat) (hnodup : rest.Nodup)
    (hback : ∀ j ∈ q.wheel_ c, j ∉ rest ∧ fate (q.timer j) now = .kept)
    (hfuel : rest.length + ((collect w now q rest).1.wheel_ c).length < fuel) :
    scan w now c fuel (q.setBucket c (kept ++ rest ++ q.wheel_ c)) kept.length =
      some (rest ++ (collect w now q rest).1.wheel_ c, (collect w now q rest).1.setBucket c
        (kept ++ (collect w now q rest).2 ++ (collect w now q rest).1.wheel_ c)) := by
  induction rest generalizing fuel q kept with
  | nil =>
    simp only [append_nil, collect, nil_append] at hfuel ⊢
    have hdrop : ((q.setBucket c (kept ++ q.wheel_ c)).wheel_ c).drop kept.length = q.wheel_ c := by
      rw [setBucket_wheel_self, drop_left]
    rw [scan_kept w (by rw [hdrop]; exact fun j hj => (hback j hj).2)
      (by rw [hdrop]; simpa using hfuel), hdrop]
  | cons id rest ih =>
    obtain ⟨hid, hrest⟩ := List.nodup_cons.mp hnodup
    obtain ⟨fuel, rfl⟩ : ∃ n, fuel = n + 1 := ⟨fuel - 1, by omega⟩
    have hfuel' :
        rest.length + ((collect w now (visit w now q id).1 rest).1.wheel_ c).length < fuel := by
      rw [length_cons] at hfuel
      exact Nat.lt_of_succ_lt_succ (by rwa [Nat.add_right_comm] at hfuel)
    have hlook : (kept ++ id :: rest ++ q.wheel_ c)[kept.length]? = some id := by simp
    rw [scan, setBucket_wheel_self, hlook]
    dsimp only
    rw [visit_setBucket]
    have hnext : collect w now q (id :: rest) =
        ((collect w now (visit w now q id).1 rest).1,
          if (visit w now q id).2 then id :: (collect w now (visit w now q id).1 rest).2
          else (collect w now (visit w now q id).1 rest).2) := rfl
    have hback' : ∀ j ∈ (visit w now q id).1.wheel_ c,
        j ∉ rest ∧ fate ((visit w now q id).1.timer j) now = .kept := by
      intro j hj
      refine ⟨?_, visit_again_kept w (fun k hk => ?_) hj⟩
      · rw [(visit_collected w now q id).wheel_ c, mem_append] at hj
        rcases hj with hj | hj
        · exact fun hmem => (hback j hj).1 (mem_cons_of_mem _ hmem)
        · rw [mem_singleton.mp (mem_filter.mp hj).1]
          exact hid
      · obtain ⟨hk, hfate⟩ := hback k hk
        exact ⟨fun heq => hk (heq ▸ mem_cons_self ..), hfate⟩
    rw [hnext]
    cases hstays : (visit w now q id).2 with
    | true =>
      have hlist : kept ++ id :: rest ++ (visit w now q id).1.wheel_ c =
          (kept ++ [id]) ++ rest ++ (visit w now q id).1.wheel_ c := by simp
      have hlen : kept.length + 1 = (kept ++ [id]).length := by simp
      rw [if_pos rfl, if_pos rfl, hlist, hlen,
        ih fuel (visit w now q id).1 (kept ++ [id]) hrest hback' hfuel']
      simp
    | false =>
      have herase : (kept ++ id :: rest ++ (visit w now q id).1.wheel_ c).eraseIdx kept.length =
          kept ++ rest ++ (visit w now q id).1.wheel_ c := by
        rw [append_assoc, eraseIdx_append_of_length_le (le_refl _)]
        simp
      rw [if_neg (by simp), if_neg (by simp), setBucket_wheel_self, herase, setBucket_setBucket,
        ih fuel (visit w now q id).1 kept hrest hback' hfuel']
      rfl

/-- The timers that a tick puts back into the bucket that it goes over. -/
def comingBack (q : TimerQueue κ) (now : Int) : List Nat :=
  (q.wheel_ q.currentBucket_).filter fun id => fate (q.timer id) now = .again ∧
    q.bucketAt w (repeatTicks w (q.timer id).interval_) = q.currentBucket_

/-- The loop comes to its end. It visits each timer of the bucket once, and then once more
those that come back. -/
theorem scan_bucket (q : TimerQueue κ) (now : Int) (hnodup : (q.wheel_ q.currentBucket_).Nodup) :
    ∃ q', scan w now q.currentBucket_ (2 * (q.wheel_ q.currentBucket_).length + 1) q 0 =
        some (q.wheel_ q.currentBucket_ ++ q.comingBack w now, q') ∧
      q.tick w now = { q' with currentBucket_ := (q.currentBucket_ + 1) % w.buckets_ } := by
  have hempty : (q.setBucket q.currentBucket_ []).wheel_ q.currentBucket_ = [] :=
    setBucket_wheel_self ..
  have hback :
      (collect w now (q.setBucket q.currentBucket_ []) (q.wheel_ q.currentBucket_)).1.wheel_
      q.currentBucket_ = q.comingBack w now := by
    rw [(collect_collected w now _ hnodup _).wheel_, hempty]
    rfl
  have hlength : (q.comingBack w now).length ≤ (q.wheel_ q.currentBucket_).length :=
    length_filter_le ..
  have h := scan_eq_collect w now q.currentBucket_ (q.wheel_ q.currentBucket_)
    (2 * (q.wheel_ q.currentBucket_).length + 1) (q.setBucket q.currentBucket_ []) [] hnodup
    (by rw [hempty]; simp) (by rw [hback]; omega)
  rw [hempty, setBucket_setBucket, nil_append, append_nil, setBucket_eq_self, hback] at h
  refine ⟨_, h, ?_⟩
  rw [← hback]
  rfl

theorem tickInPlace_eq_tick (q : TimerQueue κ) (now : Int)
    (hnodup : (q.wheel_ q.currentBucket_).Nodup) : q.tickInPlace w now = q.tick w now := by
  obtain ⟨q', hscan, htick⟩ := scan_bucket w q now hnodup
  rw [htick, ← tickLoop_of_scan w hscan]
  rfl

end TimerQueue

end Model

end mymuduo.timer_queue
