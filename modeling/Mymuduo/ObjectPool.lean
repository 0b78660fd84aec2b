-- The object pool (src/util/ObjectPool.h). The idle objects are in a core that the pool
-- holds, and every deleter that has locked it: such a deleter gives its object back also
-- behind the end of the pool, and who lets go of the core last deletes what is idle.
-- A construction that throws in `acquire` stays counted.
import Mathlib.Algebra.Group.Nat.Defs
import Mathlib.Data.List.Perm.Basic
import Mymuduo.Runs

open List runs

namespace mymuduo.object_pool

/-! ## The pool -/

/-- The core and those who hold it. Objects are numbered as they are made, and a handle is
named by its object; `made` is how many there are. `returning` has the objects whose deleters
have locked the core and have not pushed yet, `leaving` counts the deleters that have. -/
structure PoolCore where
  pool : List Nat := []
  maxSize : Nat
  totalCreated : Nat := 0
  made : Nat := 0
  alive : Bool := true
  handles : List Nat := []
  returning : List Nat := []
  leaving : Nat := 0
  deleted : List Nat := []

/-- One atomic step of one thread. `destroy` is the end of the `ObjectPool`, and `throws` says
how `new T()` ends if `acquire` comes to it. -/
inductive Event
  | acquire (throws : Bool)
  | release (obj : Nat)
  | drop (obj : Nat)
  | pushBack (obj : Nat)
  | unlock
  | destroy
  deriving DecidableEq

inductive Acquired
  | object (obj : Nat)
  | null
  | thrown
  deriving DecidableEq

/-- `maxSize == 0 ? initialSize * 2 : maxSize`, as a `size_t` -/
def effectiveMaxSize (initialSize maxSize : Nat) : Nat :=
  if maxSize = 0 then initialSize * 2 % 2 ^ 64 else maxSize

namespace PoolCore

/-- One turn of the loop of the constructor. -/
def preallocate (p : PoolCore) : PoolCore :=
  { p with
    pool := p.pool ++ [p.made]
    made := p.made + 1
    totalCreated := p.totalCreated + 1 }

def objectPool (initialSize maxSize : Nat) : PoolCore :=
  preallocate^[initialSize] { maxSize := effectiveMaxSize initialSize maxSize }

def acquire (p : PoolCore) (throws : Bool) : Acquired × PoolCore :=
  match p.pool.getLast? with
  | some obj => (.object obj, { p with pool := p.pool.dropLast, handles := obj :: p.handles })
  | none =>
    if p.totalCreated < p.maxSize then
      -- the counter is up before the construction, and nothing takes it back
      let p := { p with totalCreated := p.totalCreated + 1 }
      if throws then (.thrown, p)
      else (.object p.made, { p with made := p.made + 1, handles := p.made :: p.handles })
    else (.null, p)

def held (p : PoolCore) : Bool := p.alive || p.returning ≠ [] || 0 < p.leaving

/-- `~PoolCore`, if nobody holds it any more. -/
def letGo (p : PoolCore) : PoolCore :=
  if p.held then p else { p with pool := [], deleted := p.deleted ++ p.pool }

/-- `Deleter::operator()` up to `coreWeak.lock()`, or to its end if that fails. -/
def drop (p : PoolCore) (obj : Nat) : PoolCore :=
  if obj ∈ p.handles then
    if p.held then { p with handles := p.handles.erase obj, returning := obj :: p.returning }
    else { p with handles := p.handles.erase obj, deleted := p.deleted ++ [obj] }
  else p

def release (p : PoolCore) (obj : Nat) : PoolCore := p.drop obj

/-- `core->pool.push_back(ptr)` under the lock. -/
def pushBack (p : PoolCore) (obj : Nat) : PoolCore :=
  if obj ∈ p.returning then
    { p with
      pool := p.pool ++ [obj]
      returning := p.returning.erase obj
      leaving := p.leaving + 1 }
  else p

/-- The `shared_ptr` of a deleter goes out of scope. -/
def unlock (p : PoolCore) : PoolCore :=
  if 0 < p.leaving then letGo { p with leaving := p.leaving - 1 } else p

def destroy (p : PoolCore) : PoolCore := if p.alive then letGo { p with alive := false } else p

/-- Nobody calls `acquire` on a pool that is gone. -/
def step (p : PoolCore) : Event → PoolCore
  | .acquire throws => if p.alive then (p.acquire throws).2 else p
  | .release obj => p.release obj
  | .drop obj => p.drop obj
  | .pushBack obj => p.pushBack obj
  | .unlock => p.unlock
  | .destroy => p.destroy

/-- Where `acquire` comes to a construction, that returns. -/
def Constructs (p : PoolCore) : Event → Prop
  | .acquire throws => p.alive = true → (p.acquire throws).1 ≠ .thrown
  | _ => True

/-! ## The invariant -/

/-- Where an object can be: idle, with a handle, with a deleter on its way back, or deleted. -/
def places (p : PoolCore) : List Nat := p.pool ++ p.handles ++ p.returning ++ p.deleted

/-- Each object is in one place, and the core keeps its objects while somebody holds it. -/
structure Sound (initialSize maxSize : Nat) (p : PoolCore) : Prop where
  maxSize_eq : p.maxSize = maxSize
  created : p.totalCreated ≤ max initialSize maxSize
  once : ∀ obj, p.places.count obj = (range p.made).count obj
  made_le : p.made ≤ p.totalCreated
  kept : p.held = true → p.deleted = []
  gone : p.held = false → p.pool = []

variable {p : PoolCore} {initialSize maxSize : Nat}

theorem sound_preallocate (halive : p.alive = true) (hroom : p.totalCreated < initialSize)
    (h : p.Sound initialSize maxSize) : p.preallocate.Sound initialSize maxSize := by
  refine ⟨h.maxSize_eq, by dsimp only [preallocate]; omega, ?_, ?_, h.kept, ?_⟩
  · intro obj
    have honce := h.once obj
    simp only [places, preallocate, range_succ, count_append] at honce ⊢
    omega
  · exact Nat.succ_le_succ h.made_le
  · intro hheld
    simp [held, preallocate, halive] at hheld

theorem sound_objectPool (initialSize maxSize : Nat) :
    (objectPool initialSize maxSize).Sound initialSize (effectiveMaxSize initialSize maxSize) ∧
      (objectPool initialSize maxSize).totalCreated = (objectPool initialSize maxSize).made := by
  have hloop : ∀ n ≤ initialSize, ∀ p, p = preallocate^[n]
      { maxSize := effectiveMaxSize initialSize maxSize } →
      p.alive = true ∧ p.totalCreated = n ∧ p.made = n ∧
        p.Sound initialSize (effectiveMaxSize initialSize maxSize) := by
    intro n
    induction n with
    | zero =>
      rintro - p rfl
      exact ⟨rfl, rfl, rfl, rfl, Nat.zero_le _, by simp [places], le_rfl, fun _ => rfl,
        fun _ => rfl⟩
    | succ n ih =>
      rintro hn p rfl
      obtain ⟨halive, hcreated, hmade, hsound⟩ := ih (by omega) _ rfl
      rw [Function.iterate_succ_apply']
      exact ⟨halive, congrArg (· + 1) hcreated, congrArg (· + 1) hmade,
        sound_preallocate halive (by omega) hsound⟩
  obtain ⟨-, hcreated, hmade, hsound⟩ := hloop initialSize le_rfl _ rfl
  exact ⟨hsound, hcreated.trans hmade.symm⟩

theorem Sound.acquire (h : p.Sound initialSize maxSize) (halive : p.alive = true) (throws : Bool) :
    (p.acquire throws).2.Sound initialSize maxSize := by
  have hmax := h.maxSize_eq
  have hmade := h.made_le
  unfold PoolCore.acquire
  split
  · rename_i obj hlast
    refine ⟨hmax, h.created, fun x => ?_, hmade, h.kept, fun hnot => ?_⟩
    · have honce := h.once x
      have hcount := congrArg (count x) (dropLast_append_getLast? obj hlast)
      simp only [places, count_append, count_cons, count_nil] at honce hcount ⊢
      omega
    · simp [held, halive] at hnot
  · split
    · split
      · exact ⟨hmax, by dsimp only; omega, h.once, by dsimp only; omega, h.kept, h.gone⟩
      · refine ⟨hmax, by dsimp only; omega, fun x => ?_, by dsimp only; omega, h.kept, h.gone⟩
        have honce := h.once x
        simp only [places, range_succ, count_append, count_cons, count_nil] at honce ⊢
        omega
    · exact h

theorem Sound.letGo {q : PoolCore} (h : p.Sound initialSize maxSize) (hheld : p.held = true)
    (hq : q = { p with alive := q.alive, leaving := q.leaving }) :
    q.letGo.Sound initialSize maxSize := by
  have hkept := h.kept hheld
  rw [hq]
  unfold PoolCore.letGo
  split
  · rename_i hstays
    exact ⟨h.maxSize_eq, h.created, h.once, h.made_le, fun _ => hkept,
      fun hnot => by simp [hstays] at hnot⟩
  · rename_i hleft
    refine ⟨h.maxSize_eq, h.created, fun x => ?_, h.made_le, fun hnot => absurd hnot hleft,
      fun _ => rfl⟩
    have honce := h.once x
    simp only [places, count_append, count_nil] at honce ⊢
    omega

theorem Sound.drop (h : p.Sound initialSize maxSize) (obj : Nat) :
    (p.drop obj).Sound initialSize maxSize := by
  unfold PoolCore.drop
  split
  · rename_i hmem
    have hcount : ∀ x, (p.handles.erase obj).count x + [obj].count x = p.handles.count x := by
      intro x
      rw [(perm_cons_erase hmem).count_eq x, ← count_append]
      exact (perm_append_singleton obj _).count_eq x
    split
    · rename_i hheld
      refine ⟨h.maxSize_eq, h.created, fun x => ?_, h.made_le, fun _ => h.kept hheld,
        by simp [held]⟩
      have honce := h.once x
      simp only [places, count_append, count_cons, count_nil] at honce hcount ⊢
      have := hcount x
      omega
    · rename_i hheld
      refine ⟨h.maxSize_eq, h.created, fun x => ?_, h.made_le, fun hnot => absurd hnot hheld,
        h.gone⟩
      have honce := h.once x
      simp only [places, count_append] at honce ⊢
      have := hcount x
      omega
  · exact h

theorem Sound.pushBack (h : p.Sound initialSize maxSize) (obj : Nat) :
    (p.pushBack obj).Sound initialSize maxSize := by
  unfold PoolCore.pushBack
  split
  · rename_i hmem
    have hheld : p.held = true := by simp [held, ne_nil_of_mem hmem]
    refine ⟨h.maxSize_eq, h.created, fun x => ?_, h.made_le, fun _ => h.kept hheld,
      by simp [held]⟩
    have honce := h.once x
    have hcount := (perm_cons_erase hmem).count_eq x
    simp only [places, count_append, count_cons, count_nil] at honce hcount ⊢
    omega
  · exact h

theorem sound_step (p : PoolCore) (e : Event) (h : p.Sound initialSize maxSize) :
    (p.step e).Sound initialSize maxSize := by
  cases e with
  | acquire throws => exact guarded h fun halive => h.acquire halive throws
  | release obj | drop obj => exact h.drop obj
  | pushBack obj => exact h.pushBack obj
  | unlock => exact guarded h fun hleaving => h.letGo (by simp [held, hleaving]) rfl
  | destroy => exact guarded h fun halive => h.letGo (by simp [held, halive]) rfl

/-! ## The counter -/

theorem counts_acquire_iff (h : p.made ≤ p.totalCreated) (throws : Bool) :
    (p.acquire throws).2.totalCreated = (p.acquire throws).2.made ↔
      p.totalCreated = p.made ∧ (p.acquire throws).1 ≠ .thrown := by
  unfold acquire
  split
  · simp
  · split
    · dsimp only
      split
      · simp only [ne_eq, not_true_eq_false, and_false, iff_false]
        omega
      · simp
    · simp

theorem letGo_counts (p : PoolCore) :
    p.letGo.totalCreated = p.totalCreated ∧ p.letGo.made = p.made := by
  unfold letGo
  split <;> exact ⟨rfl, rfl⟩

/-- A step leaves the counter at the number of the objects exactly where it was there and no
construction throws. -/
theorem counts_step_iff (p : PoolCore) (e : Event) (h : p.Sound initialSize maxSize) :
    (p.step e).totalCreated = (p.step e).made ↔ p.totalCreated = p.made ∧ p.Constructs e := by
  have hdrop : ∀ obj, (p.drop obj).totalCreated = p.totalCreated ∧ (p.drop obj).made = p.made := by
    intro obj
    unfold drop
    split
    · split <;> exact ⟨rfl, rfl⟩
    · exact ⟨rfl, rfl⟩
  cases e with
  | acquire throws =>
    dsimp only [step, Constructs]
    split
    · rename_i halive
      simpa [halive] using counts_acquire_iff h.made_le throws
    · rename_i halive
      simp [halive]
  | release obj => simp [step, release, Constructs, hdrop obj]
  | drop obj => simp [step, Constructs, hdrop obj]
  | pushBack obj =>
    dsimp only [step, pushBack, Constructs]
    split <;> simp
  | unlock =>
    dsimp only [step, unlock, Constructs]
    split <;> simp [letGo_counts]
  | destroy =>
    dsimp only [step, destroy, Constructs]
    split <;> simp [letGo_counts]

/-! ## Ownership -/

theorem acquire_eq_null {throws : Bool} (h : (p.acquire throws).1 = .null) :
    p.pool = [] ∧ p.maxSize ≤ p.totalCreated := by
  unfold acquire at h
  split at h
  · cases h
  · rename_i hnone
    split at h
    · dsimp only at h
      split at h <;> cases h
    · exact ⟨getLast?_eq_none_iff.mp hnone, by omega⟩

/-- Each object is idle, owned or deleted, and only once. While the pool lives, the counter is
within the limit and `acquire` gives nothing only at the limit, and the counter is what is
idle or owned exactly when no construction in `acquire` has thrown. When the pool and all
handles are gone, every object has been deleted once. -/
theorem objects_have_one_owner (initialSize maxSize : Nat) (events : List Event) :
    let p := run step (objectPool initialSize maxSize) events
    p.pool ++ (p.handles ++ p.returning) ++ p.deleted ~ range p.made ∧
    (p.alive = true →
      (p.totalCreated = p.pool.length + (p.handles ++ p.returning).length ↔
        Meets step Constructs (objectPool initialSize maxSize) events) ∧
      p.totalCreated ≤ max initialSize (effectiveMaxSize initialSize maxSize) ∧
      ∀ throws, (p.acquire throws).1 = .null →
        p.pool = [] ∧ effectiveMaxSize initialSize maxSize ≤ p.totalCreated) ∧
    (p.alive = false → p.handles = [] → p.returning = [] → p.leaving = 0 →
      p.deleted ~ range p.made) := by
  intro p
  obtain ⟨hstart, hcounts⟩ := sound_objectPool initialSize maxSize
  have h : p.Sound initialSize (effectiveMaxSize initialSize maxSize) :=
    invariant_always sound_step hstart events
  have honce : p.pool ++ (p.handles ++ p.returning) ++ p.deleted ~ range p.made := by
    rw [← append_assoc]
    exact perm_iff_count.mpr h.once
  refine ⟨honce, fun halive => ⟨?_, h.created, ?_⟩, ?_⟩
  · have hlength := honce.length_eq
    rw [h.kept (by simp [held, halive]), append_nil, length_append, length_range] at hlength
    rw [hlength]
    exact (law_run_iff (fun p => p.totalCreated = p.made) sound_step counts_step_iff hstart
      events).trans (and_iff_right hcounts)
  · rw [← h.maxSize_eq]
    exact fun throws => acquire_eq_null
  · intro halive hhandles hreturning hleaving
    rw [hhandles, hreturning, h.gone (by simp [held, halive, hreturning, hleaving])] at honce
    exact honce

/-- The only construction throws: the counter is 1 with no object, and the next call of
`acquire` gives nothing. -/
theorem a_construction_that_throws_stays_counted :
    let p := run step (objectPool 0 1) [.acquire true]
    p.alive = true ∧ p.totalCreated = 1 ∧ p.pool = [] ∧ p.handles ++ p.returning = [] ∧
      (p.acquire false).1 = .null := by
  decide

end PoolCore

end mymuduo.object_pool
