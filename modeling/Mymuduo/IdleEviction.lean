-- Which idle connections `healthCheck` of `ConnectionPool` gives up (src/pool/ConnectionPool.h).
-- It goes by `lastUsed_`, and only an `acquire` of an idle connection sets that. So a
-- connection that is new or was just released may look unused for as long as the clock runs.
import Mymuduo.ConnectionPools

open List runs

namespace mymuduo.connection_pools

/-! ## The times of a connection -/

/-- A pool, and for each connection when it was created, last taken from the idle ones, last
released, and last any of the three. -/
structure Timed where
  shared : Shared
  created : Nat × Nat → Int
  acquired : Nat × Nat → Option Int
  released : Nat × Nat → Option Int
  touched : Nat × Nat → Int

def createdBy (s : Shared) : Event → List Conn
  | .attemptEnds ok _ => if s.attempts = 0 then [] else (ConnectionPool.finish s.pool ok).1.toList
  | _ => []

def acquiredBy (config : Config) (s : Shared) : Event → List Conn
  | .acquire _ now => (ConnectionPool.acquire config s.pool now).1.conns
  | _ => []

def releasedBy (s : Shared) : Event → List Conn
  | .release conn _ _ => if conn ∈ s.lent then [conn] else []
  | _ => []

def Event.time : Event → Int
  | .acquire _ now => now
  | .attemptEnds _ now => now
  | .release _ _ now => now
  | .healthCheck now => now

/-- The times, with a new one for the connections of the list. -/
def stamp {α : Type} (time : α) (l : List Conn) (times : Nat × Nat → α) (x : Nat × Nat) : α :=
  if x ∈ l.map Conn.name then time else times x

namespace Timed

variable (config : Config)

def step (t : Timed) (event : Event) : Timed where
  shared := t.shared.step .connectionPool config event
  created := stamp event.time (createdBy t.shared event) t.created
  acquired := stamp (some event.time) (acquiredBy config t.shared event) t.acquired
  released := stamp (some event.time) (releasedBy t.shared event) t.released
  touched := stamp event.time (createdBy t.shared event ++ acquiredBy config t.shared event ++
    releasedBy t.shared event) t.touched

/-- The constructor creates its connections at `now`. -/
def start (succeeds : Nat → Bool) (now : Int) : Timed where
  shared := .start .connectionPool config succeeds now
  created := fun _ => now
  acquired := fun _ => none
  released := fun _ => none
  touched := fun _ => now

/-- A connection that is given up was not touched for more than 60 seconds, and `minSize`
idle connections stay, or all. -/
def Justified (t : Timed) : Event → Prop
  | .healthCheck now =>
    let pool_ := (ConnectionPool.healthCheck config t.shared.pool now).pool_
    (∀ conn ∈ t.shared.pool.pool_, conn ∉ pool_ → 60 < now - t.touched conn.name) ∧
      min config.minSize t.shared.pool.pool_.length ≤ pool_.length
  | _ => True

/-- Behind the first `minSize` idle connections, one that was released in the last 60 seconds,
or created then and never released, was also taken from the idle ones in the last 60 seconds.
One that was never taken from them counts as taken at 0, where the clock begins. -/
def ReusedLately (t : Timed) : Event → Prop
  | .healthCheck now => ∀ conn ∈ t.shared.pool.pool_.drop config.minSize,
    now - (t.released conn.name).getD (t.created conn.name) ≤ 60 →
      now - (t.acquired conn.name).getD 0 ≤ 60
  | _ => True

/-! ## What `lastUsed_` is -/

/-- `lastUsed_` is the last time at which the connection was taken from the idle ones, or 0.
What came last to an idle connection is its release, or its creation. -/
structure Stamped (t : Timed) : Prop where
  idle : ∀ conn ∈ t.shared.pool.pool_, conn.lastUsed = (t.acquired conn.name).getD 0 ∧
    t.touched conn.name = (t.released conn.name).getD (t.created conn.name)
  lent : ∀ conn ∈ t.shared.lent, conn.lastUsed = (t.acquired conn.name).getD 0
  new : ∀ x, t.shared.pool.made ≤ x.2 → t.acquired x = none

@[simp] theorem stamp_nil {α : Type} (time : α) (times : Nat × Nat → α) :
    stamp time [] times = times := rfl

@[simp] theorem stamp_markUsed {α : Type} (time : α) (now : Int) (conn : Conn)
    (times : Nat × Nat → α) : stamp time [conn.markUsed now] times = stamp time [conn] times := rfl

theorem stamp_self {α : Type} (time : α) (conn : Conn) (times : Nat × Nat → α) :
    stamp time [conn] times conn.name = time :=
  if_pos (mem_singleton_self _)

theorem stamp_of_ne {α : Type} {time : α} {conn : Conn} {times : Nat × Nat → α} {x : Nat × Nat}
    (h : x ≠ conn.name) : stamp time [conn] times x = times x :=
  if_neg (by simpa using h)

variable {config} {t : Timed}

theorem Stamped.of_subset (hs : t.Stamped) {shared : Shared}
    (hidle : shared.pool.pool_ ⊆ t.shared.pool.pool_) (hlent : shared.lent ⊆ t.shared.lent)
    (hmade : shared.pool.made = t.shared.pool.made) : Stamped { t with shared } where
  idle conn hconn := hs.idle conn (hidle hconn)
  lent conn hconn := hs.lent conn (hlent hconn)
  new x hx := hs.new x (hmade ▸ hx)

theorem ne_of_new (h : Accounted config t.shared) {conn : Conn}
    (hconn : conn ∈ t.shared.pool.pool_ ∨ conn ∈ t.shared.lent) {x : Nat × Nat}
    (hx : t.shared.pool.made ≤ x.2) : x ≠ conn.name := by
  rintro rfl
  have hcopies := h.new _ hx
  unfold Shared.copies at hcopies
  rcases hconn with hconn | hconn
  all_goals
    have := count_pos_iff.mpr (mem_map_of_mem (f := Conn.name) hconn)
    omega

theorem step_acquire_cons {conn : Conn} {rest : List Conn}
    (hpool : t.shared.pool.pool_ = conn :: rest) (ping : Conn → Bool) (now : Int) :
    t.step config (.acquire ping now) =
      { t with
        shared := { t.shared with
          pool := { t.shared.pool with pool_ := rest }
          lent := conn.markUsed now :: t.shared.lent }
        acquired := stamp (some now) [conn] t.acquired
        touched := stamp now [conn] t.touched } := by
  simp [step, Shared.step, PoolClass.acquire, ConnectionPool.acquire, hpool, Shared.begin,
    createdBy, acquiredBy, releasedBy, Begun.conns, Begun.places, Event.time]

theorem stamped_acquire (h : Accounted config t.shared) (hs : t.Stamped) (ping : Conn → Bool)
    (now : Int) : (t.step config (.acquire ping now)).Stamped := by
  cases hpool : t.shared.pool.pool_ with
  | nil =>
    have hnone : (t.shared.pool.reserve config).1.conns = [] := by
      unfold Pool.reserve
      split <;> rfl
    have hstep : t.step config (.acquire ping now) =
        { t with shared := t.shared.begin (t.shared.pool.reserve config) } := by
      simp [step, Shared.step, PoolClass.acquire, ConnectionPool.acquire, hpool, createdBy,
        acquiredBy, releasedBy, hnone]
    rw [hstep]
    refine hs.of_subset ?_ ?_ ?_
    · unfold Shared.begin Pool.reserve
      split <;> exact Subset.refl _
    · rw [Shared.begin, hnone]
      exact Subset.refl _
    · unfold Shared.begin Pool.reserve
      split <;> rfl
  | cons conn rest =>
    have hmem : conn ∈ t.shared.pool.pool_ := hpool ▸ mem_cons_self
    have hnodup := h.nodup
    rw [hpool, cons_append, map_cons, nodup_cons] at hnodup
    have hne : ∀ other ∈ rest ++ t.shared.lent, other.name ≠ conn.name :=
      fun other hother heq => hnodup.1 (heq ▸ mem_map_of_mem hother)
    rw [step_acquire_cons hpool]
    refine ⟨fun other hother => ?_, fun other hother => ?_, fun x hx => ?_⟩
    · have hother' := hne other (mem_append_left _ hother)
      dsimp only
      rw [stamp_of_ne hother', stamp_of_ne hother']
      exact hs.idle other (hpool ▸ mem_cons_of_mem _ hother)
    · dsimp only
      rcases mem_cons.mp hother with rfl | hother
      · rw [Conn.name_markUsed, stamp_self]
        rfl
      · rw [stamp_of_ne (hne other (mem_append_right _ hother))]
        exact hs.lent other hother
    · dsimp only
      rw [stamp_of_ne (ne_of_new h (.inl hmem) hx)]
      exact hs.new x hx

/-- A new connection was never taken from the idle ones, and has the time 0. -/
theorem stamped_attemptEnds (h : Accounted config t.shared) (hs : t.Stamped) (ok : Bool)
    (now : Int) : (t.step config (.attemptEnds ok now)).Stamped := by
  by_cases hattempts : t.shared.attempts = 0
  · have hstep : t.step config (.attemptEnds ok now) = t := by
      simp [step, Shared.step, hattempts, createdBy, acquiredBy, releasedBy]
    rw [hstep]
    exact hs
  cases ok with
  | false =>
    have hstep : t.step config (.attemptEnds false now) =
        { t with shared := t.shared.finish (t.shared.pool.finish 0 false) } := by
      simp [step, Shared.step, PoolClass.finish, ConnectionPool.finish, hattempts, createdBy,
        acquiredBy, releasedBy, Pool.finish_false]
    rw [hstep]
    apply hs.of_subset
    all_goals simp [Shared.finish, Pool.finish_false]
  | true =>
    have hstep : t.step config (.attemptEnds true now) =
        { t with
          shared := t.shared.finish (t.shared.pool.finish 0 true)
          created := stamp now [⟨t.shared.pool.number, t.shared.pool.made, 0⟩] t.created
          touched := stamp now [⟨t.shared.pool.number, t.shared.pool.made, 0⟩] t.touched } := by
      simp [step, Shared.step, PoolClass.finish, ConnectionPool.finish, hattempts, createdBy,
        acquiredBy, releasedBy, Pool.finish_true, Event.time]
    rw [hstep, Pool.finish_true]
    refine ⟨fun other hother => ?_, fun other hother => ?_, fun x hx => ?_⟩
    · have hne : (t.shared.pool.number, t.shared.pool.made) ≠ other.name :=
        ne_of_new h (.inl hother) (le_refl _)
      dsimp only
      rw [stamp_of_ne hne.symm, stamp_of_ne hne.symm]
      exact hs.idle other hother
    · rcases mem_cons.mp hother with rfl | hother
      · have hnew : t.acquired (t.shared.pool.number, t.shared.pool.made) = none :=
          hs.new _ (le_refl _)
        dsimp only [Conn.name]
        rw [hnew]
        rfl
      · exact hs.lent other hother
    · exact hs.new x (Nat.le_of_succ_le hx)

theorem stamped_release (h : Accounted config t.shared) (hs : t.Stamped) (conn : Conn)
    (valid : Bool) (now : Int) : (t.step config (.release conn valid now)).Stamped := by
  by_cases hconn : conn ∈ t.shared.lent
  · have hstep : t.step config (.release conn valid now) =
        { t with
          shared := { t.shared with
            pool := t.shared.pool.putBack config conn valid
            lent := t.shared.lent.erase conn }
          released := stamp (some now) [conn] t.released
          touched := stamp now [conn] t.touched } := by
      simp [step, Shared.step, PoolClass.release, ConnectionPool.release, hconn, createdBy,
        acquiredBy, releasedBy, Event.time]
    have hother : ∀ other ∈ t.shared.pool.pool_, other.name ≠ conn.name := by
      intro other hother heq
      have hnodup := h.nodup
      rw [map_append, nodup_append] at hnodup
      exact hnodup.2.2 _ (mem_map_of_mem hother) _ (mem_map_of_mem hconn) heq
    have hput : (∀ other ∈ (t.shared.pool.putBack config conn valid).pool_,
          other ∈ t.shared.pool.pool_ ∨ other = conn) ∧
        (t.shared.pool.putBack config conn valid).made = t.shared.pool.made := by
      unfold Pool.putBack
      split
      · exact ⟨fun _ => .inl, rfl⟩
      split
      · exact ⟨fun _ => .inl, rfl⟩
      · exact ⟨by simp [Pool.push], rfl⟩
    rw [hstep]
    refine ⟨fun other hin => ?_, fun other hin => hs.lent other (mem_of_mem_erase hin),
      fun x hx => hs.new x (hput.2 ▸ hx)⟩
    dsimp only
    rcases hput.1 other hin with hin | rfl
    · rw [stamp_of_ne (hother other hin), stamp_of_ne (hother other hin)]
      exact hs.idle other hin
    · rw [stamp_self, stamp_self]
      exact ⟨hs.lent other hconn, rfl⟩
  · have hstep : t.step config (.release conn valid now) = t := by
      simp [step, Shared.step, hconn, createdBy, acquiredBy, releasedBy]
    rw [hstep]
    exact hs

theorem stamped_healthCheck (hs : t.Stamped) (now : Int) :
    (t.step config (.healthCheck now)).Stamped :=
  hs.of_subset (sweepIdle_spec config.minSize 60 now [] _ t.shared.pool.pool_).1.subset
    (Subset.refl _) rfl

/-- The accounts, and what the times say. -/
structure Kept (config : Config) (t : Timed) : Prop where
  accounted : Accounted config t.shared
  stamped : t.Stamped

theorem kept_step (h : Kept config t) (event : Event) : Kept config (t.step config event) := by
  refine ⟨accounted_step .connectionPool h.accounted event, ?_⟩
  cases event with
  | acquire ping now => exact stamped_acquire h.accounted h.stamped ping now
  | attemptEnds ok now => exact stamped_attemptEnds h.accounted h.stamped ok now
  | release conn valid now => exact stamped_release h.accounted h.stamped conn valid now
  | healthCheck now => exact stamped_healthCheck h.stamped now

theorem kept_start (config : Config) (succeeds : Nat → Bool) (now : Int) :
    Kept config (start config succeeds now) := by
  refine ⟨accounted_start .connectionPool config succeeds now, ?_, nofun, fun _ _ => rfl⟩
  intro conn hconn
  obtain ⟨id, -, rfl⟩ := mem_map.mp hconn
  exact ⟨rfl, rfl⟩

/-! ## What the check keeps -/

/-- The first `minSize` connections stay, and of the others those that were used lately. -/
theorem sweepIdle_eq (minSize : Nat) (limit now : Int) (valid : List Conn) (total : Nat)
    (l : List Conn) :
    (Pool.sweepIdle minSize limit now valid total l).1 =
      valid ++ (l.take (minSize - valid.length) ++
        (l.drop (minSize - valid.length)).filter (fun conn => now - conn.lastUsed ≤ limit)) := by
  induction l generalizing valid total with
  | nil => simp [Pool.sweepIdle]
  | cons conn l ih =>
    rw [Pool.sweepIdle]
    rcases Nat.lt_or_ge valid.length minSize with hlt | hge
    · have hroom : minSize - valid.length = minSize - (valid.length + 1) + 1 := by omega
      rw [if_neg (by omega), ih, hroom]
      simp
    · have hfull : minSize - valid.length = 0 ∧ minSize - (valid.length + 1) = 0 := by omega
      split
      · have hold : ¬ now ≤ limit + conn.lastUsed := by omega
        simp [ih, hfull.1, hold]
      · have hrecent : now ≤ limit + conn.lastUsed := by omega
        simp [ih, hfull.1, hfull.2, hrecent]

theorem justified_iff (h : Kept config t) (event : Event) :
    Justified config t event ↔ ReusedLately config t event := by
  cases event with
  | healthCheck now =>
    have hkept : (ConnectionPool.healthCheck config t.shared.pool now).pool_ =
        t.shared.pool.pool_.take config.minSize ++
          (t.shared.pool.pool_.drop config.minSize).filter (fun conn => now - conn.lastUsed ≤ 60) :=
      sweepIdle_eq config.minSize 60 now [] t.shared.pool.totalCreated_ t.shared.pool.pool_
    dsimp only [Justified, ReusedLately]
    rw [hkept]
    have hnodup : t.shared.pool.pool_.Nodup := by
      have hnames := h.accounted.nodup
      rw [map_append] at hnames
      exact (nodup_append.mp hnames).1.of_map _
    have hgone : ∀ conn ∈ t.shared.pool.pool_,
        conn ∉ t.shared.pool.pool_.take config.minSize ++
          (t.shared.pool.pool_.drop config.minSize).filter (fun conn => now - conn.lastUsed ≤ 60) ↔
            conn ∈ t.shared.pool.pool_.drop config.minSize ∧ 60 < now - conn.lastUsed := by
      intro conn hconn
      rw [← take_append_drop config.minSize t.shared.pool.pool_, mem_append] at hconn
      have hapart := disjoint_take_drop hnodup (le_refl config.minSize) (a := conn)
      simp only [mem_append, mem_filter, decide_eq_true_eq]
      have hlt := Int.not_le (a := now - conn.lastUsed) (b := 60)
      tauto
    constructor
    · rintro ⟨hold, -⟩ conn hconn hlately
      have hmem := mem_of_mem_drop hconn
      obtain ⟨hused, htouched⟩ := h.stamped.idle conn hmem
      by_contra hunused
      have := hold conn hmem ((hgone conn hmem).mpr ⟨hconn, by omega⟩)
      omega
    · intro hlately
      refine ⟨fun conn hconn hout => ?_, ?_⟩
      · obtain ⟨hdrop, hunused⟩ := (hgone conn hconn).mp hout
        obtain ⟨hused, htouched⟩ := h.stamped.idle conn hconn
        by_contra hrecent
        have := hlately conn hdrop (by omega)
        omega
      · rw [length_append, length_take]
        omega
  | _ => exact Iff.rfl

/-- In every run the check gives up only connections that nobody created, acquired or released
in the last 60 seconds, exactly when at each check the idle connections behind the first
`minSize` that came back or were created in the last 60 seconds had been taken from the idle
ones in that time too. The idle connections that have to stay always do. -/
theorem eviction_is_justified_iff (config : Config) (succeeds : Nat → Bool) (now : Int)
    (events : List Event) :
    Meets (step config) (Justified config) (start config succeeds now) events ↔
      Meets (step config) (ReusedLately config) (start config succeeds now) events :=
  meets_congr (Kept config) (fun _ event (_ : True) h => kept_step h event)
    (fun _ event h => justified_iff h event) (meets_true _ _ _) (kept_start config succeeds now)

def smallPool : Config where
  minSize := 0
  maxSize := 2
  minSize_lt := by decide
  maxSize_lt := by decide

/-- A connection that is created and released at 1000 s is given up at 1000 s. -/
theorem fresh_connection_is_given_up :
    let t := run (step smallPool) (start smallPool (fun _ => true) 1000)
      [.acquire (fun _ => true) 1000, .attemptEnds true 1000, .release ⟨0, 0, 0⟩ true 1000]
    t.shared.pool.pool_ = [⟨0, 0, 0⟩] ∧ t.touched (0, 0) = 1000 ∧
      (ConnectionPool.healthCheck smallPool t.shared.pool 1000).pool_ = [] := by
  refine ⟨?_, ?_, ?_⟩ <;> decide

end Timed

end mymuduo.connection_pools
