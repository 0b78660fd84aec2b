-- Reads from replicas (src/pool/MySQLPool.h): a master pool lends connections of its
-- replicas to readers, and takes every connection back itself. It does not record
-- where a connection comes from.
import Mymuduo.ConnectionPools

open List words runs
open Function (update update_apply)

namespace mymuduo.mysql_replicas

open connection_pools

/-! ## A master and its replicas -/

/-- The pools by their numbers; the master is number 0. Beside them stand the connections that
callers hold, the pools in which a thread attempts a connection (and whether it is the
replica's part of `acquireRead`), and how many threads fall back to the master. -/
structure Replicated where
  pools : Nat → Pool
  roundRobin_ : Nat := 0
  lent : List Conn := []
  attempting : List (Nat × Bool) := []
  fallbacks : Nat := 0

/-- A locked section of some thread, in a call on the master. -/
inductive Event
  | acquireWrite (ping : Conn → Bool) (now : Int)
  | acquireRead (ping : Conn → Bool) (now : Int)
  | fallback (ping : Conn → Bool) (now : Int)
  | attemptEnds (attempt : Nat × Bool) (ok : Bool) (now : Int)
  | release (conn : Conn) (valid : Bool)

namespace Replicated

/-- `acquire` of the pool `k`, up to where it gives up the lock. A replica that has nothing to
give makes its caller fall back. -/
def acquire (config : Nat → Config) (s : Replicated) (k : Nat) (asReplica : Bool)
    (ping : Conn → Bool) (now : Int) : Replicated :=
  let begun := MySQLPool.acquire (config k) (s.pools k) ping now
  { s with
    pools := update s.pools k begun.2
    lent := begun.1.conns ++ s.lent
    attempting := List.replicate begun.1.places (k, asReplica) ++ s.attempting
    fallbacks := match asReplica, begun.1 with
      | true, .nothing => s.fallbacks + 1
      | _, _ => s.fallbacks }

def nextReplica (readReplicas_ : List Nat) (s : Replicated) : Option Nat :=
  readReplicas_[s.roundRobin_ % readReplicas_.length]?

/-- The end of an attempt. A caller that has asked a replica in vain falls back. -/
def attemptEnds (s : Replicated) (attempt : Nat × Bool) (ok : Bool) (now : Int) : Replicated :=
  let finished := MySQLPool.finish (s.pools attempt.1) ok now
  { s with
    pools := update s.pools attempt.1 finished.2
    lent := finished.1.toList ++ s.lent
    attempting := s.attempting.erase attempt
    fallbacks := if attempt.2 && !ok then s.fallbacks + 1 else s.fallbacks }

/-- The master takes the connection, whoever created it. -/
def release (config : Nat → Config) (s : Replicated) (conn : Conn) (valid : Bool) : Replicated :=
  { s with
    pools := update s.pools 0 (MySQLPool.release (config 0) (s.pools 0) conn valid)
    lent := s.lent.erase conn }

/-- `readReplicas_` has the numbers of the pools that were registered. -/
def step (config : Nat → Config) (readReplicas_ : List Nat) (s : Replicated) : Event → Replicated
  | .acquireWrite ping now => s.acquire config 0 false ping now
  | .acquireRead ping now =>
    match nextReplica readReplicas_ s with
    | none => s.acquire config 0 false ping now
    | some k =>
      ({ s with roundRobin_ := add64 s.roundRobin_ 1 } : Replicated).acquire config k true ping now
  | .fallback ping now =>
    if s.fallbacks = 0 then s
    else ({ s with fallbacks := s.fallbacks - 1 } : Replicated).acquire config 0 false ping now
  | .attemptEnds attempt ok now =>
    if attempt ∈ s.attempting then s.attemptEnds attempt ok now else s
  | .release conn valid => if conn ∈ s.lent then s.release config conn valid else s

def start (config : Nat → Config) (succeeds : Nat → Nat → Bool) (now : Int) : Replicated :=
  { pools := fun k => MySQLPool.create k (config k) (succeeds k) now }

/-! ## What writes and counters should be -/

def ownLent (s : Replicated) (k : Nat) : Nat := s.lent.countP (fun conn => conn.origin = k)

def ownAttempts (s : Replicated) (k : Nat) : Nat :=
  s.attempting.countP (fun attempt => attempt.1 = k)

/-- `acquireWrite` gives no connection that another pool created, and each counter is the
number of idle connections, own lent connections and own attempts. -/
structure Lawful (config : Nat → Config) (s : Replicated) : Prop where
  writes : ∀ ping now conn pool,
    MySQLPool.acquire (config 0) (s.pools 0) ping now = (.lent conn, pool) → conn.origin = 0
  totals : ∀ k, (s.pools k).totalCreated_ =
    (s.pools k).pool_.length + s.ownLent k + s.ownAttempts k

def ReleasesOwn (s : Replicated) : Event → Prop
  | .release conn _ => conn ∈ s.lent → conn.origin = 0
  | _ => True

/-- What holds in every run: each pool has its number, a counter of type `size_t`, and, if it
is a replica, only connections of its own. -/
structure Sound (s : Replicated) : Prop where
  number : ∀ k, (s.pools k).number = k
  word : ∀ k, (s.pools k).totalCreated_ < 2 ^ 64
  own : ∀ k, k ≠ 0 → ∀ conn ∈ (s.pools k).pool_, conn.origin = k

variable {config : Nat → Config} {s : Replicated}

/-! ## Where connections come from -/

theorem origin_of_acquires {c : Config} {p : Pool} {begun : Begun × Pool} {k : Nat}
    (h : Acquires c p begun) (hown : ∀ conn ∈ p.pool_, conn.origin = k) :
    (∀ conn ∈ begun.1.conns, conn.origin = k) ∧ ∀ conn ∈ begun.2.pool_, conn.origin = k := by
  obtain ⟨dropped, hmoved, -⟩ := h.moved
  have hname : ∀ x ∈ p.pool_.map Conn.name, x.1 = k := by
    intro x hx
    obtain ⟨conn, hconn, rfl⟩ := mem_map.mp hx
    exact hown conn hconn
  rw [hmoved] at hname
  refine ⟨?_, ?_⟩
  · intro conn hconn
    apply hname conn.name
    simp [mem_map_of_mem hconn]
  · intro conn hconn
    apply hname conn.name
    simp [mem_map_of_mem hconn]

variable {l : List Conn}

/-- Every idle connection is lent by some `acquire`: the one that finds all others broken. -/
theorem reuse_finds {conn : Conn} (h : conn ∈ l) (now : Int) (total : Nat) :
    ∃ rest total', MySQLPool.reuse (fun c => decide (c = conn)) now total l =
      (some (conn.markUsed now), rest, total') := by
  induction l generalizing total with
  | nil => exact absurd h not_mem_nil
  | cons c l ih =>
    rw [MySQLPool.reuse]
    by_cases hc : c = conn
    · subst hc
      exact ⟨l, total, by simp⟩
    · rw [if_neg (by simp [hc])]
      exact ih (mem_of_ne_of_mem (Ne.symm hc) h) (total - 1)

theorem writes_iff (config : Nat → Config) (s : Replicated) :
    (∀ ping now conn pool,
      MySQLPool.acquire (config 0) (s.pools 0) ping now = (.lent conn, pool) → conn.origin = 0) ↔
      ∀ conn ∈ (s.pools 0).pool_, conn.origin = 0 := by
  constructor
  · intro h conn hconn
    obtain ⟨rest, total, hreuse⟩ := reuse_finds hconn 0 (s.pools 0).totalCreated_
    apply h (fun c => decide (c = conn)) 0 (conn.markUsed 0)
    unfold MySQLPool.acquire
    rw [hreuse]
  · intro hown ping now conn pool hacquire
    have hacquires := acquires_mysqlPool (config 0) (s.pools 0) ping now
    apply (origin_of_acquires hacquires hown).1
    rw [hacquire]
    exact mem_singleton_self conn

theorem Lawful.idle (h : Lawful config s) : ∀ conn ∈ (s.pools 0).pool_, conn.origin = 0 :=
  (writes_iff config s).mp h.writes

theorem Lawful.own (h : Lawful config s) (hs : Sound s) (k : Nat) :
    ∀ conn ∈ (s.pools k).pool_, conn.origin = k := by
  by_cases hk : k = 0
  · subst hk
    exact h.idle
  · exact hs.own k hk

theorem countP_origin_eq_length {k : Nat} (h : ∀ conn ∈ l, conn.origin = k) :
    l.countP (fun conn => conn.origin = k) = l.length := by
  rw [countP_eq_length]
  intro conn hconn
  simpa using h conn hconn

theorem countP_origin_eq_zero {k k' : Nat} (h : ∀ conn ∈ l, conn.origin = k) (hne : k' ≠ k) :
    l.countP (fun conn => conn.origin = k') = 0 := by
  rw [countP_eq_zero]
  intro conn hconn
  simp [h conn hconn, Ne.symm hne]

/-! ## What each section keeps -/

theorem sound_update (hs : Sound s) {k : Nat} {pool : Pool} {s' : Replicated}
    (hpools : s'.pools = update s.pools k pool) (hnumber : pool.number = k)
    (hword : pool.totalCreated_ < 2 ^ 64) (hown : k ≠ 0 → ∀ conn ∈ pool.pool_, conn.origin = k) :
    Sound s' := by
  constructor
  · intro k'
    rw [hpools, update_apply]
    split
    · rename_i heq
      rw [hnumber, heq]
    · exact hs.number k'
  · intro k'
    rw [hpools, update_apply]
    split
    · exact hword
    · exact hs.word k'
  · intro k' hk'
    rw [hpools, update_apply]
    split
    · rename_i heq
      subst heq
      exact hown hk'
    · exact hs.own k' hk'

theorem sound_acquire (hs : Sound s) (k : Nat) (asReplica : Bool) (ping : Conn → Bool)
    (now : Int) : Sound (s.acquire config k asReplica ping now) := by
  have hacquires := acquires_mysqlPool (config k) (s.pools k) ping now
  apply sound_update hs (k := k) rfl
  · rw [hacquires.number]
    exact hs.number k
  · obtain ⟨dropped, -, htotal⟩ := hacquires.balance
    rcases Nat.eq_zero_or_pos (MySQLPool.acquire (config k) (s.pools k) ping now).1.places with
      hzero | hpos
    · have := hs.word k
      omega
    · have := hacquires.room hpos
      have := (config k).maxSize_lt
      omega
  · intro hk
    exact (origin_of_acquires hacquires (hs.own k hk)).2

theorem lawful_acquire (h : Lawful config s) (hs : Sound s) (k : Nat) (asReplica : Bool)
    (ping : Conn → Bool) (now : Int) : Lawful config (s.acquire config k asReplica ping now) := by
  have hacquires := acquires_mysqlPool (config k) (s.pools k) ping now
  obtain ⟨hlent, hidle⟩ := origin_of_acquires hacquires (h.own hs k)
  obtain ⟨dropped, hlength, htotal⟩ := hacquires.balance
  constructor
  · rw [writes_iff]
    intro conn
    dsimp only [acquire]
    rw [update_apply]
    split
    · rename_i hk
      subst hk
      exact hidle conn
    · exact h.idle conn
  · intro k'
    have hold := h.totals k'
    dsimp only [acquire, ownLent, ownAttempts] at hold ⊢
    rw [update_apply, countP_append, countP_append]
    by_cases hk : k' = k
    · subst hk
      rw [if_pos rfl, countP_origin_eq_length hlent, countP_replicate, if_pos (by simp), htotal]
      omega
    · rw [if_neg hk, countP_origin_eq_zero hlent hk, countP_replicate,
        if_neg (by simpa using Ne.symm hk)]
      omega

theorem finish_keeps (p : Pool) (ok : Bool) (now : Int) :
    (MySQLPool.finish p ok now).2.number = p.number ∧
      (MySQLPool.finish p ok now).2.pool_ = p.pool_ := by
  unfold MySQLPool.finish
  cases ok with
  | true => simp [Pool.finish_true]
  | false => simp [Pool.finish_false]

theorem sound_attemptEnds (hs : Sound s) (attempt : Nat × Bool) (ok : Bool) (now : Int) :
    Sound (s.attemptEnds attempt ok now) := by
  obtain ⟨hnumber, hpool⟩ := finish_keeps (s.pools attempt.1) ok now
  apply sound_update hs (k := attempt.1) rfl
  · rw [hnumber]
    exact hs.number attempt.1
  · unfold MySQLPool.finish
    cases ok with
    | true =>
      rw [Pool.finish_true]
      exact hs.word attempt.1
    | false =>
      rw [Pool.finish_false]
      dsimp only [sub64]
      omega
  · intro hk
    rw [hpool]
    exact hs.own attempt.1 hk

theorem countP_erase_attempt {attempt : Nat × Bool} {l : List (Nat × Bool)} (h : attempt ∈ l)
    (k : Nat) :
    l.countP (fun a => a.1 = k) =
      (l.erase attempt).countP (fun a => a.1 = k) + if attempt.1 = k then 1 else 0 := by
  rw [(perm_cons_erase h).countP_eq, countP_cons]
  simp

theorem lawful_attemptEnds (h : Lawful config s) (hs : Sound s) {attempt : Nat × Bool}
    (hattempt : attempt ∈ s.attempting) (ok : Bool) (now : Int) :
    Lawful config (s.attemptEnds attempt ok now) := by
  have hidle : ∀ k, ((s.attemptEnds attempt ok now).pools k).pool_ = (s.pools k).pool_ := by
    intro k
    dsimp only [attemptEnds]
    rw [update_apply]
    split
    · rename_i hk
      subst hk
      exact (finish_keeps _ ok now).2
    · rfl
  constructor
  · rw [writes_iff, hidle]
    exact h.idle
  · intro k
    have hold := h.totals k
    have hcount := countP_erase_attempt hattempt k
    rw [hidle]
    dsimp only [attemptEnds, ownLent, ownAttempts] at hold ⊢
    rw [update_apply, countP_append]
    unfold MySQLPool.finish
    cases ok with
    | true =>
      rw [Pool.finish_true, hs.number, Option.toList_some, countP_singleton]
      by_cases hk : k = attempt.1
      · subst hk
        rw [if_pos rfl] at hcount ⊢
        rw [if_pos (by simp)]
        dsimp only
        omega
      · rw [if_neg (Ne.symm hk)] at hcount
        rw [if_neg hk, if_neg (by simpa using Ne.symm hk)]
        omega
    | false =>
      rw [Pool.finish_false, Option.toList_none, countP_nil]
      by_cases hk : k = attempt.1
      · subst hk
        rw [if_pos rfl] at hcount ⊢
        dsimp only
        rw [sub64_eq (by omega) (hs.word attempt.1)]
        omega
      · rw [if_neg (Ne.symm hk)] at hcount
        rw [if_neg hk]
        omega

theorem countP_erase_lent {conn : Conn} (h : conn ∈ l) (k : Nat) :
    l.countP (fun c => c.origin = k) =
      (l.erase conn).countP (fun c => c.origin = k) + if conn.origin = k then 1 else 0 := by
  rw [(perm_cons_erase h).countP_eq, countP_cons]
  simp

theorem release_cases (c : Config) (p : Pool) (conn : Conn) (valid : Bool) :
    MySQLPool.release c p conn valid = p.discard ∨
      MySQLPool.release c p conn valid = p.push conn := by
  unfold MySQLPool.release Pool.putBack
  split
  · exact Or.inl rfl
  split
  · exact Or.inl rfl
  · exact Or.inr rfl

theorem sound_release (hs : Sound s) (conn : Conn) (valid : Bool) :
    Sound (s.release config conn valid) := by
  have hcases := release_cases (config 0) (s.pools 0) conn valid
  apply sound_update hs (k := 0) rfl
  · rcases hcases with hrelease | hrelease <;> rw [hrelease] <;> exact hs.number 0
  · have hword := hs.word 0
    rcases hcases with hrelease | hrelease <;> rw [hrelease] <;>
      dsimp only [Pool.discard, Pool.push] <;> omega
  · exact fun hne => absurd rfl hne

/-- A released connection of the master keeps the accounts, and one of another pool is missing
in the account of that pool. -/
theorem lawful_release_iff (h : Lawful config s) {conn : Conn} (hconn : conn ∈ s.lent)
    (valid : Bool) : Lawful config (s.release config conn valid) ↔ conn.origin = 0 := by
  constructor
  · intro hafter
    by_contra hne
    have hold := h.totals conn.origin
    have hnew := hafter.totals conn.origin
    have hcount := countP_erase_lent hconn conn.origin
    dsimp only [release, ownLent, ownAttempts] at hold hnew
    rw [Function.update_of_ne hne] at hnew
    rw [if_pos rfl] at hcount
    omega
  · intro hown
    have hcases := release_cases (config 0) (s.pools 0) conn valid
    constructor
    · rw [writes_iff]
      dsimp only [release]
      rw [Function.update_self]
      intro c hc
      rcases hcases with hrelease | hrelease
      · rw [hrelease] at hc
        exact h.idle c hc
      · rw [hrelease] at hc
        rcases mem_append.mp hc with hold | hnew
        · exact h.idle c hold
        · rw [mem_singleton.mp hnew]
          exact hown
    · intro k
      have hold := h.totals k
      have hcount := countP_erase_lent hconn k
      dsimp only [release, ownLent, ownAttempts] at hold ⊢
      rw [hown] at hcount
      rw [update_apply]
      split
      · rename_i hk
        subst hk
        rw [if_pos rfl] at hcount
        rcases hcases with hrelease | hrelease
        · rw [hrelease]
          dsimp only [Pool.discard]
          omega
        · rw [hrelease]
          simp only [Pool.push, length_append, length_singleton]
          omega
      · rename_i hk
        rw [if_neg (Ne.symm hk)] at hcount
        omega

variable {readReplicas_ : List Nat}

theorem sound_step (hs : Sound s) (event : Event) : Sound (s.step config readReplicas_ event) := by
  cases event with
  | acquireWrite ping now => exact sound_acquire hs 0 false ping now
  | acquireRead ping now =>
    dsimp only [step]
    split
    · exact sound_acquire hs 0 false ping now
    · apply sound_acquire
      exact { hs with }
  | fallback ping now =>
    dsimp only [step]
    split
    · exact hs
    · apply sound_acquire
      exact { hs with }
  | attemptEnds attempt ok now => exact guarded hs fun _ => sound_attemptEnds hs attempt ok now
  | release conn valid => exact guarded hs fun _ => sound_release hs conn valid

theorem lawful_step_iff (hs : Sound s) (h : Lawful config s) (event : Event) :
    Lawful config (s.step config readReplicas_ event) ↔ s.ReleasesOwn event := by
  cases event with
  | acquireWrite ping now => exact iff_of_true (lawful_acquire h hs 0 false ping now) trivial
  | acquireRead ping now =>
    refine iff_of_true ?_ trivial
    dsimp only [step]
    split
    · exact lawful_acquire h hs 0 false ping now
    · apply lawful_acquire
      · exact ⟨h.writes, h.totals⟩
      · exact { hs with }
  | fallback ping now =>
    refine iff_of_true ?_ trivial
    dsimp only [step]
    split
    · exact h
    · apply lawful_acquire
      · exact ⟨h.writes, h.totals⟩
      · exact { hs with }
  | attemptEnds attempt ok now =>
    refine iff_of_true ?_ trivial
    exact guarded h fun hattempt => lawful_attemptEnds h hs hattempt ok now
  | release conn valid =>
    dsimp only [step, ReleasesOwn]
    split
    · rename_i hconn
      rw [lawful_release_iff h hconn]
      exact ⟨fun hown _ => hown, fun hown => hown hconn⟩
    · rename_i hconn
      exact iff_of_true h (fun hmem => absurd hmem hconn)

theorem sound_start (config : Nat → Config) (succeeds : Nat → Nat → Bool) (now : Int) :
    Sound (start config succeeds now) := by
  constructor
  · intro k
    rfl
  · intro k
    have hle := length_filter_le (succeeds k) (List.range (config k).minSize)
    rw [length_range] at hle
    exact hle.trans_lt (config k).minSize_lt
  · intro k _ conn hconn
    obtain ⟨id, -, rfl⟩ := mem_map.mp hconn
    rfl

theorem lawful_start (config : Nat → Config) (succeeds : Nat → Nat → Bool) (now : Int) :
    Lawful config (start config succeeds now) := by
  constructor
  · rw [writes_iff]
    intro conn hconn
    obtain ⟨id, -, rfl⟩ := mem_map.mp hconn
    rfl
  · intro k
    simp [start, MySQLPool.create, Pool.create, ownLent, ownAttempts]

end Replicated

open Replicated

/-- In every state of a run writes stay on the master and the counters are right exactly when
every connection that is released was created by the master. -/
theorem writes_stay_on_master_iff (config : Nat → Config) (readReplicas_ : List Nat)
    (succeeds : Nat → Nat → Bool) (now : Int) (events : List Event) :
    (∀ made, made <+: events →
        Lawful config (run (Replicated.step config readReplicas_)
          (Replicated.start config succeeds now) made)) ↔
      Meets (Replicated.step config readReplicas_) ReleasesOwn
        (Replicated.start config succeeds now) events :=
  always_run_iff (Lawful config) (fun _ event hs => sound_step hs event)
    (fun _ event hs h => lawful_step_iff hs h event) (sound_start config succeeds now)
    (lawful_start config succeeds now) events

def oneEach (k : Nat) : Config where
  minSize := if k = 0 then 0 else 1
  maxSize := 1
  minSize_lt := by split <;> decide
  maxSize_lt := by decide

/-- A connection of the replica is read from, released, and given to a writer; the counter of
the replica still has it, and that of the master never had it. -/
theorem write_goes_to_replica :
    let s := run (Replicated.step oneEach [1]) (Replicated.start oneEach (fun _ _ => true) 0)
      [.acquireRead (fun _ => true) 1, .release ⟨1, 0, 1⟩ true]
    (s.acquire oneEach 0 false (fun _ => true) 2).lent = [⟨1, 0, 2⟩] ∧
      (s.pools 0).pool_ = [⟨1, 0, 1⟩] ∧ (s.pools 0).totalCreated_ = 0 ∧
      (s.pools 1).pool_ = [] ∧ (s.pools 1).totalCreated_ = 1 ∧ s.lent = [] := by
  decide

end mymuduo.mysql_replicas
