-- The three connection pools (src/pool/ConnectionPool.h, RedisPool.h, MySQLPool.h).
-- One reservation spans an attempt without the lock, so a run is made of the locked
-- sections.
import Mathlib.Data.List.Count
import Mathlib.Data.List.Nodup
import Mymuduo.Runs
import Mymuduo.Words

open List words runs

namespace mymuduo.connection_pools

/-! ## What the pools share -/

/-- A connection: the pool that created it, its number there, and when it was last used. -/
structure Conn where
  origin : Nat
  id : Nat
  lastUsed : Int
  deriving DecidableEq

namespace Conn

def name (conn : Conn) : Nat × Nat := (conn.origin, conn.id)

def markUsed (now : Int) (conn : Conn) : Conn := { conn with lastUsed := now }

@[simp] theorem name_markUsed (now : Int) (conn : Conn) :
    (conn.markUsed now).name = conn.name := rfl

end Conn

/-- The sizes are of type `size_t`. -/
structure Config where
  minSize : Nat
  maxSize : Nat
  idleTimeoutSec : Int := 60
  minSize_lt : minSize < 2 ^ 64
  maxSize_lt : maxSize < 2 ^ 64

/-- A live pool. `number` names it, and `made` counts the connections it created. -/
structure Pool where
  number : Nat
  pool_ : List Conn
  totalCreated_ : Nat
  made : Nat

/-- Where a call of `acquire` stands when it first gives up the lock. -/
inductive Begun
  | lent (conn : Conn)
  | attempting
  | nothing

def Begun.conns : Begun → List Conn
  | lent conn => [conn]
  | _ => []

def Begun.places : Begun → Nat
  | attempting => 1
  | _ => 0

namespace Pool

def discard (s : Pool) : Pool := { s with totalCreated_ := s.totalCreated_ - 1 }

/-- The second half of `acquire`: a place is reserved for the attempt. -/
def reserve (config : Config) (s : Pool) : Begun × Pool :=
  if s.totalCreated_ < config.maxSize then
    (.attempting, { s with totalCreated_ := add64 s.totalCreated_ 1 })
  else (.nothing, s)

/-- The end of the attempt, under the lock again. -/
def finish (s : Pool) (lastUsed : Int) (ok : Bool) : Option Conn × Pool :=
  if ok then (some ⟨s.number, s.made, lastUsed⟩, { s with made := s.made + 1 })
  else (none, { s with totalCreated_ := sub64 s.totalCreated_ 1 })

theorem finish_true (s : Pool) (lastUsed : Int) :
    s.finish lastUsed true = (some ⟨s.number, s.made, lastUsed⟩, { s with made := s.made + 1 }) :=
  if_pos rfl

theorem finish_false (s : Pool) (lastUsed : Int) :
    s.finish lastUsed false = (none, { s with totalCreated_ := sub64 s.totalCreated_ 1 }) :=
  if_neg Bool.false_ne_true

def push (s : Pool) (conn : Conn) : Pool := { s with pool_ := s.pool_ ++ [conn] }

/-- The release of `ConnectionPool` and `MySQLPool`: a full pool drops the connection. -/
def putBack (config : Config) (s : Pool) (conn : Conn) (valid : Bool) : Pool :=
  if !valid then s.discard
  else if config.maxSize ≤ s.pool_.length then s.discard
  else s.push conn

/-- The loop of `healthCheck`, with the connections that stay so far. -/
def sweepIdle (minSize : Nat) (limit now : Int) (valid : List Conn) (total : Nat) :
    List Conn → List Conn × Nat
  | [] => (valid, total)
  | conn :: rest =>
    if limit < now - conn.lastUsed ∧ minSize ≤ valid.length then
      sweepIdle minSize limit now valid (total - 1) rest
    else sweepIdle minSize limit now (valid ++ [conn]) total rest

def checkIdle (config : Config) (limit now : Int) (s : Pool) : Pool :=
  let swept := sweepIdle config.minSize limit now [] s.totalCreated_ s.pool_
  { s with pool_ := swept.1, totalCreated_ := swept.2 }

/-- The constructors: `minSize` attempts, of which some succeed. -/
def create (number : Nat) (config : Config) (lastUsed : Int) (succeeds : Nat → Bool) : Pool :=
  let ids := (range config.minSize).filter succeeds
  { number
    pool_ := ids.map (fun id => ⟨number, id, lastUsed⟩)
    totalCreated_ := ids.length
    made := config.minSize }

end Pool

/-! ## The three classes -/

namespace ConnectionPool

/-- An idle connection is taken without a check. -/
def acquire (config : Config) (s : Pool) (now : Int) : Begun × Pool :=
  match s.pool_ with
  | conn :: rest => (.lent (conn.markUsed now), { s with pool_ := rest })
  | [] => s.reserve config

/-- A new connection is not marked as used. -/
def finish (s : Pool) (ok : Bool) : Option Conn × Pool := s.finish 0 ok

def release (config : Config) (s : Pool) (conn : Conn) (valid : Bool) : Pool :=
  s.putBack config conn valid

def healthCheck (config : Config) (s : Pool) (now : Int) : Pool := s.checkIdle config 60 now

def create (number : Nat) (config : Config) (succeeds : Nat → Bool) : Pool :=
  .create number config 0 succeeds

end ConnectionPool

namespace RedisPool

/-- One idle connection is checked. Behind a failed check a new one is attempted. -/
def acquire (config : Config) (s : Pool) (ping : Conn → Bool) (now : Int) : Begun × Pool :=
  match s.pool_ with
  | conn :: rest =>
    if ping conn then (.lent (conn.markUsed now), { s with pool_ := rest })
    else ({ s with pool_ := rest } : Pool).discard.reserve config
  | [] => s.reserve config

def finish (s : Pool) (ok : Bool) (now : Int) : Option Conn × Pool := s.finish now ok

/-- A connection goes back whatever the size of the pool. -/
def release (s : Pool) (conn : Conn) (valid : Bool) (now : Int) : Pool :=
  if !valid then s.discard else s.push (conn.markUsed now)

def healthCheck (config : Config) (s : Pool) (now : Int) : Pool :=
  s.checkIdle config config.idleTimeoutSec now

def create (number : Nat) (config : Config) (succeeds : Nat → Bool) (now : Int) : Pool :=
  .create number config now succeeds

end RedisPool

namespace MySQLPool

/-- Idle connections are checked until one answers: that one, what is left, and the
counter. -/
def reuse (ping : Conn → Bool) (now : Int) (total : Nat) : List Conn → Option Conn × List Conn × Nat
  | [] => (none, [], total)
  | conn :: rest =>
    if ping conn then (some (conn.markUsed now), rest, total)
    else reuse ping now (total - 1) rest

def acquire (config : Config) (s : Pool) (ping : Conn → Bool) (now : Int) : Begun × Pool :=
  match reuse ping now s.totalCreated_ s.pool_ with
  | (some conn, rest, total) => (.lent conn, { s with pool_ := rest, totalCreated_ := total })
  | (none, rest, total) => ({ s with pool_ := rest, totalCreated_ := total } : Pool).reserve config

def finish (s : Pool) (ok : Bool) (now : Int) : Option Conn × Pool := s.finish now ok

def release (config : Config) (s : Pool) (conn : Conn) (valid : Bool) : Pool :=
  s.putBack config conn valid

def healthCheck (config : Config) (s : Pool) (now : Int) : Pool :=
  s.checkIdle config config.idleTimeoutSec now

def create (number : Nat) (config : Config) (succeeds : Nat → Bool) (now : Int) : Pool :=
  .create number config now succeeds

end MySQLPool

inductive PoolClass
  | connectionPool
  | redisPool
  | mysqlPool
  deriving DecidableEq

namespace PoolClass

def acquire (c : PoolClass) (config : Config) (s : Pool) (ping : Conn → Bool) (now : Int) :
    Begun × Pool :=
  match c with
  | connectionPool => ConnectionPool.acquire config s now
  | redisPool => RedisPool.acquire config s ping now
  | mysqlPool => MySQLPool.acquire config s ping now

def finish (c : PoolClass) (s : Pool) (ok : Bool) (now : Int) : Option Conn × Pool :=
  match c with
  | connectionPool => ConnectionPool.finish s ok
  | redisPool => RedisPool.finish s ok now
  | mysqlPool => MySQLPool.finish s ok now

def release (c : PoolClass) (config : Config) (s : Pool) (conn : Conn) (valid : Bool) (now : Int) :
    Pool :=
  match c with
  | connectionPool => ConnectionPool.release config s conn valid
  | redisPool => RedisPool.release s conn valid now
  | mysqlPool => MySQLPool.release config s conn valid

def healthCheck (c : PoolClass) (config : Config) (s : Pool) (now : Int) : Pool :=
  match c with
  | connectionPool => ConnectionPool.healthCheck config s now
  | redisPool => RedisPool.healthCheck config s now
  | mysqlPool => MySQLPool.healthCheck config s now

def create (c : PoolClass) (config : Config) (succeeds : Nat → Bool) (now : Int) : Pool :=
  match c with
  | connectionPool => ConnectionPool.create 0 config succeeds
  | redisPool => RedisPool.create 0 config succeeds now
  | mysqlPool => MySQLPool.create 0 config succeeds now

end PoolClass

/-! ## Runs of many threads -/

/-- The pool, the connections that callers hold, and how many threads are in an attempt. -/
structure Shared where
  pool : Pool
  lent : List Conn := []
  attempts : Nat := 0

/-- A locked section of some thread. `ping` says how each idle connection answers. -/
inductive Event
  | acquire (ping : Conn → Bool) (now : Int)
  | attemptEnds (ok : Bool) (now : Int)
  | release (conn : Conn) (valid : Bool) (now : Int)
  | healthCheck (now : Int)

/-- The caller has the connection, or is in the attempt, or has nothing. -/
def Shared.begin (s : Shared) (begun : Begun × Pool) : Shared where
  pool := begun.2
  lent := begun.1.conns ++ s.lent
  attempts := s.attempts + begun.1.places

/-- One attempt less, and its connection, if there is one, is with the caller. -/
def Shared.finish (s : Shared) (finished : Option Conn × Pool) : Shared where
  pool := finished.2
  lent := finished.1.toList ++ s.lent
  attempts := s.attempts - 1

/-- An attempt ends only where one is in progress, and only a lent connection is released. -/
def Shared.step (c : PoolClass) (config : Config) (s : Shared) : Event → Shared
  | .acquire ping now => s.begin (c.acquire config s.pool ping now)
  | .attemptEnds ok now => if s.attempts = 0 then s else s.finish (c.finish s.pool ok now)
  | .release conn valid now =>
    if conn ∈ s.lent then
      { s with pool := c.release config s.pool conn valid now, lent := s.lent.erase conn }
    else s
  | .healthCheck now => { s with pool := c.healthCheck config s.pool now }

def Shared.start (c : PoolClass) (config : Config) (succeeds : Nat → Bool) (now : Int) : Shared :=
  { pool := c.create config succeeds now }

/-! ## One locked section -/

/-- What `acquire` does before it gives up the lock: some idle connections are dropped, one
may be lent, and one place may be reserved. -/
structure Acquires (config : Config) (s : Pool) (begun : Begun × Pool) : Prop where
  number : begun.2.number = s.number
  made : begun.2.made = s.made
  moved : ∃ dropped : List Conn,
    s.pool_.map Conn.name = dropped.map Conn.name ++
      (begun.1.conns.map Conn.name ++ begun.2.pool_.map Conn.name) ∧
    begun.2.totalCreated_ = s.totalCreated_ - dropped.length + begun.1.places
  room : 0 < begun.1.places → begun.2.totalCreated_ ≤ config.maxSize

theorem Acquires.balance {config : Config} {s : Pool} {begun : Begun × Pool}
    (h : Acquires config s begun) :
    ∃ dropped, s.pool_.length = dropped + (begun.1.conns.length + begun.2.pool_.length) ∧
      begun.2.totalCreated_ = s.totalCreated_ - dropped + begun.1.places := by
  obtain ⟨dropped, hmoved, htotal⟩ := h.moved
  have hlength := congrArg length hmoved
  simp only [length_append, length_map] at hlength
  exact ⟨dropped.length, hlength, htotal⟩

theorem acquires_reserve (config : Config) {s : Pool} (dropped : List Conn) {rest : List Conn}
    (hsplit : s.pool_ = dropped ++ rest) :
    Acquires config s (({ s with
      pool_ := rest, totalCreated_ := s.totalCreated_ - dropped.length } : Pool).reserve
        config) := by
  unfold Pool.reserve
  split
  · rename_i hroom
    dsimp only at hroom
    have hadd : add64 (s.totalCreated_ - dropped.length) 1 =
        s.totalCreated_ - dropped.length + 1 := by
      apply add64_eq
      have := config.maxSize_lt
      omega
    refine ⟨rfl, rfl, ⟨dropped, ?_, hadd⟩, ?_⟩
    · rw [hsplit, map_append]
      rfl
    · intro _
      dsimp only
      omega
  · refine ⟨rfl, rfl, ⟨dropped, ?_, rfl⟩, fun hplace => absurd hplace (Nat.lt_irrefl 0)⟩
    rw [hsplit, map_append]
    rfl

variable {conn : Conn}

theorem acquires_lent (config : Config) {s : Pool} (dropped : List Conn) {rest : List Conn}
    (hsplit : s.pool_ = dropped ++ conn :: rest) (now : Int) :
    Acquires config s (.lent (conn.markUsed now), { s with
      pool_ := rest, totalCreated_ := s.totalCreated_ - dropped.length }) := by
  refine ⟨rfl, rfl, ⟨dropped, ?_, rfl⟩, fun hplace => absurd hplace (Nat.lt_irrefl 0)⟩
  rw [hsplit, map_append, map_cons]
  rfl

theorem reuse_cases (ping : Conn → Bool) (now : Int) (total : Nat) (l : List Conn) :
    (∃ dropped conn rest, l = dropped ++ conn :: rest ∧ MySQLPool.reuse ping now total l =
        (some (conn.markUsed now), rest, total - dropped.length)) ∨
      MySQLPool.reuse ping now total l = (none, [], total - l.length) := by
  induction l generalizing total with
  | nil => exact Or.inr rfl
  | cons conn l ih =>
    rw [MySQLPool.reuse]
    split
    · exact Or.inl ⟨[], conn, l, rfl, rfl⟩
    · rcases ih (total - 1) with ⟨dropped, c, rest, rfl, hreuse⟩ | hreuse
      · refine Or.inl ⟨conn :: dropped, c, rest, rfl, ?_⟩
        rw [hreuse, Nat.sub_sub, Nat.add_comm 1]
        rfl
      · refine Or.inr ?_
        rw [hreuse, Nat.sub_sub, Nat.add_comm 1]
        rfl

theorem acquires_connectionPool (config : Config) (s : Pool) (now : Int) :
    Acquires config s (ConnectionPool.acquire config s now) := by
  unfold ConnectionPool.acquire
  split
  · rename_i conn rest hpool
    exact acquires_lent config [] hpool now
  · exact acquires_reserve config [] (nil_append _).symm

theorem acquires_redisPool (config : Config) (s : Pool) (ping : Conn → Bool) (now : Int) :
    Acquires config s (RedisPool.acquire config s ping now) := by
  unfold RedisPool.acquire
  split
  · rename_i conn rest hpool
    split
    · exact acquires_lent config [] hpool now
    · exact acquires_reserve config [conn] hpool
  · exact acquires_reserve config [] (nil_append _).symm

theorem acquires_mysqlPool (config : Config) (s : Pool) (ping : Conn → Bool) (now : Int) :
    Acquires config s (MySQLPool.acquire config s ping now) := by
  unfold MySQLPool.acquire
  rcases reuse_cases ping now s.totalCreated_ s.pool_ with
    ⟨dropped, conn, rest, hpool, hreuse⟩ | hreuse
  · rw [hreuse]
    exact acquires_lent config dropped hpool now
  · rw [hreuse]
    exact acquires_reserve config s.pool_ (append_nil _).symm

variable (c : PoolClass)

theorem acquires (config : Config) (s : Pool) (ping : Conn → Bool) (now : Int) :
    Acquires config s (c.acquire config s ping now) := by
  cases c with
  | connectionPool => exact acquires_connectionPool config s now
  | redisPool => exact acquires_redisPool config s ping now
  | mysqlPool => exact acquires_mysqlPool config s ping now

/-- What `healthCheck` keeps stands in the order of the queue, and each connection that goes
is taken off the counter. -/
theorem sweepIdle_spec (minSize : Nat) (limit now : Int) (valid : List Conn) (total : Nat)
    (l : List Conn) :
    (Pool.sweepIdle minSize limit now valid total l).1.Sublist (valid ++ l) ∧
      (Pool.sweepIdle minSize limit now valid total l).2 =
        total -
          ((valid ++ l).length - (Pool.sweepIdle minSize limit now valid total l).1.length) := by
  induction l generalizing valid total with
  | nil =>
    rw [append_nil]
    exact ⟨List.Sublist.refl _, by simp [Pool.sweepIdle]⟩
  | cons conn l ih =>
    rw [Pool.sweepIdle]
    split
    · obtain ⟨hsub, htotal⟩ := ih valid (total - 1)
      refine ⟨hsub.trans ((sublist_cons_self conn l).append_left valid), ?_⟩
      have hle := hsub.length_le
      rw [htotal]
      simp only [length_append, length_cons] at hle ⊢
      omega
    · have hih := ih (valid ++ [conn]) total
      rwa [append_assoc, singleton_append] at hih

/-! ## The accounts -/

/-- How often a connection stands in the pool and with the callers. -/
def Shared.copies (s : Shared) (x : Nat × Nat) : Nat :=
  (s.pool.pool_.map Conn.name).count x + (s.lent.map Conn.name).count x

structure Accounted (config : Config) (s : Shared) : Prop where
  total : s.pool.totalCreated_ = s.pool.pool_.length + s.lent.length + s.attempts
  bound : s.pool.totalCreated_ ≤ max config.minSize config.maxSize
  once : ∀ x, s.copies x ≤ 1
  /-- the next connection is none of those that are there -/
  new : ∀ x, s.pool.made ≤ x.2 → s.copies x = 0

variable {config : Config} {s : Shared}

theorem Accounted.of_copies_le (h : Accounted config s) {s' : Shared}
    (hcopies : ∀ x, s'.copies x ≤ s.copies x) (hmade : s'.pool.made = s.pool.made)
    (htotal : s'.pool.totalCreated_ = s'.pool.pool_.length + s'.lent.length + s'.attempts)
    (hbound : s'.pool.totalCreated_ ≤ max config.minSize config.maxSize) : Accounted config s' := by
  refine ⟨htotal, hbound, fun x => (hcopies x).trans (h.once x), ?_⟩
  intro x hx
  rw [hmade] at hx
  exact Nat.le_zero.mp (h.new x hx ▸ hcopies x)

theorem accounted_begin (h : Accounted config s) {begun : Begun × Pool}
    (hacquires : Acquires config s.pool begun) : Accounted config (s.begin begun) := by
  have hold := h.total
  have hbound := h.bound
  obtain ⟨dropped, hlength, htotal⟩ := hacquires.balance
  apply h.of_copies_le
  · intro x
    obtain ⟨_, hmoved, -⟩ := hacquires.moved
    unfold Shared.copies Shared.begin
    rw [hmoved]
    simp only [map_append, count_append]
    omega
  · exact hacquires.made
  · dsimp only [Shared.begin]
    rw [htotal, length_append]
    omega
  · dsimp only [Shared.begin]
    rcases Nat.eq_zero_or_pos begun.1.places with hzero | hpos
    · rw [htotal]
      omega
    · have := hacquires.room hpos
      omega

theorem accounted_finish (h : Accounted config s) (hattempt : s.attempts ≠ 0) (lastUsed : Int)
    (ok : Bool) : Accounted config (s.finish (s.pool.finish lastUsed ok)) := by
  have hold := h.total
  have hbound := h.bound
  cases ok with
  | true =>
    have hcopies : ∀ x, (s.finish (s.pool.finish lastUsed true)).copies x =
        s.copies x + if (s.pool.number, s.pool.made) = x then 1 else 0 := by
      intro x
      simp only [Shared.copies, Shared.finish, Pool.finish_true, Option.toList_some,
        singleton_append, map_cons, count_cons, beq_iff_eq, Conn.name]
      omega
    refine ⟨?_, hbound, ?_, ?_⟩
    · simp only [Shared.finish, Pool.finish_true, Option.toList_some, singleton_append, length_cons]
      omega
    · intro x
      rw [hcopies]
      split
      · rename_i hx
        rw [h.new x (by rw [← hx])]
      · exact h.once x
    · intro x hx
      have hx' : s.pool.made + 1 ≤ x.2 := hx
      rw [hcopies, h.new x (by omega), if_neg]
      rintro rfl
      simp at hx'
  | false =>
    have hsub : sub64 s.pool.totalCreated_ 1 = s.pool.totalCreated_ - 1 := by
      apply sub64_eq
      · omega
      · have := config.minSize_lt
        have := config.maxSize_lt
        omega
    have hfinish : s.finish (s.pool.finish lastUsed false) =
        ⟨{ s.pool with totalCreated_ := s.pool.totalCreated_ - 1 }, s.lent, s.attempts - 1⟩ := by
      simp [Shared.finish, Pool.finish_false, hsub]
    rw [hfinish]
    refine ⟨?_, ?_, h.once, h.new⟩
    · dsimp only
      omega
    · dsimp only
      omega

theorem count_map_erase {l : List Conn} (h : conn ∈ l) (x : Nat × Nat) :
    (l.map Conn.name).count x =
      ((l.erase conn).map Conn.name).count x + if conn.name = x then 1 else 0 := by
  rw [((perm_cons_erase h).map Conn.name).count_eq x, map_cons, count_cons]
  simp

theorem accounted_discard (h : Accounted config s) (hconn : conn ∈ s.lent) :
    Accounted config { s with pool := s.pool.discard, lent := s.lent.erase conn } := by
  have hlength := length_erase_add_one hconn
  have hold := h.total
  have hbound := h.bound
  apply h.of_copies_le
  · intro x
    have hcount := count_map_erase hconn x
    dsimp only [Shared.copies, Pool.discard]
    omega
  · rfl
  · dsimp only [Pool.discard]
    omega
  · dsimp only [Pool.discard]
    omega

theorem accounted_push (h : Accounted config s) {conn' : Conn} (hconn : conn ∈ s.lent)
    (hname : conn'.name = conn.name) :
    Accounted config { s with pool := s.pool.push conn', lent := s.lent.erase conn } := by
  have hlength := length_erase_add_one hconn
  have hold := h.total
  apply h.of_copies_le
  · intro x
    have hcount := count_map_erase hconn x
    simp only [Shared.copies, Pool.push, map_append, map_singleton, count_append,
      count_singleton, hname, beq_iff_eq]
    omega
  · rfl
  · simp only [Pool.push, length_append, length_singleton]
    omega
  · exact h.bound

theorem accounted_putBack (h : Accounted config s) (hconn : conn ∈ s.lent) (valid : Bool) :
    Accounted config
      { s with pool := s.pool.putBack config conn valid, lent := s.lent.erase conn } := by
  unfold Pool.putBack
  split
  · exact accounted_discard h hconn
  split
  · exact accounted_discard h hconn
  · exact accounted_push h hconn rfl

theorem accounted_release (h : Accounted config s) (hconn : conn ∈ s.lent)
    (valid : Bool) (now : Int) :
    Accounted config
      { s with pool := c.release config s.pool conn valid now, lent := s.lent.erase conn } := by
  cases c with
  | connectionPool | mysqlPool => exact accounted_putBack h hconn valid
  | redisPool =>
    dsimp only [PoolClass.release]
    unfold RedisPool.release
    split
    · exact accounted_discard h hconn
    · exact accounted_push h hconn (Conn.name_markUsed now conn)

theorem accounted_checkIdle (h : Accounted config s) (limit now : Int) :
    Accounted config { s with pool := s.pool.checkIdle config limit now } := by
  obtain ⟨hsub, htotal⟩ :=
    sweepIdle_spec config.minSize limit now [] s.pool.totalCreated_ s.pool.pool_
  rw [nil_append] at hsub htotal
  have hlength := hsub.length_le
  have hold := h.total
  have hbound := h.bound
  apply h.of_copies_le
  · intro x
    have hcount := (hsub.map Conn.name).count_le x
    dsimp only [Shared.copies, Pool.checkIdle]
    omega
  · rfl
  · dsimp only [Pool.checkIdle]
    rw [htotal]
    omega
  · dsimp only [Pool.checkIdle]
    rw [htotal]
    omega

theorem accounted_step (h : Accounted config s) (event : Event) :
    Accounted config (s.step c config event) := by
  cases event with
  | acquire ping now => exact accounted_begin h (acquires c config s.pool ping now)
  | attemptEnds ok now =>
    dsimp only [Shared.step]
    split
    · exact h
    · rename_i hattempt
      cases c with
      | connectionPool => exact accounted_finish h hattempt 0 ok
      | redisPool | mysqlPool => exact accounted_finish h hattempt now ok
  | release conn valid now =>
    exact guarded h fun hconn => accounted_release c h hconn valid now
  | healthCheck now =>
    cases c with
    | connectionPool => exact accounted_checkIdle h 60 now
    | redisPool | mysqlPool => exact accounted_checkIdle h config.idleTimeoutSec now

theorem accounted_create (config : Config) (lastUsed : Int) (succeeds : Nat → Bool) :
    Accounted config { pool := .create 0 config lastUsed succeeds } := by
  have hle : ((range config.minSize).filter succeeds).length ≤ config.minSize := by
    simpa using length_filter_le succeeds (range config.minSize)
  have hnames : ((Pool.create 0 config lastUsed succeeds).pool_.map Conn.name) =
      ((range config.minSize).filter succeeds).map (fun id => (0, id)) := by
    simp [Pool.create, Conn.name]
  have hnodup : (((range config.minSize).filter succeeds).map (fun id => (0, id))).Nodup := by
    apply List.Nodup.map
    · intro a b hab
      exact (Prod.ext_iff.mp hab).2
    · exact nodup_range.filter _
  refine ⟨?_, ?_, ?_, ?_⟩
  · simp [Pool.create]
  · dsimp only [Pool.create]
    omega
  · intro x
    unfold Shared.copies
    rw [hnames]
    simpa using nodup_iff_count_le_one.mp hnodup x
  · intro x hx
    unfold Shared.copies
    rw [hnames]
    have hnot : x ∉ ((range config.minSize).filter succeeds).map (fun id => (0, id)) := by
      intro hmem
      obtain ⟨id, hid, rfl⟩ := mem_map.mp hmem
      have hlt := mem_range.mp (mem_of_mem_filter hid)
      dsimp only [Pool.create] at hx
      omega
    simp [count_eq_zero_of_not_mem hnot]

theorem accounted_start (config : Config) (succeeds : Nat → Bool) (now : Int) :
    Accounted config (.start c config succeeds now) := by
  cases c with
  | connectionPool => exact accounted_create config 0 succeeds
  | redisPool | mysqlPool => exact accounted_create config now succeeds

theorem Accounted.nodup (h : Accounted config s) :
    ((s.pool.pool_ ++ s.lent).map Conn.name).Nodup := by
  rw [nodup_iff_count_le_one]
  intro x
  rw [map_append, count_append]
  exact h.once x

/-- Behind every run of every pool the counter is the number of idle connections, lent
connections and attempts, within the greater of the two sizes, and no connection is with two
callers, or idle and with a caller. -/
theorem pool_counter_is_exact (c : PoolClass) (config : Config) (succeeds : Nat → Bool) (now : Int)
    (events : List Event) :
    let s := run (Shared.step c config) (.start c config succeeds now) events
    s.pool.totalCreated_ = s.pool.pool_.length + s.lent.length + s.attempts ∧
      s.pool.totalCreated_ ≤ max config.minSize config.maxSize ∧
      ((s.pool.pool_ ++ s.lent).map Conn.name).Nodup := by
  have hstep : ∀ s event, Accounted config s → Accounted config (s.step c config event) :=
    fun _ event hs => accounted_step c hs event
  have h : Accounted config (run (Shared.step c config) (.start c config succeeds now) events) :=
    invariant_always hstep (accounted_start c config succeeds now) events
  exact ⟨h.total, h.bound, h.nodup⟩

end mymuduo.connection_pools
