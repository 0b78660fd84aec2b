-- The lock over one Redis (src/util/Redlock.h). Clients send `SET NX PX` and the
-- release script over connections that can lose a reply, and Redis executes each
-- command once, at any time after it was sent or never.
import Mymuduo.Bytes
import Mymuduo.Leases

open List runs bytes leases
open Function (update update_self update_of_ne)

namespace mymuduo.redlock

/-! ## Redis -/

/-- What `c_str` keeps of a string for a `%s`. -/
def cStr (s : Bytes) : Bytes := s.takeWhile (· ≠ 0)

inductive Command
  | set (key token : Bytes) (ttlMs : Int)
  | eval (key token : Bytes)
  deriving DecidableEq

inductive Reply
  | ok
  | nil
  | integer (n : Nat)
  | error
  deriving DecidableEq

/-- A lease is named by the number of its `SET`. `sent` has all commands by their numbers. -/
structure Redis where
  store : Store Nat Bytes Bytes := {}
  log : List (Act Nat Bytes Bytes) := []
  sent : List Command := []
  replies : Nat → Option Reply := fun _ => none

namespace Redis

def answer (r : Redis) (id : Nat) (reply : Reply) : Redis :=
  { r with replies := update r.replies id (some reply) }

/-- `SET key token NX PX ttlMs`. A `ttlMs` that is not positive is an error. -/
def set (r : Redis) (id : Nat) (key token : Bytes) (ttlMs : Int) : Redis :=
  if ttlMs ≤ 0 then r.answer id .error
  else if (r.store.live key).isSome then r.answer id .nil
  else
    let expireAt := r.store.now + ttlMs.toNat
    Redis.answer { r with
      store := r.store.put key (some ⟨id, token, expireAt⟩)
      log := r.log ++ [.granted id key token expireAt] } id .ok

/-- The script: `GET`, and `DEL` when the value is the token. -/
def eval (r : Redis) (id : Nat) (key token : Bytes) : Redis :=
  if (r.store.live key).map Lease.value = some token then
    Redis.answer { r with
      store := r.store.put key none
      log := r.log ++ [.released key token] } id (.integer 1)
  else Redis.answer { r with log := r.log ++ [.released key token] } id (.integer 0)

/-- Redis takes up the command `id`, once. -/
def execute (r : Redis) (id : Nat) : Redis :=
  match r.sent[id]?, r.replies id with
  | some (.set key token ttlMs), none => r.set id key token ttlMs
  | some (.eval key token), none => r.eval id key token
  | _, _ => r

def tick (r : Redis) (ms : Nat) : Redis :=
  { r with store := { r.store with now := r.store.now + ms } }

def send (r : Redis) (command : Command) : Redis := { r with sent := r.sent ++ [command] }

end Redis

/-! ## The clients -/

/-- Where a call of `acquire` is. `waiting` and `granted` name the `SET` of the attempt. -/
inductive Attempt
  | trySet
  | waiting (id : Nat)
  | missed
  | sleeping
  | granted (id : Nat)
  | failed
  deriving DecidableEq

structure Acquire where
  key : Bytes
  token : Bytes
  ttlMs : Int
  maxWaitMs : Int
  deadline : Int
  phase : Attempt := .trySet

inductive Release
  | notMade
  | connecting (key token : Bytes)
  | waiting (id : Nat)
  | returned (released : Bool)
  deriving DecidableEq

/-- `%llx-%llx-%llx`, which fits in the 64 bytes of `buf`. -/
def generateToken (now counter random : UInt64) : Bytes :=
  hex now.toNat ++ text "-" ++ hex counter.toNat ++ text "-" ++ hex random.toNat

structure System where
  redis : Redis := {}
  acquires : Nat → Option Acquire := fun _ => none
  releases : Nat → Release := fun _ => .notMade

/-- One step of one client or of Redis. A `clock` is a reading of the steady clock of a
client, in nanoseconds. `connect` says whether the pool gave a valid connection. -/
inductive Event
  | acquire (call : Nat) (key : Bytes) (ttlMs maxWaitMs : Int) (now counter random : UInt64)
      (clock : Int)
  | connect (call : Nat) (valid : Bool)
  | reply (call : Nat)
  | lose (call : Nat)
  | test (call : Nat) (clock : Int)
  | retry (call : Nat)
  | release (call : Nat) (key token : Bytes)
  | destroyGuard (acquire call : Nat)
  | connectRelease (call : Nat) (valid : Bool)
  | replyRelease (call : Nat)
  | loseRelease (call : Nat)
  | execute (id : Nat)
  | tick (ms : Nat)

namespace System

def setAcquire (s : System) (call : Nat) (a : Acquire) : System :=
  { s with acquires := update s.acquires call (some a) }

def setRelease (s : System) (call : Nat) (r : Release) : System :=
  { s with releases := update s.releases call r }

def acquire (s : System) (call : Nat) (key : Bytes) (ttlMs maxWaitMs : Int)
    (now counter random : UInt64) (clock : Int) : System :=
  match s.acquires call with
  | some _ => s
  | none =>
    s.setAcquire call
      { key, token := generateToken now counter random, ttlMs, maxWaitMs,
        deadline := clock + maxWaitMs * 1000000 }

/-- The first half of `trySet`: no connection is a miss, and else the `SET` is sent. -/
def connect (s : System) (call : Nat) (valid : Bool) : System :=
  match s.acquires call with
  | some a =>
    if a.phase = .trySet then
      if valid then
        { s with redis := s.redis.send (.set (cStr a.key) (cStr a.token) a.ttlMs) }.setAcquire call
          { a with phase := .waiting s.redis.sent.length }
      else s.setAcquire call { a with phase := .missed }
    else s
  | none => s

/-- The second half of `trySet`: only the status `OK` is a success. -/
def reply (s : System) (call : Nat) : System :=
  match s.acquires call with
  | some a =>
    match a.phase with
    | .waiting id =>
      match s.redis.replies id with
      | some .ok => s.setAcquire call { a with phase := .granted id }
      | some _ => s.setAcquire call { a with phase := .missed }
      | none => s
    | _ => s
  | none => s

def lose (s : System) (call : Nat) : System :=
  match s.acquires call with
  | some a =>
    match a.phase with
    | .waiting _ => s.setAcquire call { a with phase := .missed }
    | _ => s
  | none => s

/-- `maxWaitMs == 0 || now >= deadline` -/
def test (s : System) (call : Nat) (clock : Int) : System :=
  match s.acquires call with
  | some a =>
    if a.phase = .missed then
      s.setAcquire call
        { a with phase := if a.maxWaitMs = 0 ∨ a.deadline ≤ clock then .failed else .sleeping }
    else s
  | none => s

def retry (s : System) (call : Nat) : System :=
  match s.acquires call with
  | some a => if a.phase = .sleeping then s.setAcquire call { a with phase := .trySet } else s
  | none => s

def release (s : System) (call : Nat) (key token : Bytes) : System :=
  if s.releases call = .notMade then
    s.setRelease call (if token = [] then .returned false else .connecting key token)
  else s

/-- The token of a guard, which is empty when `acquire` failed. -/
def guardToken (a : Acquire) : Option Bytes :=
  match a.phase with
  | .granted _ => some a.token
  | .failed => some []
  | _ => none

/-- `~RedlockGuard`, of a guard whose constructor has made the call `acquire`. -/
def destroyGuard (s : System) (acquire call : Nat) : System :=
  match s.acquires acquire with
  | some a =>
    match guardToken a with
    | some token => if token = [] then s else s.release call a.key token
    | none => s
  | none => s

def connectRelease (s : System) (call : Nat) (valid : Bool) : System :=
  match s.releases call with
  | .connecting key token =>
    if valid then
      { s with redis := s.redis.send (.eval (cStr key) (cStr token)) }.setRelease call
        (.waiting s.redis.sent.length)
    else s.setRelease call (.returned false)
  | _ => s

def replyRelease (s : System) (call : Nat) : System :=
  match s.releases call with
  | .waiting id =>
    match s.redis.replies id with
    | some reply => s.setRelease call (.returned (reply = .integer 1))
    | none => s
  | _ => s

def loseRelease (s : System) (call : Nat) : System :=
  match s.releases call with
  | .waiting _ => s.setRelease call (.returned false)
  | _ => s

def step (s : System) : Event → System
  | .acquire call key ttlMs maxWaitMs now counter random clock =>
    s.acquire call key ttlMs maxWaitMs now counter random clock
  | .connect call valid => s.connect call valid
  | .reply call => s.reply call
  | .lose call => s.lose call
  | .test call clock => s.test call clock
  | .retry call => s.retry call
  | .release call key token => s.release call key token
  | .destroyGuard acquire call => s.destroyGuard acquire call
  | .connectRelease call valid => s.connectRelease call valid
  | .replyRelease call => s.replyRelease call
  | .loseRelease call => s.loseRelease call
  | .execute id => { s with redis := s.redis.execute id }
  | .tick ms => { s with redis := s.redis.tick ms }

/-! ## The property -/

def FreshToken (s : System) : Event → Prop
  | .acquire _ _ _ _ now counter random _ =>
    ∀ other a, s.acquires other = some a → a.token ≠ generateToken now counter random
  | _ => True

/-- In the state `s` of a run that ends in `last`, the call holds the key, as Redis has its
name: `acquire` returns its token for a `SET` that holds in `s`. -/
def Held (s last : System) (call : Nat) (key : Bytes) : Prop :=
  ∃ a id expireAt, last.acquires call = some a ∧ a.phase = .granted id ∧ cStr a.key = key ∧
    Holds s.redis.store.now s.redis.log id key a.token expireAt

def OfOneCall (s : System) (token : Bytes) : Prop :=
  ∃ call a, s.acquires call = some a ∧ a.token = token ∧
    ∀ other b, s.acquires other = some b → b.token = token → other = call

/-- A release script that Redis executes removes the entry of its key exactly when that has
its token, which is then the entry of the one call with this token, and changes no other. -/
def ReleasesOwn (s : System) (e : Event) : Prop :=
  ∀ id key token, e = .execute id → s.redis.sent[id]? = some (.eval key token) →
    s.redis.replies id = none →
    (∀ lease, s.redis.store.live key = some lease → lease.value = token →
      (s.step e).redis.store.entries key = none ∧ s.OfOneCall token) ∧
    ((∀ lease, s.redis.store.live key = some lease → lease.value ≠ token) →
      (s.step e).redis.store = s.redis.store) ∧
    ∀ other ≠ key, (s.step e).redis.store.entries other = s.redis.store.entries other

end System

/-! ## What Redis does with a command -/

theorem Redis.eval_of_live {r : Redis} {key : Bytes} {lease : Lease Nat Bytes}
    (h : r.store.live key = some lease) (id : Nat) :
    r.eval id key lease.value = Redis.answer { r with
      store := r.store.put key none
      log := r.log ++ [.released key lease.value] } id (.integer 1) := by
  unfold eval
  rw [if_pos (by rw [h]; rfl)]

theorem Redis.eval_of_ne {r : Redis} {key token : Bytes}
    (h : ∀ lease, r.store.live key = some lease → lease.value ≠ token) (id : Nat) :
    r.eval id key token =
      Redis.answer { r with log := r.log ++ [.released key token] } id (.integer 0) := by
  unfold eval
  rw [if_neg]
  intro hvalue
  obtain ⟨lease, hlive, hlease⟩ := Option.map_eq_some_iff.mp hvalue
  exact h lease hlive hlease

theorem Redis.eval_cases (r : Redis) (key token : Bytes) :
    (∃ lease, r.store.live key = some lease ∧ lease.value = token) ∨
      ∀ lease, r.store.live key = some lease → lease.value ≠ token := by
  by_cases h : ∃ lease, r.store.live key = some lease ∧ lease.value = token
  · exact Or.inl h
  · exact Or.inr fun lease hlive hvalue => h ⟨lease, hlive, hvalue⟩

/-- A command is refused, grants a free key, or releases a key; or nothing is executed. -/
inductive Redis.Executes (r : Redis) (id : Nat) : Redis → Prop
  | stays : Executes r id r
  | refuses (hnone : r.replies id = none) {reply : Reply} (hno : reply ≠ .ok) :
      Executes r id (r.answer id reply)
  | grants (hnone : r.replies id = none) {key token : Bytes} {ttlMs : Int}
      (hsent : r.sent[id]? = some (.set key token ttlMs)) (hfree : r.store.live key = none) :
      Executes r id (Redis.answer { r with
        store := r.store.put key (some ⟨id, token, r.store.now + ttlMs.toNat⟩)
        log := r.log ++ [.granted id key token (r.store.now + ttlMs.toNat)] } id .ok)
  | releases (hnone : r.replies id = none) {key : Bytes} {lease : Lease Nat Bytes}
      (hlive : r.store.live key = some lease) :
      Executes r id (Redis.answer { r with
        store := r.store.put key none
        log := r.log ++ [.released key lease.value] } id (.integer 1))
  | releasesOther (hnone : r.replies id = none) (key token : Bytes) :
      Executes r id (Redis.answer { r with log := r.log ++ [.released key token] } id (.integer 0))

theorem Redis.execute_executes (r : Redis) (id : Nat) : Executes r id (r.execute id) := by
  unfold execute
  split
  case h_1 key token ttlMs hsent hnone =>
    unfold set
    split
    case isTrue => exact .refuses hnone (by simp)
    case isFalse =>
      split
      case isTrue => exact .refuses hnone (by simp)
      case isFalse hfree => exact .grants hnone hsent (by simpa using hfree)
  case h_2 key token hsent hnone =>
    rcases r.eval_cases key token with ⟨lease, hlive, rfl⟩ | hother
    · rw [eval_of_live hlive]
      exact .releases hnone hlive
    · rw [eval_of_ne hother]
      exact .releasesOther hnone key token
  case h_3 => exact .stays

theorem Redis.Executes.tracks {r r' : Redis} {id : Nat} (hdoes : Executes r id r')
    (h : Tracks r.store r.log) : Tracks r'.store r'.log := by
  cases hdoes with
  | stays | refuses => exact h
  | grants _ _ hfree => exact h.grant hfree id _ _
  | releases _ hlive => exact h.release hlive
  | releasesOther _ _ token => exact h.release_other token

/-! ## Tokens and commands -/

theorem cStr_eq_self {s : Bytes} (h : ∀ c ∈ s, c ≠ 0) : cStr s = s :=
  takeWhile_eq_self_iff.mpr (by simpa using h)

theorem cStr_generateToken (now counter random : UInt64) :
    cStr (generateToken now counter random) = generateToken now counter random := by
  have hhex : ∀ n, ∀ c ∈ hex n, c ≠ 0 := forall_mem_hex (by decide)
  have hdash : ∀ c ∈ text "-", c ≠ 0 := by decide +kernel
  apply cStr_eq_self
  intro c hc
  simp only [generateToken, mem_append] at hc
  rcases hc with (((hc | hc) | hc) | hc) | hc
  · exact hhex _ c hc
  · exact hdash c hc
  · exact hhex _ c hc
  · exact hdash c hc
  · exact hhex _ c hc

namespace System

variable {s : System}

def HasToken (s : System) (token : Bytes) : Prop :=
  ∃ call a, s.acquires call = some a ∧ a.token = token

structure Sound (s : System) : Prop where
  unique : ∀ call other a b, s.acquires call = some a → s.acquires other = some b →
    a.token = b.token → call = other
  plain : ∀ call a, s.acquires call = some a → cStr a.token = a.token
  asked : ∀ call a id, s.acquires call = some a → a.phase = .waiting id ∨ a.phase = .granted id →
    s.redis.sent[id]? = some (.set (cStr a.key) a.token a.ttlMs)
  granted : ∀ call a id, s.acquires call = some a → a.phase = .granted id →
    s.redis.replies id = some .ok
  owned : ∀ (id : Nat) key token ttlMs, s.redis.sent[id]? = some (Command.set key token ttlMs) →
    s.HasToken token
  stored : ∀ key lease, s.redis.store.entries key = some lease → s.HasToken lease.value
  logged : ∀ id, s.redis.replies id = some .ok → ∃ key token ttlMs expireAt,
    s.redis.sent[id]? = some (Command.set key token ttlMs) ∧
      Act.granted id key token expireAt ∈ s.redis.log

@[simp] theorem setAcquire_acquires_self (s : System) (call : Nat) (a : Acquire) :
    (s.setAcquire call a).acquires call = some a := update_self ..

variable {call other : Nat}

theorem setAcquire_acquires_of_ne (s : System) (h : other ≠ call) (a : Acquire) :
    (s.setAcquire call a).acquires other = s.acquires other := update_of_ne h ..

variable {a : Acquire}

theorem acquires_setAcquire {b : Acquire} (h : (s.setAcquire call a).acquires other = some b) :
    other = call ∧ b = a ∨ other ≠ call ∧ s.acquires other = some b := by
  rcases eq_or_ne other call with rfl | hne
  · rw [setAcquire_acquires_self, Option.some.injEq] at h
    exact Or.inl ⟨rfl, h.symm⟩
  · rw [setAcquire_acquires_of_ne s hne] at h
    exact Or.inr ⟨hne, h⟩

theorem HasToken.setAcquire {token : Bytes} (h : s.HasToken token)
    (ha : ∀ old, s.acquires call = some old → old.token = a.token) :
    (s.setAcquire call a).HasToken token := by
  obtain ⟨owner, b, hb, rfl⟩ := h
  rcases eq_or_ne owner call with rfl | hne
  · exact ⟨owner, a, setAcquire_acquires_self s owner a, (ha b hb).symm⟩
  · exact ⟨owner, b, by rw [setAcquire_acquires_of_ne s hne, hb], rfl⟩

theorem Sound.setAcquire (h : s.Sound)
    (hold : ∀ old, s.acquires call = some old → old.token = a.token)
    (hplain : cStr a.token = a.token)
    (hothers : ∀ other ≠ call, ∀ b, s.acquires other = some b → b.token ≠ a.token)
    (hasked : ∀ id, a.phase = .waiting id ∨ a.phase = .granted id →
      s.redis.sent[id]? = some (.set (cStr a.key) a.token a.ttlMs))
    (hgranted : ∀ id, a.phase = .granted id → s.redis.replies id = some .ok) :
    (s.setAcquire call a).Sound := by
  refine ⟨?_, ?_, ?_, ?_, ?_, ?_, h.logged⟩
  · intro c d b b' hb hb' htokens
    rcases acquires_setAcquire hb with ⟨rfl, rfl⟩ | ⟨hne, hkept⟩ <;>
      rcases acquires_setAcquire hb' with ⟨rfl, rfl⟩ | ⟨hne', hkept'⟩
    · rfl
    · exact absurd htokens.symm (hothers d hne' b' hkept')
    · exact absurd htokens (hothers c hne b hkept)
    · exact h.unique _ _ _ _ hkept hkept' htokens
  · intro c b hb
    rcases acquires_setAcquire hb with ⟨rfl, rfl⟩ | ⟨-, hb⟩
    · exact hplain
    · exact h.plain c b hb
  · intro c b id hb hphase
    rcases acquires_setAcquire hb with ⟨rfl, rfl⟩ | ⟨-, hb⟩
    · exact hasked id hphase
    · exact h.asked c b id hb hphase
  · intro c b id hb hphase
    rcases acquires_setAcquire hb with ⟨rfl, rfl⟩ | ⟨-, hb⟩
    · exact hgranted id hphase
    · exact h.granted c b id hb hphase
  · intro id key token ttlMs hsent
    exact (h.owned id key token ttlMs hsent).setAcquire hold
  · intro key lease hlease
    exact (h.stored key lease hlease).setAcquire hold

theorem Sound.setPhase (h : s.Sound) (ha : s.acquires call = some a) (phase : Attempt)
    (hasked : ∀ id, phase = .waiting id ∨ phase = .granted id →
      s.redis.sent[id]? = some (.set (cStr a.key) a.token a.ttlMs))
    (hgranted : ∀ id, phase = .granted id → s.redis.replies id = some .ok) :
    (s.setAcquire call { a with phase }).Sound := by
  refine h.setAcquire ?_ (h.plain call a ha) ?_ hasked hgranted
  · intro old hold
    rw [ha, Option.some.injEq] at hold
    rw [hold]
  · intro other hne b hb htoken
    exact hne (h.unique other call b a hb ha htoken)

theorem Sound.setFreePhase (h : s.Sound) (ha : s.acquires call = some a) {phase : Attempt}
    (hwaiting : ∀ id, phase ≠ .waiting id) (hgranted : ∀ id, phase ≠ .granted id) :
    (s.setAcquire call { a with phase }).Sound := by
  apply h.setPhase ha
  · rintro id (hphase | hphase)
    · exact absurd hphase (hwaiting id)
    · exact absurd hphase (hgranted id)
  · intro id hphase
    exact absurd hphase (hgranted id)

variable {r r' : Redis} {id : Nat} {command : Command}

theorem sent_send (h : r.sent[id]? = some command) (next : Command) :
    (r.send next).sent[id]? = some command := by
  have hid : id < r.sent.length := (List.getElem?_eq_some_iff.mp h).1
  simpa [Redis.send, getElem?_append_left hid] using h

theorem sent_of_send {next : Command} (h : (r.send next).sent[id]? = some command) :
    r.sent[id]? = some command ∨ next = command := by
  rcases Nat.lt_or_ge id r.sent.length with hid | hid
  · left
    simpa [Redis.send, getElem?_append_left hid] using h
  · right
    simp only [Redis.send, getElem?_append_right hid] at h
    exact (by simpa using mem_of_getElem? h : command = next).symm

theorem Sound.send (h : s.Sound)
    (hcommand : ∀ key token ttlMs, command = .set key token ttlMs → s.HasToken token) :
    System.Sound { s with redis := s.redis.send command } := by
  refine ⟨h.unique, h.plain, ?_, h.granted, ?_, h.stored, ?_⟩
  · intro call a id ha hphase
    exact sent_send (h.asked call a id ha hphase) command
  · intro id key token ttlMs hsent
    rcases sent_of_send hsent with hold | hnew
    · exact h.owned id key token ttlMs hold
    · exact hcommand key token ttlMs hnew
  · intro id hreply
    obtain ⟨key, token, ttlMs, expireAt, hsent, hlog⟩ := h.logged id hreply
    exact ⟨key, token, ttlMs, expireAt, sent_send hsent command, hlog⟩

theorem replies_answer {reply reply' : Reply}
    (h : (r.answer id reply).replies other = some reply') :
    other = id ∧ reply' = reply ∨ r.replies other = some reply' := by
  rcases eq_or_ne other id with rfl | hne
  · simp only [Redis.answer, update_self, Option.some.injEq] at h
    exact Or.inl ⟨rfl, h.symm⟩
  · simp only [Redis.answer, update_of_ne hne] at h
    exact Or.inr h

theorem ok_of_executes (hdoes : r.Executes id r') (h : r.replies other = some .ok) :
    r'.replies other = some .ok := by
  have hanswer : r.replies id = none → ∀ reply,
      update r.replies id (some reply) other = some .ok := by
    intro hnone reply
    have hne : other ≠ id := by
      rintro rfl
      rw [h] at hnone
      cases hnone
    rw [update_of_ne hne, h]
  cases hdoes with
  | stays => exact h
  | refuses hnone | grants hnone | releases hnone | releasesOther hnone => exact hanswer hnone _

theorem sent_of_executes (hdoes : r.Executes id r') : r'.sent = r.sent := by
  cases hdoes <;> rfl

theorem entries_of_executes {key : Bytes} {lease : Lease Nat Bytes} (hdoes : r.Executes id r')
    (h : r'.store.entries key = some lease) :
    r.store.entries key = some lease ∨
      ∃ ttlMs, r.sent[id]? = some (.set key lease.value ttlMs) := by
  cases hdoes with
  | stays | refuses | releasesOther => exact Or.inl h
  | @grants _ key' token ttlMs hsent =>
    rcases eq_or_ne key key' with rfl | hne
    · simp only [Redis.answer, put_entries_self, Option.some.injEq] at h
      exact Or.inr ⟨ttlMs, by rw [hsent, ← h]⟩
    · simp only [Redis.answer, put_entries_of_ne r.store hne] at h
      exact Or.inl h
  | @releases _ key' =>
    rcases eq_or_ne key key' with rfl | hne
    · simp [Redis.answer] at h
    · simp only [Redis.answer, put_entries_of_ne r.store hne] at h
      exact Or.inl h

/-- The command is a `SET` that was granted. -/
def Logged (r : Redis) (id : Nat) : Prop :=
  ∃ key token ttlMs expireAt, r.sent[id]? = some (Command.set key token ttlMs) ∧
    Act.granted id key token expireAt ∈ r.log

theorem logged_of_executes (hdoes : r.Executes id r')
    (h : ∀ id, r.replies id = some .ok → Logged r id) (other : Nat)
    (hreply : r'.replies other = some .ok) : Logged r' other := by
  have hkept : ∀ store log replies, r.replies other = some .ok →
      Logged ⟨store, r.log ++ log, r.sent, replies⟩ other := by
    intro store log replies hold
    obtain ⟨key, token, ttlMs, expireAt, hsent, hlog⟩ := h other hold
    exact ⟨key, token, ttlMs, expireAt, hsent, mem_append_left _ hlog⟩
  cases hdoes with
  | stays => exact h other hreply
  | refuses _ hno =>
    rcases replies_answer hreply with ⟨-, hok⟩ | hold
    · exact absurd hok.symm hno
    · exact h other hold
  | @grants _ key token ttlMs hsent =>
    rcases replies_answer hreply with ⟨rfl, -⟩ | hold
    · exact ⟨key, token, ttlMs, r.store.now + ttlMs.toNat, hsent, by simp [Redis.answer]⟩
    · exact hkept _ _ _ hold
  | releases | releasesOther =>
    rcases replies_answer hreply with ⟨-, hok⟩ | hold
    · cases hok
    · exact hkept _ _ _ hold

theorem Sound.execute (h : s.Sound) (id : Nat) :
    System.Sound { s with redis := s.redis.execute id } := by
  have hdoes := s.redis.execute_executes id
  have hsent := sent_of_executes hdoes
  refine ⟨h.unique, h.plain, ?_, ?_, ?_, ?_, logged_of_executes hdoes h.logged⟩
  · rw [hsent]
    exact h.asked
  · intro call a other ha hphase
    exact ok_of_executes hdoes (h.granted call a other ha hphase)
  · rw [hsent]
    exact h.owned
  · intro key lease hlease
    rcases entries_of_executes hdoes hlease with hold | ⟨ttlMs, hset⟩
    · exact h.stored key lease hold
    · exact h.owned id key lease.value ttlMs hset

theorem Sound.newCall (h : s.Sound) (hcall : s.acquires call = none) (hphase : a.phase = .trySet)
    (hplain : cStr a.token = a.token)
    (hfresh : ∀ other b, s.acquires other = some b → b.token ≠ a.token) :
    (s.setAcquire call a).Sound := by
  refine h.setAcquire ?_ hplain (fun other _ b => hfresh other b) (by simp [hphase])
    (by simp [hphase])
  intro old hold
  rw [hcall] at hold
  cases hold

/-! ## What a step does -/

/-- What one step can do. A client begins a call, sends a command or goes on with a call, and
only Redis changes the store and its log. -/
inductive Does (s : System) (e : Event) : System → Prop
  | stays : Does s e s
  | begins {call : Nat} {a : Acquire} (hnone : s.acquires call = none) (hphase : a.phase = .trySet)
      (hplain : cStr a.token = a.token)
      (hfresh : s.FreshToken e → ∀ other b, s.acquires other = some b → b.token ≠ a.token) :
      Does s e (s.setAcquire call a)
  | sendsSet {call : Nat} {a : Acquire} (ha : s.acquires call = some a) :
      Does s e
        ({ s with redis := s.redis.send (.set (cStr a.key) (cStr a.token) a.ttlMs) }.setAcquire call
          { a with phase := .waiting s.redis.sent.length })
  | granted {call id : Nat} {a : Acquire} (ha : s.acquires call = some a)
      (hwaiting : a.phase = .waiting id) (hok : s.redis.replies id = some .ok) :
      Does s e (s.setAcquire call { a with phase := .granted id })
  | goesOn {call : Nat} {a : Acquire} (ha : s.acquires call = some a) {phase : Attempt}
      (hwaiting : ∀ id, phase ≠ .waiting id) (hgranted : ∀ id, phase ≠ .granted id) :
      Does s e (s.setAcquire call { a with phase })
  | releases (call : Nat) (r : Release) : Does s e (s.setRelease call r)
  | sendsEval (call : Nat) (key token : Bytes) (r : Release) :
      Does s e ({ s with redis := s.redis.send (.eval key token) }.setRelease call r)
  | executes (id : Nat) : Does s e { s with redis := s.redis.execute id }
  | ticks (ms : Nat) : Does s e { s with redis := s.redis.tick ms }

theorem release_does (e : Event) (call : Nat) (key token : Bytes) :
    Does s e (s.release call key token) := by
  unfold System.release
  split
  · exact .releases call _
  · exact .stays

theorem step_does (s : System) (e : Event) : Does s e (s.step e) := by
  cases e with
  | acquire call key ttlMs maxWaitMs now counter random clock =>
    simp only [step, System.acquire]
    split
    case h_1 => exact .stays
    case h_2 hcall => exact .begins hcall rfl (cStr_generateToken _ _ _) (fun hfresh => hfresh)
  | connect call valid =>
    simp only [step, System.connect]
    split
    case h_2 => exact .stays
    case h_1 a ha =>
      split
      case isFalse => exact .stays
      case isTrue =>
        split
        case isTrue => exact .sendsSet ha
        case isFalse => exact .goesOn ha (by simp) (by simp)
  | reply call =>
    simp only [step, System.reply]
    split
    case h_2 => exact .stays
    case h_1 a ha =>
      split
      case h_2 => exact .stays
      case h_1 id hphase =>
        split
        case h_1 hok => exact .granted ha hphase hok
        case h_2 => exact .goesOn ha (by simp) (by simp)
        case h_3 => exact .stays
  | lose call =>
    simp only [step, System.lose]
    split
    case h_2 => exact .stays
    case h_1 a ha =>
      split
      case h_1 => exact .goesOn ha (by simp) (by simp)
      case h_2 => exact .stays
  | test call clock =>
    simp only [step, System.test]
    split
    case h_2 => exact .stays
    case h_1 a ha =>
      split
      case isFalse => exact .stays
      case isTrue =>
        apply Does.goesOn ha
        · intro id
          split <;> simp
        · intro id
          split <;> simp
  | retry call =>
    simp only [step, System.retry]
    split
    case h_2 => exact .stays
    case h_1 a ha =>
      split
      case isTrue => exact .goesOn ha (by simp) (by simp)
      case isFalse => exact .stays
  | release call key token => exact release_does _ call key token
  | destroyGuard acquire call =>
    simp only [step, System.destroyGuard]
    split
    case h_2 => exact .stays
    case h_1 a ha =>
      split
      case h_2 => exact .stays
      case h_1 token _ =>
        split
        case isTrue => exact .stays
        case isFalse => exact release_does _ call a.key token
  | connectRelease call valid =>
    simp only [step, System.connectRelease]
    split
    case h_2 => exact .stays
    case h_1 key token _ =>
      split
      case isTrue => exact .sendsEval call _ _ _
      case isFalse => exact .releases call _
  | replyRelease call =>
    simp only [step, System.replyRelease]
    split
    case h_2 => exact .stays
    case h_1 id _ =>
      split
      case h_1 => exact .releases call _
      case h_2 => exact .stays
  | loseRelease call =>
    simp only [step, System.loseRelease]
    split
    case h_1 => exact .releases call _
    case h_2 => exact .stays
  | execute id => exact .executes id
  | tick ms => exact .ticks ms

theorem Sound.setRelease (h : s.Sound) (call : Nat) (r : Release) : (s.setRelease call r).Sound :=
  { h with }

theorem sound_step (s : System) (e : Event) (hfresh : s.FreshToken e) (h : s.Sound) :
    (s.step e).Sound := by
  have hdoes := step_does s e
  generalize s.step e = s' at hdoes ⊢
  cases hdoes with
  | stays => exact h
  | begins hnone hphase hplain hnew => exact h.newCall hnone hphase hplain (hnew hfresh)
  | @sendsSet call a ha =>
    have hsent : System.Sound
        { s with redis := s.redis.send (.set (cStr a.key) (cStr a.token) a.ttlMs) } := by
      apply h.send
      intro key token ttlMs hcommand
      obtain ⟨-, rfl, -⟩ := Command.set.inj hcommand
      exact ⟨call, a, ha, (h.plain call a ha).symm⟩
    apply hsent.setPhase ha
    · rintro id (hphase | hphase)
      · obtain rfl := Attempt.waiting.inj hphase
        simp [Redis.send, h.plain call a ha]
      · cases hphase
    · intro id hphase
      cases hphase
  | @granted call id a ha hwaiting hok =>
    apply h.setPhase ha
    · rintro id' (hphase | hphase)
      · cases hphase
      · obtain rfl := Attempt.granted.inj hphase
        exact h.asked call a id ha (Or.inl hwaiting)
    · intro id' hphase
      obtain rfl := Attempt.granted.inj hphase
      exact hok
  | goesOn ha hwaiting hgranted => exact h.setFreePhase ha hwaiting hgranted
  | releases call r => exact h.setRelease call r
  | sendsEval call key token r =>
    apply Sound.setRelease
    apply h.send
    intro key' token' ttlMs hcommand
    cases hcommand
  | executes id => exact h.execute id
  | ticks => exact { h with }

/-! ## Mutual exclusion -/

/-- The store has the leases that hold by the log. -/
def Tracked (s : System) : Prop := Tracks s.redis.store s.redis.log

theorem tracked_step (s : System) (e : Event) (h : s.Tracked) : (s.step e).Tracked := by
  have hdoes := step_does s e
  generalize s.step e = s' at hdoes ⊢
  cases hdoes with
  | executes id => exact (s.redis.execute_executes id).tracks h
  | ticks ms => exact Tracks.advance h (Nat.le_add_right _ _)
  | stays | begins | sendsSet | granted | goesOn | releases | sendsEval => exact h

theorem tracked_start : ({} : System).Tracked := tracks_empty

theorem sound_start : ({} : System).Sound :=
  ⟨by simp, by simp, by simp, by simp, by simp, by simp, by simp⟩

/-- Two calls that hold one key have the lease of one `SET`, so they have one token. -/
theorem Held.unique {last : System} (htracked : s.Tracked) (h : last.Sound) {key : Bytes}
    (hcall : Held s last call key) (hother : Held s last other key) : call = other := by
  obtain ⟨a, id, expireAt, ha, -, -, hholds⟩ := hcall
  obtain ⟨b, id', expireAt', hb, -, -, hholds'⟩ := hother
  exact h.unique call other a b ha hb (Tracks.unique htracked hholds hholds').2

theorem Sound.ofOneCall (h : s.Sound) {token : Bytes} (htoken : s.HasToken token) :
    s.OfOneCall token := by
  obtain ⟨call, a, ha, rfl⟩ := htoken
  exact ⟨call, a, ha, rfl, fun other b hb hsame => h.unique other call b a hb ha hsame⟩

theorem Sound.releasesOwn (h : s.Sound) (e : Event) : s.ReleasesOwn e := by
  rintro id key token rfl hsent hreply
  have heval : (s.step (.execute id)).redis = s.redis.eval id key token := by
    simp only [step, Redis.execute, hsent, hreply]
  rw [heval]
  refine ⟨?_, ?_, ?_⟩
  · rintro lease hlive rfl
    have hentry := (live_eq_some_iff.mp hlive).1
    rw [Redis.eval_of_live hlive]
    exact ⟨put_entries_self .., h.ofOneCall (h.stored key lease hentry)⟩
  · intro hvalues
    rw [Redis.eval_of_ne hvalues]
    rfl
  · intro other hne
    rcases s.redis.eval_cases key token with ⟨lease, hlive, rfl⟩ | hvalues
    · rw [Redis.eval_of_live hlive]
      exact put_entries_of_ne s.redis.store hne none
    · rw [Redis.eval_of_ne hvalues]
      rfl

theorem Sound.granted_logged (h : s.Sound) (ha : s.acquires call = some a)
    (hphase : a.phase = .granted id) :
    ∃ expireAt, Act.granted id (cStr a.key) a.token expireAt ∈ s.redis.log := by
  obtain ⟨key, token, ttlMs, expireAt, hsent, hlog⟩ := h.logged id (h.granted call a id ha hphase)
  have hasked := h.asked call a id ha (Or.inr hphase)
  rw [hasked, Option.some.injEq] at hsent
  obtain ⟨rfl, rfl, -⟩ := Command.set.inj hsent
  exact ⟨expireAt, hlog⟩

/-- In every run of clients whose tokens differ: a call that returns a token has had its `SET`
executed; at no time do two calls hold one key; and every release script that Redis executes
removes the entry of its own token and no other. -/
theorem redlock_mutual_exclusion (events : List Event) (hfresh : Meets step FreshToken {} events) :
    (∀ call a id, (run step {} events).acquires call = some a → a.phase = .granted id →
      ∃ expireAt, Act.granted id (cStr a.key) a.token expireAt ∈ (run step {} events).redis.log) ∧
    (∀ made later, events = made ++ later → ∀ call other key,
      Held (run step {} made) (run step {} events) call key →
      Held (run step {} made) (run step {} events) other key → call = other) ∧
    Meets step ReleasesOwn {} events := by
  have hsound : (run step {} events).Sound := invariant_run sound_step hfresh sound_start
  refine ⟨?_, ?_, ?_⟩
  · intro call a id ha hphase
    exact hsound.granted_logged ha hphase
  · intro made later _ call other key hcall hother
    have htracked : (run step {} made).Tracked := invariant_always tracked_step tracked_start made
    exact Held.unique htracked hsound hcall hother
  · exact meets_of_invariant sound_step (fun s e _ h => h.releasesOwn e) hfresh sound_start

/-- A first call gets the key, and a second one tries while the first holds it. -/
def twoClients : List Event :=
  [.acquire 0 (text "k") 5000 0 1 0 7 0, .connect 0 true, .execute 0, .reply 0,
    .acquire 1 (text "k") 5000 0 2 0 9 0, .connect 1 true, .execute 1, .reply 1, .test 1 0]

theorem twoClients_fresh : Meets step FreshToken {} twoClients := by
  refine ⟨?_, trivial, trivial, trivial, ?_, trivial, trivial, trivial, trivial, trivial⟩
  · intro other a ha
    cases ha
  · intro other a ha
    cases other with
    | zero =>
      obtain rfl := Option.some.inj ha
      decide
    | succ other => cases ha

theorem redlock_mutual_exclusion_twoClients :
    Held (run step {} twoClients) (run step {} twoClients) 0 (text "k") ∧
      ∀ other, Held (run step {} twoClients) (run step {} twoClients) other (text "k") →
        other = 0 := by
  have hheld : Held (run step {} twoClients) (run step {} twoClients) 0 (text "k") :=
    ⟨_, 0, 5000, rfl, rfl, by decide, ⟨[], [], rfl, by simp⟩, by decide⟩
  refine ⟨hheld, fun other hother => ?_⟩
  exact (redlock_mutual_exclusion twoClients twoClients_fresh).2.1 twoClients [] (by simp) other 0 _
    hother hheld

end System

end mymuduo.redlock
