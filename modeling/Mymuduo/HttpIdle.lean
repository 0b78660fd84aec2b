-- The idle timer of `HttpServer` (src/http/HttpServer.h): `onConnection` arms one
-- timer of the loop when a connection comes up, and its callback shuts the
-- connection down if it is still up. No message arms it again, so what the timer
-- measures is the age of the connection.
import Mathlib.Tactic.Linarith
import Mymuduo.LoopTimers
import Mymuduo.TcpLifecycle

open runs
open Function (update_self update_of_ne)

namespace mymuduo.http_idle

open loop_timers tcp_connection
open timer_queue (TimerQueue)

/-! ## The model -/

/-- The timeout, and the `int` of milliseconds that `runAfter` gets from it: the timeout in
milliseconds, which the product rounds and the cast truncates. -/
structure Settings where
  idleTimeoutSec_ : ℚ
  delayMs : Int
  truncated : |(delayMs : ℚ) - idleTimeoutSec_ * 1000| < 1

/-- A connection of the server, the clock when it came up, and the clock when it last
gave data to `onMessage`. `alive` is what a `weak_ptr` finds. -/
structure Conn where
  life : Lifecycle
  established : Int
  lastData : Option Int
  alive : Bool

/-- A call of `shutdown` by the idle timer. -/
structure Shutdown where
  conn : Nat
  established : Int
  lastData : Option Int
  time : Int
  deriving DecidableEq, Repr

/-- One loop of the server with its connections. `owner` tells for a call of `runAfter` whose
idle timer it armed. -/
structure Server where
  loop : Loop
  conn : Nat → Option Conn
  owner : Nat → Option Nat
  shutdowns : List Shutdown

/-- One step: a connection comes up, something happens to it, it is destroyed, or the loop
and its other users do something. -/
inductive Input
  | connect (c mark : Nat) (onComplete onHighWater : Bool)
  | conn (c : Nat) (a : Lifecycle.Step)
  | destroy (c : Nat) (acts : List Act)
  | loop (e : Event)

/-- The next call of the dispatch gives data to `onMessage`. -/
def deliversData (life : Lifecycle) : Lifecycle.Step → Bool
  | .next => life.dispatch.head? = some (.handleRead .data)
  | _ => false

namespace Server

def start : Server where
  loop := .start
  conn := fun _ => none
  owner := fun _ => none
  shutdowns := []

/-- `onConnection`, in the loop thread. A connection that goes down is not connected, so
the second call of it does nothing. -/
def onConnection (settings : Settings) (s : Server) (c : Nat) (life : Lifecycle) : Server :=
  if life.connected && 0 < settings.idleTimeoutSec_ then
    { s with
      loop := s.loop.step (.runInLoop (.runAfter settings.delayMs))
      owner := Function.update s.owner s.loop.calls (some c) }
  else s

/-- The connection whose idle callback is the next callback of the loop. -/
def firing (s : Server) : Option (Nat × Conn) :=
  s.loop.nextCall.bind fun call => (s.owner call).bind fun c => (s.conn c).map (c, ·)

/-- The callback: `if (c && c->connected()) c->shutdown();` -/
def idleCallback (s : Server) : Server :=
  match s.firing with
  | none => s
  | some (c, x) =>
    if x.alive && x.life.connected then
      { s with
        conn := Function.update s.conn c (some { x with life := x.life.step (.act .shutdown) })
        shutdowns := s.shutdowns ++ [⟨c, x.established, x.lastData, s.loop.clock⟩] }
    else s

/-- A step that cannot happen changes nothing. -/
def step (settings : Settings) (s : Server) : Input → Server
  | .connect c mark onComplete onHighWater =>
    match s.conn c with
    | some _ => s
    | none =>
      let life := Lifecycle.connectEstablished mark onComplete onHighWater
      let s := { s with conn := Function.update s.conn c (some ⟨life, s.loop.clock, none, true⟩) }
      s.onConnection settings c life
  | .conn c a =>
    match s.conn c with
    | none => s
    | some x =>
      let lastData := if deliversData x.life a then some s.loop.clock else x.lastData
      { s with conn := Function.update s.conn c (some { x with life := x.life.step a, lastData }) }
  | .destroy c acts =>
    match s.conn c with
    | none => s
    | some x =>
      { s with
        conn := Function.update s.conn c
          (some { x with life := x.life.connectDestroyed acts, alive := false }) }
  | .loop e =>
    let s := if e = .runTimer then s.idleCallback else s
    { s with loop := s.loop.step e }

end Server

/-! ## The timer measures the age -/

namespace Server

/-- The age at which the timer of a connection expires. -/
def delay (settings : Settings) : Int := (Request.runAfter settings.delayMs).delay

/-- The timer of a connection is due at that age, and every shutdown so far came then or
later. -/
structure Aged (settings : Settings) (due : Nat → Option Int) (s : Server) : Prop where
  sound : s.loop.timerQueue_.Sound
  keeps : s.loop.Keeps due
  owner : ∀ call c, s.owner call = some c →
    ∃ x, s.conn c = some x ∧ due call = some (x.established + delay settings)
  shutdowns : ∀ e ∈ s.shutdowns, e.established + delay settings ≤ e.time

theorem aged_start (settings : Settings) : Aged settings (fun _ => none) start where
  sound := TimerQueue.sound_start
  keeps := ⟨nofun, nofun, nofun, fun _ _ => rfl⟩
  owner := nofun
  shutdowns := nofun

variable {settings : Settings} {due : Nat → Option Int} {s : Server} {c : Nat} {x : Conn}

theorem Aged.loop (h : Aged settings due s) (e : Event) :
    Aged settings due { s with loop := s.loop.step e } :=
  { h with
    sound := Loop.queue_invariant (TimerQueue.sound_step loopShape) s.loop e h.sound
    keeps := Loop.keeps_step h.keeps h.sound e }

theorem Aged.update (h : Aged settings due s)
    (hup : ∀ y, s.conn c = some y → x.established = y.established) :
    Aged settings due { s with conn := Function.update s.conn c (some x) } := by
  refine { h with owner := fun call c' howner => ?_ }
  obtain ⟨y, hy, hdue⟩ := h.owner call c' howner
  by_cases hc : c' = c
  · subst hc
    exact ⟨x, update_self .., by rw [hup y hy, hdue]⟩
  · exact ⟨y, by rw [← hy]; exact update_of_ne hc .., hdue⟩

theorem Aged.onConnection (h : Aged settings due s) (hx : s.conn c = some x)
    (hup : x.established = s.loop.clock) (life : Lifecycle) :
    ∃ due', Aged settings due' (s.onConnection settings c life) := by
  unfold Server.onConnection
  split
  · refine ⟨Function.update due s.loop.calls (some (s.loop.clock + delay settings)),
      (h.loop _).sound, ?_, ?_, h.shutdowns⟩
    · refine (h.keeps.next _).addTimer h.sound (Nat.lt_succ_self _) fun time htime => ?_
      rw [update_self] at htime
      cases htime
      exact ⟨rfl, le_refl _⟩
    · intro call c' howner
      dsimp only at howner ⊢
      by_cases hcall : call = s.loop.calls
      · rw [hcall, update_self] at howner ⊢
        cases howner
        exact ⟨x, hx, by rw [hup]⟩
      · rw [update_of_ne hcall] at howner ⊢
        exact h.owner call c' howner
  · exact ⟨due, h⟩

theorem Aged.firing (h : Aged settings due s) (hfiring : s.firing = some (c, x)) :
    s.conn c = some x ∧ x.established + delay settings ≤ s.loop.clock := by
  obtain ⟨call, hcall, hrest⟩ := Option.bind_eq_some_iff.mp hfiring
  obtain ⟨c', howner, hrest⟩ := Option.bind_eq_some_iff.mp hrest
  obtain ⟨x', hx, heq⟩ := Option.map_eq_some_iff.mp hrest
  cases heq
  obtain ⟨y, hy, hdue⟩ := h.owner call c howner
  cases hx.symm.trans hy
  exact ⟨hx, h.keeps.nextCall hcall hdue⟩

theorem Aged.idleCallback (h : Aged settings due s) : Aged settings due s.idleCallback := by
  unfold Server.idleCallback
  split
  · exact h
  · rename_i c x hfiring
    obtain ⟨hx, hage⟩ := h.firing hfiring
    split
    · refine { h.update fun y hy => ?_ with shutdowns := ?_ }
      · cases hx.symm.trans hy
        rfl
      · exact List.forall_mem_append.mpr ⟨h.shutdowns, List.forall_mem_singleton.mpr hage⟩
    · exact h

theorem aged_step (settings : Settings) (s : Server) (a : Input)
    (h : ∃ due, Aged settings due s) : ∃ due, Aged settings due (s.step settings a) := by
  obtain ⟨due, h⟩ := h
  cases a with
  | connect c mark onComplete onHighWater =>
    simp only [step]
    split
    · exact ⟨due, h⟩
    · rename_i hnew
      refine (h.update fun y hy => ?_).onConnection (update_self ..) rfl _
      rw [hnew] at hy
      cases hy
  | conn c a | destroy c acts =>
    simp only [step]
    split
    · exact ⟨due, h⟩
    · rename_i x hx
      refine ⟨due, h.update fun y hy => ?_⟩
      cases hx.symm.trans hy
      rfl
  | loop e =>
    simp only [step]
    split
    · exact ⟨due, h.idleCallback.loop e⟩
    · exact ⟨due, h.loop e⟩

end Server

/-! ## The law -/

/-- At this time, the last data is as old as the timeout. -/
def Quiet (settings : Settings) (lastData : Option Int) (time : Int) : Prop :=
  ∀ data, lastData = some data → settings.idleTimeoutSec_ * 1000 ≤ ((time - data : Int) : ℚ)

/-- The timer has only shut down connections without recent data. -/
def OnlyIdle (settings : Settings) (s : Server) : Prop :=
  ∀ e ∈ s.shutdowns, Quiet settings e.lastData e.time

theorem shutdowns_onConnection (settings : Settings) (s : Server) (c : Nat) (life : Lifecycle) :
    (s.onConnection settings c life).shutdowns = s.shutdowns := by
  unfold Server.onConnection
  split <;> rfl

variable {settings : Settings}

theorem shutdowns_step {s : Server} {a : Input} (h : a ≠ .loop .runTimer) :
    (s.step settings a).shutdowns = s.shutdowns := by
  unfold Server.step
  cases a with
  | connect c mark onComplete onHighWater =>
    dsimp only
    split
    · rfl
    · exact shutdowns_onConnection _ _ _ _
  | conn c a | destroy c acts =>
    dsimp only
    split <;> rfl
  | loop e =>
    have he : e ≠ .runTimer := fun he => h (by rw [he])
    dsimp only
    rw [if_neg he]

/-- A connection that is still up at the age at which its timer expires gave its last data
so early that it was as old as the timeout at that age. -/
def QuietOnceDue (settings : Settings) (s : Server) : Prop :=
  ∀ c x, s.conn c = some x → x.alive = true → x.life.connected = true →
    x.established + Server.delay settings ≤ s.loop.clock → ∀ data, x.lastData = some data →
      ((data - x.established : Int) : ℚ) + settings.idleTimeoutSec_ * 1000 ≤ Server.delay settings

theorem onlyIdle_idleCallback {due : Nat → Option Int} {s : Server}
    (haged : s.Aged settings due) (hquiet : QuietOnceDue settings s) (h : OnlyIdle settings s) :
    OnlyIdle settings s.idleCallback := by
  unfold Server.idleCallback
  split
  · exact h
  · rename_i c x hfiring
    obtain ⟨hx, hage⟩ := haged.firing hfiring
    split
    · rename_i hup
      rw [Bool.and_eq_true] at hup
      refine List.forall_mem_append.mpr ⟨h, List.forall_mem_singleton.mpr ?_⟩
      intro data hdata
      have hearly := hquiet c x hx hup.1 hup.2 hage data hdata
      have hage : (x.established : ℚ) + Server.delay settings ≤ s.loop.clock := by
        exact_mod_cast hage
      push_cast at hearly ⊢
      linarith
    · exact h

theorem onlyIdle_step {due : Nat → Option Int} {s : Server} (a : Input)
    (haged : s.Aged settings due) (hquiet : QuietOnceDue settings s) (h : OnlyIdle settings s) :
    OnlyIdle settings (s.step settings a) := by
  by_cases ha : a = .loop .runTimer
  · subst ha
    exact onlyIdle_idleCallback haged hquiet h
  · unfold OnlyIdle
    rw [shutdowns_step ha]
    exact h

/-- The idle timer hits only idle connections in every run, of any length, in which no
connection is up at the age of its timer after giving data later than a timeout before. -/
theorem only_idle_when_quiet_once_due (settings : Settings) (inputs : List Input)
    (hquiet : Meets (Server.step settings) (fun s _ => QuietOnceDue settings s) .start inputs) :
    OnlyIdle settings (run (Server.step settings) .start inputs) := by
  have hstep : ∀ s a, QuietOnceDue settings s →
      (∃ due, s.Aged settings due) ∧ OnlyIdle settings s →
        (∃ due, (s.step settings a).Aged settings due) ∧
          OnlyIdle settings (s.step settings a) := by
    rintro s a hs ⟨⟨due, haged⟩, honly⟩
    exact ⟨Server.aged_step settings s a ⟨due, haged⟩, onlyIdle_step a haged hs honly⟩
  exact (invariant_run hstep hquiet ⟨⟨_, Server.aged_start settings⟩, nofun⟩).2

def twoSeconds : Settings := ⟨2, 2000, by norm_num⟩

/-- A connection that delivers data when it comes up, and none later. -/
def silentConnection : List Input :=
  [.connect 0 0 false false, .conn 0 (.handleEvent epoll_poller.EPOLLIN .data (.ok 0) []),
    .conn 0 .next, .loop (.advance 1000), .loop (.handleTimerRead 1), .loop (.advance 1000),
    .loop (.handleTimerRead 1), .loop (.advance 1000), .loop (.handleTimerRead 1), .loop .runTimer]

/-- It is shut down as well, and its data is older than the timeout then. -/
theorem only_idle_when_quiet_once_due_silent_connection :
    (run (Server.step twoSeconds) .start silentConnection).shutdowns = [⟨0, 0, some 0, 3000⟩] ∧
      OnlyIdle twoSeconds (run (Server.step twoSeconds) .start silentConnection) := by
  have hquiet : ∀ s : Server, (∀ c, s.conn (c + 1) = none) →
      (s.conn 0).all (fun x => x.established = 0 && x.lastData.all (· = 0)) = true →
        QuietOnceDue twoSeconds s := by
    rintro s hother hfirst (_ | c) x hx - - - data hdata
    · obtain ⟨hup, hzero⟩ : x.established = 0 ∧ data = 0 := by simpa [hx, hdata] using hfirst
      rw [hup, hzero]
      norm_num [twoSeconds, Server.delay, Request.delay]
    · cases (hother c).symm.trans hx
  refine ⟨by decide, only_idle_when_quiet_once_due twoSeconds silentConnection ?_⟩
  refine ⟨?_, ?_, ?_, ?_, ?_, ?_, ?_, ?_, ?_, ?_, trivial⟩
  all_goals exact hquiet _ (fun _ => rfl) (by decide)

/-- A connection that delivers data at 2999 ms, under a timeout of two seconds. -/
def busyConnection : List Input :=
  [.connect 0 0 false false, .loop (.advance 1000), .loop (.handleTimerRead 1),
    .loop (.advance 1000), .loop (.handleTimerRead 1), .loop (.advance 999),
    .conn 0 (.handleEvent epoll_poller.EPOLLIN .data (.ok 0) []), .conn 0 .next, .loop (.advance 1),
    .loop (.handleTimerRead 1), .loop .runTimer]

/-- It is shut down a millisecond later. -/
theorem busy_connection_is_shut_down :
    (run (Server.step twoSeconds) .start busyConnection).shutdowns = [⟨0, 0, some 2999, 3000⟩] ∧
      ¬OnlyIdle twoSeconds (run (Server.step twoSeconds) .start busyConnection) := by
  have hshutdowns : (run (Server.step twoSeconds) .start busyConnection).shutdowns =
      [⟨0, 0, some 2999, 3000⟩] := by decide
  refine ⟨hshutdowns, ?_⟩
  intro h
  have hquiet := h _ (by rw [hshutdowns]; exact List.mem_singleton_self _) 2999 rfl
  norm_num [twoSeconds] at hquiet

/-- In every run, the timer shuts a connection down by its age alone: the delay behind the
clock at which it came up, whatever it has sent since. -/
theorem idle_shutdown_by_age (settings : Settings) (inputs : List Input) :
    ∀ e ∈ (run (Server.step settings) .start inputs).shutdowns,
      e.established + Server.delay settings ≤ e.time := by
  obtain ⟨due, haged⟩ := invariant_always (Server.aged_step settings)
    ⟨_, Server.aged_start settings⟩ inputs
  exact haged.shutdowns

/-- The busy connection is one of them. -/
theorem idle_shutdown_by_age_busy_connection :
    (⟨0, 0, some 2999, 3000⟩ : Shutdown) ∈
        (run (Server.step twoSeconds) .start busyConnection).shutdowns ∧
      0 + Server.delay twoSeconds ≤ 3000 := by
  refine ⟨by decide, ?_⟩
  exact idle_shutdown_by_age _ busyConnection ⟨0, 0, some 2999, 3000⟩ (by decide)

end mymuduo.http_idle
