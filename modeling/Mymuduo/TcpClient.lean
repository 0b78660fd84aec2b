-- The client (src/net/TcpClient.cc) over its connector and its connections. The
-- client and the connector keep a `connect_` flag each. `disconnect` clears only the
-- one of the client, and nothing on the way to a new connection reads that one.
import Mymuduo.Connector
import Mymuduo.TcpLifecycle

open List runs
open mymuduo.connector (Connector ConnectErrno Functor)
open mymuduo.connector.Connector (Event)
open mymuduo.epoll_poller (Events EPOLLOUT EPOLLHUP)
open mymuduo.tcp_connection (Act Lifecycle)

namespace mymuduo.tcp_client

/-! ## The state -/

/-- The calls of the user that have returned, and the calls of `connectionCallback_`
with what `connected()` says in them. -/
inductive Notice
  | connect
  | disconnect
  | connection (connected : Bool)
  deriving DecidableEq, Repr

/-- Where the loop thread stands. It runs the body of `newConnection`, or it has found
`retry_ && connect_` in `removeConnection` and is about to call `restart`. Calls of
other threads can come between. -/
inductive Doing
  | idle
  | newConnection (sockfd : Nat)
  | restarting
  deriving DecidableEq, Repr

/-- `connections` holds every connection so far, `connection_` the place of the current
one, and `destroying` those whose `connectDestroyed` waits in the queue of the loop. -/
structure TcpClient where
  connector_ : Connector
  retry_ : Bool
  connect_ : Bool
  writeCompleteCallback_ : Bool
  connections : List Lifecycle
  connection_ : Option Nat
  destroying : List Nat
  doing : Doing
  log : List Notice

variable (log : List Notice)

namespace TcpClient

def new (onComplete : Bool) : TcpClient where
  connector_ := .new
  retry_ := false
  connect_ := true
  writeCompleteCallback_ := onComplete
  connections := []
  connection_ := none
  destroying := []
  doing := .idle
  log := []

/-! ## The functions -/

/-- The calls of `connectionCallback_` among the notices of a connection. -/
def callbacks (notices : List tcp_connection.Notice) : List Notice :=
  notices.filterMap fun
    | .connection connected => some (.connection connected)
    | .close => none

/-- The notices that took a connection from `l` to `l'`. -/
def heard (l l' : Lifecycle) : List tcp_connection.Notice := l'.notices.drop l.notices.length

/-- A connection moves on, and its callbacks are heard. -/
def setConnection (s : TcpClient) (i : Nat) (l l' : Lifecycle) : TcpClient :=
  { s with connections := s.connections.set i l', log := s.log ++ callbacks (heard l l') }

def disconnect (s : TcpClient) : TcpClient :=
  let s := { s with connect_ := false }
  match s.connection_ with
  | none => s
  | some i =>
    match s.connections[i]? with
    | none => s
    | some l => s.setConnection i l (l.step (.act .shutdown))

/-- `newConnection`: its connection becomes the current one, and is established. -/
def newConnection (s : TcpClient) : TcpClient :=
  let conn := Lifecycle.connectEstablished (64 * 1024 * 1024) s.writeCompleteCallback_ false
  { s with
    connections := s.connections ++ [conn]
    connection_ := some s.connections.length
    log := s.log ++ callbacks conn.notices }

/-- `removeConnection`, up to its call of `restart`. -/
def removeConnection (s : TcpClient) (i : Nat) : TcpClient :=
  let s := { s with connection_ := none, destroying := s.destroying ++ [i] }
  if s.retry_ && s.connect_ then { s with doing := .restarting } else s

/-- One step of a connection. Its `closeCallback_` is `removeConnection`. -/
def stepConnection (s : TcpClient) (i : Nat) (l : Lifecycle) (a : Lifecycle.Step) : TcpClient :=
  let l' := l.step a
  let s := s.setConnection i l l'
  if .close ∈ heard l l' then s.removeConnection i else s

/-- One step of the connector. Its `newConnectionCallback_` is `newConnection`. -/
def stepConnector (s : TcpClient) (e : Connector.Event) : TcpClient :=
  let r := s.connector_.exec e
  { s with
    connector_ := r.1
    doing := match r.2 with
      | some sockfd => .newConnection sockfd
      | none => s.doing }

/-! ## One step -/

/-- What can happen. `connectHere` is a call of `connect` in the loop thread, `connect`
one of another thread. `resume` is the loop thread going on with what it does. -/
inductive Event
  | connectHere (savedErrno : ConnectErrno)
  | connect
  | disconnect
  | stop
  | enableRetry
  | post (i : Nat)
  | runFunctor (savedErrno : ConnectErrno)
  | fireTimer (i : Nat) (savedErrno : ConnectErrno)
  | handleEvent (revents : Events) (optval : Int)
  | connection (i : Nat) (a : Lifecycle.Step)
  | connectDestroyed (acts : List Act)
  | resume (savedErrno : ConnectErrno)

/-- The steps of the loop thread outside `newConnection` and `removeConnection`. -/
def loopStep (s : TcpClient) : Event → TcpClient
  | .connectHere savedErrno =>
    { s.stepConnector (.startHere savedErrno) with connect_ := true, log := s.log ++ [.connect] }
  | .runFunctor savedErrno => s.stepConnector (.runFunctor savedErrno)
  | .fireTimer i savedErrno => s.stepConnector (.fireTimer i savedErrno)
  | .handleEvent revents optval => s.stepConnector (.handleEvent revents optval)
  | .connection i a =>
    match s.connections[i]? with
    | none => s
    | some l => s.stepConnection i l a
  | .connectDestroyed acts =>
    match s.destroying with
    | [] => s
    | i :: rest =>
      match s.connections[i]? with
      | none => s
      | some l => { s with destroying := rest }.setConnection i l (l.connectDestroyed acts)
  | _ => s

def step (s : TcpClient) : Event → TcpClient
  | .connect => { s.stepConnector .start with connect_ := true, log := s.log ++ [.connect] }
  | .disconnect =>
    let s := s.disconnect
    { s with log := s.log ++ [.disconnect] }
  | .stop => { s.stepConnector .stop with connect_ := false }
  | .enableRetry => { s with retry_ := true }
  | .post i => s.stepConnector (.post i)
  | .resume savedErrno =>
    match s.doing with
    | .idle => s
    | .newConnection _ => { s.newConnection with doing := .idle }
    | .restarting => { s with doing := .idle }.stepConnector (.restart savedErrno)
  | e => if s.doing = .idle then s.loopStep e else s

/-! ## The law -/

/-- `disconnect` has returned, and `connect` was not called again. -/
def DisconnectedSince (log : List Notice) : Prop :=
  ∃ before after, log = before ++ .disconnect :: after ∧ .connect ∉ after

/-- No callback finds `connected()` after `disconnect`, unless `connect` came again. -/
def DisconnectIsFinal (log : List Notice) : Prop :=
  Each (fun before n => n = .connection true → ¬DisconnectedSince before) log

/-- The connector makes no connection by itself: it is stopped, or it has no attempt in
flight, no start in a queue and no retry timer. -/
def Calm (c : Connector) : Prop :=
  c.connect_ = false ∨
    c.state_ ≠ .kConnecting ∧ Functor.startInLoop ∉ c.posting ∧
      Functor.startInLoop ∉ c.pendingFunctors ∧ c.timers = []

/-- Nothing is under way that ends in a new connection. -/
def Settled (s : TcpClient) : Prop := s.doing = .idle ∧ Calm s.connector_

/-- A `disconnect` finds nothing under way. -/
def DisconnectsSettled (s : TcpClient) : Event → Prop
  | .disconnect => s.Settled
  | _ => True

instance (s : TcpClient) : Decidable s.Settled := inferInstanceAs (Decidable (_ ∧ (_ ∨ _)))

instance (s : TcpClient) (e : Event) : Decidable (s.DisconnectsSettled e) :=
  match e with
  | .disconnect => inferInstanceAs (Decidable s.Settled)
  | .connectHere _ | .connect | .stop | .enableRetry | .post _ | .runFunctor _ | .fireTimer _ _
  | .handleEvent _ _ | .connection _ _ | .connectDestroyed _ | .resume _ => isTrue trivial

/-! ## What the log says -/

theorem not_disconnectedSince_nil : ¬DisconnectedSince [] := by
  rintro ⟨before, after, hlog, -⟩
  simp at hlog

theorem disconnectedSince_append_iff (n : Notice) :
    DisconnectedSince (log ++ [n]) ↔ n = .disconnect ∨ DisconnectedSince log ∧ n ≠ .connect := by
  unfold DisconnectedSince
  rw [exists_entry_append_iff]
  constructor
  · rintro (⟨hlast, -⟩ | ⟨before, after, hlog, hnot⟩)
    · exact Or.inl hlast
    · rw [mem_append, mem_singleton, not_or] at hnot
      exact Or.inr ⟨⟨before, after, hlog, hnot.1⟩, Ne.symm hnot.2⟩
  · rintro (hlast | ⟨⟨before, after, hlog, hnot⟩, hne⟩)
    · exact Or.inl ⟨hlast, not_mem_nil⟩
    · refine Or.inr ⟨before, after, hlog, ?_⟩
      rw [mem_append, mem_singleton, not_or]
      exact ⟨hnot, Ne.symm hne⟩

theorem disconnectedSince_downs_iff {new : List Notice} (hnew : ∀ n ∈ new, n = .connection false) :
    DisconnectedSince (log ++ new) ↔ DisconnectedSince log := by
  induction new using List.reverseRecOn with
  | nil => rw [append_nil]
  | append_singleton new n ih =>
    obtain rfl : n = .connection false := hnew n (by simp)
    rw [← append_assoc, disconnectedSince_append_iff,
      ih (fun m hm => hnew m (mem_append_left _ hm))]
    simp

theorem disconnectIsFinal_downs {log new : List Notice} (h : DisconnectIsFinal log)
    (hnew : ∀ n ∈ new, n = .connection false) : DisconnectIsFinal (log ++ new) := by
  refine (each_append_iff log new).mpr ⟨h, each_of_forall ?_⟩
  intro n hn before hup
  rw [hnew n hn] at hup
  cases hup

theorem disconnectIsFinal_append_iff (n : Notice) :
    DisconnectIsFinal (log ++ [n]) ↔
      DisconnectIsFinal log ∧ (n = .connection true → ¬DisconnectedSince log) :=
  each_concat_iff log n

theorem callbacks_heard {l l' : Lifecycle}
    (h : ∃ new, l'.notices = l.notices ++ new ∧ tcp_connection.Notice.connection true ∉ new) :
    ∀ n ∈ callbacks (heard l l'), n = .connection false := by
  obtain ⟨new, happend, hnot⟩ := h
  intro n hn
  unfold callbacks heard at hn
  rw [happend, drop_left, mem_filterMap] at hn
  obtain ⟨m, hm, heq⟩ := hn
  cases m with
  | close => cases heq
  | connection connected =>
    cases connected with
    | true => exact absurd hm hnot
    | false => exact (Option.some.inj heq).symm

/-! ## A calm connector -/

theorem retry_connect (c : Connector) (fd : Nat) : (c.retry fd).connect_ = c.connect_ := by
  unfold Connector.retry
  dsimp only
  split <;> rfl

variable {c : Connector}

theorem calm_startInLoop (h : c.connect_ = false) (savedErrno : ConnectErrno) :
    c.startInLoop savedErrno = c := by
  unfold Connector.startInLoop
  rw [if_neg (by simp [h])]

theorem Calm.stopped (h : Calm c) (hs : c.state_ = .kConnecting) : c.connect_ = false :=
  h.resolve_right fun hquiet => hquiet.1 hs

theorem calm_handleError (h : Calm c) : Calm c.handleError := by
  unfold Connector.handleError
  split
  · rename_i ch hs hch
    exact Or.inl ((retry_connect _ _).trans (h.stopped hs))
  · exact h

theorem calm_handleWrite (h : Calm c) (optval : Int) :
    Calm (c.handleWrite optval).1 ∧ (c.handleWrite optval).2 = none := by
  unfold Connector.handleWrite
  split
  · rename_i ch hs hch
    have hstopped := h.stopped hs
    split
    · exact ⟨Or.inl ((retry_connect _ _).trans hstopped), rfl⟩
    · rw [if_neg (by simp [Connector.removeAndResetChannel, hstopped])]
      exact ⟨Or.inl hstopped, rfl⟩
  · exact ⟨h, rfl⟩

theorem calm_stopInLoop (h : Calm c) : Calm c.stopInLoop := by
  unfold Connector.stopInLoop
  split
  · rename_i ch hs hch
    exact Or.inl (h.stopped hs)
  · exact h

def starts : Connector.Event → Bool
  | .startHere _ | .start | .restart _ => true
  | _ => false

theorem calm_exec (h : Calm c) {e : Connector.Event} (he : starts e = false) :
    Calm (c.exec e).1 ∧ (c.exec e).2 = none := by
  cases e with
  | startHere savedErrno | start | restart savedErrno => cases he
  | stop => exact ⟨Or.inl rfl, rfl⟩
  | post i =>
    dsimp only [Connector.exec]
    split
    · rename_i f hf
      refine ⟨?_, rfl⟩
      rcases h with hstopped | ⟨hstate, hposting, hpending, htimers⟩
      · exact Or.inl hstopped
      · refine Or.inr ⟨hstate, fun hin => hposting (mem_of_mem_eraseIdx hin), ?_, htimers⟩
        rw [mem_append, mem_singleton, not_or]
        refine ⟨hpending, ?_⟩
        rintro rfl
        exact hposting (mem_of_getElem? hf)
    · exact ⟨h, rfl⟩
  | runFunctor savedErrno =>
    dsimp only [Connector.exec]
    split
    · exact ⟨h, rfl⟩
    · rename_i f rest hfront
      refine ⟨?_, rfl⟩
      have hrest : Calm { c with pendingFunctors := rest } := by
        rcases h with hstopped | ⟨hstate, hposting, hpending, htimers⟩
        · exact Or.inl hstopped
        · refine Or.inr ⟨hstate, hposting, fun hin => hpending ?_, htimers⟩
          rw [hfront]
          exact mem_cons_of_mem f hin
      cases f with
      | startInLoop =>
        rcases h with hstopped | ⟨-, -, hpending, -⟩
        · dsimp only [Connector.runFunctor]
          rw [calm_startInLoop (by exact hstopped)]
          exact hrest
        · exact absurd (by rw [hfront]; exact mem_cons_self) hpending
      | stopInLoop => exact calm_stopInLoop hrest
      | resetChannel => exact hrest
  | fireTimer i savedErrno =>
    dsimp only [Connector.exec]
    split
    · rename_i hi
      refine ⟨?_, rfl⟩
      rcases h with hstopped | ⟨-, -, -, htimers⟩
      · rw [calm_startInLoop (by exact hstopped)]
        exact Or.inl hstopped
      · rw [htimers] at hi
        exact absurd hi (Nat.not_lt_zero i)
    · exact ⟨h, rfl⟩
  | handleEvent revents optval =>
    dsimp only [Connector.exec]
    split
    · have herror :
          Calm (if epoll_poller.has revents epoll_poller.EPOLLERR then c.handleError else c) := by
        split
        · exact calm_handleError h
        · exact h
      unfold Connector.handleEvent
      dsimp only
      split
      · exact calm_handleWrite herror optval
      · exact ⟨herror, rfl⟩
    · exact ⟨h, rfl⟩

/-! ## The invariant -/

/-- After `disconnect` the flag of the client is down, and nothing is under way. -/
structure Sound (s : TcpClient) : Prop where
  down : DisconnectedSince s.log → s.connect_ = false ∧ s.Settled
  final : DisconnectIsFinal s.log

theorem sound_new (onComplete : Bool) : Sound (new onComplete) :=
  ⟨fun h => absurd h not_disconnectedSince_nil, each_nil _⟩

variable {s : TcpClient}

theorem sound_connect {s' : TcpClient} (h : Sound s) (hlog : s'.log = s.log ++ [.connect]) :
    Sound s' := by
  refine ⟨fun hd => ?_, ?_⟩
  · rw [hlog, disconnectedSince_append_iff] at hd
    simp at hd
  · rw [hlog, disconnectIsFinal_append_iff]
    exact ⟨h.final, fun hup => nomatch hup⟩

theorem sound_stepConnector (h : Sound s) {e : Connector.Event} (he : starts e = false) :
    Sound (s.stepConnector e) := by
  refine ⟨fun hd => ?_, h.final⟩
  obtain ⟨hflag, hidle, hcalm⟩ := h.down hd
  obtain ⟨hcalm', hnone⟩ := calm_exec hcalm he
  refine ⟨hflag, ?_, hcalm'⟩
  dsimp only [stepConnector]
  rw [hnone]
  exact hidle

theorem sound_setConnection (h : Sound s) (i : Nat) {l l' : Lifecycle}
    (hmoves : ∃ new, l'.notices = l.notices ++ new ∧ tcp_connection.Notice.connection true ∉ new) :
    Sound (s.setConnection i l l') := by
  have hdowns := callbacks_heard hmoves
  refine ⟨fun hd => ?_, disconnectIsFinal_downs h.final hdowns⟩
  exact h.down ((disconnectedSince_downs_iff s.log hdowns).mp hd)

theorem sound_removeConnection (h : Sound s) (i : Nat) : Sound (s.removeConnection i) := by
  unfold removeConnection
  dsimp only
  split
  · rename_i hagain
    refine ⟨fun hd => ?_, h.final⟩
    -- `restart` needs the flag that `disconnect` clears
    have hflag := (h.down hd).1
    simp [hflag] at hagain
  · exact ⟨h.down, h.final⟩

theorem sound_stepConnection (h : Sound s) (i : Nat) (l : Lifecycle) (a : Lifecycle.Step) :
    Sound (s.stepConnection i l a) := by
  have hmoved := sound_setConnection h i (Lifecycle.step_notices l a)
  unfold stepConnection
  dsimp only
  split
  · exact sound_removeConnection hmoved i
  · exact hmoved

theorem sound_loopStep (h : Sound s) (e : Event) : Sound (s.loopStep e) := by
  cases e with
  | connectHere savedErrno => exact sound_connect h rfl
  | runFunctor savedErrno | fireTimer i savedErrno | handleEvent revents optval =>
    exact sound_stepConnector h rfl
  | connection i a =>
    dsimp only [loopStep]
    split
    · exact h
    · exact sound_stepConnection h i _ a
  | connectDestroyed acts =>
    dsimp only [loopStep]
    split
    · exact h
    · rename_i i rest hfront
      split
      · exact h
      · rename_i l hl
        have hrest : Sound { s with destroying := rest } := ⟨h.down, h.final⟩
        exact sound_setConnection hrest i (Lifecycle.connectDestroyed_notices l acts)
  | connect | disconnect | stop | enableRetry | post i | resume savedErrno => exact h

/-- `disconnect` clears the flag, and touches neither the connector nor what the loop
thread does. -/
theorem disconnect_fields (s : TcpClient) :
    s.disconnect.connect_ = false ∧ s.disconnect.connector_ = s.connector_ ∧
      s.disconnect.doing = s.doing := by
  unfold disconnect
  dsimp only
  split
  · exact ⟨rfl, rfl, rfl⟩
  · split <;> exact ⟨rfl, rfl, rfl⟩

theorem final_disconnect (h : Sound s) : DisconnectIsFinal s.disconnect.log := by
  unfold disconnect
  dsimp only
  split
  · exact h.final
  · split
    · exact h.final
    · rename_i l hl
      exact disconnectIsFinal_downs h.final (callbacks_heard (Lifecycle.step_notices l _))

theorem sound_disconnect (h : Sound s) (hsettled : s.Settled) : Sound (s.step .disconnect) := by
  obtain ⟨hflag, hconnector, hdoing⟩ := disconnect_fields s
  refine ⟨fun _ => ⟨hflag, ?_, ?_⟩, ?_⟩
  · exact hdoing.trans hsettled.1
  · change Calm s.disconnect.connector_
    rw [hconnector]
    exact hsettled.2
  · exact (disconnectIsFinal_append_iff _ _).mpr ⟨final_disconnect h, fun hup => nomatch hup⟩

/-- The loop thread goes on only when no `disconnect` came since the last `connect`. -/
theorem sound_resume (h : Sound s) (savedErrno : ConnectErrno) :
    Sound (s.step (.resume savedErrno)) := by
  dsimp only [step]
  split
  · exact h
  · rename_i sockfd hdoing
    have hfree : ¬DisconnectedSince s.log := by
      intro hd
      have hidle := (h.down hd).2.1
      rw [hdoing] at hidle
      cases hidle
    have hlog : s.newConnection.log = s.log ++ [.connection true] := rfl
    refine ⟨fun hd => ?_, ?_⟩
    · rw [hlog, disconnectedSince_append_iff] at hd
      rcases hd with hd | hd
      · cases hd
      · exact absurd hd.1 hfree
    · change DisconnectIsFinal s.newConnection.log
      rw [hlog, disconnectIsFinal_append_iff]
      exact ⟨h.final, fun _ => hfree⟩
  · rename_i hdoing
    refine ⟨fun hd => ?_, h.final⟩
    have hidle := (h.down hd).2.1
    rw [hdoing] at hidle
    cases hidle

theorem sound_step (s : TcpClient) (e : Event) (hok : s.DisconnectsSettled e) (h : Sound s) :
    Sound (s.step e) := by
  have hloop : Sound (if s.doing = .idle then s.loopStep e else s) := by
    split
    · exact sound_loopStep h e
    · exact h
  cases e with
  | connect => exact sound_connect h rfl
  | disconnect => exact sound_disconnect h hok
  | stop =>
    have hstop : Sound (s.stepConnector .stop) := sound_stepConnector h rfl
    exact ⟨fun hd => ⟨rfl, (hstop.down hd).2⟩, hstop.final⟩
  | enableRetry => exact ⟨h.down, h.final⟩
  | post i => exact sound_stepConnector h rfl
  | resume savedErrno => exact sound_resume h savedErrno
  | connectHere savedErrno | runFunctor savedErrno | fireTimer i savedErrno
  | handleEvent revents optval | connection i a | connectDestroyed acts => exact hloop

/-! ## Whole runs -/

/-- When each `disconnect` of a run finds nothing under way, the user never hears of a
connection that is up after a `disconnect`, unless `connect` was called again. -/
theorem disconnect_is_final (onComplete : Bool) (events : List Event)
    (hsettled : Meets step DisconnectsSettled (new onComplete) events) :
    DisconnectIsFinal (run step (new onComplete) events).log :=
  (invariant_run sound_step hsettled (sound_new onComplete)).final

/-- A client with retries connects, disconnects, and hears that its connection is down. -/
theorem disconnect_is_final_established :
    DisconnectIsFinal (run step (new true)
      [.enableRetry, .connectHere .EINPROGRESS, .handleEvent EPOLLOUT 0, .resume .zero, .disconnect,
        .connection 0 (.handleEvent EPOLLHUP .eof (.ok 0) []), .connection 0 .next,
        .connection 0 .next, .resume .zero]).log :=
  disconnect_is_final _ _ (by decide)

/-- `disconnect` comes while the first attempt is in flight, or while the retry timer
waits. The connection callback is then called with `connected()`. -/
theorem disconnect_is_not_final :
    ¬DisconnectIsFinal (run step (new true)
      [.connectHere .EINPROGRESS, .disconnect, .handleEvent EPOLLOUT 0, .resume .zero]).log ∧
    ¬DisconnectIsFinal (run step (new true)
      [.connectHere .ECONNREFUSED, .disconnect, .fireTimer 0 .EINPROGRESS, .handleEvent EPOLLOUT 0,
        .resume .zero]).log := by
  have hlate : ¬DisconnectIsFinal [.connect, .disconnect, .connection true] := by
    intro h
    exact h [.connect, .disconnect] (.connection true) [] rfl rfl
      ⟨[.connect], [], rfl, not_mem_nil⟩
  exact ⟨hlate, hlate⟩

end TcpClient

end mymuduo.tcp_client
