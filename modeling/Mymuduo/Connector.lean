-- The connector (src/net/Connector.cc): calls, functors in the queue of the loop, retry
-- timers that nobody cancels and events of the channel meet in any order. Each socket
-- has a number, so the laws can tell who owns it.
import Mymuduo.EPollPoller

open runs
open mymuduo.epoll_poller (Events EPOLLOUT EPOLLERR has)

namespace mymuduo.connector

/-! ## The state -/

inductive States
  | kDisconnected
  | kConnecting
  | kConnected
  deriving DecidableEq, Repr

/-- `savedErrno` after `::connect`, 0 when the call succeeds. -/
inductive ConnectErrno
  | zero
  | EINPROGRESS
  | EINTR
  | EISCONN
  | EAGAIN
  | EADDRINUSE
  | EADDRNOTAVAIL
  | ECONNREFUSED
  | ENETUNREACH
  | EACCES
  | EPERM
  | EAFNOSUPPORT
  | EALREADY
  | EBADF
  | EFAULT
  | ENOTSOCK
  | other
  deriving DecidableEq, Repr

/-- `channel_`, with the number of its socket. `registered` says that the poller
holds the channel. -/
structure Channel where
  fd : Nat
  registered : Bool
  deriving DecidableEq, Repr

inductive Functor
  | startInLoop
  | stopInLoop
  | resetChannel
  deriving DecidableEq, Repr

def kMaxRetryDelayMs : Nat := 30 * 1000
def kInitRetryDelayMs : Nat := 500

/-- `posting` holds the functors of calls that have stored `connect_` and not yet
reached the queue. `timers` holds the delays of the retry timers that have not
fired. The last four fields are a record that no function reads: the number of
sockets so far, those that were closed, those that were handed to
`newConnectionCallback_`, and whether `channel_` was ever replaced or destroyed while
the poller held it. -/
structure Connector where
  connect_ : Bool
  state_ : States
  channel_ : Option Channel
  retryDelayMs_ : Nat
  posting : List Functor
  pendingFunctors : List Functor
  timers : List Nat
  created : Nat
  closed : List Nat
  handed : List Nat
  dangling : Bool
  deriving DecidableEq, Repr

namespace Connector

def new : Connector where
  connect_ := false
  state_ := .kDisconnected
  channel_ := none
  retryDelayMs_ := kInitRetryDelayMs
  posting := []
  pendingFunctors := []
  timers := []
  created := 0
  closed := []
  handed := []
  dangling := false

/-! ## The functions of the loop thread -/

def close (c : Connector) (sockfd : Nat) : Connector := { c with closed := c.closed ++ [sockfd] }

def setChannel (c : Connector) (ch : Option Channel) : Connector :=
  { c with channel_ := ch, dangling := c.dangling || c.channel_.any (·.registered) }

def resetChannel (c : Connector) : Connector := c.setChannel none

/-- `retry`, with the timer of its `runAfter`. -/
def retry (c : Connector) (sockfd : Nat) : Connector :=
  let c := { c.close sockfd with state_ := .kDisconnected }
  if c.connect_ then
    { c with
      timers := c.timers ++ [c.retryDelayMs_]
      retryDelayMs_ := min (c.retryDelayMs_ * 2) kMaxRetryDelayMs }
  else c

/-- `connecting`: the new channel asks for write events. -/
def connecting (c : Connector) (sockfd : Nat) : Connector :=
  { c with state_ := .kConnecting }.setChannel (some ⟨sockfd, true⟩)

inductive Branch
  | connecting
  | retry
  | close
  deriving DecidableEq, Repr

def branch : ConnectErrno → Branch
  | .zero | .EINPROGRESS | .EINTR | .EISCONN => .connecting
  | .EAGAIN | .EADDRINUSE | .EADDRNOTAVAIL | .ECONNREFUSED | .ENETUNREACH => .retry
  | .EACCES | .EPERM | .EAFNOSUPPORT | .EALREADY | .EBADF | .EFAULT | .ENOTSOCK => .close
  | .other => .close

def connect (c : Connector) (savedErrno : ConnectErrno) : Connector :=
  let sockfd := c.created
  let c := { c with created := sockfd + 1 }
  match branch savedErrno with
  | .connecting => c.connecting sockfd
  | .retry => c.retry sockfd
  | .close => c.close sockfd

def startInLoop (c : Connector) (savedErrno : ConnectErrno) : Connector :=
  if c.connect_ then c.connect savedErrno else c

/-- `removeAndResetChannel`, on a `channel_` that is not null: the channel leaves the
poller, and `resetChannel` waits in the queue. -/
def removeAndResetChannel (c : Connector) (ch : Channel) : Connector :=
  { c with
    channel_ := some { ch with registered := false }
    pendingFunctors := c.pendingFunctors ++ [.resetChannel] }

def stopInLoop (c : Connector) : Connector :=
  match c.state_, c.channel_ with
  | .kConnecting, some ch =>
    ({ c with state_ := .kDisconnected }.removeAndResetChannel ch).close ch.fd
  | _, _ => c

/-- `handleWrite`, with the result of `SO_ERROR`. The second component is the socket
that it hands to `newConnectionCallback_`. -/
def handleWrite (c : Connector) (optval : Int) : Connector × Option Nat :=
  match c.state_, c.channel_ with
  | .kConnecting, some ch =>
    let c := c.removeAndResetChannel ch
    if optval ≠ 0 then (c.retry ch.fd, none)
    else
      let c := { c with state_ := .kConnected }
      if c.connect_ then
        ({ c with retryDelayMs_ := kInitRetryDelayMs, handed := c.handed ++ [ch.fd] }, some ch.fd)
      else (c.close ch.fd, none)
  | _, _ => (c, none)

def handleError (c : Connector) : Connector :=
  match c.state_, c.channel_ with
  | .kConnecting, some ch => (c.removeAndResetChannel ch).retry ch.fd
  | _, _ => c

/-- `handleEventWithGuard`: the channel has an error and a write callback, no more. -/
def handleEvent (c : Connector) (revents : Events) (optval : Int) : Connector × Option Nat :=
  let c := if has revents EPOLLERR then c.handleError else c
  if has revents EPOLLOUT then c.handleWrite optval else (c, none)

/-! ## One step -/

/-- What can happen, with the result of the `::connect` that the step may make. `startHere`
is a call of `start` in the loop thread. Any other call of `start` or `stop` is a step
that stores `connect_`, and a later `post`. -/
inductive Event
  | startHere (savedErrno : ConnectErrno)
  | start
  | stop
  | post (i : Nat)
  | restart (savedErrno : ConnectErrno)
  | runFunctor (savedErrno : ConnectErrno)
  | fireTimer (i : Nat) (savedErrno : ConnectErrno)
  | handleEvent (revents : Events) (optval : Int)
  deriving DecidableEq, Repr

def runFunctor (c : Connector) (savedErrno : ConnectErrno) : Functor → Connector
  | .startInLoop => c.startInLoop savedErrno
  | .stopInLoop => c.stopInLoop
  | .resetChannel => c.resetChannel

/-- The connector after one event, and the socket that the event hands to
`newConnectionCallback_`. An event that cannot happen changes nothing. -/
def exec (c : Connector) : Event → Connector × Option Nat
  -- `runInLoop` calls the functor at once
  | .startHere savedErrno => ({ c with connect_ := true }.startInLoop savedErrno, none)
  | .start => ({ c with connect_ := true, posting := c.posting ++ [.startInLoop] }, none)
  | .stop => ({ c with connect_ := false, posting := c.posting ++ [.stopInLoop] }, none)
  | .post i =>
    match c.posting[i]? with
    | some f =>
      ({ c with posting := c.posting.eraseIdx i, pendingFunctors := c.pendingFunctors ++ [f] },
        none)
    | none => (c, none)
  | .restart savedErrno =>
    ({ c with
        state_ := .kDisconnected
        retryDelayMs_ := kInitRetryDelayMs
        connect_ := true }.startInLoop savedErrno, none)
  | .runFunctor savedErrno =>
    match c.pendingFunctors with
    | [] => (c, none)
    | f :: rest => ({ c with pendingFunctors := rest }.runFunctor savedErrno f, none)
  | .fireTimer i savedErrno =>
    if i < c.timers.length then
      ({ c with timers := c.timers.eraseIdx i }.startInLoop savedErrno, none)
    else (c, none)
  | .handleEvent revents optval =>
    if c.channel_.any (·.registered) then c.handleEvent revents optval else (c, none)

def step (c : Connector) (e : Event) : Connector := (c.exec e).1

/-! ## The law -/

/-- How often the connector has given a socket away. -/
def ended (c : Connector) (sockfd : Nat) : Nat := c.closed.count sockfd + c.handed.count sockfd

/-- The connector made the socket, and neither closed it nor handed it over. -/
def IsOpen (c : Connector) (sockfd : Nat) : Prop := sockfd < c.created ∧ c.ended sockfd = 0

instance (c : Connector) (sockfd : Nat) : Decidable (c.IsOpen sockfd) :=
  inferInstanceAs (Decidable (_ ∧ _))

/-- The connector owns at most one socket, the one of `channel_`. It never lost a
channel that the poller held, and gave every other socket away once. -/
structure OwnsOneAttempt (c : Connector) : Prop where
  one : ∀ sockfd sockfd', c.IsOpen sockfd → c.IsOpen sockfd' → sockfd = sockfd'
  held : ∀ sockfd, c.IsOpen sockfd → ∃ ch, c.channel_ = some ch ∧ ch.fd = sockfd
  kept : c.dangling = false
  once : ∀ sockfd < c.created, ¬c.IsOpen sockfd → c.ended sockfd = 1

/-- The result of the `::connect` that an event makes, if it makes one. -/
def connects (c : Connector) : Event → Option ConnectErrno
  | .startHere savedErrno => some savedErrno
  | .restart savedErrno => some savedErrno
  | .runFunctor savedErrno =>
    if c.connect_ ∧ c.pendingFunctors.head? = some .startInLoop then some savedErrno else none
  | .fireTimer i savedErrno =>
    if c.connect_ ∧ i < c.timers.length then some savedErrno else none
  | _ => none

/-- A `connect` comes after the attempt before it is over. When it needs a channel, it
also comes after the `resetChannel` of that attempt. -/
def ConnectsInTurn (c : Connector) (e : Event) : Prop :=
  ∀ savedErrno, c.connects e = some savedErrno →
    c.state_ ≠ .kConnecting ∧
      (branch savedErrno = .connecting → Functor.resetChannel ∉ c.pendingFunctors)

/-! ## The invariant -/

/-- An attempt is in flight: its socket is the only one left, and no `resetChannel` is
on its way to the channel. -/
structure Attempting (c : Connector) (ch : Channel) : Prop where
  channel_ : c.channel_ = some ch
  registered : ch.registered = true
  created : ch.fd < c.created
  mine : c.ended ch.fd = 0
  others : ∀ sockfd < c.created, sockfd ≠ ch.fd → c.ended sockfd = 1
  noReset : Functor.resetChannel ∉ c.pendingFunctors

/-- No attempt is in flight: every socket is gone, and the poller holds no channel. -/
structure Resting (c : Connector) : Prop where
  unregistered : ∀ ch, c.channel_ = some ch → ch.registered = false
  all : ∀ sockfd < c.created, c.ended sockfd = 1

structure Sound (c : Connector) : Prop where
  kept : c.dangling = false
  posted : Functor.resetChannel ∉ c.posting
  fresh : ∀ sockfd, c.created ≤ sockfd → c.ended sockfd = 0
  attempting : c.state_ = .kConnecting → ∃ ch, Attempting c ch
  resting : c.state_ ≠ .kConnecting → Resting c

theorem sound_new : Sound new where
  kept := rfl
  posted := List.not_mem_nil
  fresh := fun _ _ => rfl
  attempting := fun h => nomatch h
  resting := fun _ => ⟨(fun _ h => nomatch h), fun _ h => absurd h (Nat.not_lt_zero _)⟩

variable {c : Connector}

theorem Resting.unheld (h : Resting c) : c.channel_.any (·.registered) = false := by
  cases hch : c.channel_ with
  | none => rfl
  | some ch => exact h.unregistered ch hch

theorem Sound.attempt (h : Sound c) (hs : c.state_ = .kConnecting) {ch : Channel}
    (hch : c.channel_ = some ch) : Attempting c ch := by
  obtain ⟨ch', ha⟩ := h.attempting hs
  obtain rfl : ch' = ch := Option.some.inj (ha.channel_.symm.trans hch)
  exact ha

theorem ownsOneAttempt_of_sound (h : Sound c) : OwnsOneAttempt c := by
  by_cases hstate : c.state_ = .kConnecting
  · obtain ⟨ch, ha⟩ := h.attempting hstate
    have hopen : ∀ sockfd, c.IsOpen sockfd → sockfd = ch.fd := by
      intro sockfd ho
      by_contra hne
      have := ha.others sockfd ho.1 hne
      have := ho.2
      omega
    refine ⟨?_, ?_, h.kept, ?_⟩
    · intro sockfd sockfd' ho ho'
      rw [hopen sockfd ho, hopen sockfd' ho']
    · intro sockfd ho
      exact ⟨ch, ha.channel_, (hopen sockfd ho).symm⟩
    · intro sockfd hlt hgone
      refine ha.others sockfd hlt ?_
      rintro rfl
      exact hgone ⟨hlt, ha.mine⟩
  · have hr := h.resting hstate
    have hnone : ∀ sockfd, ¬c.IsOpen sockfd := by
      intro sockfd ho
      have := hr.all sockfd ho.1
      have := ho.2
      omega
    exact ⟨fun sockfd _ ho => absurd ho (hnone sockfd), fun sockfd ho => absurd ho (hnone sockfd),
      h.kept, fun sockfd hlt _ => hr.all sockfd hlt⟩

variable {connect_ : Bool} {state_ : States} {retryDelayMs_ : Nat}
  {posting pendingFunctors : List Functor} {timers closed handed : List Nat}

theorem sound_frame (h : Sound c) (hstate : state_ = .kConnecting ↔ c.state_ = .kConnecting)
    (hposted : Functor.resetChannel ∉ posting)
    (hreset : c.state_ = .kConnecting → Functor.resetChannel ∉ c.pendingFunctors →
      Functor.resetChannel ∉ pendingFunctors) :
    Sound { c with connect_, state_, retryDelayMs_, posting, pendingFunctors, timers } where
  kept := h.kept
  posted := hposted
  fresh := h.fresh
  attempting hs := by
    obtain ⟨ch, ha⟩ := h.attempting (hstate.mp hs)
    exact ⟨ch, { ha with noReset := hreset (hstate.mp hs) ha.noReset }⟩
  resting hs := { h.resting (fun hc => hs (hstate.mpr hc)) with }

/-! ## The end of an attempt -/

theorem count_concat (l : List Nat) (fd sockfd : Nat) :
    (l ++ [fd]).count sockfd = l.count sockfd + if sockfd = fd then 1 else 0 := by
  by_cases heq : sockfd = fd
  · simp [heq]
  · simp [heq, Ne.symm heq]

theorem ended_close (c : Connector) (fd sockfd : Nat) :
    (c.close fd).ended sockfd = c.ended sockfd + if sockfd = fd then 1 else 0 := by
  unfold ended close
  dsimp only
  rw [count_concat]
  omega

theorem retry_eq (c : Connector) (fd : Nat) : ∃ timers retryDelayMs_,
    c.retry fd = { c.close fd with state_ := .kDisconnected, timers, retryDelayMs_ } := by
  unfold retry
  dsimp only
  split <;> exact ⟨_, _, rfl⟩

theorem sound_end {ch : Channel} (h : Sound c) (ha : Attempting c ch)
    (hstate : state_ ≠ .kConnecting)
    (hended : ∀ sockfd, closed.count sockfd + handed.count sockfd =
      c.ended sockfd + if sockfd = ch.fd then 1 else 0) :
    Sound { c with
      state_
      channel_ := some { ch with registered := false }
      retryDelayMs_, pendingFunctors, timers, closed, handed } where
  kept := h.kept
  posted := h.posted
  fresh := by
    intro sockfd hle
    have hlt : ch.fd < sockfd := Nat.lt_of_lt_of_le ha.created hle
    exact (hended sockfd).trans (by rw [if_neg hlt.ne', h.fresh sockfd hle])
  attempting hs := absurd hs hstate
  resting _ := by
    refine ⟨?_, fun sockfd hlt => (hended sockfd).trans ?_⟩
    · intro ch' hch'
      cases hch'
      rfl
    · by_cases heq : sockfd = ch.fd
      · rw [if_pos heq, heq, ha.mine]
      · rw [if_neg heq, ha.others sockfd hlt heq]

theorem sound_end_retry {ch : Channel} (h : Sound c) (ha : Attempting c ch) :
    Sound ((c.removeAndResetChannel ch).retry ch.fd) := by
  obtain ⟨timers, retryDelayMs_, hretry⟩ := retry_eq (c.removeAndResetChannel ch) ch.fd
  rw [hretry]
  exact sound_end (c := c) h ha nofun (ended_close c ch.fd)

theorem sound_stopInLoop (h : Sound c) : Sound c.stopInLoop := by
  unfold stopInLoop
  split
  · rename_i ch hs hch
    exact sound_end (c := c) h (h.attempt hs hch) nofun (ended_close c ch.fd)
  · exact h

theorem sound_handleError (h : Sound c) : Sound c.handleError := by
  unfold handleError
  split
  · rename_i ch hs hch
    exact sound_end_retry h (h.attempt hs hch)
  · exact h

theorem sound_handleWrite (h : Sound c) (optval : Int) : Sound (c.handleWrite optval).1 := by
  unfold handleWrite
  split
  · rename_i ch hs hch
    have ha := h.attempt hs hch
    dsimp only
    split
    · exact sound_end_retry h ha
    · split
      · -- the socket is handed over, which counts as `close` does
        refine sound_end (c := c) h ha nofun (fun sockfd => ?_)
        rw [count_concat, ← Nat.add_assoc]
        rfl
      · exact sound_end (c := c) h ha nofun (ended_close c ch.fd)
  · exact h

theorem sound_handleEvent (h : Sound c) (revents : Events) (optval : Int) :
    Sound (c.handleEvent revents optval).1 := by
  unfold handleEvent
  have herror : Sound (if has revents EPOLLERR then c.handleError else c) := by
    split
    · exact sound_handleError h
    · exact h
  dsimp only
  split
  · exact sound_handleWrite herror optval
  · exact herror

/-! ## A new attempt -/

theorem sound_connect (h : Sound c) (savedErrno : ConnectErrno) (hstate : c.state_ ≠ .kConnecting)
    (hreset : branch savedErrno = .connecting → Functor.resetChannel ∉ c.pendingFunctors) :
    Sound (c.connect savedErrno) := by
  have hr := h.resting hstate
  have hnew : ∀ sockfd < c.created + 1, sockfd ≠ c.created → c.ended sockfd = 1 :=
    fun sockfd hlt hne => hr.all sockfd (by omega)
  -- the two branches that close the new socket at once
  have hclosed : ∀ state_ retryDelayMs_ timers, state_ ≠ .kConnecting →
      Sound { c with
        state_, retryDelayMs_, timers
        created := c.created + 1
        closed := c.closed ++ [c.created] } := by
    intro state_ retryDelayMs_ timers hs
    have hended := ended_close c c.created
    refine ⟨h.kept, h.posted, fun sockfd hle => (hended sockfd).trans ?_, fun hc => absurd hc hs,
      fun _ => ⟨hr.unregistered, fun sockfd hlt => (hended sockfd).trans ?_⟩⟩
    · rw [if_neg (Nat.ne_of_gt hle), h.fresh sockfd (Nat.le_of_succ_le hle)]
    · by_cases heq : sockfd = c.created
      · rw [if_pos heq, heq, h.fresh c.created (Nat.le_refl _)]
      · rw [if_neg heq, hnew sockfd hlt heq]
  unfold connect
  cases hb : branch savedErrno with
  | connecting =>
    refine ⟨?_, h.posted, ?_, fun _ => ⟨⟨c.created, true⟩, rfl, rfl, Nat.lt_succ_self _, ?_, hnew,
      hreset hb⟩, fun hc => absurd rfl hc⟩
    · dsimp only [connecting, setChannel]
      rw [h.kept, hr.unheld]
      rfl
    · intro sockfd hle
      exact h.fresh sockfd (Nat.le_of_succ_le hle)
    · exact h.fresh c.created (Nat.le_refl _)
  | retry =>
    obtain ⟨timers, retryDelayMs_, hretry⟩ := retry_eq { c with created := c.created + 1 } c.created
    dsimp only
    rw [hretry]
    exact hclosed _ _ _ (by decide)
  | close => exact hclosed _ _ _ hstate

theorem sound_startInLoop (h : Sound c) (savedErrno : ConnectErrno)
    (hturn : c.connect_ = true → c.state_ ≠ .kConnecting ∧
      (branch savedErrno = .connecting → Functor.resetChannel ∉ c.pendingFunctors)) :
    Sound (c.startInLoop savedErrno) :=
  guarded h fun hc => sound_connect h savedErrno (hturn hc).1 (hturn hc).2

theorem sound_resetChannel {rest : List Functor} (h : Sound c)
    (hfront : c.pendingFunctors = .resetChannel :: rest) :
    Sound { c with pendingFunctors := rest }.resetChannel := by
  have hstate : c.state_ ≠ .kConnecting := by
    intro hs
    obtain ⟨ch, ha⟩ := h.attempting hs
    exact ha.noReset (by rw [hfront]; exact List.mem_cons_self)
  have hr := h.resting hstate
  refine ⟨?_, h.posted, h.fresh, fun hs => absurd hs hstate, fun _ => ⟨(fun _ hch => nomatch hch),
    hr.all⟩⟩
  dsimp only [resetChannel, setChannel]
  rw [h.kept, hr.unheld]
  rfl

theorem sound_runFunctor {f : Functor} {rest : List Functor} (h : Sound c)
    (hfront : c.pendingFunctors = f :: rest) (savedErrno : ConnectErrno)
    (hturn : ConnectsInTurn c (.runFunctor savedErrno)) :
    Sound ({ c with pendingFunctors := rest }.runFunctor savedErrno f) := by
  have hsub : Functor.resetChannel ∉ c.pendingFunctors → Functor.resetChannel ∉ rest := by
    intro hnot hin
    exact hnot (by rw [hfront]; exact List.mem_cons_of_mem f hin)
  have hrest : Sound { c with pendingFunctors := rest } :=
    sound_frame h Iff.rfl h.posted (fun _ => hsub)
  cases f with
  | startInLoop =>
    refine sound_startInLoop hrest savedErrno (fun hc => ?_)
    have hconnects : c.connects (.runFunctor savedErrno) = some savedErrno :=
      if_pos ⟨hc, by rw [hfront]; rfl⟩
    obtain ⟨hstate, hreset⟩ := hturn savedErrno hconnects
    exact ⟨hstate, fun hb => hsub (hreset hb)⟩
  | stopInLoop => exact sound_stopInLoop hrest
  | resetChannel => exact sound_resetChannel h hfront

theorem sound_step (c : Connector) (e : Event) (hturn : ConnectsInTurn c e) (h : Sound c) :
    Sound (c.step e) := by
  unfold step
  cases e with
  | startHere savedErrno =>
    have hsound : Sound { c with connect_ := true } :=
      sound_frame h Iff.rfl h.posted (fun _ => id)
    exact sound_startInLoop hsound savedErrno (fun _ => hturn savedErrno rfl)
  | start | stop =>
    refine sound_frame h Iff.rfl ?_ (fun _ => id)
    simpa [exec] using h.posted
  | post i =>
    dsimp only [exec]
    split
    · rename_i f hf
      have hne : f ≠ .resetChannel := by
        rintro rfl
        exact h.posted (List.mem_of_getElem? hf)
      refine sound_frame h Iff.rfl ?_ (fun _ hnot => ?_)
      · exact fun hin => h.posted (List.mem_of_mem_eraseIdx hin)
      · simpa [hnot] using hne.symm
    · exact h
  | restart savedErrno =>
    obtain ⟨hstate, hreset⟩ := hturn savedErrno rfl
    have hrestart : Sound { c with
        state_ := .kDisconnected, retryDelayMs_ := kInitRetryDelayMs, connect_ := true } :=
      sound_frame h (iff_of_false (by decide) hstate) h.posted (fun _ => id)
    exact sound_startInLoop hrestart savedErrno (fun _ => ⟨(fun hc => nomatch hc), hreset⟩)
  | runFunctor savedErrno =>
    dsimp only [exec]
    split
    · exact h
    · rename_i f rest hfront
      exact sound_runFunctor h hfront savedErrno hturn
  | fireTimer i savedErrno =>
    dsimp only [exec]
    split
    · rename_i hi
      refine sound_startInLoop ?_ savedErrno (fun hc => hturn savedErrno (if_pos ⟨hc, hi⟩))
      exact sound_frame h Iff.rfl h.posted (fun _ => id)
    · exact h
  | handleEvent revents optval =>
    dsimp only [exec]
    split
    · exact sound_handleEvent h revents optval
    · exact h

/-! ## Whole runs -/

instance (c : Connector) (e : Event) : Decidable (ConnectsInTurn c e) :=
  match h : c.connects e with
  | none => isTrue (fun _ hc => nomatch h.symm.trans hc)
  | some savedErrno =>
    decidable_of_iff (c.state_ ≠ .kConnecting ∧
        (branch savedErrno = .connecting → Functor.resetChannel ∉ c.pendingFunctors))
      ⟨fun hturn e' he => by cases h.symm.trans he; exact hturn, fun hturn => hturn savedErrno h⟩

/-- When each `connect` of a run comes in turn, the connector owns at most one attempt
in every state that the run reaches. -/
theorem connector_owns_one_attempt (events : List Event)
    (hturn : Meets step ConnectsInTurn new events) : OwnsOneAttempt (run step new events) :=
  ownsOneAttempt_of_sound (invariant_run sound_step hturn sound_new)

/-- A refused attempt, its retry timer, and a second attempt that is handed over. -/
theorem connector_owns_one_attempt_after_retry :
    OwnsOneAttempt (run step new [.startHere .EINPROGRESS, .handleEvent EPOLLERR 111,
      .runFunctor .zero, .fireTimer 0 .EINPROGRESS, .handleEvent EPOLLOUT 0]) :=
  connector_owns_one_attempt _ (by decide)

/-- A second `start` while the first attempt is in flight replaces a channel that the
poller holds, and leaves its socket open. A `start` from `newConnectionCallback_` loses
its channel to the `resetChannel` of the attempt before. -/
theorem connector_owns_two_attempts :
    ¬OwnsOneAttempt (run step new [.startHere .EINPROGRESS, .startHere .EINPROGRESS]) ∧
      ¬OwnsOneAttempt (run step new [.startHere .EINPROGRESS, .handleEvent EPOLLOUT 0,
        .startHere .EINPROGRESS, .runFunctor .zero]) := by
  refine ⟨fun h => ?_, fun h => ?_⟩
  · exact absurd (h.one 0 1 (by decide) (by decide)) (by decide)
  · exact absurd h.kept (by decide)

end Connector

end mymuduo.connector
