-- The life of a connection (src/net/TcpConnection.cc, src/net/Channel.cc). Two functions
-- tell the user that the connection is down, each under its own condition, and one
-- event mask can reach the close twice.
import Mymuduo.EPollPoller
import Mymuduo.TcpOutput

open List runs bytes
open mymuduo.epoll_poller (Events EPOLLIN EPOLLPRI EPOLLOUT EPOLLERR EPOLLHUP has)

namespace mymuduo.tcp_connection

/-! ## What the user does and hears -/

/-- The calls of the user in the loop thread, with the results of their system
calls. -/
inductive Act
  | send (data : Bytes) (w : SysResult)
  | sendIov (slices : List Bytes) (w : SysResult)
  | sendFile (pf : PendingFile) (rs : List SysResult)
  | shutdown

def TcpConnection.act (c : TcpConnection) : Act → TcpConnection
  | .send data w => c.send data w
  | .sendIov slices w => c.sendIov slices w
  | .sendFile pf rs => c.sendFile pf rs
  | .shutdown => c.shutdown

/-- A call of `connectionCallback_`, with what `connected()` says in it, or of
`closeCallback_`. -/
inductive Notice
  | connection (connected : Bool)
  | close
  deriving DecidableEq, Repr

/-! ## Events -/

/-- What `readFd` gives back: more than 0, 0, or less than 0. -/
inductive ReadResult
  | data
  | eof
  | error
  deriving DecidableEq, Repr

/-- The calls that a dispatch makes one after the other. `closed` is the second
half of `handleClose`, the call of `closeCallback_`: the user code of
`connectionCallback_` runs before it. -/
inductive Handler
  | handleClose
  | closed
  | handleError
  | handleRead (n : ReadResult)
  | handleWrite (w : SysResult) (rs : List SysResult)
  deriving DecidableEq, Repr

/-- `handleEventWithGuard`: the handlers that it calls for a mask. -/
def handleEventWithGuard (revents : Events) (n : ReadResult) (w : SysResult)
    (rs : List SysResult) : List Handler :=
  (if has revents EPOLLHUP && !has revents EPOLLIN then [.handleClose] else []) ++
  (if has revents EPOLLERR then [.handleError] else []) ++
  (if has revents (EPOLLIN ||| EPOLLPRI) then [.handleRead n] else []) ++
  (if has revents EPOLLOUT then [.handleWrite w rs] else [])

/-- A connection with the read interest of its channel, the handlers that the
dispatch in progress still has to call, and the notices so far. -/
structure Lifecycle where
  conn : TcpConnection
  isReading : Bool
  dispatch : List Handler
  notices : List Notice

namespace Lifecycle

def connected (s : Lifecycle) : Bool := s.conn.state_ = .kConnected

def connectionCallback (s : Lifecycle) : Lifecycle :=
  { s with notices := s.notices ++ [.connection s.connected] }

/-- `connectEstablished`, for a connection with no output yet. -/
def connectEstablished (mark : Nat) (onComplete onHighWater : Bool) : Lifecycle :=
  connectionCallback
    { conn := .established mark onComplete onHighWater, isReading := true, dispatch := [],
      notices := [] }

/-- `setState(kDisconnected); channel_->disableAll(); connectionCallback_(...)` -/
def goDown (s : Lifecycle) : Lifecycle :=
  connectionCallback { s with conn := s.conn.handleClose, isReading := false }

/-- `connectDestroyed`, with the calls that the user makes in its callback. -/
def connectDestroyed (s : Lifecycle) (acts : List Act) : Lifecycle :=
  if s.conn.state_ = .kConnected then
    let s := s.goDown
    { s with conn := run TcpConnection.act s.conn acts }
  else s

def handleClose (s : Lifecycle) : Lifecycle :=
  let s := s.goDown
  { s with dispatch := .closed :: s.dispatch }

/-- `messageCallback_` is user code: its calls come as steps of their own. -/
def handleRead (s : Lifecycle) : ReadResult → Lifecycle
  | .data => s
  | .eof => s.handleClose
  -- `handleError` reads `SO_ERROR` and logs it
  | .error => s

def call (s : Lifecycle) : Handler → Lifecycle
  | .handleClose => s.handleClose
  | .closed => { s with notices := s.notices ++ [.close] }
  | .handleError => s
  | .handleRead n => s.handleRead n
  | .handleWrite w rs => { s with conn := s.conn.handleWrite w rs }

/-- What can happen between `connectEstablished` and `connectDestroyed`: the poller
starts a dispatch, the dispatch makes its next call, or user code calls the
connection, from a callback or from a functor. -/
inductive Step
  | handleEvent (revents : Events) (n : ReadResult) (w : SysResult) (rs : List SysResult)
  | next
  | act (a : Act)

/-- The poller reports only channels with an interest, one event at a time. -/
def step (s : Lifecycle) : Step → Lifecycle
  | .handleEvent revents n w rs =>
    match s.dispatch with
    | [] =>
      if s.isReading || s.conn.isWriting then
        { s with dispatch := handleEventWithGuard revents n w rs }
      else s
    | _ :: _ => s
  | .next =>
    match s.dispatch with
    | [] => s
    | h :: rest => { s with dispatch := rest }.call h
  | .act a => { s with conn := s.conn.act a }

/-! ## The law -/

def ups (s : Lifecycle) : Nat := s.notices.count (.connection true)

def downs (s : Lifecycle) : Nat := s.notices.count (.connection false)

def closes (s : Lifecycle) : Nat := s.notices.count .close

/-- One notice that the connection is up, one that it is down, and at most one call
of `closeCallback_`. -/
def Paired (s : Lifecycle) : Prop := s.ups = 1 ∧ s.downs = 1 ∧ s.closes ≤ 1

/-- A read that finds the end of the stream finds the connection not down yet. -/
def ReadsEndOnce (s : Lifecycle) : Step → Prop
  | .next => ∀ rest, s.dispatch = .handleRead .eof :: rest → s.conn.state_ ≠ .kDisconnected
  | _ => True

/-! ## What the calls of the user do -/

/-- User code leaves the state alone or starts the close. It changes no interest of a
connection that is down. -/
structure Kept (c c' : TcpConnection) : Prop where
  live : c.Live → c'.Live
  down : c.state_ = .kDisconnected → c'.state_ = .kDisconnected ∧ c'.isWriting = c.isWriting

theorem kept_refl (c : TcpConnection) : Kept c c := ⟨id, fun h => ⟨h, rfl⟩⟩

theorem kept_of_state {c c' : TcpConnection} (hstate : c'.state_ = c.state_)
    (hdown : c.state_ ≠ .kDisconnected) : Kept c c' := by
  refine ⟨fun h => ?_, fun h => absurd h hdown⟩
  unfold TcpConnection.Live at h ⊢
  rwa [hstate]

theorem act_kept (c : TcpConnection) (a : Act) : Kept c (c.act a) := by
  by_cases hs : c.state_ = .kConnected
  · have hdown : c.state_ ≠ .kDisconnected := by rw [hs]; decide
    cases a with
    | send data w =>
      obtain ⟨now, later, htook, _⟩ := TcpConnection.sendInLoop_took c data w hdown
      refine kept_of_state ?_ hdown
      dsimp only [TcpConnection.act]
      rw [TcpConnection.send_up hs]
      exact htook.state_
    | sendIov slices w =>
      obtain ⟨now, later, htook, _⟩ := TcpConnection.sendIov_took c slices w hs
      exact kept_of_state htook.state_ hdown
    | sendFile pf rs => exact kept_of_state (TcpConnection.sendFile_adds c pf rs hs).1 hdown
    | shutdown =>
      exact ⟨fun _ => Or.inr (TcpConnection.shutdown_up hs).1, fun h => absurd h hdown⟩
  · cases a with
    | send data w =>
      dsimp only [TcpConnection.act]
      rw [TcpConnection.send_down hs]
      exact kept_refl c
    | sendIov slices w =>
      dsimp only [TcpConnection.act]
      rw [TcpConnection.sendIov_down hs]
      exact kept_refl c
    | sendFile pf rs =>
      -- the connection only closes the descriptor
      dsimp only [TcpConnection.act, TcpConnection.sendFile]
      rw [if_pos (Or.inl hs)]
      split
      · exact ⟨id, fun h => ⟨h, rfl⟩⟩
      · exact kept_refl c
    | shutdown =>
      dsimp only [TcpConnection.act]
      rw [TcpConnection.shutdown_down hs]
      exact kept_refl c

/-! ## The invariant -/

/-- The notices agree with the interest of the channel. Each notice that the
connection is down has its call of `closeCallback_`, made or still to be made. The
`handleClose` of a dispatch is its first call, on a connection that is not down. -/
structure Sound (s : Lifecycle) : Prop where
  ups : s.ups = 1
  closes : s.closes + s.dispatch.count .closed = s.downs
  up : s.isReading = true → s.conn.Live ∧ s.downs = 0
  down : s.isReading = false →
    s.conn.state_ = .kDisconnected ∧ s.conn.isWriting = false ∧ 1 ≤ s.downs
  first : Handler.handleClose ∉ s.dispatch.tail
  fresh : ∀ rest, s.dispatch = .handleClose :: rest → s.isReading = true

theorem sound_connectEstablished (mark : Nat) (onComplete onHighWater : Bool) :
    Sound (connectEstablished mark onComplete onHighWater) where
  ups := rfl
  closes := rfl
  up := fun _ => ⟨Or.inl rfl, rfl⟩
  down := fun h => nomatch h
  first := List.not_mem_nil
  fresh := fun _ _ => rfl

theorem downs_goDown (s : Lifecycle) : s.goDown.downs = s.downs + 1 := by
  simp [downs, goDown, connectionCallback, connected, TcpConnection.handleClose]

theorem ups_goDown (s : Lifecycle) : s.goDown.ups = s.ups := by
  simp [ups, goDown, connectionCallback, connected, TcpConnection.handleClose]

theorem closes_goDown (s : Lifecycle) : s.goDown.closes = s.closes := by
  simp [closes, goDown, connectionCallback]

variable {s : Lifecycle}

theorem sound_handleClose (h : Sound s) (hclear : Handler.handleClose ∉ s.dispatch) :
    Sound s.handleClose where
  ups := (ups_goDown s).trans h.ups
  closes := by
    have hdowns : s.handleClose.downs = s.downs + 1 := downs_goDown s
    have hcloses : s.handleClose.closes = s.closes := closes_goDown s
    have hcount : s.handleClose.dispatch.count .closed = s.dispatch.count .closed + 1 :=
      count_cons_self
    have := h.closes
    omega
  up := fun hreading => nomatch hreading
  down := fun _ => ⟨rfl, rfl, by rw [show s.handleClose.downs = _ from downs_goDown s]; omega⟩
  first := hclear
  fresh := fun _ hd => nomatch hd

theorem sound_conn (h : Sound s) {c : TcpConnection} (hc : Kept s.conn c) :
    Sound { s with conn := c } where
  ups := h.ups
  closes := h.closes
  up := fun hreading => ⟨hc.live (h.up hreading).1, (h.up hreading).2⟩
  down := by
    intro hreading
    obtain ⟨hstate, hwriting, hdowns⟩ := h.down hreading
    obtain ⟨hstate', hwriting'⟩ := hc.down hstate
    exact ⟨hstate', hwriting'.trans hwriting, hdowns⟩
  first := h.first
  fresh := h.fresh

theorem sound_handleWrite (h : Sound s) (w : SysResult) (rs : List SysResult) :
    Sound { s with conn := s.conn.handleWrite w rs } := by
  apply sound_conn h
  obtain ⟨⟨now, hwrote⟩, _⟩ := TcpConnection.handleWrite_wrote s.conn w rs
  by_cases hreading : s.isReading = true
  · refine kept_of_state hwrote.state_ ?_
    rcases (h.up hreading).1 with hup | hup <;> rw [hup] <;> decide
  · -- the channel of a connection that is down has no write interest
    have hidle := (h.down (by simpa using hreading)).2.1
    rw [TcpConnection.handleWrite_idle (by simp [hidle])]
    exact kept_refl s.conn

theorem sound_dispatch (h : Sound s) {hs : List Handler}
    (hcount : hs.count .closed = s.dispatch.count .closed) (hfirst : Handler.handleClose ∉ hs.tail)
    (hfresh : ∀ rest, hs = .handleClose :: rest → s.isReading = true) :
    Sound { s with dispatch := hs } where
  ups := h.ups
  closes := by
    have hcloses := h.closes
    rw [← hcount] at hcloses
    exact hcloses
  up := h.up
  down := h.down
  first := hfirst
  fresh := hfresh

theorem sound_rest {handler : Handler} {rest : List Handler} (h : Sound s)
    (hd : s.dispatch = handler :: rest) (hne : handler ≠ .closed) :
    Sound { s with dispatch := rest } ∧ Handler.handleClose ∉ rest := by
  have hclear : Handler.handleClose ∉ rest := by
    have hfirst := h.first
    rwa [hd] at hfirst
  refine ⟨sound_dispatch h ?_ (fun hin => hclear (mem_of_mem_tail hin)) ?_, hclear⟩
  · rw [hd, count_cons_of_ne hne]
  · intro rest' hrest
    exact absurd (by rw [hrest]; exact mem_cons_self) hclear

theorem sound_closed {rest : List Handler} (h : Sound s) (hd : s.dispatch = .closed :: rest) :
    Sound { s with dispatch := rest, notices := s.notices ++ [.close] } where
  ups := by
    have hups := h.ups
    simpa [Lifecycle.ups] using hups
  closes := by
    have hcloses := h.closes
    rw [hd, count_cons_self] at hcloses
    simp only [Lifecycle.closes, downs, count_append, count_singleton_self] at hcloses ⊢
    have hdowns : [Notice.close].count (.connection false) = 0 := rfl
    omega
  up := by
    have hup := h.up
    simpa [downs] using hup
  down := by
    have hdown := h.down
    simpa [downs] using hdown
  first := by
    have hfirst := h.first
    rw [hd] at hfirst
    exact fun hin => hfirst (mem_of_mem_tail hin)
  fresh := by
    intro rest' hrest
    have hfirst := h.first
    rw [hd] at hfirst
    exact absurd (by rw [tail_cons, show rest = _ from hrest]; exact mem_cons_self) hfirst

/-! ## One step -/

/-- A dispatch holds no call of `closeCallback_` at its start, and a `handleClose` only
as its first call. -/
theorem handleEventWithGuard_shape (revents : Events) (n : ReadResult) (w : SysResult)
    (rs : List SysResult) :
    (handleEventWithGuard revents n w rs).count .closed = 0 ∧
      Handler.handleClose ∉ (handleEventWithGuard revents n w rs).tail := by
  unfold handleEventWithGuard
  split <;> split <;> split <;> split <;> simp

theorem sound_step (s : Lifecycle) (a : Step) (h : Sound s) : Sound (s.step a) := by
  cases a with
  | handleEvent revents n w rs =>
    dsimp only [step]
    split
    · rename_i hidle
      split
      · rename_i hinterest
        obtain ⟨hcount, hfirst⟩ := handleEventWithGuard_shape revents n w rs
        refine sound_dispatch h ?_ hfirst ?_
        · rw [hcount, hidle]
          rfl
        · intro _ _
          by_contra hreading
          have hwriting := (h.down (by simpa using hreading)).2.1
          simp [hwriting, hreading] at hinterest
      · exact h
    · exact h
  | next =>
    dsimp only [step]
    split
    · exact h
    · rename_i handler rest hd
      by_cases hclosed : handler = .closed
      · subst hclosed
        have hsound := sound_closed h hd
        exact hsound
      · obtain ⟨hrest, hclear⟩ := sound_rest h hd hclosed
        cases handler with
        | handleClose => exact sound_handleClose hrest hclear
        | closed => exact absurd rfl hclosed
        | handleError => exact hrest
        | handleRead n =>
          cases n with
          | data | error => exact hrest
          | eof => exact sound_handleClose hrest hclear
        | handleWrite w rs => exact sound_handleWrite hrest w rs
  | act a => exact sound_conn h (act_kept s.conn a)

theorem downs_call (s : Lifecycle) (handler : Handler) :
    (s.call handler).downs = s.downs +
      if handler = .handleClose ∨ handler = .handleRead .eof then 1 else 0 := by
  cases handler with
  | handleClose => exact downs_goDown s
  | closed => simp [call, downs]
  | handleError | handleWrite w rs => rfl
  | handleRead n =>
    cases n with
    | data | error => rfl
    | eof => exact downs_goDown s

/-- A second notice comes exactly from a read at the end of the stream that finds the
connection down. -/
theorem downs_step_iff (s : Lifecycle) (a : Step) (h : Sound s) :
    (s.step a).downs ≤ 1 ↔ s.downs ≤ 1 ∧ s.ReadsEndOnce a := by
  cases a with
  | handleEvent revents n w rs =>
    have hsame : (s.step (.handleEvent revents n w rs)).downs = s.downs := by
      dsimp only [step]
      split
      · split <;> rfl
      · rfl
    rw [hsame]
    simp [ReadsEndOnce]
  | next =>
    dsimp only [step, ReadsEndOnce]
    split
    · rename_i hd
      simp [hd]
    · rename_i handler rest hd
      rw [downs_call, hd]
      change s.downs + _ ≤ 1 ↔ _
      have hdown : s.conn.state_ ≠ .kDisconnected ↔ s.downs = 0 := by
        by_cases hreading : s.isReading = true
        · obtain ⟨hlive, hdowns⟩ := h.up hreading
          refine iff_of_true ?_ hdowns
          rcases hlive with hup | hup <;> rw [hup] <;> decide
        · obtain ⟨hstate, -, hdowns⟩ := h.down (by simpa using hreading)
          exact iff_of_false (fun hne => hne hstate) (by omega)
      by_cases hclose : handler = .handleClose
      · subst hclose
        have hzero := (h.up (h.fresh rest hd)).2
        simp [hzero]
      · by_cases heof : handler = .handleRead .eof
        · subst heof
          simp only [or_true, if_true, List.cons.injEq, true_and, forall_eq', hdown]
          omega
        · simp [hclose, heof]
  | act a => simp [step, ReadsEndOnce, downs]

/-- No step behind `connectEstablished` tells the user that the connection is up. -/
theorem step_notices (s : Lifecycle) (a : Step) :
    ∃ new, (s.step a).notices = s.notices ++ new ∧ Notice.connection true ∉ new := by
  have hsame : ∃ new, s.notices = s.notices ++ new ∧ Notice.connection true ∉ new :=
    ⟨[], (append_nil _).symm, not_mem_nil⟩
  have hdown : ∃ new, s.goDown.notices = s.notices ++ new ∧ Notice.connection true ∉ new :=
    ⟨[.connection false], rfl, by decide⟩
  cases a with
  | handleEvent revents n w rs =>
    dsimp only [step]
    split
    · split <;> exact hsame
    · exact hsame
  | next =>
    dsimp only [step]
    split
    · exact hsame
    · rename_i handler rest hd
      cases handler with
      | handleClose => exact hdown
      | closed => exact ⟨[.close], rfl, by decide⟩
      | handleError | handleWrite w rs => exact hsame
      | handleRead n =>
        cases n with
        | data | error => exact hsame
        | eof => exact hdown
  | act a => exact hsame

theorem connectDestroyed_notices (s : Lifecycle) (acts : List Act) :
    ∃ new, (s.connectDestroyed acts).notices = s.notices ++ new ∧
      Notice.connection true ∉ new := by
  unfold connectDestroyed
  split
  · exact ⟨[.connection false], rfl, by decide⟩
  · exact ⟨[], (append_nil _).symm, not_mem_nil⟩

/-! ## Whole lives -/

/-- `connectDestroyed` completes the notices of a connection that is not in its
half-close, when it has not told of the end twice. -/
theorem paired_connectDestroyed_iff (h : Sound s) (acts : List Act) :
    Paired (s.connectDestroyed acts) ↔ s.downs ≤ 1 ∧ s.conn.state_ ≠ .kDisconnecting := by
  have hcloses := h.closes
  have hups := h.ups
  unfold connectDestroyed
  by_cases hreading : s.isReading = true
  · obtain ⟨hlive, hdowns⟩ := h.up hreading
    rcases hlive with hstate | hstate
    · rw [if_pos hstate]
      refine iff_of_true ⟨(ups_goDown s).trans hups, ?_, ?_⟩ ⟨by omega, by rw [hstate]; decide⟩
      · exact (downs_goDown s).trans (by rw [hdowns])
      · exact (closes_goDown s).trans_le (by omega)
    · rw [if_neg (by rw [hstate]; decide)]
      refine iff_of_false (fun hp => ?_) (fun hc => hc.2 hstate)
      have := hp.2.1
      omega
  · obtain ⟨hstate, -, hdowns⟩ := h.down (by simpa using hreading)
    have hne : s.conn.state_ ≠ .kDisconnecting := by rw [hstate]; decide
    rw [if_neg (by rw [hstate]; decide)]
    constructor
    · intro hp
      exact ⟨hp.2.1.le, hne⟩
    · intro hc
      exact ⟨hups, by omega, by omega⟩

/-- From `connectEstablished` to `connectDestroyed`, the user hears once that the
connection is up and once that it is down, exactly when no read finds the end of the
stream on a connection that is down already, and `connectDestroyed` does not find the
connection in its half-close. -/
theorem notices_are_paired_iff (mark : Nat) (onComplete onHighWater : Bool) (steps : List Step)
    (acts : List Act) :
    Paired ((run step (connectEstablished mark onComplete onHighWater) steps).connectDestroyed
        acts) ↔
      Meets step ReadsEndOnce (connectEstablished mark onComplete onHighWater) steps ∧
        (run step (connectEstablished mark onComplete onHighWater) steps).conn.state_ ≠
          .kDisconnecting := by
  have hstart := sound_connectEstablished mark onComplete onHighWater
  have hlaw := law_run_iff (fun s : Lifecycle => s.downs ≤ 1) sound_step downs_step_iff hstart steps
  have hone : (connectEstablished mark onComplete onHighWater).downs ≤ 1 := Nat.zero_le 1
  rw [paired_connectDestroyed_iff (invariant_always sound_step hstart steps), hlaw]
  simp only [hone, true_and]

/-- A connection in its half-close is destroyed without a notice. One that hangs up
with urgent data, and whose read finds the end of the stream, is told to be down twice
and closed twice. -/
theorem notices_are_not_paired :
    ¬Paired ((run step (connectEstablished 100 true true) [.act .shutdown]).connectDestroyed []) ∧
      ¬Paired ((run step (connectEstablished 100 true true)
        [.handleEvent (EPOLLHUP ||| EPOLLPRI) .eof (.ok 0) [], .next, .next, .next,
          .next]).connectDestroyed []) := by
  refine ⟨fun h => ?_, fun h => ?_⟩ <;> exact absurd h.2.1 (by decide)

end Lifecycle

end mymuduo.tcp_connection
