-- The poller and the interest of its channels (src/net/EPollPoller.cc,
-- src/net/Channel.h). A channel keeps its event mask and a three-valued index,
-- the poller keeps the map `channels_`, and the kernel keeps the epoll set. Each
-- call on a channel changes all of them through different branches.
import Mymuduo.Runs

open runs
open Function (forall_update_iff update_self update_of_ne)

namespace mymuduo.epoll_poller

/-! ## Channels -/

abbrev Events := BitVec 32

def EPOLLIN : Events := 0x001
def EPOLLPRI : Events := 0x002
def EPOLLOUT : Events := 0x004
def EPOLLERR : Events := 0x008
def EPOLLHUP : Events := 0x010

def has (revents flags : Events) : Bool := revents &&& flags != 0

def kNoneEvent : Events := 0
def kReadEvent : Events := EPOLLIN ||| EPOLLPRI
def kWriteEvent : Events := EPOLLOUT

inductive Index
  | kNew
  | kAdded
  | kDeleted
  deriving DecidableEq, Repr

/-- `removed` says that the last call on the channel was `remove`. The code has no
such field, and no function here reads it. -/
structure Channel where
  events_ : Events := kNoneEvent
  index_ : Index := .kNew
  removed : Bool := false
  deriving DecidableEq, Repr

def Channel.isNoneEvent (ch : Channel) : Bool := ch.events_ = kNoneEvent

inductive Call
  | enableReading
  | disableReading
  | enableWriting
  | disableWriting
  | disableAll
  | remove
  deriving DecidableEq, Repr

/-! ## The poller -/

inductive Ctl
  | ADD
  | MOD
  | DEL
  deriving DecidableEq, Repr

/-- The channels of one loop, named by `ι`, with the poller and the epoll set of the
kernel. An entry of the set has the mask and the channel pointer of its
`epoll_event`. `failed` lists the `epoll_ctl` calls that the kernel refused. -/
structure Poller (ι : Type*) where
  channel : ι → Channel
  channels_ : Int → Option ι
  epoll : Int → Option (Events × ι)
  failed : List (Ctl × Int)

section Model

variable {ι : Type*} [DecidableEq ι] (fd : ι → Int)

def Poller.start : Poller ι where
  channel := fun _ => {}
  channels_ := fun _ => none
  epoll := fun _ => none
  failed := []

namespace Poller

def setChannel (p : Poller ι) (c : ι) (ch : Channel) : Poller ι :=
  { p with channel := Function.update p.channel c ch }

def setIndex (p : Poller ι) (c : ι) (index : Index) : Poller ι :=
  p.setChannel c { p.channel c with index_ := index }

/-- `update(operation, channel)`. The kernel refuses an `ADD` of a descriptor that is
in the set, and a `MOD` or `DEL` of one that is not. -/
def update (p : Poller ι) (operation : Ctl) (c : ι) : Poller ι :=
  let event := ((p.channel c).events_, c)
  if operation = .ADD ↔ (p.epoll (fd c)).isSome then
    { p with failed := p.failed ++ [(operation, fd c)] }
  else
    { p with
      epoll := Function.update p.epoll (fd c) (if operation = .DEL then none else some event) }

def updateChannel (p : Poller ι) (c : ι) : Poller ι :=
  match (p.channel c).index_ with
  | .kNew =>
    let p := { p with channels_ := Function.update p.channels_ (fd c) (some c) }
    (p.setIndex c .kAdded).update fd .ADD c
  | .kDeleted => (p.setIndex c .kAdded).update fd .ADD c
  | .kAdded =>
    if (p.channel c).isNoneEvent then (p.update fd .DEL c).setIndex c .kDeleted
    else p.update fd .MOD c

def removeChannel (p : Poller ι) (c : ι) : Poller ι :=
  let p := { p with channels_ := Function.update p.channels_ (fd c) none }
  let p := if (p.channel c).index_ = .kAdded then p.update fd .DEL c else p
  p.setIndex c .kNew

def setEvents (p : Poller ι) (c : ι) (events : Events) : Poller ι :=
  (p.setChannel c { p.channel c with events_ := events, removed := false }).updateChannel fd c

def step (p : Poller ι) (call : ι × Call) : Poller ι :=
  let c := call.1
  let events := (p.channel c).events_
  match call.2 with
  | .enableReading => p.setEvents fd c (events ||| kReadEvent)
  | .disableReading => p.setEvents fd c (events &&& ~~~kReadEvent)
  | .enableWriting => p.setEvents fd c (events ||| kWriteEvent)
  | .disableWriting => p.setEvents fd c (events &&& ~~~kWriteEvent)
  | .disableAll => p.setEvents fd c kNoneEvent
  | .remove => (p.setChannel c { p.channel c with removed := true }).removeChannel fd c

end Poller

/-! ## One channel at a time -/

/-- What the epoll set has for a channel. -/
def Channel.entry (ch : Channel) (c : ι) : Option (Events × ι) :=
  if ch.index_ = .kAdded then some (ch.events_, c) else none

/-- What `channels_` has for a channel. -/
def Channel.known (ch : Channel) (c : ι) : Option ι :=
  if ch.index_ = .kNew then none else some c

def Channel.maskAfter (ch : Channel) : Call → Events
  | .enableReading => ch.events_ ||| kReadEvent
  | .disableReading => ch.events_ &&& ~~~kReadEvent
  | .enableWriting => ch.events_ ||| kWriteEvent
  | .disableWriting => ch.events_ &&& ~~~kWriteEvent
  | .disableAll => kNoneEvent
  | .remove => ch.events_

def Channel.updated (ch : Channel) (events : Events) : Channel where
  events_ := events
  index_ := if ch.index_ = .kAdded ∧ events = kNoneEvent then .kDeleted else .kAdded
  removed := false

def Channel.after (ch : Channel) (call : Call) : Channel :=
  if call = .remove then { ch with index_ := .kNew, removed := true }
  else ch.updated (ch.maskAfter call)

/-- One channel is changed, and the two sets at its descriptor to match. -/
def Poller.put (p : Poller ι) (c : ι) (ch : Channel) : Poller ι :=
  { p with
    channel := Function.update p.channel c ch
    channels_ := Function.update p.channels_ (fd c) (ch.known c)
    epoll := Function.update p.epoll (fd c) (ch.entry c) }

/-- The index of a channel says whether the kernel and `channels_` have it, and no
`epoll_ctl` call was refused. -/
structure Registered (p : Poller ι) : Prop where
  epoll : ∀ c, p.epoll (fd c) = (p.channel c).entry c
  channels_ : ∀ c, p.channels_ (fd c) = (p.channel c).known c
  no_other : ∀ f, (∀ c, fd c ≠ f) → p.epoll f = none ∧ p.channels_ f = none
  none_failed : p.failed = []

omit [DecidableEq ι] in
theorem registered_start : Registered fd (Poller.start : Poller ι) :=
  ⟨fun _ => rfl, fun _ => rfl, fun _ _ => ⟨rfl, rfl⟩, rfl⟩

variable {fd}

theorem update_at_fd (hfd : Function.Injective fd) {β : Type*} {held : Int → β}
    {of : Channel → ι → β} {channel : ι → Channel} (h : ∀ d, held (fd d) = of (channel d) d) (c : ι)
    (ch : Channel) (d : ι) :
    Function.update held (fd c) (of ch c) (fd d) = of (Function.update channel c ch d) d := by
  by_cases hd : d = c
  · subst hd
    rw [update_self, update_self]
  · rw [update_of_ne (fun he => hd (hfd he)), update_of_ne hd]
    exact h d

theorem registered_put (hfd : Function.Injective fd) {p : Poller ι} (h : Registered fd p) (c : ι)
    (ch : Channel) : Registered fd (p.put fd c ch) := by
  refine ⟨?_, ?_, ?_, h.none_failed⟩
  · exact update_at_fd hfd h.epoll c ch
  · exact update_at_fd hfd h.channels_ c ch
  · intro f hf
    dsimp only [Poller.put]
    rw [update_of_ne (hf c).symm, update_of_ne (hf c).symm]
    exact h.no_other f hf

theorem setEvents_eq {p : Poller ι} (h : Registered fd p) (c : ι) (events : Events) :
    p.setEvents fd c events = p.put fd c ((p.channel c).updated events) := by
  have hepoll := h.epoll c
  have hknown := h.channels_ c
  unfold Poller.setEvents Poller.updateChannel Poller.put
  cases hindex : (p.channel c).index_ with
  | kNew | kDeleted =>
    simp [Poller.setChannel, Poller.setIndex, Poller.update, Channel.updated, Channel.known,
      Channel.entry, hindex, hepoll, hknown]
  | kAdded =>
    by_cases hnone : events = kNoneEvent <;>
      simp [Poller.setChannel, Poller.setIndex, Poller.update, Channel.updated, Channel.known,
        Channel.entry, Channel.isNoneEvent, hindex, hepoll, hknown, hnone]

theorem removeChannel_eq {p : Poller ι} (h : Registered fd p) (c : ι) :
    (p.setChannel c { p.channel c with removed := true }).removeChannel fd c =
      p.put fd c { p.channel c with index_ := .kNew, removed := true } := by
  have hepoll := h.epoll c
  unfold Poller.removeChannel Poller.put
  by_cases hindex : (p.channel c).index_ = .kAdded <;>
    simp [Poller.setChannel, Poller.setIndex, Poller.update, Channel.known, Channel.entry, hindex,
      hepoll]

theorem step_eq {p : Poller ι} (h : Registered fd p) (c : ι) (call : Call) :
    p.step fd (c, call) = p.put fd c ((p.channel c).after call) := by
  cases call with
  | remove => exact removeChannel_eq h c
  | enableReading | disableReading | enableWriting | disableWriting | disableAll =>
    exact setEvents_eq h c _

/-! ## The property -/

variable (fd) in
/-- The epoll set has exactly the channels that are not removed and ask for events, with
the mask they ask for. `channels_` has exactly the channels that are not `kNew`. No
`epoll_ctl` call was refused. -/
structure Mirrors (p : Poller ι) : Prop where
  kernel : ∀ f events c, p.epoll f = some (events, c) ↔
    fd c = f ∧ (p.channel c).removed = false ∧ (p.channel c).events_ ≠ kNoneEvent ∧
      events = (p.channel c).events_
  channels_ : ∀ f c, p.channels_ f = some c ↔ fd c = f ∧ (p.channel c).index_ ≠ .kNew
  none_failed : p.failed = []

/-- A call that leaves the channel without interest finds it in the epoll set. -/
def Channel.RightCall (ch : Channel) : Call → Prop
  | .disableReading => ch.events_ &&& kWriteEvent = 0 → ch.index_ = .kAdded
  | .disableWriting => ch.events_ &&& kReadEvent = 0 → ch.index_ = .kAdded
  | .disableAll => ch.index_ = .kAdded
  | _ => True

instance (ch : Channel) (call : Call) : Decidable (ch.RightCall call) :=
  match call with
  | .disableReading => inferInstanceAs (Decidable (_ → _))
  | .disableWriting => inferInstanceAs (Decidable (_ → _))
  | .disableAll => inferInstanceAs (Decidable (_ = _))
  | .enableReading => isTrue trivial
  | .enableWriting => isTrue trivial
  | .remove => isTrue trivial

/-! ## The law -/

/-- What holds of a channel behind any calls. Only a channel in the set can be without
interest and not `kDeleted`. -/
structure Channel.Sane (ch : Channel) : Prop where
  mask : ch.events_ ∈ [kNoneEvent, kReadEvent, kWriteEvent, kReadEvent ||| kWriteEvent]
  removed : ch.removed = true → ch.index_ = .kNew
  new : ch.index_ = .kNew → ch.removed = true ∨ ch.events_ = kNoneEvent
  deleted : ch.index_ = .kDeleted → ch.events_ = kNoneEvent

/-- The set has no channel without interest. -/
def Channel.Settled (ch : Channel) : Prop := ch.index_ = .kAdded → ch.events_ ≠ kNoneEvent

variable {ch : Channel}

theorem Channel.Sane.after (h : ch.Sane) (call : Call) : (ch.after call).Sane := by
  unfold Channel.after
  split
  · exact ⟨h.mask, fun _ => rfl, fun _ => Or.inl rfl, (fun hd => nomatch hd)⟩
  · refine ⟨?_, (fun hr => nomatch hr), ?_, ?_⟩
    · have hmask := h.mask
      simp only [List.mem_cons, List.not_mem_nil, or_false] at hmask
      cases call <;> rcases hmask with hm | hm | hm | hm <;>
        simp only [Channel.updated, Channel.maskAfter, hm] <;> decide
    · intro hnew
      simp only [Channel.updated] at hnew
      split at hnew <;> cases hnew
    · intro hdeleted
      simp only [Channel.updated] at hdeleted ⊢
      split at hdeleted
      · rename_i hboth
        exact hboth.2
      · cases hdeleted

theorem maskAfter_eq_none (h : ch.Sane) :
    (ch.maskAfter .disableReading = kNoneEvent ↔ ch.events_ &&& kWriteEvent = 0) ∧
      (ch.maskAfter .disableWriting = kNoneEvent ↔ ch.events_ &&& kReadEvent = 0) ∧
      ch.maskAfter .enableReading ≠ kNoneEvent ∧ ch.maskAfter .enableWriting ≠ kNoneEvent := by
  have hmask := h.mask
  simp only [List.mem_cons, List.not_mem_nil, or_false] at hmask
  simp only [Channel.maskAfter]
  rcases hmask with hm | hm | hm | hm <;> rw [hm] <;> decide

theorem settled_updated_iff (ch : Channel) (events : Events) :
    (ch.updated events).Settled ↔ (events = kNoneEvent → ch.index_ = .kAdded) := by
  unfold Channel.Settled Channel.updated
  split
  · rename_i hboth
    simp [hboth.1]
  · rename_i hnot
    constructor
    · intro hset hnone
      exact absurd hnone (hset rfl)
    · intro hadded _ hnone
      exact hnot ⟨hadded hnone, hnone⟩

theorem settled_after_iff (h : ch.Sane) (call : Call) :
    (ch.after call).Settled ↔ ch.RightCall call := by
  obtain ⟨hread, hwrite, henable, henable'⟩ := maskAfter_eq_none h
  cases call with
  | remove => exact iff_of_true (fun hadded => nomatch hadded) trivial
  | enableReading => exact iff_of_true ((settled_updated_iff ch _).mpr (absurd · henable)) trivial
  | enableWriting => exact iff_of_true ((settled_updated_iff ch _).mpr (absurd · henable')) trivial
  | disableReading =>
    refine (settled_updated_iff ch _).trans ?_
    rw [hread]
    rfl
  | disableWriting =>
    refine (settled_updated_iff ch _).trans ?_
    rw [hwrite]
    rfl
  | disableAll =>
    refine (settled_updated_iff ch _).trans ?_
    simp [Channel.maskAfter, Channel.RightCall]

omit [DecidableEq ι] in
theorem epoll_eq_some_iff {p : Poller ι} (h : Registered fd p) (f : Int) (events : Events) (c : ι) :
    p.epoll f = some (events, c) ↔
      fd c = f ∧ (p.channel c).index_ = .kAdded ∧ events = (p.channel c).events_ := by
  constructor
  · intro he
    by_cases hf : ∃ d, fd d = f
    · obtain ⟨d, rfl⟩ := hf
      rw [h.epoll d, Channel.entry] at he
      split at he
      · rename_i hadded
        cases he
        exact ⟨rfl, hadded, rfl⟩
      · cases he
    · rw [(h.no_other f (fun d hd => hf ⟨d, hd⟩)).1] at he
      cases he
  · rintro ⟨rfl, hadded, rfl⟩
    rw [h.epoll c, Channel.entry, if_pos hadded]

omit [DecidableEq ι] in
theorem channels_eq_some_iff {p : Poller ι} (h : Registered fd p) (f : Int) (c : ι) :
    p.channels_ f = some c ↔ fd c = f ∧ (p.channel c).index_ ≠ .kNew := by
  constructor
  · intro he
    by_cases hf : ∃ d, fd d = f
    · obtain ⟨d, rfl⟩ := hf
      rw [h.channels_ d, Channel.known] at he
      split at he
      · cases he
      · rename_i hnew
        cases he
        exact ⟨rfl, hnew⟩
    · rw [(h.no_other f (fun d hd => hf ⟨d, hd⟩)).2] at he
      cases he
  · rintro ⟨rfl, hnew⟩
    rw [h.channels_ c, Channel.known, if_neg hnew]

/-- A channel is in the set when it is not removed and asks for events, as long as no
channel is in the set without interest. -/
theorem added_iff (h : ch.Sane) (hset : ch.Settled) :
    ch.index_ = .kAdded ↔ ch.removed = false ∧ ch.events_ ≠ kNoneEvent := by
  constructor
  · intro hadded
    refine ⟨?_, hset hadded⟩
    by_contra hr
    rw [h.removed (by simpa using hr)] at hadded
    cases hadded
  · rintro ⟨hr, he⟩
    cases hindex : ch.index_ with
    | kAdded => rfl
    | kNew =>
      rcases h.new hindex with h' | h'
      · rw [hr] at h'
        cases h'
      · exact absurd h' he
    | kDeleted => exact absurd (h.deleted hindex) he

omit [DecidableEq ι] in
/-- The set, `channels_` and the calls are as the indices say, so the poller mirrors the
interest when no channel is in the set without interest. -/
theorem mirrors_iff {p : Poller ι} (h : Registered fd p)
    (hsane : ∀ c, (p.channel c).Sane) : Mirrors fd p ↔ ∀ c, (p.channel c).Settled := by
  constructor
  · intro hm c hadded
    have hentry := (epoll_eq_some_iff h (fd c) _ c).mpr ⟨rfl, hadded, rfl⟩
    exact ((hm.kernel _ _ _).mp hentry).2.2.1
  · intro hset
    refine ⟨?_, channels_eq_some_iff h, h.none_failed⟩
    intro f events c
    rw [epoll_eq_some_iff h f events c, added_iff (hsane c) (hset c), and_assoc]

variable (fd) in
def Sound (p : Poller ι) : Prop := Registered fd p ∧ ∀ c, (p.channel c).Sane

theorem sound_step (hfd : Function.Injective fd) (p : Poller ι) (call : ι × Call)
    (h : Sound fd p) : Sound fd (p.step fd call) := by
  obtain ⟨c, call⟩ := call
  rw [step_eq h.1 c call]
  refine ⟨registered_put hfd h.1 c _, ?_⟩
  exact (forall_update_iff _ fun _ => Channel.Sane).mpr ⟨(h.2 c).after call, fun d _ => h.2 d⟩

theorem sane_new : ({} : Channel).Sane := ⟨by decide, by decide, by decide, by decide⟩

omit [DecidableEq ι] in
theorem sound_start : Sound fd (Poller.start : Poller ι) :=
  ⟨registered_start fd, fun _ => sane_new⟩

theorem settled_step_iff {p : Poller ι} (h : Sound fd p) (hset : ∀ c, (p.channel c).Settled)
    (call : ι × Call) :
    (∀ c, ((p.step fd call).channel c).Settled) ↔ (p.channel call.1).RightCall call.2 := by
  obtain ⟨c, call⟩ := call
  rw [step_eq h.1 c call, ← settled_after_iff (h.2 c)]
  refine (forall_update_iff _ fun _ => Channel.Settled).trans ?_
  exact and_iff_left (fun d _ => hset d)

/-- After each call the poller mirrors the interest of the channels exactly when no call
takes the last interest from a channel that is not in the epoll set. -/
theorem poller_mirrors_interest_iff (hfd : Function.Injective fd) (calls : List (ι × Call)) :
    (∀ made, made <+: calls → Mirrors fd (run (Poller.step fd) Poller.start made)) ↔
      Meets (Poller.step fd) (fun p call => (p.channel call.1).RightCall call.2) Poller.start
        calls := by
  have hstart : Sound fd (Poller.start : Poller ι) := sound_start
  refine always_run_iff (Mirrors fd) (sound_step hfd) ?_ hstart ?_ calls
  · intro p call h hm
    have hnext := sound_step hfd p call h
    rw [mirrors_iff h.1 h.2] at hm
    rw [mirrors_iff hnext.1 hnext.2]
    exact settled_step_iff h hm call
  · rw [mirrors_iff hstart.1 hstart.2]
    intro c hadded
    cases hadded

end Model

/-! ## Runs -/

def twoFds (c : Bool) : Int := if c then 7 else 8

/-- Reading, writing and a removal on two channels. -/
theorem poller_mirrors_interest_two_channels :
    Function.Injective twoFds ∧
      ∀ made, made <+: [(true, Call.enableReading), (false, .enableWriting),
          (false, .disableWriting), (true, .remove), (true, .enableReading)] →
        Mirrors twoFds (run (Poller.step twoFds) Poller.start made) := by
  have hfd : Function.Injective twoFds := by
    intro c d
    cases c <;> cases d <;> simp [twoFds]
  exact ⟨hfd, (poller_mirrors_interest_iff hfd _).mpr (by decide)⟩

/-- `disableWriting` on a channel that was never added puts it into the epoll set with an
empty mask. -/
theorem disableWriting_adds_new_channel :
    ¬Mirrors (fun _ : Unit => 7)
      (run (Poller.step (fun _ : Unit => 7)) Poller.start [((), .disableWriting)]) := by
  intro h
  exact ((h.kernel 7 0 ()).mp (by decide)).2.2.1 (by decide)

end mymuduo.epoll_poller
