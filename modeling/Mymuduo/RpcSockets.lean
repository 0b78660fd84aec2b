-- The descriptors of the protobuf RPC client (src/rpc/RpcClientPb.h), one system call at a
-- time. A call that fails in `send` or `recv` marks the client disconnected and leaves the
-- descriptor in `sock_`; the next `connect` or `call` opens another one over it.
import Mymuduo.RpcClientPb

open List bytes length_prefix runs

namespace mymuduo.rpc_sockets

open rpc_client_pb (RPC_MAX_FRAME_LENGTH)

/-! ## The client -/

/-- Where the thread that holds the mutex is: before `socket`, `gethostbyname` or `::connect`, for a
call with that many bytes of data or for none; in `sendAll`, with the bytes that are left and those
of the next `sendAll`; in `recvAll`, for the length or for the data. -/
inductive Place
  | opening (next : Option Nat)
  | resolving (next : Option Nat)
  | connecting (next : Option Nat)
  | sending (rest later : Nat)
  | receivingLength (got : Bytes)
  | receivingData (rest : Nat)
  deriving DecidableEq

/-- The client, the descriptors that it opened and that are still open, and how often it closed
one that was not. -/
structure Client where
  sock_ : Int := -1
  connected_ : Bool := false
  running : Option Place := none
  destroyed : Bool := false
  files : List Int := []
  wrongCloses : Nat := 0
  deriving DecidableEq

inductive Op
  | connect
  | disconnect
  | call (size : Nat)
  | destroy

inductive Io (α : Type)
  | interrupted
  | failed
  | moved (x : α)

/-- A thread gets the mutex, or a system call of the thread that has it returns. -/
inductive Event
  | start (op : Op)
  | socket (fd : Int)
  | gethostbyname (found : Bool)
  | connected (ok : Bool)
  | send (result : Io Nat)
  | recv (result : Io Bytes)

namespace Client

def close (s : Client) : Client :=
  if s.sock_ ∈ s.files then { s with files := s.files.erase s.sock_ }
  else { s with wrongCloses := s.wrongCloses + 1 }

def disconnect (s : Client) : Client :=
  { (if 0 ≤ s.sock_ then { s.close with sock_ := -1 } else s) with connected_ := false }

/-- The six ways out of `call` with `connected_ = false`. -/
def fail (s : Client) : Client := { s with connected_ := false, running := none }

/-- The two ways out of `connect` and `connectInternal` with a socket. -/
def giveUp (s : Client) : Client := { s.close with sock_ := -1, running := none }

/-- The next place in `call` behind a `send`. A `sendAll` of no bytes returns at once. -/
def afterSend (rest later : Nat) : Place :=
  if rest ≠ 0 then .sending rest later
  else if later ≠ 0 then .sending later 0
  else .receivingLength []

def start (s : Client) : Op → Client
  | .connect => if s.connected_ then s else { s with running := some (.opening none) }
  | .disconnect => s.disconnect
  | .call size =>
    if s.connected_ then { s with running := some (.sending 4 size) }
    else { s with running := some (.opening (some size)) }
  | .destroy => { s.disconnect with destroyed := true }

def socket (s : Client) (next : Option Nat) (fd : Int) : Client :=
  if fd < 0 then { s with sock_ := fd, running := none }
  else { s with sock_ := fd, files := fd :: s.files, running := some (.resolving next) }

def sent (s : Client) (rest later : Nat) : Io Nat → Client
  | .interrupted => s
  | .failed => s.fail
  | .moved n =>
    if n = 0 then s.fail
    else if n ≤ rest then { s with running := some (afterSend (rest - n) later) }
    else s

def gotLength (s : Client) (got : Bytes) : Client :=
  let len := declared got
  if len ≤ 0 ∨ (RPC_MAX_FRAME_LENGTH : Int) < len then s.fail
  else { s with running := some (.receivingData len.toNat) }

def receivedLength (s : Client) (got : Bytes) : Io Bytes → Client
  | .interrupted => s
  | .failed => s.fail
  | .moved chunk =>
    if chunk = [] then s.fail
    else if (got ++ chunk).length < 4 then
      { s with running := some (.receivingLength (got ++ chunk)) }
    else if (got ++ chunk).length = 4 then s.gotLength (got ++ chunk)
    else s

/-- Behind the last byte, the response is parsed and the call returns. -/
def receivedData (s : Client) (rest : Nat) : Io Bytes → Client
  | .interrupted => s
  | .failed => s.fail
  | .moved chunk =>
    if chunk = [] then s.fail
    else if chunk.length < rest then
      { s with running := some (.receivingData (rest - chunk.length)) }
    else if chunk.length = rest then { s with running := none }
    else s

/-- One step of a client that is not destroyed. A step that the holder of the mutex or the kernel
does not allow changes nothing: `socket` returns no descriptor that is open. -/
def act (s : Client) : Event → Client
  | .start op =>
    match s.running with
    | none => s.start op
    | some _ => s
  | .socket fd =>
    match s.running with
    | some (.opening next) => if fd ∈ s.files then s else s.socket next fd
    | _ => s
  | .gethostbyname found =>
    match s.running with
    | some (.resolving next) =>
      if found then { s with running := some (.connecting next) } else s.giveUp
    | _ => s
  | .connected ok =>
    match s.running with
    | some (.connecting next) =>
      if ok then { s with connected_ := true, running := next.map (.sending 4) } else s.giveUp
    | _ => s
  | .send result =>
    match s.running with
    | some (.sending rest later) => s.sent rest later result
    | _ => s
  | .recv result =>
    match s.running with
    | some (.receivingLength got) => s.receivedLength got result
    | some (.receivingData rest) => s.receivedData rest result
    | _ => s

def step (s : Client) (e : Event) : Client := if s.destroyed then s else s.act e

/-- The thread has a new socket and waits for the connection. -/
def Dialing (s : Client) : Prop :=
  (∃ next, s.running = some (.resolving next)) ∨ ∃ next, s.running = some (.connecting next)

/-- At most one descriptor is open, it is the one in `sock_`, none was closed twice, and none is
left behind the destructor. -/
structure Owns (s : Client) : Prop where
  one : s.files.length ≤ 1
  stored : ∀ fd ∈ s.files, fd = s.sock_
  closes : s.wrongCloses = 0
  destroyed : s.destroyed = true → s.files = []

def Opens (s : Client) : Event → Prop
  | .socket fd => (∃ next, s.running = some (.opening next)) ∧ fd ∉ s.files
  | _ => False

/-! ## What always holds -/

/-- What `sock_` names is open, so no close is wrong. -/
structure Sound (s : Client) : Prop where
  nodup : s.files.Nodup
  files : ∀ fd ∈ s.files, 0 ≤ fd
  sock : 0 ≤ s.sock_ → s.sock_ ∈ s.files
  dialing : s.Dialing → 0 ≤ s.sock_
  closes : s.wrongCloses = 0
  destroyed : s.destroyed = true → s.sock_ < 0

/-- What a step can do with the descriptors: it leaves them, it puts what `socket` returned in
`sock_`, or it closes the one in `sock_`. -/
inductive Does (s : Client) (e : Event) : Client → Prop
  | keeps {s' : Client} (hsock : s'.sock_ = s.sock_) (hfiles : s'.files = s.files)
      (hcloses : s'.wrongCloses = s.wrongCloses) (hdialing : s'.Dialing → s.Dialing)
      (hdestroyed : s'.destroyed = true → s.sock_ < 0) : Does s e s'
  | opens {fd : Int} {next : Option Nat} (he : e = .socket fd)
      (hplace : s.running = some (.opening next)) (hfresh : fd ∉ s.files) :
        Does s e (s.socket next fd)
  | closes {s' : Client} (h : 0 ≤ s.sock_) (hsock : s'.sock_ = -1)
      (hfiles : s'.files = s.close.files) (hcloses : s'.wrongCloses = s.close.wrongCloses)
      (hdialing : ¬s'.Dialing) : Does s e s'

section Step

variable {s : Client} {e : Event}

/-- The place is neither before `gethostbyname` nor before `::connect`. -/
def NotDialing (place : Option Place) : Prop :=
  ∀ next, place ≠ some (.resolving next) ∧ place ≠ some (.connecting next)

theorem NotDialing.not_dialing (h : NotDialing s.running) : ¬s.Dialing := by
  rintro (⟨next, hnext⟩ | ⟨next, hnext⟩)
  · exact (h next).1 hnext
  · exact (h next).2 hnext

theorem notDialing_none : NotDialing none := fun _ => ⟨by simp, by simp⟩

theorem does_self (h : s.destroyed = false) : Does s e s :=
  .keeps rfl rfl rfl id (by simp [h])

theorem does_moves (h : s.destroyed = false) (connected : Bool) {place : Option Place}
    (hplace : NotDialing place) : Does s e { s with connected_ := connected, running := place } :=
  .keeps rfl rfl rfl (fun hdialing => absurd hdialing (NotDialing.not_dialing hplace)) (by simp [h])

theorem does_fail (h : s.destroyed = false) : Does s e s.fail := does_moves h false notDialing_none

theorem close_sock (s : Client) : s.close.sock_ = s.sock_ ∧ s.close.running = s.running := by
  unfold close
  split <;> exact ⟨rfl, rfl⟩

theorem does_giveUp (h : s.Dialing) (hsound : s.Sound) : Does s e s.giveUp :=
  .closes (hsound.dialing h) rfl rfl rfl (NotDialing.not_dialing notDialing_none)

theorem does_disconnect (h : s.running = none) (destroyed : Bool) :
    Does s e { s.disconnect with destroyed := destroyed } := by
  unfold disconnect
  split
  case isTrue hsock =>
    refine .closes hsock rfl rfl rfl (NotDialing.not_dialing ?_)
    rw [(close_sock s).2, h]
    exact notDialing_none
  case isFalse hsock =>
    refine .keeps rfl rfl rfl (fun hdialing => ?_) (fun _ => by omega)
    exact absurd hdialing (NotDialing.not_dialing (by rw [h]; exact notDialing_none))

theorem notDialing_afterSend (rest later : Nat) : NotDialing (some (afterSend rest later)) := by
  intro next
  unfold afterSend
  split
  · simp
  · split <;> simp

theorem does_sent (h : s.destroyed = false) (rest later : Nat) (result : Io Nat) :
    Does s e (s.sent rest later result) := by
  cases result with
  | interrupted => exact does_self h
  | failed => exact does_fail h
  | moved n =>
    unfold sent
    dsimp only
    split
    · exact does_fail h
    · split
      · exact does_moves h s.connected_ (notDialing_afterSend _ _)
      · exact does_self h

theorem does_receivedLength (h : s.destroyed = false) (got : Bytes) (result : Io Bytes) :
    Does s e (s.receivedLength got result) := by
  cases result with
  | interrupted => exact does_self h
  | failed => exact does_fail h
  | moved chunk =>
    unfold receivedLength gotLength
    dsimp only
    split
    · exact does_fail h
    · split
      · exact does_moves h s.connected_ (fun next => by simp)
      · split
        · split
          · exact does_fail h
          · exact does_moves h s.connected_ (fun next => by simp)
        · exact does_self h

theorem does_receivedData (h : s.destroyed = false) (rest : Nat) (result : Io Bytes) :
    Does s e (s.receivedData rest result) := by
  cases result with
  | interrupted => exact does_self h
  | failed => exact does_fail h
  | moved chunk =>
    unfold receivedData
    dsimp only
    split
    · exact does_fail h
    · split
      · exact does_moves h s.connected_ (fun next => by simp)
      · split
        · exact does_moves h s.connected_ notDialing_none
        · exact does_self h

theorem does_start (h : s.destroyed = false) (hrunning : s.running = none) (op : Op) :
    Does s e (s.start op) := by
  cases op with
  | connect =>
    unfold start
    dsimp only
    split
    · exact does_self h
    · exact does_moves h s.connected_ (fun next => by simp)
  | disconnect =>
    have hdone := does_disconnect (e := e) hrunning false
    have hkept : { s.disconnect with destroyed := false } = s.disconnect := by
      unfold disconnect close
      split
      · split <;> simp [h]
      · simp [h]
    rwa [hkept] at hdone
  | call size =>
    unfold start
    dsimp only
    split <;> exact does_moves h s.connected_ (fun next => by simp)
  | destroy => exact does_disconnect hrunning true

theorem act_does (hsound : s.Sound) (h : s.destroyed = false) (e : Event) : Does s e (s.act e) := by
  cases e with
  | start op =>
    unfold act
    dsimp only
    split
    · rename_i hrunning
      exact does_start h hrunning op
    · exact does_self h
  | socket fd =>
    unfold act
    dsimp only
    split
    · rename_i next hplace
      split
      · exact does_self h
      · rename_i hfresh
        exact .opens rfl hplace hfresh
    · exact does_self h
  | gethostbyname found =>
    unfold act
    dsimp only
    split
    · rename_i next hplace
      split
      · exact .keeps rfl rfl rfl (fun _ => Or.inl ⟨next, hplace⟩) (by simp [h])
      · exact does_giveUp (Or.inl ⟨next, hplace⟩) hsound
    · exact does_self h
  | connected ok =>
    unfold act
    dsimp only
    split
    · rename_i next hplace
      split
      · refine does_moves h true (fun other => ?_)
        cases next <;> simp
      · exact does_giveUp (Or.inr ⟨next, hplace⟩) hsound
    · exact does_self h
  | send result =>
    unfold act
    dsimp only
    split
    · exact does_sent h _ _ result
    · exact does_self h
  | recv result =>
    unfold act
    dsimp only
    split
    · exact does_receivedLength h _ result
    · exact does_receivedData h _ result
    · exact does_self h

theorem close_files (h : s.Sound) (hsock : 0 ≤ s.sock_) :
    s.close.files = s.files.erase s.sock_ ∧ s.close.wrongCloses = s.wrongCloses := by
  unfold close
  rw [if_pos (h.sock hsock)]
  exact ⟨rfl, rfl⟩

theorem sound_socket (h : s.Sound) (hdestroyed : s.destroyed = false) (next : Option Nat) {fd : Int}
    (hfresh : fd ∉ s.files) : (s.socket next fd).Sound := by
  unfold socket
  split
  case isTrue hfd =>
    refine ⟨h.nodup, h.files, fun hsock => ?_, fun hd => ?_, h.closes, fun _ => hfd⟩
    · exact absurd hsock (Int.not_le.mpr hfd)
    · exact absurd hd (NotDialing.not_dialing notDialing_none)
  case isFalse hfd =>
    have hnonneg : 0 ≤ fd := Int.not_lt.mp hfd
    refine ⟨nodup_cons.mpr ⟨hfresh, h.nodup⟩, ?_, fun _ => mem_cons_self .., fun _ => hnonneg,
      h.closes, fun hd => ?_⟩
    · intro other hother
      rcases mem_cons.mp hother with rfl | hother
      · exact hnonneg
      · exact h.files other hother
    · rw [hdestroyed] at hd
      cases hd

theorem sound_does {s' : Client} (h : s.Sound) (hdestroyed : s.destroyed = false)
    (hdoes : Does s e s') : s'.Sound := by
  cases hdoes with
  | keeps hsock hfiles hcloses hdialing hgone =>
    constructor
    case nodup => exact hfiles ▸ h.nodup
    case files => exact hfiles ▸ h.files
    case sock =>
      rw [hfiles, hsock]
      exact h.sock
    case dialing =>
      rw [hsock]
      exact fun hd => h.dialing (hdialing hd)
    case closes => exact hcloses.trans h.closes
    case destroyed =>
      rw [hsock]
      exact hgone
  | opens he hplace hfresh => exact sound_socket h hdestroyed _ hfresh
  | closes hnonneg hsock hfiles hcloses hdialing =>
    obtain ⟨hclosed, hsame⟩ := close_files h hnonneg
    rw [hclosed] at hfiles
    constructor
    case nodup => exact hfiles ▸ h.nodup.erase _
    case files =>
      rw [hfiles]
      exact fun fd hfd => h.files fd (mem_of_mem_erase hfd)
    case sock =>
      rw [hsock]
      intro hneg
      omega
    case dialing => exact fun hd => absurd hd hdialing
    case closes => exact (hcloses.trans hsame).trans h.closes
    case destroyed =>
      rw [hsock]
      intro _
      omega

theorem sound_step (s : Client) (e : Event) (h : s.Sound) : (s.step e).Sound := by
  unfold step
  split
  · exact h
  · rename_i hd
    have hdestroyed : s.destroyed = false := by simpa using hd
    exact sound_does h hdestroyed (act_does h hdestroyed e)

/-! ## The law -/

theorem files_eq_nil (h : s.Sound) (hstored : ∀ fd ∈ s.files, fd = s.sock_) (hsock : s.sock_ < 0) :
    s.files = [] := by
  rw [eq_nil_iff_forall_not_mem]
  intro fd hfd
  have hnonneg := h.files fd hfd
  rw [hstored fd hfd] at hnonneg
  omega

theorem owns_iff (h : s.Sound) : s.Owns ↔ ∀ fd ∈ s.files, fd = s.sock_ := by
  constructor
  · exact fun howns => howns.stored
  · intro hstored
    refine ⟨?_, hstored, h.closes, ?_⟩
    · have hsub : s.files ⊆ [s.sock_] := fun fd hfd => mem_singleton.mpr (hstored fd hfd)
      exact h.nodup.length_le_of_subset hsub
    · exact fun hd => files_eq_nil h hstored (h.destroyed hd)

theorem owns_socket_iff (h : s.Sound) (howns : s.Owns) {next : Option Nat} {fd : Int}
    (hnext : (s.socket next fd).Sound) (hfresh : fd ∉ s.files) :
    (s.socket next fd).Owns ↔ s.sock_ < 0 := by
  have hsock : (s.socket next fd).sock_ = fd := by
    unfold socket
    split <;> rfl
  have hkept : ∀ other ∈ s.files, other ∈ (s.socket next fd).files := by
    intro other hother
    unfold socket
    split
    · exact hother
    · exact mem_cons_of_mem fd hother
  rw [owns_iff hnext, hsock]
  constructor
  · intro hstored
    by_contra hnot
    have hold := h.sock (Int.not_lt.mp hnot)
    exact hfresh (hstored s.sock_ (hkept _ hold) ▸ hold)
  · intro hneg other hother
    unfold socket at hother
    rw [files_eq_nil h howns.stored hneg] at hother
    split at hother
    · cases hother
    · exact mem_singleton.mp hother

theorem act_of_opens (h : s.Opens e) : ∃ fd next, fd ∉ s.files ∧ s.act e = s.socket next fd := by
  cases e with
  | socket fd =>
    obtain ⟨⟨next, hplace⟩, hfresh⟩ := h
    refine ⟨fd, next, hfresh, ?_⟩
    unfold act
    rw [hplace]
    exact if_neg hfresh
  | _ => cases h

theorem owns_does (h : s.Sound) (howns : s.Owns) {s' : Client} (hnext : s'.Sound)
    (hopens : ¬s.Opens e) (hdoes : Does s e s') : s'.Owns := by
  rw [owns_iff hnext]
  cases hdoes with
  | keeps hsock hfiles hcloses hdialing hgone =>
    rw [hfiles, hsock]
    exact howns.stored
  | opens he hplace hfresh =>
    rw [he] at hopens
    exact absurd ⟨⟨_, hplace⟩, hfresh⟩ hopens
  | closes hnonneg hsock hfiles hcloses hdialing =>
    rw [hfiles, (close_files h hnonneg).1]
    intro fd hfd
    -- the descriptor that was closed was the only one
    rw [h.nodup.mem_erase_iff] at hfd
    exact absurd (howns.stored fd hfd.2) hfd.1

theorem owns_step_iff (s : Client) (e : Event) (h : s.Sound) (howns : s.Owns) :
    (s.step e).Owns ↔ (s.Opens e → s.sock_ < 0) := by
  have hnext := sound_step s e h
  by_cases hdestroyed : s.destroyed = true
  · have hsame : s.step e = s := if_pos hdestroyed
    rw [hsame]
    exact iff_of_true howns (fun _ => h.destroyed hdestroyed)
  · have hstep : s.step e = s.act e := if_neg hdestroyed
    rw [hstep] at hnext ⊢
    by_cases hopens : s.Opens e
    · obtain ⟨fd, next, hfresh, hact⟩ := act_of_opens hopens
      rw [hact] at hnext ⊢
      rw [owns_socket_iff h howns hnext hfresh]
      exact ⟨fun hneg _ => hneg, fun hok => hok hopens⟩
    · have hdoes := act_does h (by simpa using hdestroyed) e
      exact iff_of_true (owns_does h howns hnext hopens hdoes) (fun hyes => absurd hyes hopens)

end Step

end Client

open Client

theorem sound_init : Sound {} where
  nodup := nodup_nil
  files := by simp
  sock := by decide
  dialing := by simp [Dialing]
  closes := rfl
  destroyed := by decide

theorem owns_init : Owns {} where
  one := Nat.zero_le 1
  stored := by simp
  closes := rfl
  destroyed := fun _ => rfl

/-- Over every sequence of operations and every result of the system calls, the client owns at most
one socket at every moment exactly when `socket` is only called while `sock_` has no descriptor. -/
theorem owns_at_most_one_socket_iff (events : List Event) :
    (∀ made, made <+: events → (run step {} made).Owns) ↔
      Meets step (fun s e => s.Opens e → s.sock_ < 0) {} events :=
  always_run_iff Owns sound_step owns_step_iff sound_init owns_init events

/-- A call whose `send` fails keeps its socket, and the next call opens another one over it: the
first is open behind the destructor. -/
theorem a_socket_is_left_behind_a_failed_send :
    (run step {} [.start .connect, .socket 3, .gethostbyname true, .connected true,
      .start (.call 10),
      .send .failed, .start (.call 10), .socket 4]).files = [4, 3] ∧
    (run step {} [.start .connect, .socket 3, .gethostbyname true, .connected true,
      .start (.call 10),
      .send .failed, .start (.call 10), .socket 4, .gethostbyname true, .connected false,
      .start .destroy]).files = [3] := by
  decide

end mymuduo.rpc_sockets
