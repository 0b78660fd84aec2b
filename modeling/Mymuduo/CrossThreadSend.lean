-- Sends from other threads against a shutdown in the loop thread
-- (`TcpConnection::send`, `shutdown`, `EventLoop::queueInLoop`). The loop runs the
-- queued functors later, here in any order, and the shutdown acts at once.
import Mathlib.Data.List.Perm.Basic
import Mymuduo.TcpOutput

open List bytes runs

namespace mymuduo.cross_thread_send

open tcp_connection TcpConnection

/-! ## The model -/

/-- One call of `send`, with a number that no other call has. -/
structure SendCall where
  id : Nat
  data : Bytes
  deriving DecidableEq, Repr

/-- The connection, and the sends on their way to it. `checked` holds the calls
of other threads that saw `kConnected` and did not queue their functor yet.
`ran` holds the calls whose `sendInLoop` ran, in that order. `returned` holds
the calls of other threads that returned, and `owed` those of them that had
returned when `shutdown` was called. -/
structure Loop where
  conn : TcpConnection
  nextId : Nat
  checked : List SendCall
  pendingFunctors_ : List SendCall
  ran : List SendCall
  returned : List SendCall
  owed : List SendCall

/-- One step of a thread. `check` and `queue` are the two halves of a `send` of
another thread. All other steps are of the loop thread. -/
inductive Event
  | check (data : Bytes)
  | queue (i : Nat)
  | runFunctor (i : Nat) (w : SysResult)
  | send (data : Bytes) (w : SysResult)
  | shutdown
  | handleWrite (w : SysResult)

namespace Loop

def start (mark : Nat) (onComplete onHighWater : Bool) : Loop where
  conn := established mark onComplete onHighWater
  nextId := 0
  checked := []
  pendingFunctors_ := []
  ran := []
  returned := []
  owed := []

def step (s : Loop) : Event → Loop
  | .check data =>
    if s.conn.state_ = .kConnected then
      { s with nextId := s.nextId + 1, checked := s.checked ++ [⟨s.nextId, data⟩] }
    else s
  | .queue i =>
    match s.checked[i]? with
    | some call =>
      { s with
        checked := s.checked.eraseIdx i
        pendingFunctors_ := s.pendingFunctors_ ++ [call]
        returned := s.returned ++ [call] }
    | none => s
  | .runFunctor i w =>
    match s.pendingFunctors_[i]? with
    | some call =>
      { s with
        conn := s.conn.sendInLoop call.data w
        pendingFunctors_ := s.pendingFunctors_.eraseIdx i
        ran := s.ran ++ [call] }
    | none => s
  | .send data w =>
    if s.conn.state_ = .kConnected then
      { s with
        conn := s.conn.send data w
        nextId := s.nextId + 1
        ran := s.ran ++ [⟨s.nextId, data⟩] }
    else s
  | .shutdown =>
    if s.conn.state_ = .kConnected then { s with conn := s.conn.shutdown, owed := s.returned }
    else s
  | .handleWrite w => { s with conn := s.conn.handleWrite w [] }

/-! ## The property -/

/-- The socket had `accepted` all of `call`: the data of the sends up to and
with `call` are a first part of what it accepted. -/
def Written (s : Loop) (accepted : Bytes) (call : SendCall) : Prop :=
  ∃ before after, s.ran = before ++ call :: after ∧
    (before ++ [call]).flatMap SendCall.data <+: accepted

/-- At each `shutdownWrite`, the socket had accepted every send of another thread
that returned before the `shutdown` call. -/
def NoneLost (s : Loop) : Prop :=
  ∀ accepted ∈ s.conn.shutdownWrites, ∀ call ∈ s.owed, s.Written accepted call

/-- Writes that do not fail with `EPIPE` or `ECONNRESET`. -/
def NoWriteError : Event → Prop
  | .runFunctor _ w => NoFault w
  | .send _ w => NoFault w
  | _ => True

/-- The steps that half-close the socket find no functor of a send that returned
before the `shutdown` call: a `shutdown` call with no write interest, and the
write event that takes the last bytes of a connection that is closing. -/
def NoSendLeftBehind (s : Loop) : Event → Prop
  | .shutdown =>
    s.conn.state_ = .kConnected ∧ s.conn.isWriting = false → s.pendingFunctors_ = []
  | .handleWrite w =>
    s.conn.isWriting = true ∧ s.conn.state_ = .kDisconnecting ∧
        s.conn.outputBuffer_.length ≤ w.taken s.conn.outputBuffer_.length →
      ∀ call ∈ s.owed, call ∉ s.pendingFunctors_
  | _ => True

instance (s : Loop) (e : Event) : Decidable (s.NoSendLeftBehind e) :=
  match e with
  | .shutdown => inferInstanceAs (Decidable (_ → _))
  | .handleWrite _ => inferInstanceAs (Decidable (_ → _))
  | .check _ => isTrue trivial
  | .queue _ => isTrue trivial
  | .runFunctor .. => isTrue trivial
  | .send .. => isTrue trivial

/-! ## The invariant -/

structure Sound (s : Loop) : Prop where
  no_files : s.conn.pendingFiles_ = []
  live : s.conn.Live
  interest : s.conn.WriteInterest
  stream : s.conn.held = s.ran.flatMap SendCall.data
  up : s.conn.state_ = .kConnected → s.conn.shutdownWrites = []
  returned : ∀ call ∈ s.returned, call ∈ s.pendingFunctors_ ∨ call ∈ s.ran
  owed : ∀ call ∈ s.owed, call ∈ s.pendingFunctors_ ∨ call ∈ s.ran
  none_lost : s.NoneLost

variable {s : Loop}

theorem written_of_mem {call : SendCall} (h : call ∈ s.ran) :
    s.Written (s.ran.flatMap SendCall.data) call := by
  obtain ⟨before, after, heq⟩ := append_of_mem h
  refine ⟨before, after, heq, ?_⟩
  rw [heq, append_cons before call after]
  simp only [flatMap_append]
  exact prefix_append _ _

theorem written_mono {t : Loop} {accepted : Bytes} {call : SendCall} {more : List SendCall}
    (hran : t.ran = s.ran ++ more) (h : s.Written accepted call) : t.Written accepted call := by
  obtain ⟨before, after, heq, hpre⟩ := h
  refine ⟨before, after ++ more, ?_, hpre⟩
  rw [hran, heq, append_assoc, cons_append]

theorem mem_or_mem_eraseIdx {α : Type} {l : List α} {i : Nat} {a b : α} (hi : l[i]? = some a)
    (hb : b ∈ l) : b = a ∨ b ∈ l.eraseIdx i := by
  obtain ⟨hlt, rfl⟩ := List.getElem?_eq_some_iff.mp hi
  have hperm := getElem_cons_eraseIdx_perm hlt
  exact mem_cons.mp (hperm.mem_iff.mpr hb)

theorem sound_start (mark : Nat) (onComplete onHighWater : Bool) :
    (start mark onComplete onHighWater).Sound where
  no_files := rfl
  live := Or.inl rfl
  interest := by simp [WriteInterest, start, established]
  stream := rfl
  up _ := rfl
  returned := by simp [start]
  owed := by simp [start]
  none_lost := by simp [NoneLost, start, established]

theorem sound_ran {t : Loop} (call : SendCall) {w : SysResult} (h : s.Sound) (hw : NoFault w)
    (hconn : t.conn = s.conn.sendInLoop call.data w) (hran : t.ran = s.ran ++ [call])
    (hpend : ∀ c ∈ s.pendingFunctors_, c = call ∨ c ∈ t.pendingFunctors_)
    (hret : t.returned = s.returned) (howed : t.owed = s.owed) : t.Sound := by
  have hs : s.conn.state_ ≠ .kDisconnected := by
    rcases h.live with hl | hl <;> rw [hl] <;> simp
  obtain ⟨now, later, htook, hdata⟩ := sendInLoop_took s.conn call.data w hs
  rw [← hconn] at htook
  have hmem : ∀ c, c ∈ s.pendingFunctors_ ∨ c ∈ s.ran → c ∈ t.pendingFunctors_ ∨ c ∈ t.ran := by
    intro c hc
    rw [hran, mem_append, mem_singleton]
    rcases hc with hc | hc
    · rcases hpend c hc with he | hc
      · exact Or.inr (Or.inr he)
      · exact Or.inl hc
    · exact Or.inr (Or.inl hc)
  refine ⟨htook.files.trans h.no_files, ?_, htook.interest h.interest, ?_, ?_, ?_, ?_, ?_⟩
  · rw [Live, htook.state_]
    exact h.live
  · rw [took_held htook (hdata hw) (Or.inr h.no_files), h.stream, hran]
    simp
  · intro hup
    rw [htook.state_] at hup
    rw [htook.shutdowns]
    exact h.up hup
  · intro c hc
    rw [hret] at hc
    exact hmem c (h.returned c hc)
  · intro c hc
    rw [howed] at hc
    exact hmem c (h.owed c hc)
  · intro accepted ha c hc
    rw [htook.shutdowns] at ha
    rw [howed] at hc
    exact written_mono hran (h.none_lost accepted ha c hc)

theorem accepted_of_idle {c : TcpConnection} (hfiles : c.pendingFiles_ = [])
    (hinterest : c.WriteInterest) (hw : c.isWriting = false) : c.accepted = c.held := by
  have hout : c.outputBuffer_ = [] := by
    by_contra hne
    have := hinterest.mpr (Or.inl hne)
    rw [hw] at this
    cases this
  simp [held, waiting, hout, hfiles]

theorem sound_shutdown (h : s.Sound) (hok : s.NoSendLeftBehind .shutdown) :
    (s.step .shutdown).Sound := by
  dsimp only [step]
  split
  · rename_i hs
    obtain ⟨h1, h2, h3, h4⟩ := shutdown_fields s.conn
    obtain ⟨hd, hsw⟩ := shutdown_up hs
    rw [h.up hs, nil_append] at hsw
    refine ⟨h3.trans h.no_files, Or.inr hd, ?_, ?_, ?_, h.returned, h.returned, ?_⟩
    · simpa only [WriteInterest, h1, h2, h3] using h.interest
    · simpa only [held, waiting, h2, h3, h4] using h.stream
    · intro hup
      rw [hd] at hup
      cases hup
    · intro accepted ha call hcall
      by_cases hw : s.conn.isWriting = true
      · rw [hsw, if_pos hw] at ha
        cases ha
      · have hw' : s.conn.isWriting = false := by simpa using hw
        rw [hsw, if_neg hw, mem_singleton] at ha
        rw [ha, accepted_of_idle h.no_files h.interest hw', h.stream]
        -- no functor waits, so every call that returned has run
        rcases h.returned call hcall with hc | hc
        · rw [hok ⟨hs, hw'⟩] at hc
          cases hc
        · exact written_of_mem (s := s) hc
  · exact h

theorem taken_all_of_idle (c : TcpConnection) (w : SysResult) (hw : c.isWriting = true)
    (hidle : (c.handleWrite w []).isWriting = false) :
    c.outputBuffer_.length ≤ w.taken c.outputBuffer_.length := by
  by_contra hlt
  unfold handleWrite at hidle
  rw [if_neg (by simp [hw]), if_pos (by omega)] at hidle
  dsimp only at hidle
  generalize w.taken c.outputBuffer_.length = n at hidle hlt
  have hmore : (c.writeOutput n).outputBuffer_.length > 0 := by
    simp only [writeOutput, length_drop]
    omega
  split at hidle
  · simp [writeOutput, accept, hw] at hidle
  · rw [hw] at hidle
    cases hidle

theorem sound_handleWrite (w : SysResult) (h : s.Sound)
    (hok : s.NoSendLeftBehind (.handleWrite w)) : (s.step (.handleWrite w)).Sound := by
  obtain ⟨⟨now, hwrote⟩, hinterest⟩ := handleWrite_wrote s.conn w []
  have hheld := graceful_held s.conn (.handleWrite w []) trivial h.no_files
  simp only [payload, ite_self, append_nil] at hheld
  have hstream : (s.conn.handleWrite w []).held = s.ran.flatMap SendCall.data :=
    hheld.trans h.stream
  have hsw := hwrote.shutdowns
  refine ⟨hwrote.files h.no_files, ?_, hinterest h.interest, hstream, ?_, h.returned, h.owed, ?_⟩
  · rw [Live, step, hwrote.state_]
    exact h.live
  · intro hup
    rw [step, hwrote.state_] at hup
    rw [step, hsw, h.up hup, if_neg (by rw [hup]; simp)]
    rfl
  · intro accepted ha call hcall
    rw [step, hsw] at ha
    rcases mem_append.mp ha with ha | ha
    · exact h.none_lost accepted ha call hcall
    · split at ha
      · rename_i hclose
        obtain ⟨hw, hd, hidle⟩ := hclose
        have hran : call ∈ s.ran := by
          rcases h.owed call hcall with hc | hc
          · exact absurd hc (hok ⟨hw, hd, taken_all_of_idle s.conn w hw hidle⟩ call hcall)
          · exact hc
        rw [mem_singleton] at ha
        rw [ha, accepted_of_idle (hwrote.files h.no_files) (hinterest h.interest) hidle, hstream]
        exact written_of_mem (s := s) hran
      · cases ha

theorem sound_step (s : Loop) (e : Event) (hok : NoWriteError e ∧ s.NoSendLeftBehind e)
    (h : s.Sound) : (s.step e).Sound := by
  cases e with
  | check data => exact guarded h fun _ => { h with }
  | queue i =>
    dsimp only [step]
    split
    · refine { h with returned := ?_, owed := ?_ }
      · intro c hc
        rcases mem_append.mp hc with hc | hc
        · rcases h.returned c hc with hc | hc
          · exact Or.inl (mem_append_left _ hc)
          · exact Or.inr hc
        · exact Or.inl (mem_append_right _ hc)
      · intro c hc
        rcases h.owed c hc with hc | hc
        · exact Or.inl (mem_append_left _ hc)
        · exact Or.inr hc
    · exact h
  | runFunctor i w =>
    dsimp only [step]
    split
    · rename_i call hi
      exact sound_ran call h hok.1 rfl rfl (fun c hc => mem_or_mem_eraseIdx hi hc) rfl rfl
    · exact h
  | send data w =>
    refine guarded h fun hs => ?_
    refine sound_ran ⟨s.nextId, data⟩ h hok.1 ?_ rfl (fun c hc => Or.inr hc) rfl rfl
    unfold TcpConnection.send
    rw [if_pos hs]
  | shutdown => exact sound_shutdown h hok.2
  | handleWrite w => exact sound_handleWrite w h hok.2

/-! ## The law -/

/-- No send of another thread is lost to a shutdown in the loop thread, in every
run in which the half-close finds no functor of a send that returned before the
`shutdown` call. -/
theorem no_queued_send_is_lost_when_none_waits_at_the_half_close (mark : Nat)
    (onComplete onHighWater : Bool) (events : List Event) (hw : ∀ e ∈ events, NoWriteError e)
    (hok : Meets step NoSendLeftBehind (start mark onComplete onHighWater) events) :
    (run step (start mark onComplete onHighWater) events).NoneLost := by
  have hmeets := meets_and step
    (meets_of_forall step (fun _ e => NoWriteError e) (fun e he _ => hw e he) _) hok
  exact (invariant_run sound_step hmeets (sound_start mark onComplete onHighWater)).none_lost

/-- The loop runs the functor before the shutdown, and writes the rest after it. -/
theorem no_queued_send_is_lost_functor_first :
    let events : List Event := [.check [1, 2], .queue 0, .runFunctor 0 (.ok 1), .shutdown,
      .handleWrite (.ok 1)]
    (run step (start 100 true true) events).conn.shutdownWrites = [[1, 2]] ∧
      (run step (start 100 true true) events).owed = [⟨0, [1, 2]⟩] ∧
      (run step (start 100 true true) events).NoneLost :=
  ⟨by decide, by decide, no_queued_send_is_lost_when_none_waits_at_the_half_close 100 true true _
    (by simp [NoWriteError, NoFault]) (by decide)⟩

/-- A send that returned is lost: its functor is still in the queue when the
`shutdown` of the loop thread half-closes the socket. -/
theorem a_queued_send_is_lost_to_a_shutdown :
    let events : List Event := [.check [1, 2], .queue 0, .shutdown, .runFunctor 0 (.ok 2)]
    (∀ e ∈ events, NoWriteError e) ∧
      (run step (start 100 true true) events).conn.shutdownWrites = [[]] ∧
      (run step (start 100 true true) events).owed = [⟨0, [1, 2]⟩] ∧
      ¬ (run step (start 100 true true) events).NoneLost := by
  refine ⟨by simp [NoWriteError, NoFault], by decide, by decide, ?_⟩
  intro hlost
  obtain ⟨before, after, _, hpre⟩ := hlost [] (by decide) ⟨0, [1, 2]⟩ (by decide)
  simp at hpre

end Loop

end mymuduo.cross_thread_send
