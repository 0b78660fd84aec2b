-- The poll loop of the Kafka consumer (src/util/KafkaConsumer.h). The client library
-- is a parameter. A commit covers every message before it in its partition, those
-- whose callback failed as well.
import Mymuduo.Bytes
import Mymuduo.Runs

open List bytes words runs

namespace mymuduo.kafka_consumer

/-! ## The poll loop -/

structure Message where
  topic : Bytes
  partition : Int
  offset : Int
  deriving DecidableEq

/-- What `consume` returns, by the code of the error. -/
inductive Polled
  | timedOut
  | message (m : Message)
  | partitionEof
  | error

/-- How the callback ends. `threwOther` is an exception that is no `std::exception`. -/
inductive Outcome
  | returned (ok : Bool)
  | threw
  | threwOther
  deriving DecidableEq

/-- A round of the loop, or `stop()`. -/
inductive Event
  | round (polled : Polled) (outcome : Outcome)
  | stop

/-- The two logs are kept beside the members of the class: the messages that the callback
got, each with whether it returned true, and the messages that were committed. -/
structure Consumer where
  running_ : Bool := true
  terminated : Bool := false
  consumed_ : Nat := 0
  errors_ : Nat := 0
  retries_ : Nat := 0
  handled : List (Message × Bool) := []
  committed : List Message := []

namespace Consumer

/-- The branch of a message. An exception that is not caught ends the process. -/
def onMessage (s : Consumer) (m : Message) : Outcome → Consumer
  | .returned true =>
    { s with
      consumed_ := add64 s.consumed_ 1
      handled := s.handled ++ [(m, true)]
      committed := s.committed ++ [m] }
  | .returned false =>
    { s with retries_ := add64 s.retries_ 1, handled := s.handled ++ [(m, false)] }
  | .threw =>
    { s with retries_ := add64 s.retries_ 1, handled := s.handled ++ [(m, false)] }
  | .threwOther => { s with terminated := true, handled := s.handled ++ [(m, false)] }

def round (s : Consumer) (outcome : Outcome) : Polled → Consumer
  | .timedOut => s
  | .message m => s.onMessage m outcome
  | .partitionEof => s
  | .error => { s with errors_ := add64 s.errors_ 1 }

def step (s : Consumer) : Event → Consumer
  | .stop => { s with running_ := false }
  | .round polled outcome =>
    if s.running_ = false ∨ s.terminated = true then s else s.round outcome polled

/-- The position that a commit of the message makes the committed one. -/
def position (m : Message) : Int := m.offset + 1

def SamePartition (m m' : Message) : Prop := m.topic = m'.topic ∧ m.partition = m'.partition

instance (m m' : Message) : Decidable (SamePartition m m') :=
  inferInstanceAs (Decidable (_ ∧ _))

/-- No committed position is greater than the offset of a message of the partition whose
callback did not return true. -/
def AtLeastOnce (s : Consumer) : Prop :=
  ∀ m ∈ s.committed, ∀ h ∈ s.handled, h.2 = false → SamePartition m h.1 →
    position m ≤ h.1.offset

/-- `consume` gives the messages of a partition in the order of their offsets. -/
def InOrder (s : Consumer) : Event → Prop
  | .round (.message m) _ => ∀ h ∈ s.handled, SamePartition m h.1 → h.1.offset < m.offset
  | _ => True

instance (s : Consumer) : ∀ event, Decidable (s.InOrder event)
  | .round (.message m) _ =>
    inferInstanceAs (Decidable (∀ h ∈ s.handled, SamePartition m h.1 → h.1.offset < m.offset))
  | .round .timedOut _ => isTrue trivial
  | .round .partitionEof _ => isTrue trivial
  | .round .error _ => isTrue trivial
  | .stop => isTrue trivial

/-- The callback returns true for a message only where it has returned true for every
message of the partition before. -/
def NoFailureBefore (s : Consumer) : Event → Prop
  | .round (.message m) (.returned true) =>
    s.running_ = true → s.terminated = false →
      ∀ h ∈ s.handled, SamePartition m h.1 → h.2 = true
  | _ => True

/-! ## One round -/

/-- A committed message is one for which the callback returned true. -/
def Handled (s : Consumer) : Prop := ∀ m ∈ s.committed, (m, true) ∈ s.handled

theorem logs_step (s : Consumer) (event : Event) :
    ((s.step event).handled = s.handled ∧ (s.step event).committed = s.committed ∧
        (∀ m, event = .round (.message m) (.returned true) →
          s.running_ = false ∨ s.terminated = true)) ∨
      (∃ m, event = .round (.message m) (.returned true) ∧
        s.running_ = true ∧ s.terminated = false ∧
        (s.step event).handled = s.handled ++ [(m, true)] ∧
        (s.step event).committed = s.committed ++ [m]) ∨
      ∃ m outcome, event = .round (.message m) outcome ∧ outcome ≠ .returned true ∧
        (s.step event).handled = s.handled ++ [(m, false)] ∧
        (s.step event).committed = s.committed := by
  cases event with
  | stop => exact Or.inl ⟨rfl, rfl, fun m hm => by cases hm⟩
  | round polled outcome =>
    by_cases hoff : s.running_ = false ∨ s.terminated = true
    · have hsame : s.step (.round polled outcome) = s := if_pos hoff
      rw [hsame]
      exact Or.inl ⟨rfl, rfl, fun _ _ => hoff⟩
    · have hround : s.step (.round polled outcome) = s.round outcome polled := if_neg hoff
      rw [hround]
      cases polled with
      | timedOut | partitionEof | error => exact Or.inl ⟨rfl, rfl, fun m hm => by cases hm⟩
      | message m =>
        cases outcome with
        | returned ok =>
          cases ok with
          | true =>
            refine Or.inr (Or.inl ⟨m, rfl, ?_, ?_, rfl, rfl⟩)
            · simpa using fun h => hoff (Or.inl h)
            · simpa using fun h => hoff (Or.inr h)
          | false => exact Or.inr (Or.inr ⟨m, _, rfl, by decide, rfl, rfl⟩)
        | threw | threwOther => exact Or.inr (Or.inr ⟨m, _, rfl, by decide, rfl, rfl⟩)

theorem handled_step {s : Consumer} (h : s.Handled) (event : Event) : (s.step event).Handled := by
  unfold Handled
  rcases logs_step s event with ⟨hhandled, hcommitted, -⟩ | ⟨m, -, -, -, hhandled, hcommitted⟩ |
    ⟨m, outcome, -, -, hhandled, hcommitted⟩
  · rw [hhandled, hcommitted]
    exact h
  · rw [hhandled, hcommitted]
    refine forall_mem_append.mpr ⟨fun m' hm' => mem_append_left _ (h m' hm'), ?_⟩
    exact forall_mem_singleton.mpr (mem_append_right _ (mem_singleton_self _))
  · rw [hhandled, hcommitted]
    exact fun m' hm' => mem_append_left _ (h m' hm')

theorem atLeastOnce_step_iff {s : Consumer} {event : Event} (horder : s.InOrder event)
    (h : s.Handled) : (s.step event).AtLeastOnce ↔ s.AtLeastOnce ∧ s.NoFailureBefore event := by
  unfold AtLeastOnce
  rcases logs_step s event with ⟨hhandled, hcommitted, hoff⟩ |
    ⟨m, rfl, hrunning, hterminated, hhandled, hcommitted⟩ |
    ⟨m, outcome, rfl, hfailed, hhandled, hcommitted⟩
  · rw [hhandled, hcommitted]
    refine (and_iff_left ?_).symm
    unfold NoFailureBefore
    split
    · rename_i m
      intro hrunning hterminated
      rcases hoff m rfl with hno | hno
      · rw [hrunning] at hno
        cases hno
      · rw [hterminated] at hno
        cases hno
    · trivial
  · rw [hhandled, hcommitted]
    constructor
    · intro hlaw
      refine ⟨?_, ?_⟩
      · intro m' hm' e he
        exact hlaw m' (mem_append_left _ hm') e (mem_append_left _ he)
      · intro _ _ e he hsame
        by_contra hfalse
        rw [Bool.not_eq_true] at hfalse
        -- the position behind the message is behind the failed one
        have hle := hlaw m (mem_append_right _ (mem_singleton_self m)) e
          (mem_append_left _ he) hfalse hsame
        have hlt := horder e he hsame
        unfold position at hle
        omega
    · rintro ⟨hlaw, hnone⟩ m' hm' e he hfalse hsame
      rcases mem_append.mp he with hold | hnew
      · rcases mem_append.mp hm' with hm_old | hm_new
        · exact hlaw m' hm_old e hold hfalse hsame
        · rw [mem_singleton.mp hm_new] at hsame
          have htrue := hnone hrunning hterminated e hold hsame
          rw [hfalse] at htrue
          cases htrue
      · rw [mem_singleton.mp hnew] at hfalse
        cases hfalse
  · rw [hhandled, hcommitted]
    have hno : s.NoFailureBefore (.round (.message m) outcome) := by
      unfold NoFailureBefore
      split
      · rename_i heq
        cases heq
        exact absurd rfl hfailed
      · trivial
    rw [and_iff_left hno]
    constructor
    · intro hlaw m' hm' e he
      exact hlaw m' hm' e (mem_append_left _ he)
    · intro hlaw m' hm' e he hfalse hsame
      rcases mem_append.mp he with hold | hnew
      · exact hlaw m' hm' e hold hfalse hsame
      · -- what was committed before stands before the message that fails now
        rw [mem_singleton.mp hnew] at hsame ⊢
        have hlt : m'.offset < m.offset :=
          horder (m', true) (h m' hm') ⟨hsame.1.symm, hsame.2.symm⟩
        exact hlt

end Consumer

open Consumer

/-- For messages in the order of their offsets, nothing that failed is ever committed over
exactly when no callback returns true behind a failure in the same partition. -/
theorem consumption_at_least_once_iff (events : List Event)
    (horder : Meets Consumer.step InOrder {} events) :
    (run Consumer.step {} events).AtLeastOnce ↔
      Meets Consumer.step NoFailureBefore {} events := by
  have hstart : ({} : Consumer).AtLeastOnce := fun m hm => absurd hm not_mem_nil
  have hhandled : ({} : Consumer).Handled := fun m hm => absurd hm not_mem_nil
  rw [law_run_iff_of_meets AtLeastOnce (fun _ event _ h => handled_step h event)
    (fun _ _ ho h => atLeastOnce_step_iff ho h) horder hhandled]
  exact and_iff_right hstart

def failThenCommit : List Event :=
  [.round (.message ⟨text "orders", 0, 5⟩) (.returned false),
    .round .timedOut .threw,
    .round (.message ⟨text "orders", 0, 6⟩) (.returned true)]

theorem consumption_at_least_once_iff_failing :
    Meets Consumer.step InOrder {} failThenCommit ∧
      ((run Consumer.step {} failThenCommit).AtLeastOnce ↔
        Meets Consumer.step NoFailureBefore {} failThenCommit) :=
  ⟨by decide, consumption_at_least_once_iff failThenCommit (by decide)⟩

theorem failed_message_is_committed_over :
    let s := run Consumer.step {} failThenCommit
    s.handled = [(⟨text "orders", 0, 5⟩, false), (⟨text "orders", 0, 6⟩, true)] ∧
      s.committed.map position = [7] ∧ ¬ s.AtLeastOnce := by
  refine ⟨by decide, by decide, ?_⟩
  intro hlaw
  have hle := hlaw ⟨text "orders", 0, 6⟩ (by decide) (⟨text "orders", 0, 5⟩, false) (by decide) rfl
    (by decide)
  exact absurd hle (by decide)

end mymuduo.kafka_consumer
