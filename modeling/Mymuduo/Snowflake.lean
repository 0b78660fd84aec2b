-- The id generator (src/util/Snowflake.h): 41 bits of milliseconds, 10 of the
-- worker and 12 of a sequence. A clock that goes back a little is waited for, one
-- that goes back further is refused, and a sequence that runs out is waited for.
import Mymuduo.Bytes
import Mymuduo.Runs
import Mymuduo.SignedWords

open List runs bytes signed_words

namespace mymuduo.snowflake

/-! ## The generator -/

def kEpoch : Int64 := 1735689600000

def kWorkerIdBits : Int64 := 10

def kSequenceBits : Int64 := 12

def kMaxWorkerId : Int64 := (1 <<< kWorkerIdBits) - 1

def kMaxSequence : Int64 := (1 <<< kSequenceBits) - 1

def kWorkerIdShift : Int64 := kSequenceBits

def kTimestampShift : Int64 := kSequenceBits + kWorkerIdBits

def kMaxClockRollbackMs : Int64 := 5

inductive Error
  | outOfRange (workerId : Int64)
  | alreadyInitialized
  | notInitialized
  | rollback (offset : Int64)
  deriving DecidableEq

/-- The number as `std::to_string` writes it. -/
def toText (n : Int64) : Bytes :=
  (if n.toInt < 0 then text "-" else []) ++ decimal n.toInt.natAbs

def Error.what : Error → Bytes
  | .outOfRange workerId =>
    text "Snowflake workerId out of range [0," ++ toText kMaxWorkerId ++ text "]: " ++
      toText workerId
  | .alreadyInitialized => text "Snowflake already initialized"
  | .notInitialized => text "Snowflake not initialized; call init() first"
  | .rollback offset =>
    text "Clock rollback detected: " ++ toText offset ++ text "ms > threshold " ++
      toText kMaxClockRollbackMs ++ text "ms"

structure Snowflake where
  initialized_ : Bool := false
  workerId_ : Int64 := 0
  lastTimestamp_ : Int64 := -1
  sequence_ : Int64 := 0
  deriving DecidableEq

/-- `((now - kEpoch) << kTimestampShift) | (workerId_ << kWorkerIdShift) | sequence_` -/
def compose (now workerId sequence : Int64) : Int64 :=
  ((now - kEpoch) <<< kTimestampShift) ||| (workerId <<< kWorkerIdShift) ||| sequence

def extractTimestamp (id : Int64) : Int64 := (id >>> kTimestampShift) + kEpoch

def extractWorkerId (id : Int64) : Int64 := (id >>> kWorkerIdShift) &&& kMaxWorkerId

def extractSequence (id : Int64) : Int64 := id &&& kMaxSequence

/-- The busy wait: the first reading behind the last timestamp. -/
def spin (last : Int64) : List Int64 → Option Int64
  | [] => none
  | now :: readings => if now ≤ last then spin last readings else some now

namespace Snowflake

def init (s : Snowflake) (workerId : Int64) : Except Error Snowflake :=
  if workerId < 0 ∨ kMaxWorkerId < workerId then .error (.outOfRange workerId)
  else if s.initialized_ then .error .alreadyInitialized
  else .ok { s with initialized_ := true, workerId_ := workerId }

/-- The timestamp and the sequence are stored, and the id is made of them. -/
def finish (s : Snowflake) (now sequence : Int64) : Except Error Int64 × Snowflake :=
  (.ok (compose now s.workerId_ sequence), { s with lastTimestamp_ := now, sequence_ := sequence })

/-- `nextId` behind its treatment of a rollback. -/
def issue (s : Snowflake) (now : Int64) (readings : List Int64) :
    Option (Except Error Int64 × Snowflake) :=
  if now = s.lastTimestamp_ then
    let sequence := (s.sequence_ + 1) &&& kMaxSequence
    if sequence = 0 then (spin s.lastTimestamp_ readings).map (fun later => s.finish later sequence)
    else some (s.finish now sequence)
  else some (s.finish now 0)

/-- A call that reads the clock as `readings` says. `none` is a call that is still waiting
when the readings are over. -/
def nextId (s : Snowflake) (readings : List Int64) : Option (Except Error Int64 × Snowflake) :=
  if !s.initialized_ then some (.error .notInitialized, s)
  else
    match readings with
    | [] => none
    | now :: readings =>
      if now < s.lastTimestamp_ then
        let offset := s.lastTimestamp_ - now
        if offset ≤ kMaxClockRollbackMs then
          match readings with
          | [] => none
          | again :: readings =>
            s.issue (if again < s.lastTimestamp_ then s.lastTimestamp_ else again) readings
        else some (.error (.rollback offset), s)
      else s.issue now readings

end Snowflake

/-- One instance and the ids it has returned. A call that is still waiting has the lock, so
no later call goes on. -/
structure Instance where
  flake : Snowflake
  waiting : Bool := false
  ids : List Int64 := []

def Instance.step (i : Instance) (readings : List Int64) : Instance :=
  if i.waiting then i
  else
    match i.flake.nextId readings with
    | none => { i with waiting := true }
    | some (.ok id, flake) => { i with flake, ids := i.ids ++ [id] }
    | some (.error _, flake) => { i with flake }

/-! ## The property -/

/-- A reading between the epoch and the end of the 41 bits. -/
def InRange (now : Int64) : Prop := kEpoch.toInt ≤ now.toInt ∧ now.toInt < kEpoch.toInt + 2 ^ 41

/-- The parts of an id are the ones that were stored. -/
def Instance.Recovers (i : Instance) (readings : List Int64) : Prop :=
  ∀ id flake, i.flake.nextId readings = some (.ok id, flake) →
    extractTimestamp id = flake.lastTimestamp_ ∧ extractWorkerId id = flake.workerId_ ∧
      extractSequence id = flake.sequence_

def Instance.KeepsOnThrow (i : Instance) (readings : List Int64) : Prop :=
  ∀ e flake, i.flake.nextId readings = some (.error e, flake) →
    flake.lastTimestamp_ = i.flake.lastTimestamp_ ∧ flake.sequence_ = i.flake.sequence_

/-! ## The parts of an id -/

theorem holds_kEpoch : Holds kEpoch 1735689600000 := ⟨by decide, by decide⟩

theorem holds_kMaxSequence : Holds kMaxSequence (2 ^ 12 - 1) := ⟨by decide, by decide⟩

theorem holds_kMaxWorkerId : Holds kMaxWorkerId (2 ^ 10 - 1) := ⟨by decide, by decide⟩

theorem shifts_kWorkerIdShift : Shifts kWorkerIdShift 12 := ⟨by decide⟩

theorem shifts_kTimestampShift : Shifts kTimestampShift 22 := ⟨by decide⟩

theorem inRange_iff {now : Int64} : InRange now ↔ ∃ t < 2 ^ 41, Holds now (1735689600000 + t) := by
  have hepoch : kEpoch.toInt = 1735689600000 := holds_kEpoch.toInt
  unfold InRange
  rw [hepoch]
  constructor
  · rintro ⟨hlow, hhigh⟩
    refine ⟨(now.toInt - 1735689600000).toNat, by omega, holds_of_toInt ?_⟩
    omega
  · rintro ⟨t, ht, hnow⟩
    rw [hnow.toInt]
    omega

section
variable {now workerId sequence id : Int64} {t w q : Nat}

theorem holds_compose (hnow : Holds now (1735689600000 + t)) (ht : t < 2 ^ 41)
    (hworker : Holds workerId w) (hw : w < 2 ^ 10) (hsequence : Holds sequence q)
    (hq : q < 2 ^ 12) : Holds (compose now workerId sequence) ((t * 2 ^ 10 + w) * 2 ^ 12 + q) := by
  have hdiff : Holds (now - kEpoch) t := by
    have hsub := hnow.sub holds_kEpoch (by omega)
    rwa [Nat.add_sub_cancel_left] at hsub
  have hhigh : Holds ((now - kEpoch) <<< kTimestampShift) (t * 2 ^ 22) :=
    hdiff.shiftLeft shifts_kTimestampShift (by omega)
  have hmid : Holds (workerId <<< kWorkerIdShift) (w * 2 ^ 12) :=
    hworker.shiftLeft shifts_kWorkerIdShift (by omega)
  have hboth := hhigh.or hmid (by omega) (by omega)
  have heq : t * 2 ^ 22 + w * 2 ^ 12 = (t * 2 ^ 10 + w) * 2 ^ 12 := by omega
  rw [heq] at hboth
  exact hboth.or hsequence hq (by omega)

theorem extractSequence_of_holds (hid : Holds id ((t * 2 ^ 10 + w) * 2 ^ 12 + q)) (hq : q < 2 ^ 12)
    (hsequence : Holds sequence q) : extractSequence id = sequence := by
  have hmask := hid.and_mask holds_kMaxSequence
  have heq : ((t * 2 ^ 10 + w) * 2 ^ 12 + q) % 2 ^ 12 = q := by omega
  rw [heq] at hmask
  exact hmask.unique hsequence

theorem extractWorkerId_of_holds (hid : Holds id ((t * 2 ^ 10 + w) * 2 ^ 12 + q)) (hq : q < 2 ^ 12)
    (hw : w < 2 ^ 10) (hworker : Holds workerId w) : extractWorkerId id = workerId := by
  have hmask := (hid.shiftRight shifts_kWorkerIdShift).and_mask holds_kMaxWorkerId
  have heq : ((t * 2 ^ 10 + w) * 2 ^ 12 + q) / 2 ^ 12 % 2 ^ 10 = w := by omega
  rw [heq] at hmask
  exact hmask.unique hworker

theorem extractTimestamp_of_holds (hid : Holds id ((t * 2 ^ 10 + w) * 2 ^ 12 + q)) (hq : q < 2 ^ 12)
    (hw : w < 2 ^ 10) (ht : t < 2 ^ 41) (hnow : Holds now (1735689600000 + t)) :
    extractTimestamp id = now := by
  have hshift := hid.shiftRight shifts_kTimestampShift
  have heq : ((t * 2 ^ 10 + w) * 2 ^ 12 + q) / 2 ^ 22 = t := by omega
  rw [heq] at hshift
  have hsum := hshift.add holds_kEpoch (by omega)
  rw [Nat.add_comm] at hsum
  exact hsum.unique hnow

end

/-! ## One call -/

namespace Snowflake

/-- A generator of the worker `w` that has stored nothing yet, or a timestamp in range. -/
structure Sound (s : Snowflake) (w : Nat) : Prop where
  initialized : s.initialized_ = true
  worker : Holds s.workerId_ w
  workerFits : w < 2 ^ 10
  sequence : ∃ q < 2 ^ 12, Holds s.sequence_ q
  last : s.lastTimestamp_ = -1 ∨ InRange s.lastTimestamp_

/-- The generator has gone on from `s`: to a later timestamp, or to the next sequence number
of the same one. -/
structure Advances (s next : Snowflake) : Prop where
  initialized : next.initialized_ = s.initialized_
  worker : next.workerId_ = s.workerId_
  inRange : InRange next.lastTimestamp_
  sequence : ∃ q < 2 ^ 12, Holds next.sequence_ q
  later : s.lastTimestamp_ < next.lastTimestamp_ ∨
    s.lastTimestamp_ = next.lastTimestamp_ ∧ s.sequence_ < next.sequence_

variable {s next : Snowflake} {w : Nat}

theorem Advances.sound (h : Advances s next) (hs : s.Sound w) : next.Sound w :=
  ⟨h.initialized.trans hs.initialized, h.worker ▸ hs.worker, hs.workerFits, h.sequence,
    Or.inr h.inRange⟩

variable {now : Int64} {readings : List Int64}

theorem spin_spec {last : Int64} (h : spin last readings = some now) :
    now ∈ readings ∧ last < now := by
  induction readings with
  | nil => cases h
  | cons reading readings ih =>
    unfold spin at h
    split at h
    · obtain ⟨hmem, hlt⟩ := ih h
      exact ⟨mem_cons_of_mem _ hmem, hlt⟩
    · rename_i hlt
      obtain rfl := Option.some.inj h
      exact ⟨mem_cons_self, Int64.not_le.mp hlt⟩

theorem spin_isSome {last : Int64} (hmem : now ∈ readings) (hlt : last < now) :
    (spin last readings).isSome := by
  induction readings with
  | nil => cases hmem
  | cons reading readings ih =>
    unfold spin
    split
    · rename_i hle
      rcases mem_cons.mp hmem with rfl | hrest
      · exact absurd hle (Int64.not_le.mpr hlt)
      · exact ih hrest
    · rfl

theorem next_sequence {sequence : Int64} {q : Nat} (h : Holds sequence q) (hq : q < 2 ^ 12) :
    ∃ r < 2 ^ 12, Holds ((sequence + 1) &&& kMaxSequence) r ∧
      ((sequence + 1) &&& kMaxSequence ≠ 0 → sequence < (sequence + 1) &&& kMaxSequence) := by
  have hnext := (h.add holds_one (by omega)).and_mask holds_kMaxSequence
  refine ⟨(q + 1) % 2 ^ 12, Nat.mod_lt _ (by omega), hnext, ?_⟩
  intro hne
  rw [h.lt_iff hnext]
  have hpos : (q + 1) % 2 ^ 12 ≠ 0 := fun h0 => hne ((hnext.eq_iff holds_zero).mpr h0)
  omega

theorem issue_spec (hs : s.Sound w) (hnow : InRange now) (hle : s.lastTimestamp_ ≤ now)
    (hreadings : ∀ r ∈ readings, InRange r) {result : Except Error Int64 × Snowflake}
    (h : s.issue now readings = some result) :
    result.1 = .ok (compose result.2.lastTimestamp_ result.2.workerId_ result.2.sequence_) ∧
      Advances s result.2 := by
  obtain ⟨q, hq, hsequence⟩ := hs.sequence
  unfold issue at h
  split at h
  case isTrue hsame =>
    obtain ⟨r, hr, hnext, hlarger⟩ := next_sequence hsequence hq
    dsimp only at h
    split at h
    case isTrue hwrapped =>
      -- the sequence has run out, so the spin gives a later timestamp
      obtain ⟨later, hspin, rfl⟩ := Option.map_eq_some_iff.mp h
      obtain ⟨hmem, hlt⟩ := spin_spec hspin
      exact ⟨rfl, rfl, rfl, hreadings later hmem, ⟨r, hr, hnext⟩, Or.inl hlt⟩
    case isFalse hne =>
      obtain rfl := Option.some.inj h
      exact ⟨rfl, rfl, rfl, hnow, ⟨r, hr, hnext⟩, Or.inr ⟨hsame.symm, hlarger hne⟩⟩
  case isFalse hother =>
    obtain rfl := Option.some.inj h
    refine ⟨rfl, rfl, rfl, hnow, ⟨0, by omega, holds_zero⟩, Or.inl ?_⟩
    rw [Int64.lt_iff_toInt_lt]
    rw [Int64.le_iff_toInt_le] at hle
    have hne : s.lastTimestamp_.toInt ≠ now.toInt := fun heq => hother (Int64.toInt_inj.mp heq).symm
    exact Int.lt_iff_le_and_ne.mpr ⟨hle, hne⟩

theorem Sound.inRange_of_lt (hs : s.Sound w) (hnow : InRange now) (hlt : now < s.lastTimestamp_) :
    InRange s.lastTimestamp_ := by
  rcases hs.last with hfirst | hrange
  · obtain ⟨t, -, hholds⟩ := inRange_iff.mp hnow
    rw [hfirst, Int64.lt_iff_toInt_lt, hholds.toInt] at hlt
    have hminus : (-1 : Int64).toInt = -1 := by decide
    omega
  · exact hrange

/-- A call returns an id and goes on, or throws and changes nothing. -/
theorem nextId_cases (hs : s.Sound w) (hreadings : ∀ r ∈ readings, InRange r)
    {result : Except Error Int64 × Snowflake} (h : s.nextId readings = some result) :
    (result.1 = .ok (compose result.2.lastTimestamp_ result.2.workerId_ result.2.sequence_) ∧
      Advances s result.2) ∨ ∃ e, result = (.error e, s) := by
  unfold nextId at h
  rw [if_neg (by simp [hs.initialized])] at h
  split at h
  case h_1 => cases h
  case h_2 now rest =>
    have hnow : InRange now := hreadings now mem_cons_self
    have hrest : ∀ r ∈ rest, InRange r := fun r hr => hreadings r (mem_cons_of_mem _ hr)
    split at h
    case isFalse hle => exact Or.inl (issue_spec hs hnow (Int64.not_lt.mp hle) hrest h)
    case isTrue hback =>
      have hlast := hs.inRange_of_lt hnow hback
      dsimp only at h
      split at h
      case isFalse =>
        obtain rfl := Option.some.inj h
        exact Or.inr ⟨_, rfl⟩
      case isTrue =>
        split at h
        case h_1 => cases h
        case h_2 again rest' =>
          have hrest' : ∀ r ∈ rest', InRange r := fun r hr => hrest r (mem_cons_of_mem _ hr)
          split at h
          case isTrue => exact Or.inl (issue_spec hs hlast (Int64.le_refl _) hrest' h)
          case isFalse hle =>
            exact Or.inl (issue_spec hs (hrest again mem_cons_self) (Int64.not_lt.mp hle) hrest' h)

/-- A call returns or throws as soon as a reading behind its first two is later than the last
timestamp. -/
theorem nextId_isSome (hs : s.initialized_ = true) (first second : Int64) (hmem : now ∈ readings)
    (hlt : s.lastTimestamp_ < now) : (s.nextId (first :: second :: readings)).isSome := by
  have hissue : ∀ reading rest, now ∈ rest → (s.issue reading rest).isSome := by
    intro reading rest hin
    unfold issue
    split
    · dsimp only
      split
      · rw [Option.isSome_map]
        exact spin_isSome hin hlt
      · rfl
    · rfl
  unfold nextId
  rw [if_neg (by simp [hs])]
  dsimp only
  split
  · split
    · exact hissue _ _ hmem
    · rfl
  · exact hissue _ _ (mem_cons_of_mem _ hmem)

/-- Worker 3 at its last sequence number: the third reading ends the spin. -/
theorem nextId_isSome_third_reading :
    (nextId ⟨true, 3, kEpoch, kMaxSequence⟩ [kEpoch, kEpoch, kEpoch + 1]).isSome :=
  nextId_isSome rfl _ _ (mem_singleton_self _) (by decide)

def code (s : Snowflake) : Int64 := compose s.lastTimestamp_ s.workerId_ s.sequence_

theorem Sound.holds_code (hs : s.Sound w) {t q : Nat}
    (hlast : Holds s.lastTimestamp_ (1735689600000 + t)) (ht : t < 2 ^ 41)
    (hsequence : Holds s.sequence_ q) (hq : q < 2 ^ 12) :
    Holds s.code ((t * 2 ^ 10 + w) * 2 ^ 12 + q) :=
  holds_compose hlast ht hs.worker hs.workerFits hsequence hq

theorem Sound.code_parts (hs : s.Sound w) (hrange : InRange s.lastTimestamp_) :
    0 ≤ s.code ∧ extractTimestamp s.code = s.lastTimestamp_ ∧ extractWorkerId s.code = s.workerId_ ∧
      extractSequence s.code = s.sequence_ := by
  obtain ⟨t, ht, hlast⟩ := inRange_iff.mp hrange
  obtain ⟨q, hq, hsequence⟩ := hs.sequence
  have hcode := hs.holds_code hlast ht hsequence hq
  exact ⟨(holds_zero.le_iff hcode).mpr (Nat.zero_le _),
    extractTimestamp_of_holds hcode hq hs.workerFits ht hlast,
    extractWorkerId_of_holds hcode hq hs.workerFits hs.worker,
      extractSequence_of_holds hcode hq hsequence⟩

theorem Advances.code_lt (h : Advances s next) (hs : s.Sound w)
    (hrange : InRange s.lastTimestamp_) : s.code < next.code := by
  obtain ⟨t, ht, hlast⟩ := inRange_iff.mp hrange
  obtain ⟨t', ht', hlast'⟩ := inRange_iff.mp h.inRange
  obtain ⟨q, hq, hsequence⟩ := hs.sequence
  obtain ⟨q', hq', hsequence'⟩ := h.sequence
  rw [(hs.holds_code hlast ht hsequence hq).lt_iff
    ((h.sound hs).holds_code hlast' ht' hsequence' hq')]
  rcases h.later with hlater | ⟨hsame, hnext⟩
  · have htime := (hlast.lt_iff hlast').mp hlater
    omega
  · have htime := (hlast.eq_iff hlast').mp hsame
    have hnumber := (hsequence.lt_iff hsequence').mp hnext
    omega

end Snowflake

/-! ## Runs -/

namespace Instance

/-- The ids so far go up to the stored one. -/
structure Issued (w : Nat) (i : Instance) : Prop where
  sound : i.flake.Sound w
  below : ∀ id ∈ i.ids, InRange i.flake.lastTimestamp_ ∧ id ≤ i.flake.code
  nonneg : ∀ id ∈ i.ids, 0 ≤ id
  increasing : i.ids.Pairwise (· < ·)
  worker : ∀ id ∈ i.ids, extractWorkerId id = i.flake.workerId_

def ClockInRange (_ : Instance) (readings : List Int64) : Prop := ∀ r ∈ readings, InRange r

variable {w : Nat}

theorem Issued.next {i : Instance} (h : Issued w i) {flake : Snowflake}
    (hadvances : Snowflake.Advances i.flake flake) :
    Issued w { i with flake, ids := i.ids ++ [flake.code] } := by
  have hsound := hadvances.sound h.sound
  obtain ⟨hnonneg, -, hworker, -⟩ := hsound.code_parts hadvances.inRange
  have hlarger : ∀ id ∈ i.ids, id < flake.code := by
    intro id hid
    obtain ⟨hrange, hle⟩ := h.below id hid
    exact Int64.lt_of_le_of_lt hle (hadvances.code_lt h.sound hrange)
  refine ⟨hsound, ?_, ?_, ?_, ?_⟩
  · refine forall_mem_append.mpr
      ⟨fun id hid => ?_, forall_mem_singleton.mpr ⟨hadvances.inRange, Int64.le_refl _⟩⟩
    exact ⟨hadvances.inRange, Int64.le_of_lt (hlarger id hid)⟩
  · exact forall_mem_append.mpr ⟨h.nonneg, forall_mem_singleton.mpr hnonneg⟩
  · refine pairwise_append.mpr ⟨h.increasing, pairwise_singleton _ _, ?_⟩
    intro id hold other hnew
    rw [mem_singleton.mp hnew]
    exact hlarger id hold
  · refine forall_mem_append.mpr ⟨fun id hid => ?_, forall_mem_singleton.mpr hworker⟩
    exact (h.worker id hid).trans hadvances.worker.symm

theorem issued_step (i : Instance) (readings : List Int64) (hclock : i.ClockInRange readings)
    (h : Issued w i) : Issued w (i.step readings) := by
  unfold step
  split
  case isTrue => exact h
  case isFalse =>
    split
    case h_1 => exact { h with }
    case h_2 id flake hcall =>
      rcases Snowflake.nextId_cases h.sound hclock hcall with ⟨hid, hadvances⟩ | ⟨e, hthrows⟩
      · have hcode : id = flake.code := Except.ok.inj hid
        subst hcode
        exact h.next hadvances
      · cases hthrows
    case h_3 e flake hcall =>
      rcases Snowflake.nextId_cases h.sound hclock hcall with ⟨hid, -⟩ | ⟨e', hthrows⟩
      · cases hid
      · obtain ⟨-, rfl⟩ := Prod.mk.inj hthrows
        exact h

theorem Issued.recovers {i : Instance} (h : Issued w i) {readings : List Int64}
    (hclock : i.ClockInRange readings) : i.Recovers readings := by
  intro id flake hcall
  rcases Snowflake.nextId_cases h.sound hclock hcall with ⟨hid, hadvances⟩ | ⟨e, hthrows⟩
  · have hcode : id = flake.code := Except.ok.inj hid
    subst hcode
    exact ((hadvances.sound h.sound).code_parts hadvances.inRange).2
  · cases hthrows

theorem Issued.keepsOnThrow {i : Instance} (h : Issued w i) {readings : List Int64}
    (hclock : i.ClockInRange readings) : i.KeepsOnThrow readings := by
  intro e flake hcall
  rcases Snowflake.nextId_cases h.sound hclock hcall with ⟨hid, -⟩ | ⟨e', hthrows⟩
  · cases hid
  · obtain ⟨-, rfl⟩ := Prod.mk.inj hthrows
    exact ⟨rfl, rfl⟩

def idsOf (workerId : Int64) (calls : List (List Int64)) : List Int64 :=
  (run step { flake := { initialized_ := true, workerId_ := workerId } } calls).ids

variable {workerId : Int64}

theorem init_eq (hlow : 0 ≤ workerId) (hhigh : workerId ≤ kMaxWorkerId) :
    Snowflake.init {} workerId = .ok { initialized_ := true, workerId_ := workerId } := by
  unfold Snowflake.init
  rw [if_neg (not_or.mpr ⟨Int64.not_lt.mpr hlow, Int64.not_lt.mpr hhigh⟩)]
  rfl

theorem issued_init (hlow : 0 ≤ workerId) (hhigh : workerId ≤ kMaxWorkerId) :
    ∃ w, Issued w { flake := { initialized_ := true, workerId_ := workerId } } := by
  have hpos : 0 ≤ workerId.toInt := by
    have hle := Int64.le_iff_toInt_le.mp hlow
    exact hle
  obtain ⟨w, hw⟩ := exists_holds hpos
  have hfits : w ≤ 2 ^ 10 - 1 := (hw.le_iff holds_kMaxWorkerId).mp hhigh
  refine ⟨w, ⟨rfl, hw, by omega, ⟨0, by omega, holds_zero⟩, Or.inl rfl⟩, ?_, ?_, ?_, ?_⟩
  · intro id hid
    cases hid
  · intro id hid
    cases hid
  · exact List.Pairwise.nil
  · intro id hid
    cases hid

theorem meets_clock (i : Instance) {calls : List (List Int64)}
    (hclock : ∀ readings ∈ calls, ∀ r ∈ readings, InRange r) : Meets step ClockInRange i calls :=
  meets_of_forall step ClockInRange (fun readings hmem _ => hclock readings hmem) i

theorem idsOf_spec (hlow : 0 ≤ workerId) (hhigh : workerId ≤ kMaxWorkerId)
    {calls : List (List Int64)} (hclock : ∀ readings ∈ calls, ∀ r ∈ readings, InRange r) :
    (∀ id ∈ idsOf workerId calls, 0 ≤ id) ∧ (idsOf workerId calls).Pairwise (· < ·) ∧
      ∀ id ∈ idsOf workerId calls, extractWorkerId id = workerId := by
  obtain ⟨w, hstart⟩ := issued_init hlow hhigh
  have hworker : ∀ i : Instance, ∀ readings, i.ClockInRange readings →
      (∃ w, Issued w i) ∧ i.flake.workerId_ = workerId →
      (∃ w, Issued w (i.step readings)) ∧ (i.step readings).flake.workerId_ = workerId := by
    rintro i readings hreadings ⟨⟨w, hi⟩, rfl⟩
    refine ⟨⟨w, issued_step i readings hreadings hi⟩, ?_⟩
    exact (issued_step i readings hreadings hi).sound.worker.unique hi.sound.worker
  obtain ⟨⟨w', hissued⟩, hsame⟩ := invariant_run hworker (meets_clock _ hclock) ⟨⟨w, hstart⟩, rfl⟩
  refine ⟨hissued.nonneg, hissued.increasing, ?_⟩
  intro id hid
  rw [hissued.worker id hid]
  exact hsame

/-- The ids of every worker, over every sequence of calls and readings: not negative, strictly
increasing, made of the stored parts, and different from the ids of every other worker; and a
call that throws stores nothing. -/
theorem snowflake_ids (workerId : Int64) (hlow : 0 ≤ workerId) (hhigh : workerId ≤ kMaxWorkerId)
    (calls : List (List Int64)) (hclock : ∀ readings ∈ calls, ∀ r ∈ readings, InRange r) :
    ∃ flake, Snowflake.init {} workerId = .ok flake ∧
      (∀ id ∈ (run step { flake } calls).ids, 0 ≤ id) ∧
      (run step { flake } calls).ids.Pairwise (· < ·) ∧
      Meets step Recovers { flake } calls ∧
      Meets step KeepsOnThrow { flake } calls ∧
      ∀ other flake' calls', other ≠ workerId → Snowflake.init {} other = .ok flake' →
        (∀ readings ∈ calls', ∀ r ∈ readings, InRange r) →
        ∀ id ∈ (run step { flake } calls).ids, id ∉ (run step { flake := flake' } calls').ids := by
  obtain ⟨w, hstart⟩ := issued_init hlow hhigh
  obtain ⟨hnonneg, hincreasing, hworker⟩ := idsOf_spec hlow hhigh hclock
  have hmeets := meets_clock { flake := { initialized_ := true, workerId_ := workerId } } hclock
  refine ⟨_, init_eq hlow hhigh, hnonneg, hincreasing, ?_, ?_, ?_⟩
  · exact meets_of_invariant issued_step (fun _ _ hreadings h => h.recovers hreadings) hmeets hstart
  · exact meets_of_invariant issued_step (fun _ _ hreadings h => h.keepsOnThrow hreadings) hmeets
      hstart
  · intro other flake' calls' hother hinit hclock' id hid hid'
    have hbounds : 0 ≤ other ∧ other ≤ kMaxWorkerId := by
      unfold Snowflake.init at hinit
      split at hinit
      · cases hinit
      · rename_i hrange
        obtain ⟨hl, hh⟩ := not_or.mp hrange
        exact ⟨Int64.not_lt.mp hl, Int64.not_lt.mp hh⟩
    rw [init_eq hbounds.1 hbounds.2] at hinit
    obtain rfl := Except.ok.inj hinit
    have hworker' := (idsOf_spec hbounds.1 hbounds.2 hclock').2.2 id hid'
    exact hother (hworker'.symm.trans (hworker id hid))

/-- A rollback of two milliseconds that the clock does not make up for. -/
def rolledBack : List (List Int64) := [[kEpoch + 9], [kEpoch + 7, kEpoch + 8], [kEpoch + 1]]

theorem snowflake_ids_rolledBack :
    ∃ flake, Snowflake.init {} 5 = .ok flake ∧
      (run step { flake } rolledBack).ids.Pairwise (· < ·) := by
  have hclock : ∀ readings ∈ rolledBack, ∀ r ∈ readings, InRange r := by
    simp only [rolledBack, mem_cons, not_mem_nil, or_false, forall_eq_or_imp, forall_eq]
    unfold InRange
    decide +kernel
  obtain ⟨flake, hinit, -, hincreasing, -⟩ :=
    snowflake_ids 5 (by decide) (by decide) rolledBack hclock
  exact ⟨flake, hinit, hincreasing⟩

end Instance

end mymuduo.snowflake
