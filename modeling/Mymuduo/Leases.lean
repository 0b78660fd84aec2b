-- Leases with an end in one store: a lease is granted for a key only where no
-- live lease is, it ends at its time, and it is taken back by its value. The log
-- says what was granted and released, so a lease that holds by the log is the
-- one the store has.
import Mymuduo.Runs

open runs

namespace leases

variable {ι κ ν : Type*}

/-- `id` names the grant. -/
structure Lease (ι ν : Type*) where
  id : ι
  value : ν
  expireAt : Nat
  deriving DecidableEq

structure Store (ι κ ν : Type*) where
  now : Nat := 0
  entries : κ → Option (Lease ι ν) := fun _ => none

inductive Act (ι κ ν : Type*)
  | granted (id : ι) (key : κ) (value : ν) (expireAt : Nat)
  | released (key : κ) (value : ν)

/-- The lease of a key, when its time is not over. -/
def Store.live (s : Store ι κ ν) (key : κ) : Option (Lease ι ν) :=
  (s.entries key).filter (fun lease => s.now ≤ lease.expireAt)

def Store.put [DecidableEq κ] (s : Store ι κ ν) (key : κ) (lease : Option (Lease ι ν)) :
    Store ι κ ν :=
  { s with entries := Function.update s.entries key lease }

/-- The lease was granted, its time is not over, and nothing released its value since. -/
def Holds (now : Nat) (log : List (Act ι κ ν)) (id : ι) (key : κ) (value : ν) (expireAt : Nat) :
    Prop :=
  (∃ before after, log = before ++ .granted id key value expireAt :: after ∧
    .released key value ∉ after) ∧ now ≤ expireAt

/-- What holds by the log is in the store. -/
def Tracks (s : Store ι κ ν) (log : List (Act ι κ ν)) : Prop :=
  ∀ id key value expireAt, Holds s.now log id key value expireAt →
    s.entries key = some ⟨id, value, expireAt⟩

section
variable {s : Store ι κ ν} {log : List (Act ι κ ν)} {key : κ}

theorem live_eq_some_iff {lease : Lease ι ν} :
    s.live key = some lease ↔ s.entries key = some lease ∧ s.now ≤ lease.expireAt := by
  simp [Store.live, Option.filter_eq_some_iff]

theorem Tracks.live (h : Tracks s log) {id : ι} {value : ν} {expireAt : Nat}
    (hholds : Holds s.now log id key value expireAt) : s.live key = some ⟨id, value, expireAt⟩ :=
  live_eq_some_iff.mpr ⟨h id key value expireAt hholds, hholds.2⟩

theorem Tracks.unique (h : Tracks s log) {id id' : ι} {value value' : ν} {expireAt expireAt' : Nat}
    (hholds : Holds s.now log id key value expireAt)
    (hholds' : Holds s.now log id' key value' expireAt') : id = id' ∧ value = value' := by
  have hsame := (h.live hholds).symm.trans (h.live hholds')
  simp only [Option.some.injEq, Lease.mk.injEq] at hsame
  exact ⟨hsame.1, hsame.2.1⟩

theorem tracks_empty : Tracks ({} : Store ι κ ν) [] := by
  rintro id key value expireAt ⟨⟨before, after, hlog, -⟩, -⟩
  simp at hlog

theorem Tracks.advance (h : Tracks s log) {later : Nat} (hlater : s.now ≤ later) :
    Tracks { s with now := later } log := by
  rintro id key value expireAt ⟨hgranted, htime⟩
  exact h id key value expireAt ⟨hgranted, Nat.le_trans hlater htime⟩

theorem Holds.of_append {now : Nat} {act : Act ι κ ν} {id : ι} {value : ν} {expireAt : Nat}
    (h : Holds now (log ++ [act]) id key value expireAt) :
    act = .granted id key value expireAt ∨
      Holds now log id key value expireAt ∧ act ≠ .released key value := by
  obtain ⟨hlog, htime⟩ := h
  have hwhere :=
    (exists_entry_append_iff (p := fun after => .released key value ∉ after) log act).mp hlog
  rcases hwhere with ⟨hact, -⟩ | ⟨before, after, rfl, hafter⟩
  · exact Or.inl hact
  · rw [List.mem_append, List.mem_singleton, not_or] at hafter
    exact Or.inr ⟨⟨⟨before, after, rfl, hafter.1⟩, htime⟩, fun hact => hafter.2 hact.symm⟩

theorem Tracks.release_other (h : Tracks s log) (value : ν) :
    Tracks s (log ++ [.released key value]) := by
  intro id' key' value' expireAt' hholds
  rcases Holds.of_append hholds with hact | ⟨hold, -⟩
  · cases hact
  · exact h id' key' value' expireAt' hold

variable [DecidableEq κ]

@[simp] theorem put_entries_self (s : Store ι κ ν) (key : κ) (lease : Option (Lease ι ν)) :
    (s.put key lease).entries key = lease := Function.update_self ..

theorem put_entries_of_ne (s : Store ι κ ν) {key other : κ} (h : other ≠ key)
    (lease : Option (Lease ι ν)) : (s.put key lease).entries other = s.entries other :=
  Function.update_of_ne h ..

theorem Tracks.grant (h : Tracks s log) (hfree : s.live key = none) (id : ι) (value : ν)
    (expireAt : Nat) :
    Tracks (s.put key (some ⟨id, value, expireAt⟩)) (log ++ [.granted id key value expireAt]) := by
  intro id' key' value' expireAt' hholds
  rcases Holds.of_append hholds with hact | ⟨hold, -⟩
  · cases hact
    exact put_entries_self ..
  · have hne : key' ≠ key := by
      rintro rfl
      rw [h.live hold] at hfree
      cases hfree
    rw [put_entries_of_ne s hne]
    exact h id' key' value' expireAt' hold

theorem Tracks.release (h : Tracks s log) {lease : Lease ι ν} (hlive : s.live key = some lease) :
    Tracks (s.put key none) (log ++ [.released key lease.value]) := by
  intro id' key' value' expireAt' hholds
  rcases Holds.of_append hholds with hact | ⟨hold, hother⟩
  · cases hact
  · have hne : key' ≠ key := by
      rintro rfl
      rw [h.live hold, Option.some.injEq] at hlive
      exact hother (by rw [← hlive])
    rw [put_entries_of_ne s hne]
    exact h id' key' value' expireAt' hold

end

end leases
