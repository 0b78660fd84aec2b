-- Half-open intervals of lists in the lexicographic order. An interval whose ends
-- differ only in a last letter and its successor holds the lists with one
-- beginning; one that ends in the least letter more holds a single list.
import Mathlib.Data.List.Infix

open List

namespace lex_ranges

variable {α : Type*} [LT α]

def Between (low high l : List α) : Prop := low ≤ l ∧ l < high

instance [DecidableEq α] [DecidableLT α] (low high l : List α) : Decidable (Between low high l) :=
  inferInstanceAs (Decidable (_ ∧ _))

variable [Std.Asymm (α := α) (· < ·)] [Std.Trichotomous (α := α) (· < ·)] {a b : α}

theorem between_cons_iff {low high l : List α} :
    Between (a :: low) (a :: high) l ↔ ∃ rest, l = a :: rest ∧ Between low high rest := by
  unfold Between
  cases l with
  | nil =>
    constructor
    · rintro ⟨hlow, -⟩
      exact absurd (nil_lt_cons a low) hlow
    · rintro ⟨rest, hrest, -⟩
      cases hrest
  | cons c rest =>
    rw [cons_le_cons_iff, cons_lt_cons_iff]
    constructor
    · rintro ⟨hac | ⟨rfl, hlow⟩, hca | ⟨heq, hhigh⟩⟩
      · exact absurd hca (Std.Asymm.asymm _ _ hac)
      · rw [heq] at hac
        exact absurd hac (Std.Asymm.asymm _ _ hac)
      · exact absurd hca (Std.Asymm.asymm _ _ hca)
      · exact ⟨rest, rfl, hlow, hhigh⟩
    · rintro ⟨rest', hrest, hlow, hhigh⟩
      cases hrest
      exact ⟨Or.inr ⟨rfl, hlow⟩, Or.inr ⟨rfl, hhigh⟩⟩

theorem between_append_iff {low high l : List α} (init : List α) :
    Between (init ++ low) (init ++ high) l ↔ ∃ rest, l = init ++ rest ∧ Between low high rest := by
  induction init generalizing l with
  | nil => simp
  | cons c init ih =>
    rw [cons_append, cons_append, between_cons_iff]
    constructor
    · rintro ⟨rest, rfl, hrest⟩
      obtain ⟨rest', rfl, hbetween⟩ := ih.mp hrest
      exact ⟨rest', rfl, hbetween⟩
    · rintro ⟨rest, rfl, hbetween⟩
      exact ⟨init ++ rest, rfl, ih.mpr ⟨rest, rfl, hbetween⟩⟩

theorem between_letters_iff (hlt : a < b) (hnext : ∀ c, a < c → ¬ c < b) {l : List α} :
    Between [a] [b] l ↔ [a] <+: l := by
  unfold Between
  cases l with
  | nil =>
    refine iff_of_false ?_ (by simp)
    rintro ⟨hlow, -⟩
    exact absurd (nil_lt_cons a []) hlow
  | cons c rest =>
    rw [cons_le_cons_iff, cons_lt_cons_iff]
    constructor
    · rintro ⟨hac | ⟨rfl, -⟩, hcb | ⟨-, hrest⟩⟩
      · exact absurd hcb (hnext c hac)
      · exact absurd hrest (not_lt_nil rest)
      · exact ⟨rest, rfl⟩
      · exact absurd hrest (not_lt_nil rest)
    · rintro ⟨rest', hrest⟩
      cases hrest
      exact ⟨Or.inr ⟨rfl, nil_le _⟩, Or.inl hlt⟩

/-- The lists with one beginning are an interval, where its last letter has a successor. -/
theorem between_successor_iff (hlt : a < b) (hnext : ∀ c, a < c → ¬ c < b) (init : List α)
    {l : List α} : Between (init ++ [a]) (init ++ [b]) l ↔ init ++ [a] <+: l := by
  rw [between_append_iff]
  constructor
  · rintro ⟨rest, rfl, hbetween⟩
    exact (prefix_append_right_inj init).mpr ((between_letters_iff hlt hnext).mp hbetween)
  · rintro ⟨rest, rfl⟩
    refine ⟨a :: rest, by simp, (between_letters_iff hlt hnext).mpr ⟨rest, rfl⟩⟩

/-- Nothing is between a list and the same list with the least letter behind it, except the
list itself. -/
theorem between_least_iff (hleast : ∀ c, ¬ c < a) (low : List α) {l : List α} :
    Between low (low ++ [a]) l ↔ l = low := by
  have happend : Between (low ++ []) (low ++ [a]) l ↔ _ := between_append_iff low
  rw [append_nil] at happend
  rw [happend]
  constructor
  · rintro ⟨rest, rfl, -, hhigh⟩
    cases rest with
    | nil => rw [append_nil]
    | cons c rest =>
      rcases cons_lt_cons_iff.mp hhigh with hca | ⟨-, hrest⟩
      · exact absurd hca (hleast c)
      · exact absurd hrest (not_lt_nil rest)
  · rintro rfl
    exact ⟨[], (append_nil l).symm, nil_le _, nil_lt_cons a []⟩

end lex_ranges
