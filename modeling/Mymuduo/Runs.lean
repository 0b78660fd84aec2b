-- Runs of a machine that takes one step for each input. A run is the fold
-- of the step over the inputs, so a law of one step becomes a law of every
-- run, of any length.
import Mathlib.Data.List.Infix

open List

namespace runs

variable {σ α β : Type*} (step : σ → α → σ)

/-! ## Runs -/

def run (s : σ) (as : List α) : σ := as.foldl step s

/-- Each input of the run meets `ok` in the state that it finds. -/
def Meets (ok : σ → α → Prop) : σ → List α → Prop
  | _, [] => True
  | s, a :: as => ok s a ∧ Meets ok (step s a) as

/-- What the inputs of a run put in, in order. -/
def collect (put : σ → α → List β) : σ → List α → List β
  | _, [] => []
  | s, a :: as => put s a ++ collect put (step s a) as

instance decidableMeets (ok : σ → α → Prop) [∀ s a, Decidable (ok s a)] :
    ∀ s as, Decidable (Meets step ok s as)
  | _, [] => inferInstanceAs (Decidable True)
  | s, a :: as =>
    have := decidableMeets ok (step s a) as
    inferInstanceAs (Decidable (ok s a ∧ Meets step ok (step s a) as))

@[simp] theorem run_nil (s : σ) : run step s [] = s := rfl

@[simp] theorem run_cons (s : σ) (a : α) (as : List α) :
    run step s (a :: as) = run step (step s a) as := rfl

variable {as : List α}

theorem meets_of_forall (ok : σ → α → Prop) (h : ∀ a ∈ as, ∀ s, ok s a) (s : σ) :
    Meets step ok s as := by
  induction as generalizing s with
  | nil => trivial
  | cons a as ih =>
    exact ⟨h a (by simp) s, ih (fun b hb => h b (by simp [hb])) _⟩

theorem meets_true (s : σ) (as : List α) : Meets step (fun _ _ => True) s as :=
  meets_of_forall step _ (fun _ _ _ => trivial) s

variable {s : σ}

/-- What holds at the end and comes from every state before holds behind every step. -/
theorem meets_of_end {p : σ → Prop} (hback : ∀ s a, p (step s a) → p s)
    (h : p (run step s as)) : p s ∧ Meets step (fun s a => p (step s a)) s as := by
  induction as generalizing s with
  | nil => exact ⟨h, trivial⟩
  | cons a as ih =>
    obtain ⟨hnext, hrest⟩ := ih h
    exact ⟨hback s a hnext, hnext, hrest⟩

theorem meets_and {p q : σ → α → Prop} (hp : Meets step p s as)
    (hq : Meets step q s as) : Meets step (fun s a => p s a ∧ q s a) s as := by
  induction as generalizing s with
  | nil => trivial
  | cons a as ih => exact ⟨⟨hp.1, hq.1⟩, ih hp.2 hq.2⟩

/-! ## The run rules -/

variable {step}

/-- Two conditions that agree in every state of a run hold together over the run. -/
theorem meets_congr {ok p q : σ → α → Prop} (inv : σ → Prop)
    (hstep : ∀ s a, ok s a → inv s → inv (step s a)) (hagree : ∀ s a, inv s → (p s a ↔ q s a))
    (hok : Meets step ok s as) (h : inv s) : Meets step p s as ↔ Meets step q s as := by
  induction as generalizing s with
  | nil => exact Iff.rfl
  | cons a as ih => exact and_congr (hagree s a h) (ih hok.2 (hstep s a hok.1 h))

variable {inv : σ → Prop} {ok : σ → α → Prop}

/-- What every step that is right keeps, every run of such steps keeps. -/
theorem invariant_run (hstep : ∀ s a, ok s a → inv s → inv (step s a)) (hok : Meets step ok s as)
    (h : inv s) : inv (run step s as) := by
  induction as generalizing s with
  | nil => exact h
  | cons a as ih => exact ih hok.2 (hstep s a hok.1 h)

theorem invariant_always (hstep : ∀ s a, inv s → inv (step s a))
    (h : inv s) (as : List α) : inv (run step s as) :=
  invariant_run (fun s a _ => hstep s a) (meets_true step s as) h

/-- What every right step finds where the invariant holds, every step of a right run finds. -/
theorem meets_of_invariant {ok p : σ → α → Prop} (hstep : ∀ s a, ok s a → inv s → inv (step s a))
    (hp : ∀ s a, ok s a → inv s → p s a) (hok : Meets step ok s as) (h : inv s) :
    Meets step p s as := by
  induction as generalizing s with
  | nil => trivial
  | cons a as ih => exact ⟨hp s a hok.1 h, ih hok.2 (hstep s a hok.1 h)⟩

/-- A step that its guard holds back changes nothing. -/
theorem guarded {c : Prop} [Decidable c] {t : σ} (h : inv s) (ht : c → inv t) :
    inv (if c then t else s) := by
  split
  · rename_i hc
    exact ht hc
  · exact h

theorem guarded_not {c : Prop} [Decidable c] {t : σ} (h : inv s) (ht : ¬c → inv t) :
    inv (if c then s else t) := by
  split
  · exact h
  · rename_i hc
    exact ht hc

/-- When each step adds to `held` what it puts in, a run adds all that its inputs put in. -/
theorem conserved_run (held : σ → List β) (put : σ → α → List β)
    (hstep : ∀ s a, ok s a → inv s → inv (step s a))
    (hheld : ∀ s a, ok s a → inv s → held (step s a) = held s ++ put s a) (hok : Meets step ok s as)
    (h : inv s) : held (run step s as) = held s ++ collect step put s as := by
  induction as generalizing s with
  | nil => simp [collect]
  | cons a as ih =>
    rw [run_cons, ih hok.2 (hstep s a hok.1 h), hheld s a hok.1 h, append_assoc]
    rfl

/-- When each step of one machine matches the step of another on the same input, so do runs. -/
theorem simulation_run {τ : Type*} (step' : τ → α → τ) (rel : σ → τ → Prop)
    (hstep : ∀ s t a, ok s a → rel s t → rel (step s a) (step' t a)) {t : τ}
    (hok : Meets step ok s as) (h : rel s t) : rel (run step s as) (run step' t as) := by
  induction as generalizing s t with
  | nil => exact h
  | cons a as ih => exact ih hok.2 (hstep s t a hok.1 h)

variable (law : σ → Prop)

/-- Over a run whose steps meet `p`: a law that such a step leaves standing exactly when
the step is right holds behind the run exactly when every step of it is right. -/
theorem law_run_iff_of_meets {p ok : σ → α → Prop} (hinv : ∀ s a, p s a → inv s → inv (step s a))
    (hstep : ∀ s a, p s a → inv s → (law (step s a) ↔ law s ∧ ok s a)) (hp : Meets step p s as)
    (hs : inv s) : law (run step s as) ↔ law s ∧ Meets step ok s as := by
  induction as generalizing s with
  | nil => simp [Meets]
  | cons a as ih =>
    rw [run_cons, ih hp.2 (hinv s a hp.1 hs), hstep s a hp.1 hs]
    exact and_assoc

theorem law_run_iff (hinv : ∀ s a, inv s → inv (step s a))
    (hstep : ∀ s a, inv s → (law (step s a) ↔ law s ∧ ok s a)) (hs : inv s) (as : List α) :
    law (run step s as) ↔ law s ∧ Meets step ok s as :=
  law_run_iff_of_meets law (fun s a _ => hinv s a) (fun s a _ => hstep s a)
    (meets_true step s as) hs

/-- A law that a step from a lawful state keeps exactly when the step is right holds after
every step of a run exactly when every step of the run is right. -/
theorem always_run_iff (hinv : ∀ s a, inv s → inv (step s a))
    (hstep : ∀ s a, inv s → law s → (law (step s a) ↔ ok s a)) (hs : inv s) (hlaw : law s)
    (as : List α) : (∀ made, made <+: as → law (run step s made)) ↔ Meets step ok s as := by
  induction as generalizing s with
  | nil =>
    refine iff_of_true ?_ trivial
    intro made hmade
    rw [prefix_nil.mp hmade]
    exact hlaw
  | cons a as ih =>
    constructor
    · intro h
      have hnext : law (step s a) := h [a] (by simp)
      refine ⟨(hstep s a hs hlaw).mp hnext, (ih (hinv s a hs) hnext).mp ?_⟩
      intro made hmade
      exact h (a :: made) (cons_prefix_cons.mpr ⟨rfl, hmade⟩)
    · rintro ⟨hok, hrest⟩ made hmade
      cases made with
      | nil => exact hlaw
      | cons b made =>
        obtain ⟨rfl, hrest'⟩ := cons_prefix_cons.mp hmade
        exact (ih (hinv s b hs) ((hstep s b hs hlaw).mpr hok)).mpr hrest made hrest'

/-! ## Logs -/

/-- The entries of a log behind the last one that meets `p`, or all when none does. -/
def since (p : β → Bool) (l : List β) : List β := (l.reverse.takeWhile (fun x => !p x)).reverse

theorem since_append_of_pos {p : β → Bool} {x : β} (h : p x = true) (l : List β) :
    since p (l ++ [x]) = [] := by
  simp [since, h]

theorem since_append_of_neg {p : β → Bool} {x : β} (h : p x = false) (l : List β) :
    since p (l ++ [x]) = since p l ++ [x] := by
  simp [since, h]

/-- Each entry of a log is right behind the entries before it. -/
def Each (p : List β → β → Prop) (l : List β) : Prop :=
  ∀ before x after, l = before ++ x :: after → p before x

theorem each_nil (p : List β → β → Prop) : Each p [] := by
  intro before x after h
  simp at h

variable {p : List β → β → Prop}

theorem each_append_iff (l new : List β) :
    Each p (l ++ new) ↔ Each p l ∧ Each (fun before x => p (l ++ before) x) new := by
  constructor
  · intro h
    refine ⟨?_, ?_⟩
    · intro before x after hl
      exact h before x (after ++ new) (by rw [hl, append_assoc, cons_append])
    · intro before x after hnew
      exact h (l ++ before) x after (by rw [hnew, append_assoc])
  · rintro ⟨hl, hnew⟩ before x after hsplit
    -- the entry is one of the old ones or one of the new ones
    rcases append_eq_append_iff.mp hsplit with ⟨mid, hbefore, hmid⟩ | ⟨mid, hl', hmid⟩
    · rw [hbefore]
      exact hnew mid x after hmid
    · cases mid with
      | nil =>
        rw [append_nil] at hl'
        have hfirst : p (l ++ []) x := hnew [] x after hmid.symm
        rwa [append_nil, hl'] at hfirst
      | cons y mid =>
        rw [cons_append, List.cons.injEq] at hmid
        exact hl before x mid (by rw [hl', hmid.1])

theorem each_singleton_iff (x : β) : Each p [x] ↔ p [] x := by
  constructor
  · intro h
    exact h [] x [] rfl
  · intro h before y after hsplit
    cases before with
    | nil =>
      rw [nil_append, List.cons.injEq] at hsplit
      exact hsplit.1 ▸ h
    | cons z before => simp at hsplit

theorem each_concat_iff (l : List β) (x : β) : Each p (l ++ [x]) ↔ Each p l ∧ p l x := by
  rw [each_append_iff, each_singleton_iff, append_nil]

/-- Where an entry stands in a log with one entry more: it is the new one, or it stands
where it stood and has the new one behind it. -/
theorem exists_entry_append_iff {p : List β → Prop} {x : β} (l : List β) (new : β) :
    (∃ before after, l ++ [new] = before ++ x :: after ∧ p after) ↔
      new = x ∧ p [] ∨ ∃ before after, l = before ++ x :: after ∧ p (after ++ [new]) := by
  constructor
  · rintro ⟨before, after, hsplit, hp⟩
    rcases eq_nil_or_concat after with rfl | ⟨front, last, rfl⟩
    · obtain ⟨-, hlast⟩ := append_inj' hsplit rfl
      exact Or.inl ⟨by simpa using hlast, hp⟩
    · rw [concat_eq_append, ← cons_append, ← append_assoc] at hsplit
      obtain ⟨hfront, hlast⟩ := append_inj' hsplit rfl
      obtain rfl : new = last := by simpa using hlast
      exact Or.inr ⟨before, front, hfront, by rwa [concat_eq_append] at hp⟩
  · rintro (⟨rfl, hp⟩ | ⟨before, after, rfl, hp⟩)
    · exact ⟨l, [], rfl, hp⟩
    · exact ⟨before, after ++ [new], by simp, hp⟩

theorem each_of_forall {l : List β} (h : ∀ x ∈ l, ∀ before, p before x) : Each p l := by
  intro before x after hl
  exact h x (by rw [hl]; simp) before

theorem each_congr {p q : List β → β → Prop} {l : List β}
    (h : ∀ before x after, l = before ++ x :: after → (p before x ↔ q before x)) :
    Each p l ↔ Each q l :=
  ⟨fun hp before x after hl => (h before x after hl).mp (hp before x after hl),
    fun hq before x after hl => (h before x after hl).mpr (hq before x after hl)⟩

theorem each_iff_pairwise {r : β → β → Prop} (l : List β) :
    Each (fun before y => ∀ x ∈ before, r x y) l ↔ l.Pairwise r := by
  induction l using List.reverseRecOn with
  | nil => exact iff_of_true (each_nil _) List.Pairwise.nil
  | append_singleton l y ih =>
    rw [each_concat_iff, pairwise_append, ih]
    simp

end runs
