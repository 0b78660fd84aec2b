-- Readers of a stream that arrives in pieces. Each delivery appends a piece to what
-- is left over and takes items until none is complete, or until an item says stop.
-- The items do not depend on the cut exactly when no item before the last says stop.
import Mymuduo.Runs

open List runs

namespace segments

universe u v

variable {α : Type u} {β : Type v}

/-- A reader takes an item off the front, takes the same item when more has
arrived, and needs nothing beyond the item itself. -/
structure Reader (α : Type u) (β : Type v) where
  next : List α → Option (β × List α)
  shrinks : ∀ {xs b ys}, next xs = some (b, ys) → ys.length < xs.length
  stable : ∀ {xs b ys}, next xs = some (b, ys) → ∀ more, next (xs ++ more) = some (b, ys ++ more)
  exact :
    ∀ {xs b ys}, next xs = some (b, ys) → ∃ front, xs = front ++ ys ∧ next front = some (b, [])

variable {parts : List (List α × β)}

namespace Reader

variable (r : Reader α β) (stop : β → Bool)

/-! ## One delivery -/

/-- Take items until none is complete or one says stop, at most `fuel` of them. -/
def drainFuel : Nat → List α → List β × List α
  | 0, xs => ([], xs)
  | fuel + 1, xs =>
    match r.next xs with
    | none => ([], xs)
    | some (b, ys) =>
      if stop b then ([b], ys)
      else
        let (bs, zs) := drainFuel fuel ys
        (b :: bs, zs)

/-- The items taken, and what is left over. -/
def drain (xs : List α) : List β × List α := r.drainFuel stop xs.length xs

def items (xs : List α) : List β := (r.drain (fun _ => false) xs).1

/-- What no item takes off the end of the stream. -/
def leftover (xs : List α) : List α := (r.drain (fun _ => false) xs).2

theorem next_nil : r.next [] = none := by
  cases h : r.next [] with
  | none => rfl
  | some p => exact absurd (r.shrinks h) (by simp)

variable {xs : List α}

theorem drainFuel_eq {fuel : Nat} (h : xs.length ≤ fuel) :
    r.drainFuel stop fuel xs = r.drain stop xs := by
  unfold drain
  induction fuel using Nat.strongRecOn generalizing xs with
  | ind fuel ih =>
    cases fuel with
    | zero =>
      have : xs.length = 0 := by omega
      rw [this]
    | succ fuel =>
      cases hx : xs.length with
      | zero =>
        have : xs = [] := eq_nil_of_length_eq_zero hx
        subst this
        simp [drainFuel, next_nil]
      | succ n =>
        unfold drainFuel
        cases hnext : r.next xs with
        | none => rfl
        | some p =>
          have hys := r.shrinks hnext
          dsimp only
          rw [ih fuel (by omega) (by omega), ih n (by omega) (by omega)]

theorem drain_eq (xs : List α) :
    r.drain stop xs =
      match r.next xs with
      | none => ([], xs)
      | some (b, ys) =>
        if stop b then ([b], ys) else (b :: (r.drain stop ys).1, (r.drain stop ys).2) := by
  rw [← r.drainFuel_eq stop (Nat.le_succ xs.length)]
  unfold drainFuel
  cases hnext : r.next xs with
  | none => rfl
  | some p =>
    have hys := r.shrinks hnext
    dsimp only
    rw [r.drainFuel_eq stop (by omega)]

theorem items_of_next_none (h : r.next xs = none) : r.items xs = [] := by
  unfold items
  rw [drain_eq, h]

theorem items_of_next_some {ys : List α} {b : β} (h : r.next xs = some (b, ys)) :
    r.items xs = b :: r.items ys := by
  unfold items
  rw [drain_eq, h]
  rfl

theorem leftover_of_next_none (h : r.next xs = none) : r.leftover xs = xs := by
  unfold leftover
  rw [drain_eq, h]

theorem leftover_of_next_some {ys : List α} {b : β} (h : r.next xs = some (b, ys)) :
    r.leftover xs = r.leftover ys := by
  unfold leftover
  rw [drain_eq, h]
  rfl

theorem items_induction {motive : List α → Prop} (wait : ∀ xs, r.next xs = none → motive xs)
    (take : ∀ xs b ys, r.next xs = some (b, ys) → motive ys → motive xs) (xs : List α) :
    motive xs := by
  induction hn : xs.length using Nat.strongRecOn generalizing xs with
  | ind n ih =>
    cases hnext : r.next xs with
    | none => exact wait xs hnext
    | some p =>
      obtain ⟨b, ys⟩ := p
      have hys := r.shrinks hnext
      exact take xs b ys hnext (ih ys.length (by omega) ys rfl)

/-- A delivery takes the first items and leaves the others for later. -/
theorem append_eq_drain (xs more : List α) :
    r.items (xs ++ more) = (r.drain stop xs).1 ++ r.items ((r.drain stop xs).2 ++ more) ∧
      r.leftover (xs ++ more) = r.leftover ((r.drain stop xs).2 ++ more) := by
  induction xs using r.items_induction with
  | wait xs h =>
    rw [drain_eq, h]
    exact ⟨rfl, rfl⟩
  | take xs b ys h ih =>
    rw [r.items_of_next_some (r.stable h more), r.leftover_of_next_some (r.stable h more), drain_eq,
      h]
    dsimp only
    by_cases hs : stop b = true
    · rw [if_pos hs]
      exact ⟨rfl, rfl⟩
    · rw [if_neg hs, ih.1, ih.2]
      exact ⟨rfl, rfl⟩

/-- A stream made of whole items has these items, and nothing else. -/
theorem items_flatten (h : ∀ p ∈ parts, r.next p.1 = some (p.2, [])) :
    r.items (parts.map Prod.fst).flatten = parts.map Prod.snd ∧
      r.leftover (parts.map Prod.fst).flatten = [] := by
  induction parts with
  | nil => exact ⟨r.items_of_next_none r.next_nil, r.leftover_of_next_none r.next_nil⟩
  | cons p parts ih =>
    obtain ⟨hitems, hleft⟩ := ih (fun q hq => h q (mem_cons_of_mem p hq))
    have hfirst := r.stable (h p (mem_cons_self ..)) (parts.map Prod.fst).flatten
    rw [nil_append] at hfirst
    rw [map_cons, flatten_cons, map_cons]
    refine ⟨?_, ?_⟩
    · rw [r.items_of_next_some hfirst, hitems]
    · rw [r.leftover_of_next_some hfirst, hleft]

/-- A delivery ends because nothing is complete, or behind an item that says stop.
No item before that one says stop. -/
theorem drain_end (xs : List α) :
    (∀ b ∈ (r.drain stop xs).1.dropLast, stop b = false) ∧
      (r.next (r.drain stop xs).2 = none ∨
        ∃ b, (r.drain stop xs).1.getLast? = some b ∧ stop b = true) := by
  induction xs using r.items_induction with
  | wait xs h =>
    rw [drain_eq, h]
    exact ⟨by simp, Or.inl h⟩
  | take xs b ys h ih =>
    rw [drain_eq, h]
    dsimp only
    by_cases hs : stop b = true
    · rw [if_pos hs]
      exact ⟨by simp, Or.inr ⟨b, rfl, hs⟩⟩
    · rw [if_neg hs]
      obtain ⟨hbefore, hend⟩ := ih
      refine ⟨?_, ?_⟩
      · intro c hc
        cases hbs : (r.drain stop ys).1 with
        | nil =>
          rw [hbs] at hc
          simp at hc
        | cons d ds =>
          rw [hbs, dropLast_cons_cons] at hc
          rcases mem_cons.mp hc with rfl | hc
          · simpa using hs
          · apply hbefore
            rw [hbs]
            exact hc
      · rcases hend with hnone | ⟨c, hc, hstop⟩
        · exact Or.inl hnone
        · refine Or.inr ⟨c, ?_, hstop⟩
          cases hbs : (r.drain stop ys).1 with
          | nil =>
            rw [hbs] at hc
            cases hc
          | cons d ds =>
            rw [hbs] at hc
            rw [getLast?_cons_cons]
            exact hc

/-! ## Deliveries -/

def deliver (s : List β × List α) (piece : List α) : List β × List α :=
  (s.1 ++ (r.drain stop (s.2 ++ piece)).1, (r.drain stop (s.2 ++ piece)).2)

def taken (pieces : List (List α)) : List β := (run (r.deliver stop) ([], []) pieces).1

end Reader

/-- The pieces make up the stream, and none is empty. -/
def IsCut (xs : List α) (pieces : List (List α)) : Prop := pieces.flatten = xs ∧ [] ∉ pieces

variable {pieces : List (List α)}

namespace Reader

variable (r : Reader α β) (stop : β → Bool)

theorem run_deliver_keeps (s : List β × List α) (pieces : List (List α)) :
    (run (r.deliver stop) s pieces).1 ++ r.items (run (r.deliver stop) s pieces).2 =
        s.1 ++ r.items (s.2 ++ pieces.flatten) ∧
      r.leftover (run (r.deliver stop) s pieces).2 = r.leftover (s.2 ++ pieces.flatten) := by
  induction pieces generalizing s with
  | nil => simp
  | cons piece pieces ih =>
    obtain ⟨hitems, hleft⟩ := r.append_eq_drain stop (s.2 ++ piece) pieces.flatten
    rw [run_cons, (ih _).1, (ih _).2, flatten_cons, ← append_assoc s.2 piece, hitems, hleft]
    unfold deliver
    exact ⟨append_assoc .., rfl⟩

theorem run_deliver_end (s : List β × List α) (pieces : List (List α))
    (h : r.next s.2 = none ∨ ∃ b, s.1.getLast? = some b ∧ stop b = true) :
    r.next (run (r.deliver stop) s pieces).2 = none ∨
      ∃ b, (run (r.deliver stop) s pieces).1.getLast? = some b ∧ stop b = true := by
  induction pieces generalizing s with
  | nil => exact h
  | cons piece pieces ih =>
    rw [run_cons]
    apply ih
    rcases (r.drain_end stop (s.2 ++ piece)).2 with hnone | ⟨b, hb, hstop⟩
    · exact Or.inl hnone
    · refine Or.inr ⟨b, ?_, hstop⟩
      unfold deliver
      rw [getLast?_append, hb]
      rfl

/-- When only the last item can say stop, every cut gives all items. -/
theorem taken_eq_items {xs : List α} (h : ∀ b ∈ (r.items xs).dropLast, stop b = false)
    (hcut : IsCut xs pieces) : r.taken stop pieces = r.items xs := by
  have hitems := (r.run_deliver_keeps stop ([], []) pieces).1
  have hend := r.run_deliver_end stop ([], []) pieces (Or.inl r.next_nil)
  rw [nil_append, nil_append, hcut.1] at hitems
  unfold taken
  generalize run (r.deliver stop) ([], []) pieces = s at hitems hend ⊢
  rcases hend with hnone | ⟨b, hb, hstop⟩
  · rw [← hitems, r.items_of_next_none hnone, append_nil]
  · -- the last item taken says stop, so it is the last item of the stream
    cases hrest : r.items s.2 with
    | nil => rw [← hitems, hrest, append_nil]
    | cons c cs =>
      have hmem : b ∈ (r.items xs).dropLast := by
        rw [← hitems, hrest, dropLast_append_cons]
        exact mem_append_left _ (mem_of_getLast? hb)
      rw [h b hmem] at hstop
      cases hstop

/-- Whole items that do not say stop are all taken, whatever the cut, and nothing is
left over. -/
theorem run_deliver_whole (hwhole : ∀ p ∈ parts, r.next p.1 = some (p.2, []))
    (hstop : ∀ p ∈ parts, stop p.2 = false)
    (hflat : pieces.flatten = (parts.map Prod.fst).flatten) :
    run (r.deliver stop) ([], []) pieces = (parts.map Prod.snd, []) := by
  obtain ⟨hitems, hleft⟩ := r.items_flatten hwhole
  obtain ⟨hall, hrest⟩ := r.run_deliver_keeps stop ([], []) pieces
  have hend := r.run_deliver_end stop ([], []) pieces (Or.inl r.next_nil)
  rw [nil_append, nil_append, hflat, hitems] at hall
  rw [nil_append, hflat, hleft] at hrest
  generalize run (r.deliver stop) ([], []) pieces = s at hall hrest hend ⊢
  have hwait : r.next s.2 = none := by
    rcases hend with hnone | ⟨b, hb, hb'⟩
    · exact hnone
    · have hmem : b ∈ parts.map Prod.snd := by
        rw [← hall]
        exact mem_append_left _ (mem_of_getLast? hb)
      obtain ⟨p, hp, rfl⟩ := mem_map.mp hmem
      rw [hstop p hp] at hb'
      cases hb'
  rw [r.items_of_next_none hwait, append_nil] at hall
  rw [r.leftover_of_next_none hwait] at hrest
  exact Prod.ext hall hrest

/-! ## Machines that handle the items of a stream -/

theorem next_leftover (xs : List α) : r.next (r.leftover xs) = none := by
  rcases (r.drain_end (fun _ => false) xs).2 with hnone | ⟨b, -, hb⟩
  · exact hnone
  · cases hb

theorem next_part {xs part : List α} {b : β} (hwhole : r.next xs = some (b, []))
    (hpart : part <+: xs) (hne : part ≠ xs) : r.next part = none := by
  obtain ⟨more, rfl⟩ := hpart
  cases hnext : r.next part with
  | none => rfl
  | some q =>
    have hsame := r.stable hnext more
    rw [hwhole, Option.some.injEq, Prod.mk.injEq] at hsame
    have hmore := (append_eq_nil_iff.mp hsame.2.symm).2
    rw [hmore, append_nil] at hne
    exact absurd rfl hne

/-- What arrived of a stream of whole items is some of the items, and behind them
nothing or less than an item. -/
theorem items_of_arrived (hwhole : ∀ p ∈ parts, r.next p.1 = some (p.2, [])) {xs : List α}
    (h : xs <+: (parts.map Prod.fst).flatten) :
    ∃ done rest, parts = done ++ rest ∧ r.items xs = done.map Prod.snd ∧
      xs = (done.map Prod.fst).flatten ++ r.leftover xs ∧
      (r.leftover xs = [] ∨ ∃ p ∈ rest, r.leftover xs <+: p.1 ∧ r.leftover xs ≠ p.1) := by
  induction parts generalizing xs with
  | nil =>
    have hnil : xs = [] := prefix_nil.mp h
    subst hnil
    refine ⟨[], [], rfl, r.items_of_next_none r.next_nil, ?_, Or.inl ?_⟩
    · rw [r.leftover_of_next_none r.next_nil]
      rfl
    · exact r.leftover_of_next_none r.next_nil
  | cons p parts ih =>
    have hp := hwhole p (mem_cons_self ..)
    rcases Nat.lt_or_ge xs.length p.1.length with hlt | hge
    · -- the first item is not whole yet
      have hpart : xs <+: p.1 :=
        prefix_of_prefix_length_le h (prefix_append _ _) (le_of_lt hlt)
      have hne : xs ≠ p.1 := by
        rintro rfl
        exact absurd hlt (lt_irrefl _)
      have hnone := r.next_part hp hpart hne
      have hleft := r.leftover_of_next_none hnone
      refine ⟨[], p :: parts, rfl, r.items_of_next_none hnone, ?_, Or.inr ⟨p, by simp, ?_⟩⟩
      · rw [hleft]
        rfl
      · rw [hleft]
        exact ⟨hpart, hne⟩
    · obtain ⟨ys, rfl⟩ := prefix_of_prefix_length_le (prefix_append _ _) h hge
      have hys : ys <+: (parts.map Prod.fst).flatten := (prefix_append_right_inj p.1).mp h
      obtain ⟨done, rest, hparts, hitems, hxs, hrest⟩ :=
        ih (fun q hq => hwhole q (mem_cons_of_mem p hq)) hys
      have hfirst := r.stable hp ys
      rw [nil_append] at hfirst
      have hleft := r.leftover_of_next_some hfirst
      refine ⟨p :: done, rest, by rw [hparts]; rfl, ?_, ?_, ?_⟩
      · rw [r.items_of_next_some hfirst, hitems]
        rfl
      · rw [hleft, map_cons, flatten_cons, append_assoc, ← hxs]
      · rw [hleft]
        exact hrest

/-- A machine with a buffer, which `put` fills. A step handles the items that are
complete, if they are `good` and what is left over `fits`. -/
structure Handles {τ : Type*} (step : τ → List α → τ) (put : τ → List α → τ) (handle : τ → β → τ)
    (inv : τ → Prop) (good : β → Prop) (fits : List α → Prop) : Prop where
  step_eq : ∀ s buf piece, inv s → (∀ b ∈ r.items (buf ++ piece), good b) →
    fits (r.leftover (buf ++ piece)) →
    step (put s buf) piece =
      put ((r.items (buf ++ piece)).foldl handle s) (r.leftover (buf ++ piece))
  keeps : ∀ s b, inv s → good b → inv (handle s b)

section Machines

variable {r} {τ : Type*} {step : τ → List α → τ} {put : τ → List α → τ} {handle : τ → β → τ}
  {inv : τ → Prop} {good : β → Prop} {fits : List α → Prop}

theorem Handles.foldl (h : r.Handles step put handle inv good fits) {bs : List β}
    (hbs : ∀ b ∈ bs, good b) {s : τ} (hs : inv s) : inv (bs.foldl handle s) := by
  induction bs generalizing s with
  | nil => exact hs
  | cons b bs ih =>
    exact ih (fun c hc => hbs c (mem_cons_of_mem b hc))
      (h.keeps s b hs (hbs b (mem_cons_self ..)))

/-- Whatever the cut of a stream of whole items, the machine handles each item once,
in order, and nothing stays in its buffer. -/
theorem Handles.run_whole (h : r.Handles step put handle inv good fits) (hnil : fits [])
    (hwhole : ∀ p ∈ parts, r.next p.1 = some (p.2, [])) (hgood : ∀ p ∈ parts, good p.2)
    (hfits : ∀ p ∈ parts, ∀ part, part <+: p.1 → part ≠ p.1 → fits part) {s : τ} (hs : inv s)
    {buf : List α} (hbuf : r.next buf = none)
    (hflat : buf ++ pieces.flatten = (parts.map Prod.fst).flatten) :
    run step (put s buf) pieces = put ((parts.map Prod.snd).foldl handle s) [] := by
  induction pieces generalizing s buf parts with
  | nil =>
    rw [flatten_nil, append_nil] at hflat
    cases parts with
    | nil =>
      rw [hflat]
      rfl
    | cons p parts =>
      have hfirst := r.stable (hwhole p (mem_cons_self ..)) (parts.map Prod.fst).flatten
      rw [hflat, map_cons, flatten_cons, hfirst] at hbuf
      cases hbuf
  | cons piece pieces ih =>
    rw [flatten_cons, ← append_assoc] at hflat
    obtain ⟨done, rest, rfl, hitems, hxs, hleft⟩ := r.items_of_arrived hwhole ⟨_, hflat⟩
    have hdone : ∀ b ∈ r.items (buf ++ piece), good b := by
      intro b hb
      rw [hitems] at hb
      obtain ⟨p, hp, rfl⟩ := mem_map.mp hb
      exact hgood p (mem_append_left _ hp)
    have hrest : fits (r.leftover (buf ++ piece)) := by
      rcases hleft with hleft | ⟨p, hp, hpre, hne⟩
      · rw [hleft]
        exact hnil
      · exact hfits p (mem_append_right _ hp) _ hpre hne
    rw [run_cons, h.step_eq s buf piece hs hdone hrest, map_append, foldl_append, ← hitems]
    apply ih
    · exact fun p hp => hwhole p (mem_append_right _ hp)
    · exact fun p hp => hgood p (mem_append_right _ hp)
    · exact fun p hp => hfits p (mem_append_right _ hp)
    · exact h.foldl hdone hs
    · exact r.next_leftover _
    · rw [hxs, append_assoc, map_append, flatten_append] at hflat
      exact append_cancel_left hflat

end Machines

/-- The cut behind each item gives all items, whatever they say. -/
theorem exists_cut_at_items (xs : List α) :
    ∃ pieces, IsCut xs pieces ∧
      ∀ acc, (run (r.deliver stop) (acc, []) pieces).1 = acc ++ r.items xs := by
  induction xs using r.items_induction with
  | wait xs h =>
    cases xs with
    | nil => exact ⟨[], ⟨rfl, by simp⟩, fun acc => by simp [r.items_of_next_none h]⟩
    | cons x xs =>
      refine ⟨[x :: xs], ⟨by simp, by simp⟩, fun acc => ?_⟩
      rw [run_cons, run_nil, r.items_of_next_none h]
      unfold deliver
      rw [nil_append, drain_eq, h]
  | take xs b ys h ih =>
    obtain ⟨pieces, ⟨hflat, hne⟩, htaken⟩ := ih
    obtain ⟨front, hxs, hfront⟩ := r.exact h
    have hfront_ne : front ≠ [] := by
      rintro rfl
      rw [r.next_nil] at hfront
      cases hfront
    have hdrain : r.drain stop front = ([b], []) := by
      rw [drain_eq, hfront]
      dsimp only
      rw [drain_eq, r.next_nil]
      split <;> rfl
    refine ⟨front :: pieces, ⟨by rw [flatten_cons, hflat, hxs], ?_⟩, fun acc => ?_⟩
    · rw [mem_cons]
      rintro (hnil | hmem)
      · exact hfront_ne hnil.symm
      · exact hne hmem
    · have hstep : r.deliver stop (acc, []) front = (acc ++ [b], []) := by
        unfold deliver
        rw [nil_append, hdrain]
      rw [run_cons, hstep, htaken, r.items_of_next_some h, append_assoc]
      rfl

/-- All cuts of the stream give the same items, as far as `f` sees them, exactly
when no item before the last one says stop. -/
theorem cuts_agree_iff {γ : Type*} (f : β → γ) (xs : List α) :
    (∀ c d, IsCut xs c → IsCut xs d → (r.taken stop c).map f = (r.taken stop d).map f) ↔
      ∀ b ∈ (r.items xs).dropLast, stop b = false := by
  constructor
  · intro hagree
    cases xs with
    | nil =>
      rw [r.items_of_next_none r.next_nil]
      simp
    | cons x xs =>
      -- the whole stream in one piece against the cut behind each item
      obtain ⟨pieces, hcut, htaken⟩ := r.exists_cut_at_items stop (x :: xs)
      have hall : r.taken stop pieces = r.items (x :: xs) := htaken []
      have hone : r.taken stop [x :: xs] = (r.drain stop (x :: xs)).1 := rfl
      have hlen := congrArg List.length (hagree [x :: xs] pieces ⟨by simp, by simp⟩ hcut)
      rw [length_map, length_map, hall, hone] at hlen
      have hsplit := (r.append_eq_drain stop (x :: xs) []).1
      rw [append_nil, append_nil] at hsplit
      have hnil : r.items (r.drain stop (x :: xs)).2 = [] := by
        apply eq_nil_of_length_eq_zero
        have := congrArg List.length hsplit
        rw [length_append] at this
        omega
      rw [hsplit, hnil, append_nil]
      exact (r.drain_end stop (x :: xs)).1
  · intro h c d hc hd
    rw [r.taken_eq_items stop h hc, r.taken_eq_items stop h hd]

end Reader

end segments
