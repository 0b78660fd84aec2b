-- The two rate limiters (src/util/RateLimiter.h): the sliding window grants exactly what its
-- window has room for, and the token bucket never more than its burst and its rate.
-- Times are milliseconds. The steady clock counts nanoseconds in 64 bits, so no
-- difference of two times overflows. Doubles are rationals.
import Mathlib.Tactic.Linarith
import Mathlib.Tactic.Positivity
import Mymuduo.Bytes
import Mymuduo.Runs

open List bytes runs words
open Function (update update_self update_of_ne)

namespace mymuduo.rate_limiter

/-! ## A state for each key -/

section Keys

variable {σ : Type} (allowIn : σ → Int → Bool × σ)

/-- `allow`, from what it does with the state of the key. -/
def allowAt (states : Bytes → σ) (key : Bytes) (now : Int) : Bool × (Bytes → σ) :=
  ((allowIn (states key) now).1, update states key (allowIn (states key) now).2)

/-- A limiter with the times at which it let a key pass, and the time of the last call. -/
structure Log (σ : Type) where
  states : Bytes → σ
  grants : Bytes → List Int
  clock : Int

def Log.start (new : σ) (clock : Int) : Log σ := ⟨fun _ => new, fun _ => [], clock⟩

def Log.step (s : Log σ) (call : Bytes × Int) : Log σ where
  states := (allowAt allowIn s.states call.1 call.2).2
  grants := update s.grants call.1
    (s.grants call.1 ++ if (allowAt allowIn s.states call.1 call.2).1 then [call.2] else [])
  clock := call.2

/-- The clock does not go back. -/
def InTime (s : Log σ) (call : Bytes × Int) : Prop := s.clock ≤ call.2

/-- How many of the grants fall in `[s, t]`. -/
def granted (s t : Int) (grants : List Int) : Nat := grants.countP fun x => s ≤ x ∧ x ≤ t

theorem granted_concat {grants : List Int} {now : Int} (hpast : ∀ x ∈ grants, x ≤ now) (s t : Int) :
    granted s t (grants ++ [now]) =
      if s ≤ now ∧ now ≤ t then granted s now grants + 1 else granted s t grants := by
  rw [granted, countP_append, countP_singleton]
  split
  · rename_i hin
    simp only [decide_eq_true_eq] at hin
    rw [if_pos hin, granted, Nat.add_right_cancel_iff]
    apply countP_congr
    intro x hx
    have := hpast x hx
    simp only [decide_eq_true_eq]
    omega
  · rename_i hout
    rw [if_neg (by simpa using hout)]
    rfl

variable {allowIn}

/-- What time and every call keep for one key holds for all. -/
theorem forall_step {holds : Int → σ → List Int → Prop}
    (hlater : ∀ {clock now state grants}, clock ≤ now → holds clock state grants →
      holds now state grants)
    (hallow : ∀ {now state grants}, holds now state grants →
      holds now (allowIn state now).2 (grants ++ if (allowIn state now).1 then [now] else []))
    (s : Log σ) (call : Bytes × Int) (hclock : InTime s call)
    (h : ∀ key, holds s.clock (s.states key) (s.grants key)) (key : Bytes) :
    holds (s.step allowIn call).clock ((s.step allowIn call).states key)
      ((s.step allowIn call).grants key) := by
  have hkey := hlater hclock (h key)
  simp only [Log.step, allowAt]
  by_cases hcall : key = call.1
  · subst hcall
    rw [update_self, update_self]
    exact hallow hkey
  · rw [update_of_ne hcall, update_of_ne hcall]
    exact hkey

/-- The calls of other keys do not matter. -/
theorem states_run_filter (calls : List (Bytes × Int)) (key : Bytes) {s s' : Log σ}
    (h : s.states key = s'.states key) :
    (run (Log.step allowIn) s (calls.filter (·.1 = key))).states key =
      (run (Log.step allowIn) s' calls).states key := by
  induction calls generalizing s s' with
  | nil => exact h
  | cons call calls ih =>
    by_cases hcall : call.1 = key
    · rw [filter_cons_of_pos (by simpa using hcall)]
      apply ih
      simp [Log.step, allowAt, hcall, h]
    · rw [filter_cons_of_neg (by simpa using hcall)]
      apply ih
      simp [Log.step, allowAt, update_of_ne (Ne.symm hcall), h]

end Keys

/-- Two calls in the same millisecond, and one a second later. -/
def threeCalls : List (Bytes × Int) := [([97], 0), ([97], 0), ([97], 1000)]

/-! ## The sliding window -/

structure SlidingWindowLimiter where
  maxRequests_ : Int
  windowMs_ : Int

namespace SlidingWindowLimiter

/-- The constructor. The product is of type `int`. -/
def create (maxRequests windowSec : Int) : SlidingWindowLimiter :=
  ⟨maxRequests, int32 (windowSec * 1000)⟩

def allowIn (limiter : SlidingWindowLimiter) (window : List Int) (now : Int) : Bool × List Int :=
  let window := window.dropWhile (· ≤ now - limiter.windowMs_)
  if int32 window.length < limiter.maxRequests_ then (true, window ++ [now]) else (false, window)

/-- `windows_[key]` is empty for a new key. -/
def allow (limiter : SlidingWindowLimiter) : (Bytes → List Int) → Bytes → Int →
    Bool × (Bytes → List Int) := allowAt limiter.allowIn

/-- The deque of a key holds the grants behind some time that is out of the window, and no
window holds too many. -/
structure Kept (limiter : SlidingWindowLimiter) (clock : Int) (window grants : List Int) :
    Prop where
  past : ∀ t ∈ grants, t ≤ clock
  sorted : grants.Pairwise (· ≤ ·)
  window : ∃ cut ≤ clock - limiter.windowMs_, window = grants.filter (cut < ·)
  bound : ∀ s t, t < s + limiter.windowMs_ → granted s t grants ≤ limiter.maxRequests_

variable {limiter : SlidingWindowLimiter} {now : Int} {window grants : List Int}

theorem dropWhile_eq_filter {l : List Int} (h : l.Pairwise (· ≤ ·)) (c : Int) :
    l.dropWhile (· ≤ c) = l.filter (c < ·) := by
  induction l with
  | nil => rfl
  | cons t l ih =>
    obtain ⟨hfirst, hrest⟩ := pairwise_cons.mp h
    by_cases ht : t ≤ c
    · simp [ht, ih hrest, not_lt.mpr ht]
    · have hall : ∀ x ∈ t :: l, c < x :=
        forall_mem_cons.mpr ⟨not_le.mp ht, fun x hx => (not_le.mp ht).trans_le (hfirst x hx)⟩
      rw [dropWhile_cons_of_neg (by simpa using ht), filter_eq_self.mpr (by simpa using hall)]

theorem Kept.later {clock : Int} (hle : clock ≤ now) (h : Kept limiter clock window grants) :
    Kept limiter now window grants := by
  obtain ⟨cut, hcut, hwindow⟩ := h.window
  exact ⟨fun t ht => (h.past t ht).trans hle, h.sorted, ⟨cut, by omega, hwindow⟩, h.bound⟩

theorem Kept.dropWhile_eq (h : Kept limiter now window grants) :
    window.dropWhile (· ≤ now - limiter.windowMs_) =
      grants.filter (now - limiter.windowMs_ < ·) := by
  obtain ⟨cut, hcut, rfl⟩ := h.window
  rw [dropWhile_eq_filter (h.sorted.sublist filter_sublist), filter_filter]
  apply filter_congr
  intro t _
  simp only [← Bool.decide_and, decide_eq_decide]
  omega

/-- A call passes exactly when its window has room. -/
theorem Kept.allowIn_eq (h : Kept limiter now window grants)
    (hint : limiter.maxRequests_ < 2 ^ 31) :
    limiter.allowIn window now =
      if granted (now - limiter.windowMs_ + 1) now grants < limiter.maxRequests_ then
        (true, grants.filter (now - limiter.windowMs_ < ·) ++ [now])
      else (false, grants.filter (now - limiter.windowMs_ < ·)) := by
  have hbound := h.bound (now - limiter.windowMs_ + 1) now (by omega)
  have hlength : (grants.filter (now - limiter.windowMs_ < ·)).length =
      granted (now - limiter.windowMs_ + 1) now grants := by
    rw [← countP_eq_length_filter]
    apply countP_congr
    intro t ht
    have := h.past t ht
    simp only [decide_eq_true_eq]
    omega
  dsimp only [allowIn]
  rw [h.dropWhile_eq, hlength, int32_eq (by omega) (by omega)]

theorem Kept.allow (hint : limiter.maxRequests_ < 2 ^ 31) (hms : 1 ≤ limiter.windowMs_)
    (h : Kept limiter now window grants) :
    Kept limiter now (limiter.allowIn window now).2
      (grants ++ if (limiter.allowIn window now).1 then [now] else []) := by
  rw [h.allowIn_eq hint]
  split
  · rename_i hroom
    refine ⟨?_, ?_, ⟨now - limiter.windowMs_, le_refl _, ?_⟩, ?_⟩
    · simpa [or_imp, forall_and] using h.past
    · simpa [pairwise_append] using ⟨h.sorted, h.past⟩
    · have hin : now - limiter.windowMs_ < now := by omega
      simp [filter_append, hin]
    · intro s t hst
      rw [if_pos rfl, granted_concat h.past]
      split
      · -- each earlier grant of this stretch still counts at the call
        have hmono : granted s now grants ≤
            granted (now - limiter.windowMs_ + 1) now grants := by
          apply countP_mono_left
          intro x _ hx
          simp only [decide_eq_true_eq] at hx ⊢
          omega
        omega
      · exact h.bound s t hst
  · simp only [Bool.false_eq_true, if_false, append_nil]
    exact ⟨h.past, h.sorted, ⟨_, le_refl _, rfl⟩, h.bound⟩

/-- A call is granted exactly when its key has fewer than `maxRequests` grants in the window
that ends with it, no stretch shorter than the window holds more, and the calls of other keys do
not matter. Times are whole, so a half-open window is a closed stretch. -/
theorem sliding_window_is_exact {maxRequests windowSec : Int} (hmax : 0 ≤ maxRequests)
    (hint : maxRequests < 2 ^ 31) (hsec : 1 ≤ windowSec) (hfits : windowSec * 1000 < 2 ^ 31)
    (clock : Int) {calls : List (Bytes × Int)}
    (hclock : Meets (Log.step (create maxRequests windowSec).allowIn) InTime (.start [] clock)
      calls) :
    let limiter := create maxRequests windowSec
    let windowMs := windowSec * 1000
    let last := run (Log.step limiter.allowIn) (.start [] clock) calls
    Meets (Log.step limiter.allowIn) (fun s call =>
        (limiter.allow s.states call.1 call.2).1 = true ↔
          (granted (call.2 - windowMs + 1) call.2 (s.grants call.1) : Int) < maxRequests)
      (.start [] clock) calls ∧
    (∀ key s t, t < s + windowMs → (granted s t (last.grants key) : Int) ≤ maxRequests) ∧
    ∀ key now, (limiter.allow (run (Log.step limiter.allowIn) (.start [] clock)
        (calls.filter (·.1 = key))).states key now).1 = (limiter.allow last.states key now).1 := by
  intro limiter windowMs last
  have hms : limiter.windowMs_ = windowMs := int32_eq (by omega) hfits
  have hstep := @forall_step _ limiter.allowIn (Kept limiter) Kept.later
    (Kept.allow hint (by omega))
  have hnew : Kept limiter clock [] [] :=
    ⟨nofun, Pairwise.nil, ⟨_, le_refl _, rfl⟩, fun _ _ _ => hmax⟩
  refine ⟨?_, fun key => ?_, fun key now => ?_⟩
  · refine meets_of_invariant hstep ?_ hclock fun _ => hnew
    intro s call hin h
    have hanswer := ((h call.1).later hin).allowIn_eq hint
    rw [← hms]
    simp only [SlidingWindowLimiter.allow, allowAt, hanswer]
    split
    · rename_i hroom
      exact iff_of_true rfl hroom
    · rename_i hfull
      exact iff_of_false Bool.false_ne_true hfull
  · rw [← hms]
    exact (invariant_run hstep hclock (fun _ => hnew) key).bound
  · simp only [SlidingWindowLimiter.allow, allowAt, states_run_filter calls key rfl]
    rfl

theorem sliding_window_is_exact_threeCalls :
    Meets (Log.step (create 1 1).allowIn) InTime (.start [] 0) threeCalls ∧
      (granted 0 999 ((run (Log.step (create 1 1).allowIn) (.start [] 0) threeCalls).grants [97]) :
        Int) ≤ 1 :=
  have hclock : Meets (Log.step (create 1 1).allowIn) InTime (.start [] 0) threeCalls := by
    simp [threeCalls, Meets, InTime, Log.step, Log.start]
  ⟨hclock, (sliding_window_is_exact (by norm_num) (by norm_num) (by norm_num) (by norm_num) 0
    hclock).2.1 [97] 0 999 (by norm_num)⟩

end SlidingWindowLimiter

/-! ## The token bucket -/

structure Bucket where
  tokens : ℚ
  lastTime : Int

structure TokenBucketLimiter where
  rate_ : ℚ
  burst_ : Int

namespace TokenBucketLimiter

/-- A new key has no bucket. -/
def allowIn (limiter : TokenBucketLimiter) : Option Bucket → Int → Bool × Option Bucket
  | none, now => (true, some ⟨limiter.burst_ - 1, now⟩)
  | some bucket, now =>
    let elapsed : ℚ := (now - bucket.lastTime : Int) / 1000
    let tokens := min (limiter.burst_ : ℚ) (bucket.tokens + elapsed * limiter.rate_)
    if 1 ≤ tokens then (true, some ⟨tokens - 1, now⟩) else (false, some ⟨tokens, now⟩)

def allow (limiter : TokenBucketLimiter) : (Bytes → Option Bucket) → Bytes → Int →
    Bool × (Bytes → Option Bucket) := allowAt limiter.allowIn

/-- What may pass in a time of this length. -/
def allowance (limiter : TokenBucketLimiter) (ms : Int) : ℚ :=
  limiter.burst_ + limiter.rate_ * ms / 1000

/-- What a call would find in the bucket. -/
def refilled (limiter : TokenBucketLimiter) (now : Int) : Option Bucket → ℚ
  | none => limiter.burst_
  | some bucket => min (limiter.burst_ : ℚ)
    (bucket.tokens + ((now - bucket.lastTime : Int) : ℚ) / 1000 * limiter.rate_)

/-- What a call would find and the grants since any time stay within the allowance, and so do
the grants of every interval. -/
structure Metered (limiter : TokenBucketLimiter) (clock : Int) (state : Option Bucket)
    (grants : List Int) : Prop where
  past : ∀ t ∈ grants, t ≤ clock
  bucket : ∀ b ∈ state, b.lastTime ≤ clock ∧ 0 ≤ b.tokens ∧ b.tokens ≤ limiter.burst_
  since : ∀ s ≤ clock, granted s clock grants + limiter.refilled clock state ≤
    limiter.allowance (clock - s)
  bound : ∀ s t, s ≤ t → granted s t grants ≤ limiter.allowance (t - s)

variable {limiter : TokenBucketLimiter} {state : Option Bucket} {grants : List Int}
  {clock now : Int}

theorem refilled_le_burst : limiter.refilled now state ≤ limiter.burst_ := by
  cases state with
  | none => exact le_refl _
  | some bucket => exact min_le_left _ _

section Rate

variable (hrate : 0 ≤ limiter.rate_)

include hrate

theorem allowance_mono {ms ms' : Int} (h : ms ≤ ms') :
    limiter.allowance ms ≤ limiter.allowance ms' := by
  have hms : (ms : ℚ) ≤ ms' := by exact_mod_cast h
  have := mul_le_mul_of_nonneg_left hms hrate
  unfold allowance
  linarith

theorem burst_le_allowance {s t : Int} (h : s ≤ t) :
    limiter.burst_ ≤ limiter.allowance (t - s) := by
  simpa [allowance] using allowance_mono hrate (sub_nonneg.mpr h)

/-- Time adds no more than the rate gives for it. -/
theorem refilled_later (state : Option Bucket) (hle : clock ≤ now) :
    limiter.refilled now state ≤
      limiter.refilled clock state + limiter.rate_ * (now - clock) / 1000 := by
  have hgap : (0 : ℚ) ≤ now - clock := by exact_mod_cast sub_nonneg.mpr hle
  have hadded : 0 ≤ limiter.rate_ * (now - clock) / 1000 := by positivity
  cases state with
  | none => simpa [refilled] using hadded
  | some bucket =>
    simp only [refilled]
    rw [← min_add_add_right]
    refine le_min ((min_le_left _ _).trans (by linarith)) ((min_le_right _ _).trans (le_of_eq ?_))
    push_cast
    ring

/-- The refill keeps the account. -/
theorem Metered.later (hle : clock ≤ now) (h : Metered limiter clock state grants) :
    Metered limiter now state grants := by
  refine ⟨fun t ht => (h.past t ht).trans hle,
    fun b hb => ⟨(h.bucket b hb).1.trans hle, (h.bucket b hb).2⟩, fun s hs => ?_, h.bound⟩
  have hsame : granted s now grants = granted s clock grants := by
    apply countP_congr
    intro t ht
    have := h.past t ht
    simp only [decide_eq_true_eq]
    omega
  rw [hsame]
  rcases le_or_gt s clock with hbefore | hbehind
  · have hsince := h.since s hbefore
    have hlater := refilled_later hrate state hle
    unfold allowance at hsince ⊢
    push_cast at hsince ⊢
    linarith
  · -- nothing passed since then
    have hnone : granted s clock grants = 0 := by
      rw [granted, countP_eq_zero]
      intro t _
      simp only [decide_eq_true_eq]
      omega
    have hcap : limiter.refilled now state ≤ limiter.burst_ := refilled_le_burst
    have := burst_le_allowance hrate hs
    rw [hnone]
    push_cast
    linarith

variable (hburst : 1 ≤ limiter.burst_)

include hburst

theorem Metered.refilled_nonneg (h : Metered limiter now state grants) :
    0 ≤ limiter.refilled now state := by
  have hpos : (0 : ℚ) ≤ limiter.burst_ := by exact_mod_cast (zero_le_one.trans hburst)
  cases state with
  | none => exact hpos
  | some b =>
    obtain ⟨hlast, hnonneg, -⟩ := h.bucket b rfl
    have helapsed : (0 : ℚ) ≤ ((now - b.lastTime : Int) : ℚ) := by
      exact_mod_cast sub_nonneg.mpr hlast
    exact le_min hpos (by positivity)

omit hrate in
/-- A new key has a full bucket, so it goes like every other. -/
theorem allowIn_eq (state : Option Bucket) (now : Int) :
    limiter.allowIn state now =
      if 1 ≤ limiter.refilled now state then (true, some ⟨limiter.refilled now state - 1, now⟩)
      else (false, some ⟨limiter.refilled now state, now⟩) := by
  cases state with
  | none =>
    have hfull : (1 : ℚ) ≤ limiter.burst_ := by exact_mod_cast hburst
    simp [allowIn, refilled, hfull]
  | some bucket => rfl

/-- A call that passes adds one grant and takes one token. -/
theorem Metered.allow (h : Metered limiter now state grants) :
    Metered limiter now (limiter.allowIn state now).2
      (grants ++ if (limiter.allowIn state now).1 then [now] else []) := by
  have hnonneg := h.refilled_nonneg hrate hburst
  have hcap : limiter.refilled now state ≤ limiter.burst_ := refilled_le_burst
  have hself : ∀ tokens : ℚ, tokens ≤ limiter.burst_ →
      limiter.refilled now (some ⟨tokens, now⟩) = tokens := fun tokens ht => by simp [refilled, ht]
  rw [allowIn_eq hburst]
  split
  · rename_i htoken
    rw [if_pos rfl]
    have hsince : ∀ s ≤ now, (granted s now grants + 1 : ℚ) + (limiter.refilled now state - 1) ≤
        limiter.allowance (now - s) := by
      intro s hs
      linarith [h.since s hs]
    refine ⟨by simpa [or_imp, forall_and] using h.past, ?_, fun s hs => ?_, fun s t hst => ?_⟩
    · rintro b ⟨⟩
      exact ⟨le_refl _, sub_nonneg.mpr htoken, by dsimp only; linarith⟩
    · rw [hself _ (by linarith), granted_concat h.past, if_pos ⟨hs, le_refl _⟩]
      exact_mod_cast hsince s hs
    · rw [granted_concat h.past]
      split
      · rename_i hin
        have := hsince s hin.1
        have := allowance_mono hrate (sub_le_sub_right hin.2 s)
        push_cast
        linarith
      · exact h.bound s t hst
  · simp only [Bool.false_eq_true, if_false, append_nil]
    refine ⟨h.past, ?_, ?_, h.bound⟩
    · rintro b ⟨⟩
      exact ⟨le_refl _, hnonneg, hcap⟩
    · rw [hself _ hcap]
      exact h.since

end Rate

/-- A bucket never holds less than nothing or more than the burst; in every interval a key gets
at most the burst and what the rate gives for its length; and the calls of other keys do not
matter. -/
theorem token_bucket_is_bounded {limiter : TokenBucketLimiter} (hrate : 0 ≤ limiter.rate_)
    (hburst : 1 ≤ limiter.burst_) (clock : Int) {calls : List (Bytes × Int)}
    (hclock : Meets (Log.step limiter.allowIn) InTime (.start none clock) calls) :
    let last := run (Log.step limiter.allowIn) (.start none clock) calls
    (∀ key, ∀ bucket ∈ last.states key, 0 ≤ bucket.tokens ∧ bucket.tokens ≤ limiter.burst_) ∧
    (∀ key s t, s ≤ t → (granted s t (last.grants key) : ℚ) ≤
      limiter.burst_ + limiter.rate_ * (t - s) / 1000) ∧
    ∀ key now, (limiter.allow (run (Log.step limiter.allowIn) (.start none clock)
        (calls.filter (·.1 = key))).states key now).1 = (limiter.allow last.states key now).1 := by
  intro last
  have hstep := @forall_step _ limiter.allowIn (Metered limiter) (Metered.later hrate)
    (Metered.allow hrate hburst)
  have hpos : (0 : ℚ) ≤ limiter.burst_ := by exact_mod_cast (zero_le_one.trans hburst)
  have hnew : Metered limiter clock none [] := by
    refine ⟨nofun, nofun, fun s hs => ?_, fun s t hst => ?_⟩
    · simpa [granted, refilled] using burst_le_allowance hrate hs
    · simpa [granted] using hpos.trans (burst_le_allowance hrate hst)
  have hlast := invariant_run hstep hclock fun _ => hnew
  refine ⟨fun key bucket hbucket => ((hlast key).bucket bucket hbucket).2, fun key s t hst => ?_,
    fun key now => ?_⟩
  · have hbound := (hlast key).bound s t hst
    rwa [allowance, Int.cast_sub] at hbound
  · simp only [TokenBucketLimiter.allow, allowAt, states_run_filter calls key rfl]
    rfl

/-- Ten tokens a second and a burst of one: the second call of the same millisecond does not
pass. -/
theorem token_bucket_is_bounded_threeCalls :
    Meets (Log.step (allowIn ⟨10, 1⟩)) InTime (.start none 0) threeCalls ∧
      granted 0 0 ((run (Log.step (allowIn ⟨10, 1⟩)) (.start none 0) threeCalls).grants [97]) ≤
        1 := by
  have hclock : Meets (Log.step (allowIn ⟨10, 1⟩)) InTime (.start none 0) threeCalls := by
    simp [threeCalls, Meets, InTime, Log.step, Log.start]
  refine ⟨hclock, Nat.cast_le.mp (((token_bucket_is_bounded (by norm_num) (by norm_num) 0
    hclock).2.1 [97] 0 0 le_rfl).trans ?_)⟩
  norm_num

end TokenBucketLimiter

end mymuduo.rate_limiter
