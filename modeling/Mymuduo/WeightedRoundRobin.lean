-- The smooth weighted round robin of the load balancer (src/balancer/LoadBalancer.h) as
-- rounds of credits: the current weights of the healthy servers are the credits, and the
-- selected server is the one that pays. So the shares are exact in every row of calls as
-- long as the total weight.
import Mymuduo.Credits
import Mymuduo.LoadBalancer

open List credits runs words

namespace mymuduo.load_balancer.WeightedRoundRobinStrategy

open BackendServer (ptr weight currentWeight)

/-! ## Calls in a row -/

/-- What `n` calls of `select` return, and the servers behind them. -/
def selects : Nat → List BackendServer → List (Option Nat) × List BackendServer
  | 0, servers => ([], servers)
  | n + 1, servers =>
    let first := select servers
    let rest := selects n first.2
    (first.1 :: rest.1, rest.2)

def totalWeight (servers : List BackendServer) : Int :=
  ((healthyOf servers).map BackendServer.weight).sum

/-- No current weight of the `n` calls is too large for an `int`. -/
def NoOverflow (n : Nat) (servers : List BackendServer) : Prop :=
  ∀ k < n, ∀ s ∈ healthyOf (selects k servers).2, s.currentWeight + s.weight < 2 ^ 31

instance (n : Nat) (servers : List BackendServer) : Decidable (NoOverflow n servers) :=
  inferInstanceAs (Decidable (∀ k < n, ∀ s ∈ healthyOf (selects k servers).2,
    s.currentWeight + s.weight < 2 ^ 31))

theorem selects_add (m n : Nat) (servers : List BackendServer) :
    (selects (m + n) servers).2 = (selects n (selects m servers).2).2 := by
  induction m generalizing servers with
  | zero => rw [Nat.zero_add]; rfl
  | succ m ih =>
    rw [Nat.add_right_comm]
    exact ih (select servers).2

/-! ## The servers with their credits -/

/-- A healthy server has its credit as current weight. -/
def credited (c : BackendServer → Int) (s : BackendServer) : BackendServer :=
  if s.healthy then { s with currentWeight := c s } else s

def withCredits (c : BackendServer → Int) (servers : List BackendServer) : List BackendServer :=
  servers.map (credited c)

def pool (servers : List BackendServer) : Finset BackendServer := (healthyOf servers).toFinset

variable {s : BackendServer} (c : BackendServer → Int)

theorem credited_of_healthy (h : s.healthy = true) :
    credited c s = { s with currentWeight := c s } := if_pos h

theorem credited_ptr (s : BackendServer) : (credited c s).ptr = s.ptr := by
  unfold credited
  split <;> rfl

theorem credited_healthy (s : BackendServer) : (credited c s).healthy = s.healthy := by
  unfold credited
  split <;> rfl

theorem credited_weight (s : BackendServer) : (credited c s).weight = s.weight := by
  unfold credited
  split <;> rfl

variable {servers : List BackendServer}

theorem mem_pool : s ∈ pool servers ↔ s ∈ healthyOf servers := List.mem_toFinset

theorem healthyOf_withCredits (servers : List BackendServer) :
    healthyOf (withCredits c servers) = (healthyOf servers).map (credited c) := by
  unfold healthyOf withCredits
  rw [filter_map]
  congr 1
  refine filter_congr (fun s _ => ?_)
  exact credited_healthy c s

theorem withCredits_congr {c c' : BackendServer → Int} :
    withCredits c servers = withCredits c' servers ↔ ∀ s ∈ healthyOf servers, c s = c' s := by
  unfold withCredits
  rw [map_inj_left]
  constructor
  · intro h s hs
    obtain ⟨hmem, hhealthy⟩ := mem_healthyOf.mp hs
    have hsame := h s hmem
    rw [credited_of_healthy c hhealthy, credited_of_healthy c' hhealthy] at hsame
    exact congrArg currentWeight hsame
  · intro h s hs
    unfold credited
    split
    · rename_i hhealthy
      rw [h s (mem_healthyOf.mpr ⟨hs, hhealthy⟩)]
    · rfl

theorem withCredits_currentWeight (servers : List BackendServer) :
    withCredits currentWeight servers = servers := by
  unfold withCredits
  have hsame : credited currentWeight = id := by
    funext s
    unfold credited
    split <;> rfl
  rw [hsame, map_id]

/-! ## The loop -/

theorem foldl_weights (hweight : ∀ s ∈ servers, 0 ≤ s.weight) {total : Int} (htotal : 0 ≤ total)
    (hmax : total + (servers.map weight).sum < 2 ^ 31) :
    servers.foldl (fun total s => int32 (total + s.weight)) total =
      total + (servers.map weight).sum := by
  induction servers generalizing total with
  | nil => simp
  | cons s servers ih =>
    obtain ⟨hserver, hweights⟩ := forall_mem_cons.mp hweight
    have hnonneg : 0 ≤ (servers.map weight).sum := sum_nonneg (by simpa using hweights)
    rw [map_cons, sum_cons] at hmax ⊢
    rw [foldl_cons, int32_eq (by omega) (by omega), ih hweights (by omega) (by omega)]
    omega

/-- The loop gives each healthy server its weight, and selects one with the largest current
weight. -/
theorem weigh_withCredits {c : BackendServer → Int}
    (hweight : ∀ s ∈ healthyOf servers, 0 ≤ s.weight)
    (hfits : ∀ s ∈ healthyOf servers, -2 ^ 31 ≤ c s + s.weight ∧ c s + s.weight < 2 ^ 31)
    (hmax : totalWeight servers < 2 ^ 31) :
    weigh none 0 (withCredits c servers) =
      (((healthyOf servers).map (credited (fun s => c s + s.weight))).argmax
          currentWeight,
        totalWeight servers, withCredits (fun s => c s + s.weight) servers) := by
  have hgained : ∀ s ∈ healthyOf servers,
      gained (credited c s) = credited (fun s => c s + s.weight) s := by
    intro s hs
    obtain ⟨hlow, hhigh⟩ := hfits s hs
    rw [credited_of_healthy _ (mem_healthyOf.mp hs).2,
      credited_of_healthy _ (mem_healthyOf.mp hs).2]
    dsimp only [gained]
    rw [int32_eq hlow hhigh]
  have htotal := foldl_weights hweight (Int.le_refl 0) (by rwa [Int.zero_add])
  have hnext : (withCredits c servers).map (fun s => if s.healthy then gained s else s) =
      withCredits (fun s => c s + s.weight) servers := by
    unfold withCredits
    rw [map_map]
    refine map_congr_left (fun s hs => ?_)
    rw [Function.comp_apply, credited_healthy]
    split
    · rename_i hup
      exact hgained s (mem_healthyOf.mpr ⟨hs, hup⟩)
    · rename_i hdown
      exact (if_neg hdown).trans (if_neg hdown).symm
  have hall : (healthyOf (withCredits c servers)).map gained =
      (healthyOf servers).map (credited (fun s => c s + s.weight)) := by
    rw [healthyOf_withCredits, map_map]
    exact map_congr_left hgained
  rw [weigh_eq, foldl_better, hall, hnext, healthyOf_withCredits, foldl_map]
  simp only [credited_weight]
  rw [htotal, Int.zero_add, totalWeight]

theorem exists_argmax (f : BackendServer → BackendServer) (h : servers ≠ []) :
    ∃ best ∈ servers, (servers.map f).argmax currentWeight = some (f best) ∧
      ∀ s ∈ servers, (f s).currentWeight ≤ (f best).currentWeight := by
  have hsome : (servers.map f).argmax currentWeight ≠ none :=
    fun hnone => h (map_eq_nil_iff.mp (argmax_eq_none.mp hnone))
  obtain ⟨r, hr⟩ := Option.ne_none_iff_exists'.mp hsome
  obtain ⟨best, hbest, rfl⟩ := mem_map.mp (argmax_mem hr)
  exact ⟨best, hbest, hr, fun s hs => le_of_mem_argmax (mem_map_of_mem hs) hr⟩

/-! ## A call as a round -/

section Rounds

variable {servers : List BackendServer} {c : BackendServer → Int}
  (hptr : (servers.map BackendServer.ptr).Nodup)
include hptr

theorem eq_of_ptr_eq {s t : BackendServer} (hs : s ∈ servers) (ht : t ∈ servers)
    (h : s.ptr = t.ptr) : s = t :=
  inj_on_of_nodup_map hptr hs ht h

theorem sum_pool (f : BackendServer → Int) :
    ∑ s ∈ pool servers, f s = ((healthyOf servers).map f).sum := by
  have hnodup : (healthyOf servers).Nodup := (List.Nodup.of_map _ hptr).filter _
  exact sum_toFinset f hnodup

theorem total_pool : total (pool servers) weight = totalWeight servers :=
  sum_pool hptr _

theorem changeAt_withCredits {best : BackendServer} (hbest : best ∈ healthyOf servers)
    (hfits : int32 (c best + best.weight - totalWeight servers) =
      c best + best.weight - totalWeight servers) :
    changeAt best.ptr
      (fun s => { s with currentWeight := int32 (s.currentWeight - totalWeight servers) })
        (withCredits (fun s => c s + s.weight) servers) =
      withCredits (pay (pool servers) weight c best) servers := by
  obtain ⟨hmem, hhealthy⟩ := mem_healthyOf.mp hbest
  unfold changeAt withCredits
  rw [map_map]
  refine map_congr_left (fun s hs => ?_)
  rw [Function.comp_apply, credited_ptr]
  by_cases hsame : s = best
  · subst hsame
    rw [if_pos rfl, credited_of_healthy _ hhealthy, credited_of_healthy _ hhealthy, pay, if_pos rfl,
      total_pool hptr]
    dsimp only
    rw [hfits]
  · have hne : ¬s.ptr = best.ptr := fun h => hsame (eq_of_ptr_eq hptr hs hmem h)
    rw [if_neg hne]
    unfold credited pay
    rw [if_neg hsame, Int.sub_zero]

theorem count_picks {picks : List BackendServer} (hpicks : ∀ p ∈ picks, p ∈ pool servers)
    {s : BackendServer} (hs : s ∈ healthyOf servers) :
    (picks.map (fun p => some p.ptr)).count (some s.ptr) = picks.count s := by
  induction picks with
  | nil => rfl
  | cons p picks ih =>
    have hp := mem_healthyOf.mp (mem_pool.mp (hpicks p (mem_cons_self ..)))
    rw [map_cons, count_cons, count_cons, ih (fun q hq => hpicks q (mem_cons_of_mem p hq))]
    have hsame : (some p.ptr == some s.ptr) = (p == s) := by
      rw [Bool.eq_iff_iff, beq_iff_eq, beq_iff_eq, Option.some.injEq]
      exact ⟨eq_of_ptr_eq hptr hp.1 (mem_healthyOf.mp hs).1, congrArg ptr⟩
    rw [hsame]

variable (hweight : ∀ s ∈ healthyOf servers, 0 ≤ s.weight) (hpos : 0 < totalWeight servers)
  (hmax : totalWeight servers < 2 ^ 31)
include hweight hpos hmax

/-- A call of `select` is a round of credits: one of the richest pays. -/
theorem select_withCredits (hc : Balanced (pool servers) weight c)
    (hfits : ∀ s ∈ healthyOf servers, c s + s.weight < 2 ^ 31) :
    ∃ best, Richest (pool servers) weight c best ∧
      select (withCredits c servers) =
        (some best.ptr, withCredits (pay (pool servers) weight c best) servers) := by
  have htotal := total_pool hptr
  obtain ⟨rich, hrich, hgain⟩ := exists_pos (htotal ▸ hpos) hc.sum
  have hne : healthyOf servers ≠ [] := ne_nil_of_mem (mem_pool.mp hrich)
  have hrange : ∀ s ∈ healthyOf servers, -2 ^ 31 ≤ c s + s.weight ∧ c s + s.weight < 2 ^ 31 := by
    intro s hs
    have hlow := hc.low s (mem_pool.mpr hs)
    have hnonneg := hweight s hs
    exact ⟨by omega, hfits s hs⟩
  obtain ⟨best, hbest, hfold, hall⟩ :=
    exists_argmax (credited (fun s => c s + s.weight)) hne
  have hlargest : ∀ s ∈ healthyOf servers, c s + s.weight ≤ c best + best.weight := by
    intro s hs
    have hle := hall s hs
    rw [credited_of_healthy _ (mem_healthyOf.mp hs).2,
      credited_of_healthy _ (mem_healthyOf.mp hbest).2] at hle
    exact hle
  have hleast := hlargest rich (mem_pool.mp hrich)
  have hhigh := hfits best hbest
  have hpaid : int32 (c best + best.weight - totalWeight servers) =
      c best + best.weight - totalWeight servers := int32_eq (by omega) (by omega)
  refine ⟨best, ⟨mem_pool.mpr hbest, fun s hs => hlargest s (mem_pool.mp hs)⟩, ?_⟩
  unfold select
  rw [weigh_withCredits hweight hrange hmax, hfold]
  dsimp only
  rw [credited_ptr, changeAt_withCredits hptr hbest hpaid]

theorem selects_withCredits {n : Nat} (hc : Balanced (pool servers) weight c)
    (hfits : NoOverflow n (withCredits c servers)) :
    ∃ picks : List BackendServer, picks.length = n ∧
      Meets (pay (pool servers) weight) (Richest (pool servers) weight) c
        picks ∧
      selects n (withCredits c servers) = (picks.map (fun s => some s.ptr),
        withCredits (run (pay (pool servers) weight) c picks) servers) := by
  induction n generalizing c with
  | zero => exact ⟨[], rfl, trivial, rfl⟩
  | succ n ih =>
    have hfirst : ∀ s ∈ healthyOf servers, c s + s.weight < 2 ^ 31 := by
      intro s hs
      have hmem : credited c s ∈ healthyOf (withCredits c servers) := by
        rw [healthyOf_withCredits]
        exact mem_map_of_mem hs
      have hlt := hfits 0 (Nat.succ_pos n) _ hmem
      rwa [credited_of_healthy _ (mem_healthyOf.mp hs).2] at hlt
    obtain ⟨best, hbest, hselect⟩ := select_withCredits hptr hweight hpos hmax hc hfirst
    have hnext := balanced_pay (fun s hs => hweight s (mem_pool.mp hs))
      ((total_pool hptr).symm ▸ hpos) hbest hc
    have hlater : NoOverflow n
        (withCredits (pay (pool servers) weight c best) servers) := by
      intro k hk s hs
      refine hfits (k + 1) (Nat.succ_lt_succ hk) s ?_
      rw [selects, hselect]
      exact hs
    obtain ⟨picks, hlength, hpicks, hrest⟩ := ih hnext hlater
    refine ⟨best :: picks, by rw [length_cons, hlength], ⟨hbest, hpicks⟩, ?_⟩
    rw [selects, hselect]
    rw [hrest]
    rfl

end Rounds

/-! ## Whole periods -/

/-- The healthy servers start with current weight 0, the weights are not negative, and nothing is
too large for an `int` in one period. -/
structure Starts (servers : List BackendServer) : Prop where
  ptr : (servers.map BackendServer.ptr).Nodup
  weight : ∀ s ∈ healthyOf servers, 0 ≤ s.weight
  current : ∀ s ∈ healthyOf servers, s.currentWeight = 0
  pos : 0 < totalWeight servers
  max : totalWeight servers < 2 ^ 31
  fits : NoOverflow (totalWeight servers).toNat servers

namespace Starts

variable {servers : List BackendServer}

theorem balanced (h : Starts servers) :
    Balanced (pool servers) BackendServer.weight currentWeight where
  sum := Finset.sum_eq_zero (fun s hs => h.current s (mem_pool.mp hs))
  low := by
    intro s hs
    have hpos := h.pos
    rw [h.current s (mem_pool.mp hs), total_pool h.ptr]
    omega

theorem rounds (h : Starts servers) {n : Nat} (hfits : NoOverflow n servers) :
    ∃ picks : List BackendServer, picks.length = n ∧
      Meets (pay (pool servers) BackendServer.weight) (Richest (pool servers) BackendServer.weight)
        currentWeight picks ∧
      selects n servers = (picks.map (fun s => some s.ptr),
        withCredits (run (pay (pool servers) BackendServer.weight) currentWeight picks)
          servers) := by
  have hsame := withCredits_currentWeight servers
  have hrounds := selects_withCredits h.ptr h.weight h.pos h.max h.balanced
    (hsame.symm ▸ hfits : NoOverflow n (withCredits currentWeight servers))
  rwa [hsame] at hrounds

theorem length_eq_total (h : Starts servers) {picks : List BackendServer}
    (hlength : picks.length = (totalWeight servers).toNat) :
    (picks.length : Int) = total (pool servers) BackendServer.weight := by
  have hpos := h.pos
  rw [hlength, total_pool h.ptr]
  omega

theorem selects_period (h : Starts servers) :
    (selects (totalWeight servers).toNat servers).2 = servers := by
  obtain ⟨picks, hlength, hpicks, hselects⟩ := h.rounds h.fits
  have hzero :=
    run_whole (fun s hs => h.weight s (mem_pool.mp hs)) ((total_pool h.ptr).symm ▸ h.pos)
    (fun s hs => h.current s (mem_pool.mp hs)) hpicks (h.length_eq_total hlength)
  rw [hselects]
  refine Eq.trans (withCredits_congr.mpr fun s hs => ?_) (withCredits_currentWeight servers)
  rw [hzero s (mem_pool.mpr hs), h.current s hs]

theorem selects_add_periods (h : Starts servers) (r q : Nat) :
    (selects (r + (totalWeight servers).toNat * q) servers).2 = (selects r servers).2 := by
  induction q with
  | zero => rfl
  | succ q ih =>
    rw [Nat.mul_succ, ← Nat.add_assoc, Nat.add_comm, selects_add, h.selects_period, ih]

theorem noOverflow (h : Starts servers) (n : Nat) : NoOverflow n servers := by
  intro k _
  have hpos := h.pos
  have hperiod := h.selects_add_periods (k % (totalWeight servers).toNat)
    (k / (totalWeight servers).toNat)
  rw [Nat.mod_add_div] at hperiod
  rw [hperiod]
  exact h.fits _ (Nat.mod_lt k (by omega))

theorem selects_eq (h : Starts servers) (n : Nat) :
    ∃ c, Balanced (pool servers) BackendServer.weight c ∧
      (selects n servers).2 = withCredits c servers := by
  obtain ⟨picks, -, hpicks, hselects⟩ := h.rounds (h.noOverflow n)
  refine ⟨_, ?_, congrArg Prod.snd hselects⟩
  exact balanced_run (fun s hs => h.weight s (mem_pool.mp hs)) ((total_pool h.ptr).symm ▸ h.pos)
    hpicks
    h.balanced

/-- In a period from any moment on, each healthy server is selected as often as its weight says. -/
theorem count_selects (h : Starts servers) (n : Nat) {s : BackendServer}
    (hs : s ∈ healthyOf servers) :
    (((selects (totalWeight servers).toNat (selects n servers).2).1.count (some s.ptr) : Nat) :
      Int) =
      s.weight := by
  obtain ⟨c, hc, hstate⟩ := h.selects_eq n
  have hfits : NoOverflow (totalWeight servers).toNat (withCredits c servers) := by
    intro k hk t ht
    rw [← hstate, ← selects_add] at ht
    exact h.noOverflow (n + k + 1) (n + k) (Nat.lt_succ_self _) t ht
  obtain ⟨picks, hlength, hpicks, hselects⟩ :=
    selects_withCredits h.ptr h.weight h.pos h.max hc hfits
  -- the period ends where it began
  have hend : withCredits (run (pay (pool servers) BackendServer.weight) c picks) servers =
      withCredits c servers := by
    have hperiod := h.selects_add_periods n 1
    rw [Nat.mul_one, selects_add, hstate, hselects] at hperiod
    exact hperiod
  have hreturns := withCredits_congr.mp hend s hs
  rw [hstate, hselects, count_picks h.ptr (mem_of_meets hpicks) hs]
  exact count_of_returns ((total_pool h.ptr).symm ▸ h.pos) (h.length_eq_total hlength) hreturns

end Starts

/-- For every list of servers, from current weights 0: behind every call the current weights of
the healthy servers sum to 0 and each is more than minus the total; in as many calls in a row as
the total is large, from any call on, each healthy server is selected as often as its weight says;
and behind each whole period all current weights are 0 again. -/
theorem smooth_weighted_round_robin_is_exact {servers : List BackendServer} (h : Starts servers)
    (n : Nat) :
    ((healthyOf (selects n servers).2).map BackendServer.currentWeight).sum = 0 ∧
      (∀ s ∈ healthyOf (selects n servers).2, -totalWeight servers < s.currentWeight) ∧
      (∀ s ∈ healthyOf servers,
        (((selects (totalWeight servers).toNat (selects n servers).2).1.count (some s.ptr) : Nat) :
          Int) =
          s.weight) ∧
      ((totalWeight servers).toNat ∣ n →
        ∀ s ∈ healthyOf (selects n servers).2, s.currentWeight = 0) := by
  obtain ⟨c, hc, hstate⟩ := h.selects_eq n
  have hweights : (healthyOf (selects n servers).2).map currentWeight =
      (healthyOf servers).map c := by
    rw [hstate, healthyOf_withCredits, map_map]
    refine map_congr_left (fun s hs => ?_)
    rw [Function.comp_apply, credited_of_healthy c (mem_healthyOf.mp hs).2]
  refine ⟨?_, ?_, fun s hs => h.count_selects n hs, ?_⟩
  · rw [hweights, ← sum_pool h.ptr]
    exact hc.sum
  · intro s hs
    have hmem := mem_map_of_mem (f := currentWeight) hs
    rw [hweights] at hmem
    obtain ⟨t, ht, hcredit⟩ := mem_map.mp hmem
    have hlow := hc.low t (mem_pool.mpr ht)
    rwa [total_pool h.ptr, hcredit] at hlow
  · rintro ⟨q, rfl⟩
    have hback := h.selects_add_periods 0 q
    rw [Nat.zero_add] at hback
    rw [hback]
    exact h.current

/-- Weights 5, 1 and 1, and an unhealthy server between them. -/
def fiveOneOne : List BackendServer :=
  [{ ptr := 0, host := [], port := 80, weight := 5 },
    { ptr := 1, host := [], port := 81, weight := 3, currentWeight := 9, healthy := false },
    { ptr := 2, host := [], port := 82 }, { ptr := 3, host := [], port := 83 }]

theorem smooth_weighted_round_robin_is_exact_fiveOneOne :
    ((selects (totalWeight fiveOneOne).toNat (selects 4 fiveOneOne).2).1.count (some 0) : Int) =
      5 := by
  have hstarts : Starts fiveOneOne :=
    ⟨by decide, by decide, by decide, by decide, by decide, by decide⟩
  exact (smooth_weighted_round_robin_is_exact hstarts 4).2.2.1
    { ptr := 0, host := [], port := 80, weight := 5 } (by decide)

end mymuduo.load_balancer.WeightedRoundRobinStrategy
