-- What least connections counts (src/balancer/LoadBalancer.h): the selections of a
-- server that were not released. A caller may hold a server that the balancer has
-- removed, and release it then.
import Mymuduo.LoadBalancer

open List words runs

namespace mymuduo.load_balancer

open LeastConnectionsStrategy (int32Max least)

/-- The balancer, the objects that it has removed, and the selections not yet released. -/
structure Ledger where
  lb : LoadBalancer := .create .leastConnections
  gone : List BackendServer := []
  outstanding : List Nat := []

namespace Ledger

/-- `select` and `releaseConnection` change an object, wherever it is listed. -/
def step (l : Ledger) : Call → Ledger
  | .addServer host port weight => { l with lb := l.lb.addServer host port weight }
  | .removeServer host port =>
    { l with
      lb := l.lb.removeServer host port
      gone := l.gone ++ l.lb.servers_.filter (fun s => s.Is host port) }
  | .setServerHealth host port healthy => { l with lb := l.lb.setServerHealth host port healthy }
  | .select drawn =>
    match l.lb.select drawn with
    | (none, lb) => { l with lb }
    | (some ptr, lb) =>
      { lb
        gone := changeAt ptr (fun s => { s with connections := int32 (s.connections + 1) }) l.gone
        outstanding := ptr :: l.outstanding }
  | .releaseConnection ptr =>
    { lb := l.lb.releaseConnection ptr
      gone := LeastConnectionsStrategy.release ptr l.gone
      outstanding := l.outstanding.erase ptr }

/-- The selections of a server that were not released. -/
def count (l : Ledger) (server : BackendServer) : Nat := l.outstanding.count server.ptr

/-- A release has its selection, and no number has come to the greatest `int`. -/
def Matched (l : Ledger) : Call → Prop
  | .releaseConnection ptr => ptr ∈ l.outstanding
  | .select _ => ∀ s ∈ l.lb.servers_, (l.count s : Int) < int32Max
  | _ => True

/-- The first listed healthy server with the fewest selections, or null where none is
healthy. -/
def SelectsLeast (l : Ledger) (drawn : Nat) : Prop :=
  match (l.lb.select drawn).1 with
  | none => ∀ s ∈ l.lb.servers_, s.healthy = false
  | some ptr => ∃ before s after, l.lb.servers_ = before ++ s :: after ∧ s.ptr = ptr ∧
    s.healthy = true ∧ (∀ t ∈ before, t.healthy = true → l.count s < l.count t) ∧
    ∀ t ∈ after, t.healthy = true → l.count s ≤ l.count t

/-! ## The account -/

structure Counted (l : Ledger) : Prop where
  strategy : l.lb.strategyImpl_ = .leastConnections
  exact : ∀ s ∈ l.lb.servers_ ++ l.gone, s.connections = l.count s ∧ s.ptr < l.lb.made
  held : ∀ ptr ∈ l.outstanding, ptr < l.lb.made

variable {l : Ledger}

theorem Counted.of_kept (h : Counted l) {l' : Ledger}
    (hkept : ∀ s ∈ l'.lb.servers_ ++ l'.gone, ∃ t ∈ l.lb.servers_ ++ l.gone,
      t.ptr = s.ptr ∧ t.connections = s.connections)
    (hstrategy : l'.lb.strategyImpl_ = l.lb.strategyImpl_) (hmade : l'.lb.made = l.lb.made)
    (hout : l'.outstanding = l.outstanding) : Counted l' := by
  refine ⟨hstrategy.trans h.strategy, ?_, by rw [hmade, hout]; exact h.held⟩
  intro s hs
  obtain ⟨t, ht, hptr, hconnections⟩ := hkept s hs
  rw [count, hmade, hout, ← hptr, ← hconnections]
  exact h.exact t ht

/-- One object changes its number, and the selections of it change with it. -/
theorem Counted.of_change (h : Counted l) {ptr : Nat} {f : BackendServer → BackendServer}
    {servers gone : List BackendServer} {outstanding : List Nat}
    (hservers : servers = changeAt ptr f l.lb.servers_) (hgone : gone = changeAt ptr f l.gone)
    (hptr : ∀ s, (f s).ptr = s.ptr)
    (hchanged : ∀ s ∈ l.lb.servers_ ++ l.gone, s.ptr = ptr →
      (f s).connections = outstanding.count ptr)
    (hcount : ∀ p, p ≠ ptr → outstanding.count p = l.outstanding.count p)
    (hheld : ∀ p ∈ outstanding, p < l.lb.made) :
    Counted { lb := { l.lb with servers_ := servers }, gone, outstanding } := by
  refine ⟨h.strategy, ?_, hheld⟩
  intro s' hs'
  have hmap : servers ++ gone = changeAt ptr f (l.lb.servers_ ++ l.gone) := by
    rw [hservers, hgone]
    exact map_append.symm
  dsimp only at hs'
  rw [hmap] at hs'
  obtain ⟨s, hs, rfl⟩ := mem_map.mp hs'
  obtain ⟨hexact, hlt⟩ := h.exact s hs
  split
  · rename_i heq
    exact ⟨by rw [hchanged s hs heq, count, hptr, heq], by rw [hptr]; exact hlt⟩
  · rename_i hne
    exact ⟨by rw [hexact, count, count, hcount _ hne], hlt⟩

/-! ## The calls -/

theorem mem_setFirst {host : bytes.Bytes} {port : Int} {healthy : Bool} {s : BackendServer}
    {servers : List BackendServer} (h : s ∈ LoadBalancer.setFirst host port healthy servers) :
    ∃ t ∈ servers, t.ptr = s.ptr ∧ t.connections = s.connections := by
  induction servers with
  | nil => cases h
  | cons t servers ih =>
    rw [LoadBalancer.setFirst] at h
    split at h
    · rcases mem_cons.mp h with rfl | h
      · exact ⟨t, mem_cons_self, rfl, rfl⟩
      · exact ⟨s, mem_cons_of_mem _ h, rfl, rfl⟩
    · rcases mem_cons.mp h with rfl | h
      · exact ⟨s, mem_cons_self, rfl, rfl⟩
      · obtain ⟨t', ht', hsame⟩ := ih h
        exact ⟨t', mem_cons_of_mem _ ht', hsame⟩

theorem counted_addServer (h : Counted l) (host : bytes.Bytes) (port weight : Int) :
    Counted (l.step (.addServer host port weight)) := by
  have hnone : l.lb.made ∉ l.outstanding := fun hin => Nat.lt_irrefl _ (h.held _ hin)
  refine ⟨h.strategy, ?_, fun p hp => Nat.lt_succ_of_lt (h.held p hp)⟩
  intro s hs
  simp only [step, LoadBalancer.addServer, append_assoc, singleton_append] at hs
  rcases mem_append.mp hs with hs | hs
  · obtain ⟨hexact, hlt⟩ := h.exact s (mem_append_left _ hs)
    exact ⟨hexact, Nat.lt_succ_of_lt hlt⟩
  · rcases mem_cons.mp hs with rfl | hs
    · exact ⟨by simp [step, count, count_eq_zero_of_not_mem hnone], Nat.lt_succ_self _⟩
    · obtain ⟨hexact, hlt⟩ := h.exact s (mem_append_right _ hs)
      exact ⟨hexact, Nat.lt_succ_of_lt hlt⟩

theorem counted_removeServer (h : Counted l) (host : bytes.Bytes) (port : Int) :
    Counted (l.step (.removeServer host port)) := by
  refine h.of_kept (fun s hs => ⟨s, ?_, rfl, rfl⟩) rfl rfl rfl
  simp only [step, LoadBalancer.removeServer, mem_append, mem_filter] at hs ⊢
  tauto

theorem select_eq (h : Counted l) (drawn : Nat) : l.lb.select drawn =
    ((LeastConnectionsStrategy.select l.lb.servers_).1,
      { l.lb with servers_ := (LeastConnectionsStrategy.select l.lb.servers_).2 }) := by
  simp only [LoadBalancer.select, h.strategy]

theorem counted_select (h : Counted l) (drawn : Nat) (hok : Matched l (.select drawn)) :
    Counted (l.step (.select drawn)) ∧ SelectsLeast l drawn := by
  have hlisted : ∀ s ∈ l.lb.servers_, s.connections = l.count s :=
    fun s hs => (h.exact s (mem_append_left _ hs)).1
  dsimp only [SelectsLeast, step]
  rw [select_eq h]
  unfold LeastConnectionsStrategy.select
  rcases least_cases none int32Max l.lb.servers_ with
    ⟨heq, hall⟩ | ⟨before, s, after, hsplit, heq, hup, hlt, hbefore, hafter⟩
  · rw [heq]
    refine ⟨h, fun t ht => ?_⟩
    by_contra hup
    have hmax := hall t ht (by simpa using hup)
    have hcount := hok t ht
    rw [hlisted t ht] at hmax
    omega
  · rw [heq]
    have hs : s ∈ l.lb.servers_ := by simp [hsplit]
    have hmem : ∀ t, t ∈ before ∨ t ∈ after → t ∈ l.lb.servers_ := by
      rintro t (ht | ht) <;> simp [hsplit, ht]
    refine ⟨?_, before, s, after, hsplit, rfl, hup, ?_, ?_⟩
    · refine h.of_change rfl rfl (fun _ => rfl) ?_ ?_ ?_
      · intro t ht htptr
        have hbound := hok s hs
        rw [(h.exact t ht).1, count, htptr]
        unfold count int32Max at hbound
        rw [int32_eq (by omega) (by omega)]
        simp
      · intro p hp
        simp [Ne.symm hp]
      · intro p hp
        rcases mem_cons.mp hp with rfl | hp
        · exact (h.exact s (mem_append_left _ hs)).2
        · exact h.held p hp
    · intro t ht hup'
      have hlt' := hbefore t ht hup'
      rw [hlisted s hs, hlisted t (hmem t (Or.inl ht))] at hlt'
      exact_mod_cast hlt'
    · intro t ht hup'
      have hle := hafter t ht hup'
      rw [hlisted s hs, hlisted t (hmem t (Or.inr ht))] at hle
      exact_mod_cast hle

theorem counted_release (h : Counted l) {ptr : Nat} (hok : ptr ∈ l.outstanding) :
    Counted (l.step (.releaseConnection ptr)) := by
  have hpos : 0 < l.outstanding.count ptr := count_pos_iff.mpr hok
  have hlb : l.lb.releaseConnection ptr =
      { l.lb with servers_ := LeastConnectionsStrategy.release ptr l.lb.servers_ } := by
    simp only [LoadBalancer.releaseConnection, h.strategy]
  dsimp only [step]
  rw [hlb]
  refine h.of_change rfl rfl ?_ ?_ (fun p hp => count_erase_of_ne hp)
    (fun p hp => h.held p (mem_of_mem_erase hp))
  · intro s
    split <;> rfl
  · intro s hs hptr
    have hexact := (h.exact s hs).1
    rw [count, hptr] at hexact
    rw [if_pos (by omega), count_erase_self]
    dsimp only
    omega

theorem counted_step (call : Call) (hok : Matched l call) (h : Counted l) :
    Counted (l.step call) := by
  cases call with
  | addServer host port weight => exact counted_addServer h host port weight
  | removeServer host port => exact counted_removeServer h host port
  | setServerHealth host port healthy =>
    refine h.of_kept (fun s hs => ?_) rfl rfl rfl
    rcases mem_append.mp hs with hs | hs
    · obtain ⟨t, ht, hsame⟩ := mem_setFirst hs
      exact ⟨t, mem_append_left _ ht, hsame⟩
    · exact ⟨s, mem_append_right _ hs, rfl, rfl⟩
  | select drawn => exact (counted_select h drawn hok).1
  | releaseConnection ptr => exact counted_release h hok

theorem counted_start : Counted {} := ⟨rfl, by simp [LoadBalancer.create], by simp⟩

/-- Behind all calls in which each release has its selection, the connections of a server
are its selections that were not released, listed or removed, and `select` gives the first
listed healthy server with the fewest of them. -/
theorem least_connections_are_counted (calls : List Call) (h : Meets step Matched {} calls) :
    let l := run step {} calls
    (∀ s ∈ l.lb.servers_ ++ l.gone, s.connections = l.count s) ∧
      ∀ drawn, Matched l (.select drawn) → SelectsLeast l drawn := by
  have hcounted : Counted (run step {} calls) :=
    invariant_run (fun _ call hok hs => counted_step call hok hs) h counted_start
  exact ⟨fun s hs => (hcounted.exact s hs).1,
    fun drawn hok => (counted_select hcounted drawn hok).2⟩

/-- The release of a server that was removed meanwhile. -/
theorem least_connections_are_counted_removed :
    let calls := [.addServer [97] 80 1, .select 0, .select 0, .removeServer [97] 80,
      .releaseConnection 0]
    Meets step Matched {} calls ∧
      ∀ s ∈ (run step {} calls).gone, s.connections = (run step {} calls).count s := by
  intro calls
  have h : Meets step Matched {} calls := by
    refine ⟨trivial, ?_, ?_, trivial, ?_, trivial⟩ <;> simp only [Matched] <;> decide
  exact ⟨h, fun s hs => (least_connections_are_counted calls h).1 s (mem_append_right _ hs)⟩

end Ledger

end mymuduo.load_balancer
