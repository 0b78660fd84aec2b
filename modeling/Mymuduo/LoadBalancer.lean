-- The load balancer (src/balancer/LoadBalancer.h): a list of servers and one of
-- five strategies with a state of its own. `select` is measured against what was
-- last said of an address. The list may hold an address twice, and the ring of
-- the consistent hash is never built.
import Mathlib.Data.List.MinMax
import Mathlib.Order.Interval.Set.OrdConnectedLinear
import Mymuduo.Bytes
import Mymuduo.Rings
import Mymuduo.Runs

open List bytes words runs

namespace mymuduo.load_balancer

/-! ## Servers -/

/-- A server object. `ptr` stands for its address in memory. -/
structure BackendServer where
  ptr : Nat
  host : Bytes
  port : Int
  weight : Int := 1
  currentWeight : Int := 0
  connections : Int := 0
  healthy : Bool := true
  deriving DecidableEq

namespace BackendServer

def address (server : BackendServer) : Bytes :=
  server.host ++ text ":" ++ text (toString server.port)

def Is (server : BackendServer) (host : Bytes) (port : Int) : Prop :=
  server.host = host ∧ server.port = port

instance (server : BackendServer) (host : Bytes) (port : Int) : Decidable (server.Is host port) :=
  inferInstanceAs (Decidable (_ ∧ _))

end BackendServer

/-- A change of the object `ptr`, as the list shows it. -/
def changeAt (ptr : Nat) (f : BackendServer → BackendServer) (servers : List BackendServer) :
    List BackendServer :=
  servers.map (fun s => if s.ptr = ptr then f s else s)

/-! ## The strategies -/

def healthyOf (servers : List BackendServer) : List BackendServer := servers.filter (·.healthy)

namespace RoundRobinStrategy

/-- The server and the next `index_`. An empty list of servers has no healthy one. -/
def select (index_ : Nat) (servers : List BackendServer) : Option Nat × Nat :=
  let healthy := healthyOf servers
  if healthy = [] then (none, index_)
  else ((healthy[index_ % healthy.length]?).map (·.ptr), add64 index_ 1)

end RoundRobinStrategy

namespace WeightedRoundRobinStrategy

/-- The better of the server that was selected so far and the next one. -/
def better (selected : Option BackendServer) (server : BackendServer) : BackendServer :=
  match selected with
  | none => server
  | some best => if best.currentWeight < server.currentWeight then server else best

/-- The loop: the selected server, the total weight, and the servers with their new
weights. -/
def weigh (selected : Option BackendServer) (totalWeight : Int) :
    List BackendServer → Option BackendServer × Int × List BackendServer
  | [] => (selected, totalWeight, [])
  | server :: servers =>
    if !server.healthy then
      let rest := weigh selected totalWeight servers
      (rest.1, rest.2.1, server :: rest.2.2)
    else
      let server := { server with currentWeight := int32 (server.currentWeight + server.weight) }
      let rest :=
        weigh (some (better selected server)) (int32 (totalWeight + server.weight)) servers
      (rest.1, rest.2.1, server :: rest.2.2)

def select (servers : List BackendServer) : Option Nat × List BackendServer :=
  match weigh none 0 servers with
  | (none, _, servers) => (none, servers)
  | (some selected, totalWeight, servers) =>
    (some selected.ptr, changeAt selected.ptr
      (fun s => { s with currentWeight := int32 (s.currentWeight - totalWeight) }) servers)

end WeightedRoundRobinStrategy

namespace LeastConnectionsStrategy

def int32Max : Int := 2147483647

def least (selected : Option Nat) (minConns : Int) : List BackendServer → Option Nat
  | [] => selected
  | server :: servers =>
    if !server.healthy then least selected minConns servers
    else if server.connections < minConns then least (some server.ptr) server.connections servers
    else least selected minConns servers

def select (servers : List BackendServer) : Option Nat × List BackendServer :=
  match least none int32Max servers with
  | none => (none, servers)
  | some ptr =>
    (some ptr, changeAt ptr (fun s => { s with connections := int32 (s.connections + 1) }) servers)

/-- An object that is no longer listed changes nothing in the list. -/
def release (ptr : Nat) (servers : List BackendServer) : List BackendServer :=
  changeAt ptr
    (fun s => if 0 < s.connections then { s with connections := s.connections - 1 } else s) servers

end LeastConnectionsStrategy

namespace RandomStrategy

/-- `drawn` stands for what the generator draws. -/
def select (drawn : Nat) (servers : List BackendServer) : Option Nat :=
  let healthy := healthyOf servers
  if healthy = [] then none else (healthy[drawn % healthy.length]?).map (·.ptr)

end RandomStrategy

namespace ConsistentHashStrategy

/-- The hash is a `uint32_t`. -/
def hashString (str : Bytes) : Nat :=
  str.foldl (fun hash c => (hash * 32 + hash + c.toNat) % 2 ^ 32) 5381

/-- `ring_[hash] = server` for each virtual node of the server. -/
def addNodes (virtualNodes_ : Nat) (server : BackendServer) (ring_ : List (Nat × Nat)) :
    List (Nat × Nat) :=
  (List.range virtualNodes_).foldl (fun ring_ i =>
    ordered_map.access id (hashString (server.address ++ text "#" ++ decimal i)) server.ptr
      (fun _ => server.ptr) ring_) ring_

def init (virtualNodes_ : Nat) (servers : List BackendServer) : List (Nat × Nat) :=
  (healthyOf servers).foldl (fun ring_ server => addNodes virtualNodes_ server ring_) []

/-- `lower_bound`, and the first node behind the end of the ring. -/
def selectWithKey (ring_ : List (Nat × Nat)) (key : Nat) : Option Nat := rings.seek ring_ key

end ConsistentHashStrategy

/-! ## The balancer -/

inductive Strategy
  | roundRobin
  | weightedRoundRobin
  | leastConnections
  | random
  | consistentHash
  deriving DecidableEq

inductive StrategyImpl
  | roundRobin (index_ : Nat)
  | weightedRoundRobin
  | leastConnections
  | random
  | consistentHash (virtualNodes_ : Nat) (ring_ : List (Nat × Nat))
  deriving DecidableEq

/-- `made` counts the server objects. -/
structure LoadBalancer where
  strategyImpl_ : StrategyImpl
  servers_ : List BackendServer := []
  made : Nat := 0

namespace LoadBalancer

/-- The ring of a consistent hash starts empty; the balancer never calls `init`. -/
def createStrategy : Strategy → StrategyImpl
  | .roundRobin => .roundRobin 0
  | .weightedRoundRobin => .weightedRoundRobin
  | .leastConnections => .leastConnections
  | .random => .random
  | .consistentHash => .consistentHash 150 []

def create (strategy : Strategy) : LoadBalancer := { strategyImpl_ := createStrategy strategy }

def addServer (lb : LoadBalancer) (host : Bytes) (port weight : Int) : LoadBalancer :=
  { lb with
    servers_ := lb.servers_ ++ [{ ptr := lb.made, host, port, weight }]
    made := lb.made + 1 }

def removeServer (lb : LoadBalancer) (host : Bytes) (port : Int) : LoadBalancer :=
  { lb with servers_ := lb.servers_.filter (fun s => ¬ s.Is host port) }

/-- The loop of `setServerHealth` stops at the first server with the address. -/
def setFirst (host : Bytes) (port : Int) (healthy : Bool) : List BackendServer → List BackendServer
  | [] => []
  | s :: servers =>
    if s.Is host port then { s with healthy } :: servers
    else s :: setFirst host port healthy servers

def setServerHealth (lb : LoadBalancer) (host : Bytes) (port : Int) (healthy : Bool) :
    LoadBalancer :=
  { lb with servers_ := setFirst host port healthy lb.servers_ }

def select (lb : LoadBalancer) (drawn : Nat) : Option Nat × LoadBalancer :=
  match lb.strategyImpl_ with
  | .roundRobin index_ =>
    let selected := RoundRobinStrategy.select index_ lb.servers_
    (selected.1, { lb with strategyImpl_ := .roundRobin selected.2 })
  | .weightedRoundRobin =>
    let selected := WeightedRoundRobinStrategy.select lb.servers_
    (selected.1, { lb with servers_ := selected.2 })
  | .leastConnections =>
    let selected := LeastConnectionsStrategy.select lb.servers_
    (selected.1, { lb with servers_ := selected.2 })
  | .random => (RandomStrategy.select drawn lb.servers_, lb)
  | .consistentHash _ ring_ => (ConsistentHashStrategy.selectWithKey ring_ 0, lb)

def releaseConnection (lb : LoadBalancer) (ptr : Nat) : LoadBalancer :=
  match lb.strategyImpl_ with
  | .leastConnections => { lb with servers_ := LeastConnectionsStrategy.release ptr lb.servers_ }
  | _ => lb

end LoadBalancer

/-! ## Calls, and what was said of an address -/

inductive Call
  | addServer (host : Bytes) (port weight : Int)
  | removeServer (host : Bytes) (port : Int)
  | setServerHealth (host : Bytes) (port : Int) (healthy : Bool)
  | select (drawn : Nat)
  | releaseConnection (ptr : Nat)

/-- The balancer, and for each address what the last `setServerHealth` since it was added
said. -/
structure World where
  lb : LoadBalancer
  said : Bytes → Int → Bool := fun _ _ => true

/-- `b` is said of the address from now on. -/
def World.say (w : World) (host : Bytes) (port : Int) (b : Bool) : Bytes → Int → Bool :=
  fun h p => if h = host ∧ p = port then b else w.said h p

def World.step (w : World) : Call → World
  | .addServer host port weight =>
    { lb := w.lb.addServer host port weight, said := w.say host port true }
  | .removeServer host port => { w with lb := w.lb.removeServer host port }
  | .setServerHealth host port healthy =>
    { lb := w.lb.setServerHealth host port healthy, said := w.say host port healthy }
  | .select drawn => { w with lb := (w.lb.select drawn).2 }
  | .releaseConnection ptr => { w with lb := w.lb.releaseConnection ptr }

def World.start (strategy : Strategy) : World := { lb := .create strategy }

/-- A listed server of a healthy address. -/
def World.CountsHealthy (w : World) (server : BackendServer) : Prop :=
  server ∈ w.lb.servers_ ∧ w.said server.host server.port = true

/-- `select` returns null where no listed server is healthy, and a server that is listed and
healthy otherwise. -/
def SelectsRightly (w : World) : Call → Prop
  | .select drawn =>
    match (w.lb.select drawn).1 with
    | none => ¬ ∃ server, w.CountsHealthy server
    | some ptr => ∃ server, w.CountsHealthy server ∧ server.ptr = ptr
  | _ => True

def AddsNew (w : World) : Call → Prop
  | .addServer host port _ => ∀ server ∈ w.lb.servers_, ¬ server.Is host port
  | _ => True

instance (w : World) : ∀ call, Decidable (AddsNew w call)
  | .addServer host port _ =>
    inferInstanceAs (Decidable (∀ server ∈ w.lb.servers_, ¬ server.Is host port))
  | .removeServer _ _ => isTrue trivial
  | .setServerHealth _ _ _ => isTrue trivial
  | .select _ => isTrue trivial
  | .releaseConnection _ => isTrue trivial

/-- Where some listed server is healthy, the strategy has one to give: there is none in the
ring of a consistent hash, and least connections passes over servers with the greatest
number of connections. -/
def HasOne (w : World) : Call → Prop
  | .select _ => (∃ server, w.CountsHealthy server) →
    match w.lb.strategyImpl_ with
    | .consistentHash _ _ => False
    | .leastConnections =>
      ∃ server, w.CountsHealthy server ∧
        server.connections < LeastConnectionsStrategy.int32Max
    | _ => True
  | _ => True

/-! ## Which server a strategy gives -/

variable {servers : List BackendServer}

theorem mem_healthyOf {s : BackendServer} :
    s ∈ healthyOf servers ↔ s ∈ servers ∧ s.healthy = true := List.mem_filter

/-- One of the servers that may be given, or none where none may. -/
def Gives (may : BackendServer → Prop) : Option Nat → Prop
  | none => ¬ ∃ server, may server
  | some ptr => ∃ server, may server ∧ server.ptr = ptr

theorem gives_healthyOf (servers : List BackendServer) (i : Nat) :
    Gives (fun s => s ∈ servers ∧ s.healthy = true) (if healthyOf servers = [] then none
      else ((healthyOf servers)[i % (healthyOf servers).length]?).map (·.ptr)) := by
  simp only [← mem_healthyOf]
  split
  · rename_i hnone
    simp [Gives, hnone]
  · rename_i hsome
    have hlt : i % (healthyOf servers).length < (healthyOf servers).length :=
      Nat.mod_lt _ (length_pos_iff.mpr hsome)
    rw [getElem?_eq_getElem hlt]
    exact ⟨_, getElem_mem hlt, rfl⟩

def gained (s : BackendServer) : BackendServer :=
  { s with currentWeight := int32 (s.currentWeight + s.weight) }

open WeightedRoundRobinStrategy in
theorem weigh_eq (selected : Option BackendServer) (total : Int) (servers : List BackendServer) :
    weigh selected total servers =
      (((healthyOf servers).map gained).foldl (fun selected s => some (better selected s)) selected,
        (healthyOf servers).foldl (fun total s => int32 (total + s.weight)) total,
        servers.map (fun s => if s.healthy then gained s else s)) := by
  induction servers generalizing selected total with
  | nil => rfl
  | cons server servers ih =>
    rw [weigh]
    by_cases hup : server.healthy = true
    · simp [healthyOf, hup, ih, gained]
    · simp [healthyOf, hup, ih]

theorem foldl_better (servers : List BackendServer) :
    servers.foldl (fun selected s => some (WeightedRoundRobinStrategy.better selected s)) none =
      servers.argmax BackendServer.currentWeight := by
  unfold argmax
  congr 1
  funext selected s
  cases selected with
  | none => rfl
  | some best => exact apply_ite some _ _ _

theorem gives_weigh (servers : List BackendServer) :
    Gives (fun s => s ∈ servers ∧ s.healthy = true)
      ((WeightedRoundRobinStrategy.weigh none 0 servers).1.map (·.ptr)) := by
  simp only [← mem_healthyOf]
  rw [weigh_eq, foldl_better]
  cases hbest : ((healthyOf servers).map gained).argmax BackendServer.currentWeight with
  | none =>
    have hnone := map_eq_nil_iff.mp (argmax_eq_none.mp hbest)
    simp [Gives, hnone]
  | some best =>
    obtain ⟨s, hs, rfl⟩ := mem_map.mp (argmax_mem hbest)
    exact ⟨s, hs, rfl⟩

/-- The loop keeps what it has, or gives the first healthy server with the fewest
connections. -/
theorem least_cases (selected : Option Nat) (minConns : Int) (servers : List BackendServer) :
    LeastConnectionsStrategy.least selected minConns servers = selected ∧
        (∀ t ∈ servers, t.healthy = true → minConns ≤ t.connections) ∨
      ∃ before s after, servers = before ++ s :: after ∧
        LeastConnectionsStrategy.least selected minConns servers = some s.ptr ∧
        s.healthy = true ∧ s.connections < minConns ∧
        (∀ t ∈ before, t.healthy = true → s.connections < t.connections) ∧
        ∀ t ∈ after, t.healthy = true → s.connections ≤ t.connections := by
  induction servers generalizing selected minConns with
  | nil => exact Or.inl ⟨rfl, by simp⟩
  | cons server servers ih =>
    rw [LeastConnectionsStrategy.least]
    split
    · rcases ih selected minConns with ⟨heq, hall⟩ | ⟨before, s, after, rfl, hrest⟩
      · exact Or.inl ⟨heq, by simp_all⟩
      · exact Or.inr ⟨server :: before, s, after, rfl, by simp_all⟩
    · rename_i hup
      simp only [Bool.not_eq_true', Bool.not_eq_false] at hup
      split
      · rename_i hfewer
        rcases ih (some server.ptr) server.connections with
          ⟨heq, hall⟩ | ⟨before, s, after, rfl, heq, hs, hlt, hbefore, hafter⟩
        · exact Or.inr ⟨[], server, servers, rfl, heq, hup, hfewer, by simp, hall⟩
        · refine Or.inr ⟨server :: before, s, after, rfl, heq, hs, by omega, ?_, hafter⟩
          simpa [hup] using ⟨hlt, hbefore⟩
      · rcases ih selected minConns with
          ⟨heq, hall⟩ | ⟨before, s, after, rfl, heq, hs, hlt, hbefore, hafter⟩
        · exact Or.inl ⟨heq, by simpa [hup] using ⟨by omega, hall⟩⟩
        · refine Or.inr ⟨server :: before, s, after, rfl, heq, hs, hlt, ?_, hafter⟩
          simpa [hup] using ⟨by omega, hbefore⟩

theorem gives_least (minConns : Int) (servers : List BackendServer) :
    Gives (fun s => s ∈ servers ∧ s.healthy = true ∧ s.connections < minConns)
      (LeastConnectionsStrategy.least none minConns servers) := by
  rcases least_cases none minConns servers with
    ⟨heq, hall⟩ | ⟨before, s, after, rfl, heq, hs, hlt, -⟩
  · rw [heq]
    rintro ⟨s, hs, hup, hlt⟩
    exact absurd hlt (Int.not_lt.mpr (hall s hs hup))
  · rw [heq]
    exact ⟨s, ⟨by simp, hs, hlt⟩, rfl⟩

namespace LoadBalancer

/-- A server that the strategy may give. -/
def Eligible (lb : LoadBalancer) (server : BackendServer) : Prop :=
  server ∈ lb.servers_ ∧ server.healthy = true ∧
    match lb.strategyImpl_ with
    | .consistentHash _ _ => False
    | .leastConnections => server.connections < LeastConnectionsStrategy.int32Max
    | _ => True

def NoRing (lb : LoadBalancer) : Prop :=
  ∀ nodes ring, lb.strategyImpl_ = .consistentHash nodes ring → ring = []

theorem gives_select {lb : LoadBalancer} (hring : lb.NoRing) (drawn : Nat) :
    Gives lb.Eligible (lb.select drawn).1 := by
  obtain ⟨impl, servers, made⟩ := lb
  have hplain : ∀ s, s ∈ servers ∧ s.healthy = true ↔ s ∈ servers ∧ s.healthy = true ∧ True := by
    simp
  cases impl with
  | roundRobin index_ =>
    have hgives := gives_healthyOf servers index_
    simp only [hplain] at hgives
    dsimp only [select, RoundRobinStrategy.select]
    rw [apply_ite Prod.fst]
    exact hgives
  | weightedRoundRobin =>
    have hgives := gives_weigh servers
    simp only [hplain] at hgives
    dsimp only [select, WeightedRoundRobinStrategy.select]
    split
    · rename_i hweigh
      rwa [hweigh] at hgives
    · rename_i hweigh
      rwa [hweigh] at hgives
  | leastConnections =>
    have hgives := gives_least LeastConnectionsStrategy.int32Max servers
    dsimp only [select, LeastConnectionsStrategy.select]
    split
    · rename_i hleast
      rwa [hleast] at hgives
    · rename_i hleast
      rwa [hleast] at hgives
  | random =>
    have hgives := gives_healthyOf servers drawn
    simp only [hplain] at hgives
    exact hgives
  | consistentHash nodes ring =>
    obtain rfl := hring nodes ring rfl
    exact fun ⟨_, _, _, hnever⟩ => hnever

end LoadBalancer

/-! ## The list agrees with what was said -/

/-- What a server shows beside its numbers. -/
def face (s : BackendServer) : Bytes × Int × Bool := (s.host, s.port, s.healthy)

/-- Each listed server has the health that was last said of its address, and no address is
listed twice. -/
structure Agrees (said : Bytes → Int → Bool) (servers : List BackendServer) : Prop where
  health : ∀ s ∈ servers, s.healthy = said s.host s.port
  apart : servers.Pairwise (fun s t => ¬ t.Is s.host s.port)

theorem agrees_of_face {said : Bytes → Int → Bool} {servers' : List BackendServer}
    (hface : servers'.map face = servers.map face) (h : Agrees said servers) :
    Agrees said servers' := by
  have hhealth : ∀ f ∈ servers.map face, f.2.2 = said f.1 f.2.1 := by
    intro f hf
    obtain ⟨s, hs, rfl⟩ := mem_map.mp hf
    exact h.health s hs
  have hapart : (servers.map face).Pairwise (fun f g => ¬ (g.1 = f.1 ∧ g.2.1 = f.2.1)) :=
    pairwise_map.mpr h.apart
  rw [← hface] at hhealth hapart
  exact ⟨fun s hs => hhealth (face s) (mem_map_of_mem hs), pairwise_map.mp hapart⟩

theorem map_face_changeAt {f : BackendServer → BackendServer} (hf : ∀ s, face (f s) = face s)
    (ptr : Nat) (servers : List BackendServer) :
    (changeAt ptr f servers).map face = servers.map face := by
  unfold changeAt
  rw [map_map]
  refine map_congr_left ?_
  intro s _
  dsimp only [Function.comp]
  split
  · exact hf s
  · rfl

theorem map_face_weigh (servers : List BackendServer) :
    (WeightedRoundRobinStrategy.weigh none 0 servers).2.2.map face = servers.map face := by
  rw [weigh_eq, map_map]
  refine map_congr_left ?_
  intro s _
  dsimp only [Function.comp]
  split <;> rfl

theorem map_face_select (lb : LoadBalancer) (drawn : Nat) :
    (lb.select drawn).2.servers_.map face = lb.servers_.map face := by
  obtain ⟨impl, servers, made⟩ := lb
  cases impl with
  | weightedRoundRobin =>
    dsimp only [LoadBalancer.select, WeightedRoundRobinStrategy.select]
    have hface := map_face_weigh servers
    split
    · rename_i total servers' hweigh
      rw [hweigh] at hface
      exact hface
    · rename_i selected total servers' hweigh
      rw [hweigh] at hface
      refine (map_face_changeAt ?_ _ _).trans hface
      intro s
      rfl
  | leastConnections =>
    dsimp only [LoadBalancer.select, LeastConnectionsStrategy.select]
    split
    · rfl
    · refine map_face_changeAt ?_ _ _
      intro s
      rfl
  | roundRobin index_ | random | consistentHash nodes ring => rfl

theorem map_face_releaseConnection (lb : LoadBalancer) (ptr : Nat) :
    (lb.releaseConnection ptr).servers_.map face = lb.servers_.map face := by
  unfold LoadBalancer.releaseConnection
  split
  · refine map_face_changeAt ?_ _ _
    intro s
    split <;> rfl
  · rfl

namespace World

variable {w : World} {host : Bytes} {port : Int}

variable {s : BackendServer}

theorem map_address_setFirst (host : Bytes) (port : Int) (healthy : Bool)
    (servers : List BackendServer) :
    (LoadBalancer.setFirst host port healthy servers).map (fun s => (s.host, s.port)) =
      servers.map (fun s => (s.host, s.port)) := by
  induction servers with
  | nil => rfl
  | cons s servers ih =>
    rw [LoadBalancer.setFirst]
    split
    · rfl
    · exact congrArg ((s.host, s.port) :: ·) ih

theorem say_self (b : Bool) (h : s.Is host port) : w.say host port b s.host s.port = b := if_pos h

theorem say_of_not_is (b : Bool) (h : ¬ s.Is host port) :
    w.say host port b s.host s.port = w.said s.host s.port := if_neg h

theorem agrees_addServer (h : Agrees w.said w.lb.servers_)
    (hnew : ∀ s ∈ w.lb.servers_, ¬ s.Is host port) (weight : Int) :
    Agrees (w.say host port true) (w.lb.addServer host port weight).servers_ := by
  constructor
  · intro s hs
    rcases mem_append.mp hs with hold | hadded
    · rw [say_of_not_is true (hnew s hold)]
      exact h.health s hold
    · rw [mem_singleton.mp hadded]
      exact (say_self true ⟨rfl, rfl⟩).symm
  · refine pairwise_append.mpr ⟨h.apart, pairwise_singleton _ _, ?_⟩
    intro s hs t ht his
    rw [mem_singleton.mp ht] at his
    exact hnew s hs ⟨his.1.symm, his.2.symm⟩

theorem agrees_removeServer (h : Agrees w.said w.lb.servers_) :
    Agrees w.said (w.lb.removeServer host port).servers_ :=
  ⟨fun s hs => h.health s (mem_of_mem_filter hs), h.apart.filter _⟩

theorem health_setFirst {said said' : Bytes → Int → Bool} {healthy : Bool}
    (hself : ∀ s : BackendServer, s.Is host port → said' s.host s.port = healthy)
    (hother : ∀ s : BackendServer, ¬ s.Is host port → said' s.host s.port = said s.host s.port)
    {servers : List BackendServer} (h : Agrees said servers) :
    ∀ t ∈ LoadBalancer.setFirst host port healthy servers, t.healthy = said' t.host t.port := by
  induction servers with
  | nil => simp [LoadBalancer.setFirst]
  | cons s servers ih =>
    have hrest : Agrees said servers :=
      ⟨fun t ht => h.health t (mem_cons_of_mem _ ht), h.apart.of_cons⟩
    rw [LoadBalancer.setFirst]
    split
    · rename_i his
      refine forall_mem_cons.mpr ⟨(hself s his).symm, fun t ht => ?_⟩
      have hst := rel_of_pairwise_cons h.apart ht
      rw [his.1, his.2] at hst
      rw [hother t hst]
      exact hrest.health t ht
    · rename_i his
      refine forall_mem_cons.mpr ⟨?_, ih hrest⟩
      rw [hother s his]
      exact h.health s mem_cons_self

theorem agrees_setServerHealth (h : Agrees w.said w.lb.servers_) (healthy : Bool) :
    Agrees (w.say host port healthy) (w.lb.setServerHealth host port healthy).servers_ := by
  refine ⟨health_setFirst (fun _ => say_self healthy) (fun _ => say_of_not_is healthy) h, ?_⟩
  have hapart : (w.lb.servers_.map (fun s => (s.host, s.port))).Pairwise
      (fun a b => ¬ (b.1 = a.1 ∧ b.2 = a.2)) := pairwise_map.mpr h.apart
  rw [← map_address_setFirst host port healthy] at hapart
  exact pairwise_map.mp hapart

theorem agrees_step {call : Call} (hcall : AddsNew w call) (h : Agrees w.said w.lb.servers_) :
    Agrees (w.step call).said (w.step call).lb.servers_ := by
  cases call with
  | addServer host port weight => exact agrees_addServer h hcall weight
  | removeServer host port => exact agrees_removeServer h
  | setServerHealth host port healthy => exact agrees_setServerHealth h healthy
  | select drawn => exact agrees_of_face (map_face_select w.lb drawn) h
  | releaseConnection ptr => exact agrees_of_face (map_face_releaseConnection w.lb ptr) h

theorem noRing_step (h : w.lb.NoRing) (call : Call) : (w.step call).lb.NoRing := by
  cases call with
  | addServer host port weight | removeServer host port | setServerHealth host port healthy =>
    exact h
  | select drawn =>
    obtain ⟨⟨impl, servers, made⟩, said⟩ := w
    cases impl with
    | roundRobin index_ =>
      intro nodes ring heq
      cases heq
    | weightedRoundRobin | leastConnections | random | consistentHash nodes ring => exact h
  | releaseConnection ptr =>
    dsimp only [step]
    unfold LoadBalancer.releaseConnection
    split <;> exact h

theorem noRing_start (strategy : Strategy) : (World.start strategy).lb.NoRing := by
  intro nodes ring heq
  cases strategy with
  | consistentHash =>
    cases heq
    rfl
  | _ => cases heq

theorem agrees_start (strategy : Strategy) :
    Agrees (World.start strategy).said (World.start strategy).lb.servers_ :=
  ⟨fun _ hs => absurd hs not_mem_nil, List.Pairwise.nil⟩

end World

/-! ## The contract of select -/

theorem countsHealthy_iff {w : World} (h : Agrees w.said w.lb.servers_) (server : BackendServer) :
    w.CountsHealthy server ↔ server ∈ w.lb.servers_ ∧ server.healthy = true := by
  constructor
  · rintro ⟨hlisted, hsaid⟩
    exact ⟨hlisted, (h.health server hlisted).trans hsaid⟩
  · rintro ⟨hlisted, hhealthy⟩
    exact ⟨hlisted, (h.health server hlisted).symm.trans hhealthy⟩

/-- The strategy has a server to give exactly when one is eligible, or none is healthy. -/
theorem hasOne_select_iff {w : World} (h : Agrees w.said w.lb.servers_) (drawn : Nat) :
    HasOne w (.select drawn) ↔
      ((∃ server, w.CountsHealthy server) → ∃ server, w.lb.Eligible server) := by
  refine imp_congr_right ?_
  rintro ⟨healthy, hhealthy⟩
  unfold LoadBalancer.Eligible
  simp only [countsHealthy_iff h] at hhealthy ⊢
  cases w.lb.strategyImpl_ with
  | consistentHash nodes ring => simp
  | leastConnections => simp only [and_assoc]
  | roundRobin index_ | weightedRoundRobin | random =>
    exact iff_of_true trivial ⟨healthy, hhealthy.1, hhealthy.2, trivial⟩

theorem selectsRightly_iff {w : World} (h : Agrees w.said w.lb.servers_) (hring : w.lb.NoRing)
    (call : Call) : SelectsRightly w call ↔ HasOne w call := by
  cases call with
  | select drawn =>
    rw [hasOne_select_iff h]
    dsimp only [SelectsRightly]
    have hgives := LoadBalancer.gives_select hring drawn
    cases hselect : (w.lb.select drawn).1 with
    | none =>
      rw [hselect] at hgives
      exact ⟨fun hno hex => absurd hex hno, fun hone hex => hgives (hone hex)⟩
    | some ptr =>
      rw [hselect] at hgives
      obtain ⟨server, heligible, hptr⟩ := hgives
      refine iff_of_true ⟨server, ?_, hptr⟩ (fun _ => ⟨server, heligible⟩)
      exact (countsHealthy_iff h server).mpr ⟨heligible.1, heligible.2.1⟩
  | addServer host port weight | removeServer host port | setServerHealth host port healthy
  | releaseConnection ptr => exact Iff.rfl

/-- In every run that adds no address that is listed, every `select` keeps the contract
exactly when the strategy has a server to give at every `select`. -/
theorem select_keeps_contract_iff (strategy : Strategy) (calls : List Call)
    (hnew : Meets World.step AddsNew (.start strategy) calls) :
    Meets World.step SelectsRightly (.start strategy) calls ↔
      Meets World.step HasOne (.start strategy) calls :=
  meets_congr (fun w => Agrees w.said w.lb.servers_ ∧ w.lb.NoRing)
    (fun _ call hcall hinv => ⟨World.agrees_step hcall hinv.1, World.noRing_step hinv.2 call⟩)
    (fun _ call hinv => selectsRightly_iff hinv.1 hinv.2 call) hnew
    ⟨World.agrees_start strategy, World.noRing_start strategy⟩

/-- Two servers in turn, and one of them set unhealthy. -/
theorem select_keeps_contract_round_robin :
    let calls : List Call := [.addServer (text "a") 80 1, .addServer (text "b") 80 1,
      .select 0, .setServerHealth (text "a") 80 false, .select 0]
    Meets World.step SelectsRightly (.start .roundRobin) calls :=
  (select_keeps_contract_iff .roundRobin _ (by decide)).mpr
    ⟨trivial, trivial, fun _ => trivial, trivial, fun _ => trivial, trivial⟩

/-- With a consistent hash `select` gives null beside a healthy server, and an address that
is listed twice is given although it was said to be unhealthy. -/
theorem select_breaks_contract :
    let hashed := run World.step (.start .consistentHash) [.addServer (text "a") 80 1]
    let twice := run World.step (.start .roundRobin) [.addServer (text "a") 80 1,
      .addServer (text "a") 80 1, .setServerHealth (text "a") 80 false]
    hashed.lb.servers_.map (·.host) = [text "a"] ∧ hashed.said (text "a") 80 = true ∧
      (hashed.lb.select 0).1 = none ∧
      twice.lb.servers_.map (·.host) = [text "a", text "a"] ∧
      twice.said (text "a") 80 = false ∧ (twice.lb.select 0).1 = some 1 := by
  decide

end mymuduo.load_balancer
