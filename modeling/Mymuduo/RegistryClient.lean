-- The client of the service registry (src/registry/RegistryClient.h): the requests
-- that it writes, what it reads from an answer, and how it selects an instance.
-- Each selection builds a load balancer of its own, so nothing of one selection
-- is there for the next.
import Mymuduo.LoadBalancer
import Mymuduo.ServiceMeta

open List bytes json

namespace mymuduo.registry_client

open service_meta load_balancer

/-! ## Requests -/

/-- What `SimpleHttpClient::post` sends. -/
def postRequest (host path body contentType : Bytes) : Bytes :=
  text "POST " ++ path ++ text " HTTP/1.1\r\n" ++ text "Host: " ++ host ++ text "\r\n" ++
    text "Content-Type: " ++ contentType ++ text "\r\n" ++
    text "Content-Length: " ++ decimal body.length ++ text "\r\n" ++
    text "Connection: close\r\n" ++ text "\r\n" ++ body

/-- What `SimpleHttpClient::get` sends. -/
def getRequest (host path : Bytes) : Bytes :=
  text "GET " ++ path ++ text " HTTP/1.1\r\n" ++ text "Host: " ++ host ++ text "\r\n" ++
    text "Connection: close\r\n" ++ text "\r\n"

def registerJson (key : ServiceKey) (inst : InstanceMeta) : Json :=
  .object (setField (text "instance") inst.toJson (setField (text "service") key.toJson []))

def discoverPath (key : ServiceKey) : Bytes :=
  text "/api/v1/registry/discover?namespace=" ++ key.namespace_ ++ text "&serviceName=" ++
    key.serviceName ++ text "&version=" ++ key.version

/-! ## Selecting an instance -/

structure RegistryClient where
  registryHost_ : Bytes
  registryPort_ : Int

/-- The balancer of one selection, with a server for each instance. -/
def balancerOf (strategy : Strategy) (instances : List InstanceMeta) : LoadBalancer :=
  instances.foldl (fun balancer inst => balancer.addServer inst.host inst.port inst.weight)
    (.create strategy)

def selectedServer (balancer : LoadBalancer) (drawn : Nat) : Option BackendServer :=
  match balancer.select drawn with
  | (none, _) => none
  | (some ptr, balancer) => balancer.servers_.find? (fun server => server.ptr = ptr)

/-- `selectInstance` with the instances that `discoverService` gives, and the client behind
the call. -/
def RegistryClient.selectInstance (client : RegistryClient) (instances : List InstanceMeta)
    (strategy : Strategy) (drawn : Nat) : Option InstanceMeta × RegistryClient :=
  if instances = [] then (none, client)
  else
    match selectedServer (balancerOf strategy instances) drawn with
    | none => (none, client)
    | some selected =>
      (instances.find? (fun inst => inst.host = selected.host ∧ inst.port = selected.port), client)

/-- Consecutive calls on one client, with one list of instances. -/
def RegistryClient.selections (client : RegistryClient) (instances : List InstanceMeta)
    (strategy : Strategy) : List Nat → List (Option InstanceMeta)
  | [] => []
  | drawn :: draws =>
    (client.selectInstance instances strategy drawn).1 ::
      (client.selectInstance instances strategy drawn).2.selections instances strategy draws

/-! ## The first instance, every time -/

def serverOf (ptr : Nat) (inst : InstanceMeta) : BackendServer :=
  { ptr, host := inst.host, port := inst.port, weight := inst.weight }

theorem balancer_addServers (instances : List InstanceMeta) (balancer : LoadBalancer) :
    ∃ servers, (instances.foldl
        (fun balancer inst => balancer.addServer inst.host inst.port inst.weight) balancer) =
      { balancer with
        servers_ := balancer.servers_ ++ servers, made := balancer.made + instances.length } := by
  induction instances generalizing balancer with
  | nil => exact ⟨[], by simp⟩
  | cons inst instances ih =>
    obtain ⟨servers, hservers⟩ := ih (balancer.addServer inst.host inst.port inst.weight)
    refine ⟨serverOf balancer.made inst :: servers, ?_⟩
    rw [foldl_cons, hservers]
    simp [LoadBalancer.addServer, serverOf, Nat.add_comm, Nat.add_left_comm]

theorem selectInstance_roundRobin (client : RegistryClient) (first : InstanceMeta)
    (instances : List InstanceMeta) (drawn : Nat) :
    client.selectInstance (first :: instances) .roundRobin drawn = (some first, client) := by
  have hbalancer : ∃ servers, balancerOf .roundRobin (first :: instances) =
      { strategyImpl_ := .roundRobin 0
        servers_ := serverOf 0 first :: servers
        made := 1 + instances.length } := by
    unfold balancerOf
    rw [foldl_cons]
    obtain ⟨servers, hservers⟩ := balancer_addServers instances
      ((LoadBalancer.create .roundRobin).addServer first.host first.port first.weight)
    exact ⟨servers, hservers⟩
  obtain ⟨servers, hservers⟩ := hbalancer
  have hselected : selectedServer (balancerOf .roundRobin (first :: instances)) drawn =
      some (serverOf 0 first) := by
    rw [hservers]
    simp [selectedServer, LoadBalancer.select, RoundRobinStrategy.select, healthyOf, serverOf]
  unfold RegistryClient.selectInstance
  rw [if_neg (cons_ne_nil _ _), hselected]
  simp [serverOf]

theorem selections_roundRobin (client : RegistryClient) (first : InstanceMeta)
    (instances : List InstanceMeta) (draws : List Nat) :
    client.selections (first :: instances) .roundRobin draws =
      replicate draws.length (some first) := by
  induction draws with
  | nil => rfl
  | cons drawn draws ih =>
    rw [RegistryClient.selections, selectInstance_roundRobin, ih]
    rfl

def Spread (selected : List (Option InstanceMeta)) : Prop :=
  ∃ instances : List InstanceMeta, selected = instances.map some ∧
    (instances.map (fun inst => (inst.host, inst.port))).Nodup

/-- As many consecutive calls as there are instances spread over them exactly when there is
at most one. -/
theorem selections_spread_iff (client : RegistryClient) (instances : List InstanceMeta)
    (draws : List Nat) (hn : draws.length = instances.length) :
    Spread (client.selections instances .roundRobin draws) ↔ instances.length ≤ 1 := by
  cases instances with
  | nil =>
    rw [eq_nil_of_length_eq_zero hn]
    exact iff_of_true ⟨[], rfl, nodup_nil⟩ (Nat.zero_le 1)
  | cons first instances =>
    rw [selections_roundRobin, hn]
    constructor
    · rintro ⟨chosen, hchosen, hnodup⟩
      have hsame : chosen = replicate (first :: instances).length first := by
        refine map_injective_iff.mpr (Option.some_injective _) ?_
        rw [← hchosen, map_replicate]
      rw [hsame, map_replicate] at hnodup
      exact nodup_replicate.mp hnodup
    · intro hle
      have hnil : instances = [] := eq_nil_of_length_eq_zero (by simpa using hle)
      subst hnil
      exact ⟨[first], rfl, nodup_singleton _⟩

/-- Two instances, and two calls that both return the first. -/
theorem selections_of_two :
    let one : InstanceMeta := { host := text "10.0.0.1", port := 80 }
    let two : InstanceMeta := { host := text "10.0.0.2", port := 80 }
    let client : RegistryClient := { registryHost_ := text "registry", registryPort_ := 8500 }
    client.selections [one, two] .roundRobin [0, 0] = [some one, some one] ∧ one ≠ two := by
  decide

theorem selections_spread_iff_two :
    let one : InstanceMeta := { host := text "10.0.0.1", port := 80 }
    let two : InstanceMeta := { host := text "10.0.0.2", port := 80 }
    let client : RegistryClient := { registryHost_ := text "registry", registryPort_ := 8500 }
    ¬ Spread (client.selections [one, two] .roundRobin [0, 0]) :=
  fun h => absurd ((selections_spread_iff _ _ _ rfl).mp h) (by decide)

end mymuduo.registry_client
