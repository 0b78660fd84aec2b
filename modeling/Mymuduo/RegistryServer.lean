-- The registry server (src/registry/RegistryServer.h): its handlers on the catalog
-- of services, and its routes. Every handler hands its answer to `resp.json(..)`,
-- the factory of `HttpResponse`, and drops the response that comes back. Where the
-- answer to an exception cannot be written either, nothing catches the new exception.
import Mymuduo.HttpRoutes
import Mymuduo.ServiceDirectory

open bytes json

namespace mymuduo.registry_server

open service_meta service_catalog http_request http_response http_routing

/-! ## The state behind the handlers -/

/-- The catalog, the number of instances that were made so far, and the clock. A handler
reads the clock once. The process has terminated when an exception has left a handler. -/
structure Registry where
  catalog_ : Catalog := {}
  made : Ptr := 0
  clock : Int := 0
  terminated : Bool := false
  sound : catalog_.Sound := by exact Catalog.sound_start
  new : ∀ p, catalog_.Holds p → p < made := by exact fun _ h => absurd h List.not_mem_nil

namespace Registry

variable (r : Registry)

def at_ (now : Int) : Registry := { r with clock := now }

theorem handsInNew (key : ServiceKey) (inst : InstanceMeta) (now : Int) :
    HandsInNew r.catalog_ (.registerInstance key r.made inst now) :=
  fun h => absurd (r.new _ h) (Nat.lt_irrefl _)

/-- `make_shared` gives a new object, and the catalog takes it. -/
def registerInstance (key : ServiceKey) (inst : InstanceMeta) : Registry where
  catalog_ := r.catalog_.step (.registerInstance key r.made inst r.clock)
  made := r.made + 1
  clock := r.clock
  terminated := r.terminated
  sound := Catalog.sound_step r.sound (r.handsInNew key inst r.clock)
  new := by
    intro p hp
    rcases Catalog.holds_step r.sound.sorted hp with hold | ⟨_, _, _, heq⟩
    · exact Nat.lt_succ_of_lt (r.new p hold)
    · cases heq
      exact Nat.lt_succ_self _

/-- A call that registers nothing. -/
def behind (call : Call) (h : ∀ key p inst now, call ≠ .registerInstance key p inst now) :
    Registry where
  catalog_ := r.catalog_.step call
  made := r.made
  clock := r.clock
  terminated := r.terminated
  sound := by
    refine Catalog.sound_step r.sound ?_
    cases call with
    | registerInstance key p inst now => exact absurd rfl (h key p inst now)
    | _ => trivial
  new := by
    intro p hp
    rcases Catalog.holds_step r.sound.sorted hp with hold | ⟨key, inst, now, heq⟩
    · exact r.new p hold
    · exact absurd heq (h key p inst now)

def deregisterInstance (key : ServiceKey) (id : Bytes) : Bool × Registry :=
  ((r.catalog_.deregisterInstance key id).1,
    r.behind (.deregisterInstance key id) (fun _ _ _ _ => nofun))

def heartbeat (key : ServiceKey) (id : Bytes) : Bool × Registry :=
  ((r.catalog_.heartbeat key id r.clock).1,
    r.behind (.heartbeat key id r.clock) (fun _ _ _ _ => nofun))

def discover (key : ServiceKey) : List InstanceMeta :=
  (r.catalog_.discover key r.clock).map r.catalog_.objects

end Registry

/-! ## Handlers -/

def generateInstanceId (key : ServiceKey) (inst : InstanceMeta) (now : Int) : Bytes :=
  key.serviceName ++ text "-" ++ inst.host ++ text "-" ++ text (toString inst.port) ++ text "-" ++
    text (toString now)

def getQueryParam (path param defaultValue : Bytes) : Bytes :=
  match find (text "?") path with
  | none => defaultValue
  | some queryPos =>
    let query := path.drop (queryPos + 1)
    let searchKey := param ++ text "="
    match find searchKey query with
    | none => defaultValue
    | some startPos =>
      let startPos := startPos + searchKey.length
      match findFrom (text "&") query startPos with
      | none => query.drop startPos
      | some endPos => substr query startPos (endPos - startPos)

def errorJson (code : Int) (message : Bytes) : Json :=
  .object (setField (text "error")
    (.object (setField (text "message") (.string message)
      (setField (text "code") (.integer code) [])))
    (setField (text "success") (.bool false) []))

def registeredJson (instanceId : Bytes) : Json :=
  .object (setField (text "instanceId") (.string instanceId)
    (setField (text "success") (.bool true) []))

def successJson (success : Bool) : Json := .object (setField (text "success") (.bool success) [])

def discoverJson (key : ServiceKey) (instances : List InstanceMeta) : Json :=
  .object (setField (text "instances") (.array (instances.map InstanceMeta.toJson))
    (setField (text "service") key.toJson (setField (text "success") (.bool true) [])))

def servicesJson (services : List (ServiceKey × List InstanceMeta)) : Json :=
  .object (setField (text "services")
    (.array (services.map (fun service =>
      .object (setField (text "instances") (.array (service.2.map InstanceMeta.toJson))
        (setField (text "service") service.1.toJson [])))))
    (setField (text "success") (.bool true) []))

def statsJson (stats : Catalog.Stats) : Json :=
  .object (setField (text "stats")
    (.object (setField (text "totalServices") (.integer stats.totalServices)
      (setField (text "totalInstances") (.integer stats.totalInstances)
        (setField (text "healthyInstances") (.integer stats.healthyInstances)
          (setField (text "expiredInstances") (.integer stats.expiredInstances) [])))))
    (setField (text "success") (.bool true) []))

/-- What a handler composes for `resp.json(..)`, or the exception that leaves it, and what it
does to the registry. -/
structure Handler where
  composed : HttpRequest → Registry → Except Thrown Bytes
  effect : HttpRequest → Registry → Registry

namespace Handler

def run (handler : Handler) : HttpHandler Registry := fun req resp r =>
  match (handler.composed req r).map HttpResponse.json with
  | .ok _ => (resp, handler.effect req r)
  | .error _ => (resp, { handler.effect req r with terminated := true })

instance : CoeFun Handler (fun _ => HttpHandler Registry) := ⟨run⟩

variable (handler : Handler) (req : HttpRequest) (resp : HttpResponse) (r : Registry)

theorem run_eq : ∃ terminated,
    handler req resp r = (resp, { handler.effect req r with terminated }) := by
  unfold run
  split <;> exact ⟨_, rfl⟩

end Handler

/-- The JSON library, with the text of the exception that reading a body throws. -/
structure RegistryServer where
  library : Library
  what : Bytes → Thrown → Bytes

namespace RegistryServer

variable (server : RegistryServer)

def parse (body : Bytes) : Except Thrown Json :=
  match server.library.parse body with
  | some value => .ok value
  | none => .error .parseError

def dump (value : Json) : Except Thrown Bytes :=
  match server.library.dump value with
  | some body => .ok body
  | none => .error .other

def makeError (code : Int) (message : Bytes) : Except Thrown Bytes :=
  server.dump (errorJson code message)

def registration (now : Int) (body : Bytes) : Except Thrown (ServiceKey × InstanceMeta) := do
  let body ← server.parse body
  let (service, body) ← server.library.index (text "service") body
  let key ← ServiceKey.fromJson server.library service
  let (inst, _) ← server.library.index (text "instance") body
  let inst ← InstanceMeta.fromJson server.library now inst
  let inst := if inst.instanceId = [] then
      { inst with instanceId := generateInstanceId key inst now }
    else inst
  return (key, inst.heartbeat now)

/-- All exceptions here come from the JSON library. -/
def composedRegister (now : Int) (body : Bytes) : Except Thrown Bytes :=
  match (server.registration now body).bind
    (fun reg => server.dump (registeredJson reg.2.instanceId)) with
  | .ok reply => .ok reply
  | .error e => server.makeError (-32700) (text "Parse error: " ++ server.what body e)

def handleRegister : Handler where
  composed req r := server.composedRegister r.clock req.body
  effect req r :=
    match server.registration r.clock req.body with
    | .ok (key, inst) => r.registerInstance key inst
    | .error _ => r

/-- The service and the id of a request about one instance. -/
def readInstance (body : Bytes) : Except Thrown (ServiceKey × Bytes) := do
  let body ← server.parse body
  let (service, body) ← server.library.index (text "service") body
  let key ← ServiceKey.fromJson server.library service
  let instanceId ← server.library.valueString (text "instanceId") [] body
  return (key, instanceId)

section Instance

variable (op : Registry → ServiceKey → Bytes → Bool × Registry)

def composedInstance (body : Bytes) (r : Registry) : Except Thrown Bytes :=
  match (server.readInstance body).bind (fun call =>
    if call.2 = [] then server.makeError (-32602) (text "Missing instanceId")
    else server.dump (successJson (op r call.1 call.2).1)) with
  | .ok reply => .ok reply
  | .error _ => server.makeError (-32700) (text "Parse error")

def handleInstance : Handler where
  composed req r := server.composedInstance op req.body r
  effect req r :=
    match server.readInstance req.body with
    | .ok (key, instanceId) => if instanceId = [] then r else (op r key instanceId).2
    | .error _ => r

end Instance

def handleDeregister : Handler := server.handleInstance Registry.deregisterInstance

def handleHeartbeat : Handler := server.handleInstance Registry.heartbeat

def queriedKey (path : Bytes) : ServiceKey where
  namespace_ := getQueryParam path (text "namespace") (text "default")
  serviceName := getQueryParam path (text "serviceName") []
  version := getQueryParam path (text "version") (text "v1.0.0")

def composedDiscover (path : Bytes) (r : Registry) : Except Thrown Bytes :=
  let key := queriedKey path
  let reply :=
    if key.serviceName = [] then server.makeError (-32602) (text "Missing serviceName")
    else server.dump (discoverJson key (r.discover key))
  match reply with
  | .ok reply => .ok reply
  | .error _ => server.makeError (-32603) (text "Internal error")

def handleDiscover : Handler where
  composed req r := server.composedDiscover req.path r
  effect _ r := r

def handleGetAllServices : Handler where
  composed _ r := server.dump (servicesJson r.catalog_.getAllServices)
  effect _ r := r

def handleHealth : Handler where
  composed _ _ := .ok (text "\x7b\"status\":\"UP\"\x7d")
  effect _ r := r

def handleGetStats : Handler where
  composed _ r := server.dump (statsJson (r.catalog_.getStats r.clock))
  effect _ r := r

/-! ## Routes -/

def handlers : List (HttpMethod × Bytes × Handler) :=
  [(.POST, text "/api/v1/registry/register", server.handleRegister),
    (.POST, text "/api/v1/registry/deregister", server.handleDeregister),
    (.POST, text "/api/v1/registry/heartbeat", server.handleHeartbeat),
    (.GET, text "/api/v1/registry/discover", server.handleDiscover),
    (.GET, text "/api/v1/registry/services", server.handleGetAllServices),
    (.GET, text "/api/v1/registry/health", handleHealth),
    (.GET, text "/api/v1/registry/stats", server.handleGetStats)]

def core (engine : RegexEngine) (files : FileSystem) (compress decompress : Bytes → Bytes) :
    Option (HttpCore Registry) :=
  HttpCore.addRoutes engine { files, compress, decompress }
    (server.handlers.map (fun route => (route.1, route.2.1, route.2.2.run)))

theorem core_handle (engine : RegexEngine) (files : FileSystem)
    (compress decompress : Bytes → Bytes) :
    ∃ core, server.core engine files compress decompress = some core ∧
      ∀ route ∈ server.handlers, ∀ (req : HttpRequest) (r : Registry), req.method = route.1 →
        req.path = route.2.1 → core.toCore.handle r req = route.2.2 req {} r := by
  have hexact : ∀ route ∈ server.handlers.map (fun route => (route.1, route.2.1, route.2.2.run)),
      isExactPath route.2.1 = true := by
    simp only [handlers, List.map_cons, List.map_nil, List.forall_mem_cons]
    refine ⟨by decide, by decide, by decide, by decide, by decide, by decide, by decide, ?_⟩
    exact fun _ h => absurd h List.not_mem_nil
  obtain ⟨core, hcore, hmiddle, hgzip, -, hentry⟩ := HttpCore.addRoutes_keeps hexact
    (by simp only [handlers, List.map_cons, List.map_nil]; decide)
    engine { files, compress, decompress }
  refine ⟨core, hcore, ?_⟩
  intro route hroute req r hmethod hpath
  refine HttpCore.handle_of_exactEntry hmiddle hgzip ?_ r
  rw [hmethod, hpath]
  exact hentry _ (List.mem_map_of_mem hroute)

theorem terminated_effect : ∀ route ∈ server.handlers, ∀ req r,
    (route.2.2.effect req r).terminated = r.terminated := by
  have hinstance : ∀ (op : Registry → ServiceKey → Bytes → Bool × Registry)
      (_ : ∀ r key id, (op r key id).2.terminated = r.terminated) (req : HttpRequest)
        (r : Registry),
      ((server.handleInstance op).effect req r).terminated = r.terminated := by
    intro op hop req r
    unfold handleInstance
    dsimp only
    split
    · split
      · rfl
      · exact hop _ _ _
    · rfl
  simp only [handlers, List.forall_mem_cons]
  refine ⟨fun req r => ?_, hinstance _ fun _ _ _ => rfl, hinstance _ fun _ _ _ => rfl,
    fun _ _ => rfl, fun _ _ => rfl, fun _ _ => rfl, fun _ _ => rfl,
    fun _ h => absurd h List.not_mem_nil⟩
  unfold handleRegister
  dsimp only
  split <;> rfl

/-- What goes out to a request: nothing, where an exception has left the handler. -/
def served (core : HttpCore Registry) (r : Registry) (req : HttpRequest) : Option HttpResponse :=
  let done := core.toCore.handle r req
  if done.2.terminated then none else some done.1

/-- Over the wire, each of the seven endpoints answers a request with a bare `200 OK` if its
handler can write the reply, which is dropped, and otherwise not at all. -/
theorem endpoints_answer_empty (engine : RegexEngine) (files : FileSystem)
    (compress decompress : Bytes → Bytes) :
    ∃ core, server.core engine files compress decompress = some core ∧
      ∀ route ∈ server.handlers, ∀ (req : HttpRequest) (r : Registry), r.terminated = false →
        req.method = route.1 → req.path = route.2.1 →
          served core r req = (route.2.2.composed req r).toOption.map (fun _ => {}) := by
  obtain ⟨core, hcore, hhandle⟩ := server.core_handle engine files compress decompress
  refine ⟨core, hcore, fun route hroute req r hlive hmethod hpath => ?_⟩
  have heffect := (server.terminated_effect route hroute req r).trans hlive
  unfold served
  rw [hhandle route hroute req r hmethod hpath]
  unfold Handler.run
  cases route.2.2.composed req r with
  | ok reply => exact if_neg (by simp [Except.map, heffect])
  | error e => rfl

end RegistryServer

end mymuduo.registry_server
