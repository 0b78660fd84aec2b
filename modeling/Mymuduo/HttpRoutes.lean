-- Route registration in `HttpCore` (src/http/HttpCore.h): a path without the
-- characters that `isExactPath` lists goes into a hash map, every other one
-- becomes a regular expression. The list has no backslash, so an escape in a
-- pattern is compared byte by byte.
import Mymuduo.HttpRouting
import Mymuduo.RegexPattern

open List bytes

namespace mymuduo.http_routing

open http_request

/-! ## Registration -/

/-- No character of the path is one of the listed ones. -/
def isExactPath (path : Bytes) : Bool :=
  path.all fun c =>
    !(c = 40 || c = 41 || c = 91 || c = 93 || c = 123 || c = 125 || c = 46 || c = 42 || c = 43 ||
      c = 63 || c = 124 || c = 94 || c = 36)

/-- `std::regex`: from a pattern, what `std::regex_match` says about a text. `none` is
`std::regex_error`. -/
abbrev RegexEngine := Bytes → Option (Bytes → Bool)

def RegexEngine.matches (engine : RegexEngine) (pattern s : Bytes) : Bool :=
  (engine pattern).any (· s)

/-- The engine follows ECMAScript, as far as patterns without operators go. -/
def RegexEngine.EcmaScript (engine : RegexEngine) : Prop :=
  ∀ pattern : Bytes, (∀ c ∈ pattern, regex.isOperator c = false) →
    ∀ s, engine.matches pattern s = regex.fullMatch pattern s

section Routes

variable {σ : Type*}

namespace HttpCore

/-- `none` is the exception of a pattern that is not valid. -/
def addRoute (engine : RegexEngine) (core : HttpCore σ) (method : HttpMethod) (path : Bytes)
    (handler : HttpHandler σ) : Option (HttpCore σ) :=
  if isExactPath path then
    some { core with
      exactRoutes_ := fun p =>
        if p = path then
          some fun m => if m = method then some handler else (core.exactRoutes_ path).bind (· m)
        else core.exactRoutes_ p }
  else
    (engine path).map fun regexMatch =>
      { core with routes_ := core.routes_ ++ [{ method, regexMatch, handler }] }

/-- The entry that the fast path of `handleRequest` finds, with its key. -/
def exactEntry (core : HttpCore σ) (method : HttpMethod) (path : Bytes) :
    Option (Bytes × HttpHandler σ) :=
  ((core.exactRoutes_ path).bind (· method)).map (path, ·)

theorem findHandler_of_exactEntry {core : HttpCore σ} {request : HttpRequest} {key : Bytes}
    {handler : HttpHandler σ}
    (h : core.exactEntry request.method request.path = some (key, handler)) :
    core.findHandler request = some handler := by
  obtain ⟨found, hfound, hentry⟩ := Option.map_eq_some_iff.mp h
  cases hentry
  unfold findHandler
  rw [hfound]

/-! ## The fast path against the regular expression -/

theorem isOperator_of_isExactPath {path : Bytes} (h : isExactPath path = true) :
    ∀ c ∈ path, regex.isOperator c = false := by
  intro c hc
  have hnot := all_eq_true.mp h c hc
  simp only [Bool.not_eq_true', Bool.or_eq_false_iff, decide_eq_false_iff_not] at hnot
  have hlist :
      text "()[]\x7b\x7d.*+?|^$" = [40, 41, 91, 93, 123, 125, 46, 42, 43, 63, 124, 94, 36] := by
    decide
  rw [regex.isOperator, hlist]
  simp [hnot]

theorem exactEntry_addRoute {path : Bytes} (h : isExactPath path = true) (engine : RegexEngine)
    (core : HttpCore σ) (method : HttpMethod) (handler : HttpHandler σ) :
    ∃ core', core.addRoute engine method path handler = some core' ∧
      ∀ s, core'.exactEntry method s = some (path, handler) ↔ s = path := by
  unfold addRoute
  rw [if_pos h]
  refine ⟨_, rfl, fun s => ?_⟩
  unfold exactEntry
  constructor
  · intro hentry
    obtain ⟨found, -, hpair⟩ := Option.map_eq_some_iff.mp hentry
    exact congrArg Prod.fst hpair
  · rintro rfl
    simp

theorem addRoute_keeps {path : Bytes} (h : isExactPath path = true) (engine : RegexEngine)
    (core : HttpCore σ) (method : HttpMethod) (handler : HttpHandler σ) :
    ∃ core', core.addRoute engine method path handler = some core' ∧
      core'.middlewares_ = core.middlewares_ ∧ core'.gzipEnabled_ = core.gzipEnabled_ ∧
      core'.exactEntry method path = some (path, handler) ∧
      ∀ m p, p ≠ path → core'.exactEntry m p = core.exactEntry m p := by
  unfold addRoute
  rw [if_pos h]
  refine ⟨_, rfl, rfl, rfl, ?_, ?_⟩
  · simp [exactEntry]
  · intro m p hp
    simp [exactEntry, hp]

def addRoutes (engine : RegexEngine) :
    HttpCore σ → List (HttpMethod × Bytes × HttpHandler σ) → Option (HttpCore σ)
  | core, [] => some core
  | core, (method, path, handler) :: routes =>
    (core.addRoute engine method path handler).bind (fun core => addRoutes engine core routes)

theorem addRoutes_keeps {routes : List (HttpMethod × Bytes × HttpHandler σ)}
    (h : ∀ route ∈ routes, isExactPath route.2.1 = true)
    (hnodup : (routes.map (fun route => route.2.1)).Nodup) (engine : RegexEngine)
    (core : HttpCore σ) :
    ∃ core', core.addRoutes engine routes = some core' ∧
      core'.middlewares_ = core.middlewares_ ∧ core'.gzipEnabled_ = core.gzipEnabled_ ∧
      (∀ m p, p ∉ routes.map (fun route => route.2.1) →
        core'.exactEntry m p = core.exactEntry m p) ∧
      ∀ route ∈ routes, core'.exactEntry route.1 route.2.1 = some (route.2.1, route.2.2) := by
  induction routes generalizing core with
  | nil => exact ⟨core, rfl, rfl, rfl, fun _ _ _ => rfl, by simp⟩
  | cons route routes ih =>
    obtain ⟨method, path, handler⟩ := route
    obtain ⟨first, hfirst, hmiddle, hgzip, hentry, hother⟩ :=
      addRoute_keeps (h _ mem_cons_self) engine core method handler
    rw [map_cons, nodup_cons] at hnodup
    obtain ⟨core', hcore, hmiddle', hgzip', hother', hfound⟩ :=
      ih (fun route hroute => h route (mem_cons_of_mem _ hroute)) hnodup.2 first
    refine ⟨core', ?_, hmiddle'.trans hmiddle, hgzip'.trans hgzip, ?_, ?_⟩
    · rw [addRoutes, hfirst, Option.bind_some, hcore]
    · intro m p hp
      rw [map_cons, mem_cons, not_or] at hp
      rw [hother' m p hp.2, hother m p hp.1]
    · rw [forall_mem_cons]
      exact ⟨(hother' method path hnodup.1).trans hentry, hfound⟩

/-- A request of an exact route, in a core without middlewares and compression, gets what its
handler makes of a fresh response. -/
theorem handle_of_exactEntry {core : HttpCore σ} {request : HttpRequest} {handler : HttpHandler σ}
    (hmiddle : core.middlewares_ = []) (hgzip : core.gzipEnabled_ = false)
    (hentry : core.exactEntry request.method request.path = some (request.path, handler))
    (app : σ) : core.toCore.handle app request = handler request {} app := by
  have hhandle : core.handleRequest request {} app = handler request {} app := by
    unfold handleRequest handleRequestUse
    rw [hmiddle]
    dsimp only [runMiddlewares]
    rw [findHandler_of_exactEntry hentry]
  dsimp only [toCore]
  rw [hhandle]
  unfold postProcessResponse
  rw [if_pos (Or.inl hgzip)]

/-- After a path was registered as exact, the fast path takes it for the same
requests as the regular expression would, exactly when it has no backslash. -/
theorem exact_route_agrees_with_regex_iff {engine : RegexEngine} (hengine : engine.EcmaScript)
    (core : HttpCore σ) (method : HttpMethod) {path : Bytes} (hpath : isExactPath path = true)
    (handler : HttpHandler σ) :
    ∃ core', core.addRoute engine method path handler = some core' ∧
      ((∀ s, core'.exactEntry method s = some (path, handler) ↔
        engine.matches path s = true) ↔ 92 ∉ path) := by
  obtain ⟨core', hadd, hentry⟩ := exactEntry_addRoute hpath engine core method handler
  have hregex := hengine path (isOperator_of_isExactPath hpath)
  refine ⟨core', hadd, ?_⟩
  simp only [hentry, hregex]
  constructor
  · intro hagree hescape
    have hself := (hagree path).mp rfl
    rw [regex.fullMatch_self_of_escape hescape] at hself
    cases hself
  · intro hplain s
    exact (regex.fullMatch_plain hplain s).symm

end HttpCore

/-! ## A pattern with an escape -/

/-- An engine for patterns without operators. -/
def plainEngine : RegexEngine := fun pattern =>
  (regex.items pattern).map fun items => regex.matchItems items none

theorem plainEngine_ecmaScript : plainEngine.EcmaScript := by
  intro pattern _ s
  unfold RegexEngine.matches plainEngine regex.fullMatch
  cases regex.items pattern <;> rfl

def bareCore : HttpCore Unit where
  files := { realpath := fun _ => none, openFile := fun _ => none, fstat := fun _ => none,
             content := fun _ => [] }
  compress := id
  decompress := id

theorem exact_route_agrees_with_regex_iff_users :
    ∃ core', bareCore.addRoute plainEngine .GET (text "/users") (fun _ r app => (r, app)) =
        some core' ∧
      ((∀ s, core'.exactEntry .GET s = some (text "/users", fun _ r app => (r, app)) ↔
        plainEngine.matches (text "/users") s = true) ↔ 92 ∉ text "/users") :=
  HttpCore.exact_route_agrees_with_regex_iff plainEngine_ecmaScript bareCore .GET (by decide) _

/-- The pattern `/a\d` is stored as an exact path. The expression matches `/a1` and not
the pattern itself, and the map finds it the other way round. -/
theorem escaped_route_disagrees_with_regex :
    isExactPath (text "/a\\d") = true ∧
      ∃ core', bareCore.addRoute plainEngine .GET (text "/a\\d") (fun _ r app => (r, app)) =
          some core' ∧
        (plainEngine.matches (text "/a\\d") (text "/a1") = true ∧
          core'.exactEntry .GET (text "/a1") ≠ some (text "/a\\d", fun _ r app => (r, app))) ∧
        (plainEngine.matches (text "/a\\d") (text "/a\\d") = false ∧
          core'.exactEntry .GET (text "/a\\d") = some (text "/a\\d", fun _ r app => (r, app))) := by
  have hexact : isExactPath (text "/a\\d") = true := by decide
  obtain ⟨core', hadd, hentry⟩ := HttpCore.exactEntry_addRoute hexact plainEngine bareCore .GET
    (fun _ r app => (r, app))
  refine ⟨hexact, core', hadd, ⟨by decide, ?_⟩, by decide, (hentry _).mpr rfl⟩
  rw [ne_eq, hentry]
  decide

end Routes

end mymuduo.http_routing
