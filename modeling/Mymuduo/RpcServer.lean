-- The JSON-RPC server (src/rpc/RpcServer.h). `handleRpcCall` composes a reply on
-- each of its paths and hands it to `resp.json(..)`. That is the factory of
-- `HttpResponse`, which makes a new response, and nothing takes it: the response
-- of the server stays as it was.
import Mymuduo.HttpRoutes
import Mymuduo.Json

open bytes json

namespace mymuduo.rpc_server

open http_request http_response http_routing

section Server

variable {σ : Type*}

/-- A method on the state that the methods share. It may throw. -/
abbrev RpcMethod (σ : Type*) := Json → σ → Except Thrown Json × σ

structure RpcServer (σ : Type*) where
  library : Library
  methods_ : Bytes → Option (RpcMethod σ) := fun _ => none

namespace RpcServer

def registerMethod (server : RpcServer σ) (name : Bytes) (method : RpcMethod σ) : RpcServer σ :=
  { server with methods_ := fun n => if n = name then some method else server.methods_ n }

def responseJson (id : Int) (result : Json) : Json :=
  .object (setField (text "result") result
    (setField (text "id") (.integer id) (setField (text "jsonrpc") (.string (text "2.0")) [])))

def errorJson (id code : Int) (message : Bytes) : Json :=
  .object (setField (text "error")
    (.object (setField (text "message") (.string message)
      (setField (text "code") (.integer code) [])))
    (setField (text "id") (.integer id) (setField (text "jsonrpc") (.string (text "2.0")) [])))

variable (server : RpcServer σ)

def makeResponse (id : Int) (result : Json) : Except Thrown Bytes :=
  match server.library.dump (responseJson id result) with
  | some body => .ok body
  | none => .error .other

def makeError (id code : Int) (message : Bytes) : Except Thrown Bytes :=
  match server.library.dump (errorJson id code message) with
  | some body => .ok body
  | none => .error .other

/-- The method, the parameters and the id of a request body. -/
def readCall (body : Bytes) : Except Thrown (Bytes × Json × Int) := do
  let request ← match server.library.parse body with
    | some request => Except.ok request
    | none => Except.error Thrown.parseError
  let (method, request) ← server.library.index (text "method") request
  let method ← server.library.getString method
  let (params, request) ← server.library.index (text "params") request
  let id ← server.library.valueInt (text "id") 0 request
  return (method, params, id)

/-- The `try` block: the text of the reply, or what was thrown. -/
def tryCall (body : Bytes) (app : σ) : Except Thrown Bytes × σ :=
  match server.readCall body with
  | .error e => (.error e, app)
  | .ok (method, params, id) =>
    match server.methods_ method with
    | none => (server.makeError id (-32601) (text "Method not found"), app)
    | some call =>
      match call params app with
      | (.error e, app) => (.error e, app)
      | (.ok result, app) => (server.makeResponse id result, app)

/-- The text that `handleRpcCall` hands to `resp.json(..)`, on every path. The two
handlers of exceptions do not know the id. -/
def composedReply (body : Bytes) (app : σ) : Except Thrown Bytes :=
  match (server.tryCall body app).1 with
  | .ok reply => .ok reply
  | .error .parseError => server.makeError 0 (-32700) (text "Parse error")
  | .error .other => server.makeError 0 (-32603) (text "Internal error")

/-- The new response that `resp.json(..)` makes is dropped. -/
def handleRpcCall : HttpHandler σ := fun req resp app =>
  let _ := (server.composedReply req.body app).map HttpResponse.json
  (resp, (server.tryCall req.body app).2)

/-! ## What a reply is -/

/-- The body is the reply to the call: a JSON object with the id, and with what the
method returns on these parameters, or with an error. -/
def IsReply (method : Bytes) (params : Json) (id : Int) (app : σ) (body : Bytes) : Prop :=
  ∃ fields, server.library.parse body = some (.object fields) ∧
    getField (text "id") fields = some (.integer id) ∧
    match server.methods_ method with
    | none => (getField (text "error") fields).isSome
    | some call =>
      match (call params app).1 with
      | .ok result => getField (text "result") fields = some result
      | .error _ => (getField (text "error") fields).isSome

/-- The body of a request is an object with a string for the method and an `int` for
the id. Without parameters the method gets null. -/
structure IsCall (body method : Bytes) (params : Json) (id : Int) : Prop where
  object : ∃ fields, server.library.parse body = some (.object fields) ∧
    getField (text "method") fields = some (.string method) ∧
    getField (text "id") fields = some (.integer id) ∧
    params = (getField (text "params") fields).getD .null
  low : -2 ^ 31 ≤ id
  high : id < 2 ^ 31

/-! ## The reply that is dropped -/

variable {body method : Bytes} {params : Json} {id : Int}

theorem readCall_of_isCall (h : server.IsCall body method params id) :
    server.readCall body = .ok (method, params, id) := by
  obtain ⟨⟨fields, hparse, hmethod, hid, hparams⟩, hlow, hhigh⟩ := h
  obtain ⟨fields', hindex, hkeeps⟩ := server.library.index_object (text "params") fields
  have hid' : getField (text "id") fields' = some (.integer id) := by
    rw [hkeeps _ (by decide), hid]
  unfold readCall
  rw [hparse]
  dsimp only [bind, Except.bind]
  rw [server.library.index_of_field hmethod]
  dsimp only
  rw [server.library.getString_string]
  dsimp only
  rw [hindex]
  dsimp only
  rw [server.library.valueInt_integer hid' hlow hhigh, hparams]
  rfl

theorem responseJson_fields (id : Int) (result : Json) :
    ∃ fields, responseJson id result = .object fields ∧
      getField (text "id") fields = some (.integer id) ∧
      getField (text "result") fields = some result := by
  refine ⟨_, rfl, ?_, getField_setField_self ..⟩
  rw [getField_setField_of_ne (by decide), getField_setField_self]

theorem errorJson_fields (id code : Int) (message : Bytes) :
    ∃ fields, errorJson id code message = .object fields ∧
      getField (text "id") fields = some (.integer id) ∧
      (getField (text "error") fields).isSome := by
  refine ⟨_, rfl, ?_, ?_⟩
  · rw [getField_setField_of_ne (by decide), getField_setField_self]
  · rw [getField_setField_self]
    rfl

theorem makeResponse_of_writes {result : Json}
    (h : server.library.Writes (responseJson id result)) :
    ∃ body, server.makeResponse id result = .ok body ∧
      server.library.parse body = some (responseJson id result) := by
  obtain ⟨body, hdump, hparse⟩ := h
  refine ⟨body, ?_, hparse⟩
  unfold makeResponse
  rw [hdump]

theorem makeError_of_writes {code : Int} {message : Bytes}
    (h : server.library.Writes (errorJson id code message)) :
    ∃ body, server.makeError id code message = .ok body ∧
      server.library.parse body = some (errorJson id code message) := by
  obtain ⟨body, hdump, hparse⟩ := h
  refine ⟨body, ?_, hparse⟩
  unfold makeError
  rw [hdump]

theorem tryCall_of_method {call : RpcMethod σ}
    (hread : server.readCall body = .ok (method, params, id))
    (hmethod : server.methods_ method = some call) (app : σ) :
    (server.tryCall body app).1 = (call params app).1.bind (server.makeResponse id) := by
  unfold tryCall
  rw [hread]
  dsimp only
  rw [hmethod]
  dsimp only
  rcases call params app with ⟨_ | _, _⟩ <;> rfl

def Throws (method : Bytes) (params : Json) (app : σ) : Prop :=
  ∃ call e, server.methods_ method = some call ∧ (call params app).1 = .error e

theorem isReply_errorJson_iff {i code : Int} {app : σ} {message : Bytes}
    (hbad : server.methods_ method = none ∨ server.Throws method params app)
    (hbody : server.library.parse body = some (errorJson i code message)) :
    server.IsReply method params id app body ↔ id = i := by
  obtain ⟨fields, hobject, hid, herror⟩ := errorJson_fields i code message
  rw [hobject] at hbody
  unfold IsReply
  rw [hbody]
  constructor
  · rintro ⟨_, ⟨⟩, hid', -⟩
    rw [hid] at hid'
    cases hid'
    rfl
  · rintro rfl
    refine ⟨fields, rfl, hid, ?_⟩
    rcases hbad with hnone | ⟨call, e, hcall, hthrow⟩
    · rw [hnone]
      exact herror
    · rw [hcall]
      dsimp only
      rw [hthrow]
      exact herror

/-- The error objects that a call with this id can end in. -/
def errorReplies (id : Int) : List Json :=
  [errorJson id (-32601) (text "Method not found"), errorJson 0 (-32700) (text "Parse error"),
    errorJson 0 (-32603) (text "Internal error")]

/-- The handlers of exceptions answer with the id 0. -/
theorem composedReply_of_thrown {app : σ} {e : Thrown}
    (hwrites : ∀ reply ∈ errorReplies id, server.library.Writes reply)
    (h : (server.tryCall body app).1 = .error e) :
    ∃ reply code message, server.composedReply body app = .ok reply ∧
      server.library.parse reply = some (errorJson 0 code message) := by
  unfold composedReply
  rw [h]
  cases e with
  | parseError =>
    obtain ⟨reply, hmake, hparse⟩ := server.makeError_of_writes
      (hwrites (errorJson 0 (-32700) (text "Parse error")) (by simp [errorReplies]))
    exact ⟨reply, _, _, hmake, hparse⟩
  | other =>
    obtain ⟨reply, hmake, hparse⟩ := server.makeError_of_writes
      (hwrites (errorJson 0 (-32603) (text "Internal error")) (by simp [errorReplies]))
    exact ⟨reply, _, _, hmake, hparse⟩

/-- The reply that is composed, and dropped, would be the right one for every method
that does not throw. For one that throws the id is lost. -/
theorem composedReply_isReply_iff (h : server.IsCall body method params id) (app : σ)
    (herror : ∀ reply ∈ errorReplies id, server.library.Writes reply)
    (hresult : ∀ call result, server.methods_ method = some call →
      (call params app).1 = .ok result → server.library.Writes (responseJson id result)) :
    ∃ reply, server.composedReply body app = .ok reply ∧
      (server.IsReply method params id app reply ↔ (server.Throws method params app → id = 0)) := by
  have hread := server.readCall_of_isCall h
  cases hmethod : server.methods_ method with
  | none =>
    obtain ⟨reply, hmake, hparse⟩ := server.makeError_of_writes
      (herror (errorJson id (-32601) (text "Method not found")) (by simp [errorReplies]))
    refine ⟨reply, ?_, ?_⟩
    · unfold composedReply tryCall
      simp only [hread, hmethod, hmake]
    · rw [server.isReply_errorJson_iff (Or.inl hmethod) hparse]
      refine ⟨fun _ => ?_, fun _ => rfl⟩
      rintro ⟨call, e, hcall, -⟩
      rw [hmethod] at hcall
      cases hcall
  | some call =>
    cases hcall : (call params app).1 with
    | error e =>
      have hthrows : server.Throws method params app := ⟨call, e, hmethod, hcall⟩
      have htry : (server.tryCall body app).1 = .error e := by
        rw [server.tryCall_of_method hread hmethod, hcall]
        rfl
      obtain ⟨reply, code, message, hreply, hparse⟩ :=
        server.composedReply_of_thrown herror htry
      refine ⟨reply, hreply, ?_⟩
      rw [server.isReply_errorJson_iff (Or.inr hthrows) hparse]
      exact ⟨fun hid _ => hid, fun hid => hid hthrows⟩
    | ok result =>
      obtain ⟨reply, hmake, hparse⟩ :=
        server.makeResponse_of_writes (hresult call result hmethod hcall)
      obtain ⟨fields, hobject, hid, hfield⟩ := responseJson_fields id result
      refine ⟨reply, ?_, ?_⟩
      · have htry : (server.tryCall body app).1 = .ok reply := by
          rw [server.tryCall_of_method hread hmethod, hcall]
          exact hmake
        unfold composedReply
        rw [htry]
      · refine ⟨fun _ => ?_, fun _ => ?_⟩
        · rintro ⟨call', e, hcall', hthrow⟩
          rw [hmethod] at hcall'
          cases hcall'
          rw [hcall] at hthrow
          cases hthrow
        · refine ⟨fields, by rw [hparse, hobject], hid, ?_⟩
          rw [hmethod]
          dsimp only
          rw [hcall]
          exact hfield

/-! ## The reply that arrives -/

/-- The response that goes back to the server carries the reply exactly when it
carried it before the call. What the call composed instead, the right reply unless
the method throws, reaches nobody. -/
theorem handleRpcCall_replies_iff {req : HttpRequest} {method : Bytes} {params : Json} {id : Int}
    (h : server.IsCall req.body method params id) (app : σ)
    (herror : ∀ reply ∈ errorReplies id, server.library.Writes reply)
    (hresult : ∀ call result, server.methods_ method = some call →
      (call params app).1 = .ok result → server.library.Writes (responseJson id result))
    (resp : HttpResponse) :
    (server.IsReply method params id app (server.handleRpcCall req resp app).1.body ↔
        server.IsReply method params id app resp.body) ∧
      ∃ reply, server.composedReply req.body app = .ok reply ∧
        (server.IsReply method params id app reply ↔
          (server.Throws method params app → id = 0)) :=
  ⟨Iff.rfl, server.composedReply_isReply_iff h app herror hresult⟩

def core (engine : RegexEngine) (files : FileSystem) (compress decompress : Bytes → Bytes) :
    Option (HttpCore σ) :=
  HttpCore.addRoute engine { files, compress, decompress } .POST (text "/rpc") server.handleRpcCall

/-- Over the wire, every call of a method is answered by a response without a body. -/
theorem rpc_endpoint_answers_empty (engine : RegexEngine) (files : FileSystem)
    (compress decompress : Bytes → Bytes) :
    ∃ core, server.core engine files compress decompress = some core ∧
      ∀ (req : HttpRequest) (app : σ), req.method = .POST → req.path = text "/rpc" →
        (core.toCore.handle app req).1 = {} := by
  obtain ⟨core, hcore, hmiddle, hgzip, hentry, -⟩ := HttpCore.addRoute_keeps
    (show isExactPath (text "/rpc") = true by decide) engine { files, compress, decompress } .POST
    server.handleRpcCall
  refine ⟨core, hcore, fun req app hmethod hpath => ?_⟩
  have hfound : core.exactEntry req.method req.path = some (req.path, server.handleRpcCall) := by
    rw [hmethod, hpath]
    exact hentry
  rw [HttpCore.handle_of_exactEntry hmiddle hgzip hfound]
  rfl

end RpcServer

/-! ## One call -/

/-- The call `ping` with the id 7, and its reply. -/
def pingCall : Json :=
  .object [(text "id", .integer 7), (text "method", .string (text "ping"))]

def pong : Json := .string (text "pong")

def pingLibrary : Library :=
  .reading (pingCall :: RpcServer.responseJson 7 pong :: RpcServer.errorReplies 7)

def pingServer : RpcServer Unit :=
  RpcServer.registerMethod { library := pingLibrary } (text "ping") (fun _ app => (.ok pong, app))

def pingRequest : HttpRequest where
  method := .POST
  path := text "/rpc"
  body := pingCall.compact

theorem pingServer_isCall : pingServer.IsCall pingRequest.body (text "ping") .null 7 :=
  ⟨⟨_, rfl, rfl, rfl, rfl⟩, by decide, by decide⟩

theorem pingServer_writes_errors :
    ∀ reply ∈ RpcServer.errorReplies 7, pingServer.library.Writes reply := by
  simp only [RpcServer.errorReplies, List.forall_mem_cons, List.not_mem_nil, false_implies,
    implies_true, and_true]
  exact ⟨⟨_, rfl, rfl⟩, ⟨_, rfl, rfl⟩, ⟨_, rfl, rfl⟩⟩

theorem pingServer_writes_results : ∀ call result, pingServer.methods_ (text "ping") = some call →
    (call .null ()).1 = .ok result →
      pingServer.library.Writes (RpcServer.responseJson 7 result) := by
  intro call result hcall hresult
  have hpong : result = pong := by
    cases hcall
    cases hresult
    rfl
  rw [hpong]
  exact ⟨_, rfl, rfl⟩

theorem handleRpcCall_replies_iff_ping :
    (pingServer.IsReply (text "ping") .null 7 ()
      (pingServer.handleRpcCall pingRequest {} ()).1.body ↔
        pingServer.IsReply (text "ping") .null 7 () []) ∧
      ∃ reply, pingServer.composedReply pingRequest.body () = .ok reply ∧
        (pingServer.IsReply (text "ping") .null 7 () reply ↔
          (pingServer.Throws (text "ping") .null () → (7 : Int) = 0)) :=
  pingServer.handleRpcCall_replies_iff pingServer_isCall () pingServer_writes_errors
    pingServer_writes_results {}

/-- The method is there and returns, but the response that the server sends stays empty. -/
theorem ping_gets_no_reply :
    pingServer.IsCall pingRequest.body (text "ping") .null 7 ∧
      (∀ reply ∈ RpcServer.errorReplies 7, pingServer.library.Writes reply) ∧
      (pingServer.handleRpcCall pingRequest {} ()).1 = {} ∧
      ¬pingServer.IsReply (text "ping") .null 7 ()
        (pingServer.handleRpcCall pingRequest {} ()).1.body := by
  refine ⟨pingServer_isCall, pingServer_writes_errors, rfl, ?_⟩
  rintro ⟨fields, hparse, -⟩
  cases hparse

end Server

end mymuduo.rpc_server
