-- `HttpServer::onMessage` (src/http/HttpServer.h): the loop that takes requests
-- from the buffer of a connection, hands them to the core and sends the
-- responses. It leaves the loop behind a request that asks to close, and the
-- bytes behind that request stay in the buffer for the next delivery.
import Mymuduo.HttpCore
import Mymuduo.HttpResponse

open List bytes runs segments

namespace mymuduo.http_server

open http_core http_request http_response

/-! ## The server -/

/-- The core of a server: `handleRequest` followed by `postProcessResponse`, on the
state that the handlers and middlewares share, and the gzip decoder. -/
structure Core (σ : Type*) where
  handle : σ → HttpRequest → HttpResponse × σ
  decompress : Bytes → Bytes

inductive Call
  | handleRequest (request : HttpRequest)
  | send (data : Bytes)
  | sendIov (slices : List Bytes)
  | sendFile (fd : Int) (count : Nat)
  | shutdown
  deriving DecidableEq

/-- One connection: the readable bytes of its input buffer, the state of the core,
and the calls made so far. -/
structure Conn (σ : Type*) where
  buf : Bytes
  app : σ
  calls : List Call

/-- A header and a file, a header and a body, or all in one. -/
def respond (response : HttpResponse) : List Call :=
  if response.hasFileBody then
    [.send response.toHeader, .sendFile response.bodyFileFd_ response.bodyFileSize_]
  else if response.canSendIov then [.sendIov [response.toHeader, response.body]]
  else [.send response.toString]

def badRequestResponse : HttpResponse :=
  { HttpResponse.badRequest (text "Bad Request") with closeConnection := true }

/-- The bytes that a call hands to the connection. A file counts with the bytes behind
its descriptor. -/
def Call.bytes (content : Nat → Bytes) : Call → Bytes
  | .send data => data
  | .sendIov slices => slices.flatten
  | .sendFile fd count => (content fd.toNat).take count
  | .handleRequest _ => []
  | .shutdown => []

theorem respond_bytes (content : Nat → Bytes) {response : HttpResponse}
    (h : response.hasFileBody = false) :
    (respond response).flatMap (Call.bytes content) = response.toHeader ++ response.tail := by
  unfold respond
  rw [if_neg (by simp [h])]
  unfold HttpResponse.canSendIov HttpResponse.tail
  cases hchunked : response.chunked_ with
  | false => simp [Call.bytes]
  | true => simp [Call.bytes, HttpResponse.toString, HttpResponse.tail, hchunked]

section Server

variable {σ : Type*} (core : Core σ)

def roundOf (c : Conn σ) : Conn σ × Bool :=
  if c.buf = [] then (c, false)
  else
    match parseRequest core.decompress c.buf with
    | .incomplete => (c, false)
    | .error =>
      ({ c with calls := c.calls ++ [.send badRequestResponse.toString, .shutdown] }, false)
    | .complete request rest =>
      let (response, app) := core.handle c.app request
      let c : Conn σ := { buf := rest, app, calls := c.calls ++ [.handleRequest request] }
      if response.deferred then (c, false)
      else
        let response := { response with closeConnection := !request.keepAlive }
        let c : Conn σ := { c with calls := c.calls ++ respond response }
        if response.closeConnection then ({ c with calls := c.calls ++ [.shutdown] }, false)
        else (c, true)

def onMessageLoop : Nat → Conn σ → Conn σ
  | 0, c => c
  | fuel + 1, c =>
    if (roundOf core c).2 then onMessageLoop fuel (roundOf core c).1 else (roundOf core c).1

/-- Every round takes a request off the buffer, so its length is fuel enough. -/
def onMessage (c : Conn σ) : Conn σ := onMessageLoop core c.buf.length c

/-- A piece arrives: it goes to the end of the buffer, and `onMessage` runs. -/
def deliver (c : Conn σ) (piece : Bytes) : Conn σ := onMessage core { c with buf := c.buf ++ piece }

def connected (app : σ) : Conn σ := { buf := [], app, calls := [] }

end Server

def Conn.requests {σ : Type*} (c : Conn σ) : List HttpRequest :=
  c.calls.filterMap (fun call =>
    match call with
    | .handleRequest request => some request
    | _ => none)

/-! ## The loop as a reader -/

section Laws

variable {σ : Type*} (core : Core σ)

def NonDeferring : Prop := ∀ app request, (core.handle app request).1.deferred = false

/-- The loop ends behind a request that asks to close. -/
def closes (request : HttpRequest) : Bool := !request.keepAlive

/-- The response as it goes out: the server decides what happens to the connection. -/
def outgoing (app : σ) (request : HttpRequest) : HttpResponse :=
  { (core.handle app request).1 with closeConnection := closes request }

theorem onMessageLoop_incomplete {fuel : Nat} {c : Conn σ}
    (h : parseRequest core.decompress c.buf = .incomplete) : onMessageLoop core fuel c = c := by
  cases fuel with
  | zero => rfl
  | succ fuel =>
    rw [onMessageLoop, roundOf, h]
    simp

theorem ne_nil_of_parsed {decompress : Bytes → Bytes} {buf : Bytes} {result : ParseResult}
    (h : parseRequest decompress buf = result) (hresult : result ≠ .incomplete) : buf ≠ [] := by
  rintro rfl
  exact hresult h.symm

theorem onMessageLoop_error {fuel : Nat} {c : Conn σ}
    (h : parseRequest core.decompress c.buf = .error) :
    onMessageLoop core (fuel + 1) c =
      { c with calls := c.calls ++ [.send badRequestResponse.toString, .shutdown] } := by
  rw [onMessageLoop, roundOf, if_neg (ne_nil_of_parsed h nofun), h]
  rfl

theorem onMessageLoop_complete {fuel : Nat} {c : Conn σ} {request : HttpRequest} {rest : Bytes}
    (h : parseRequest core.decompress c.buf = .complete request rest) :
    onMessageLoop core (fuel + 1) c =
      if (core.handle c.app request).1.deferred then
        { buf := rest, app := (core.handle c.app request).2
          calls := c.calls ++ [.handleRequest request] }
      else if closes request then
        { buf := rest, app := (core.handle c.app request).2
          calls := c.calls ++
            .handleRequest request :: (respond (outgoing core c.app request) ++ [.shutdown]) }
      else
        onMessageLoop core fuel
          { buf := rest, app := (core.handle c.app request).2
            calls :=
              c.calls ++ .handleRequest request :: respond (outgoing core c.app request) } := by
  rw [onMessageLoop, roundOf, if_neg (ne_nil_of_parsed h nofun), h]
  dsimp only
  split
  · rfl
  · cases hkeep : request.keepAlive with
    | true | false => simp [closes, outgoing, hkeep]

theorem requests_append (buf : Bytes) (app : σ) (calls more : List Call) :
    (Conn.mk buf app (calls ++ more)).requests =
      (Conn.mk buf app calls).requests ++ (Conn.mk buf app more).requests := by
  simp [Conn.requests]

theorem requests_respond (buf : Bytes) (app : σ) (response : HttpResponse) :
    (Conn.mk buf app (respond response)).requests = [] := by
  unfold respond Conn.requests
  split
  · rfl
  · split <;> rfl

theorem onMessageLoop_drains (hdefer : NonDeferring core) (fuel : Nat) (c : Conn σ) :
    (onMessageLoop core fuel c).requests =
        c.requests ++ ((requestReader core.decompress).drainFuel closes fuel c.buf).1 ∧
      (onMessageLoop core fuel c).buf =
        ((requestReader core.decompress).drainFuel closes fuel c.buf).2 := by
  induction fuel generalizing c with
  | zero => simp [onMessageLoop, Reader.drainFuel]
  | succ fuel ih =>
    unfold Reader.drainFuel
    dsimp only [requestReader]
    cases hparse : parseRequest core.decompress c.buf with
    | incomplete =>
      rw [onMessageLoop_incomplete core hparse]
      simp
    | error =>
      rw [onMessageLoop_error core hparse]
      simp [Conn.requests]
    | complete request rest =>
      rw [onMessageLoop_complete core hparse, if_neg (by rw [hdefer]; simp)]
      dsimp only
      by_cases hclose : closes request = true
      · rw [if_pos hclose, if_pos hclose, requests_append, ← singleton_append, requests_append,
          requests_append, requests_respond]
        simp [Conn.requests]
      · rw [if_neg hclose, if_neg hclose]
        obtain ⟨hreq, hrest⟩ := ih _
        refine ⟨?_, hrest⟩
        rw [hreq, requests_append, ← singleton_append, requests_append, requests_respond]
        simp [Conn.requests, requestReader]

/-- The connection has handed over the items of the reader, and holds its rest. -/
def Follows (c : Conn σ) (s : List HttpRequest × Bytes) : Prop := c.requests = s.1 ∧ c.buf = s.2

theorem follows_deliver (hdefer : NonDeferring core) (c : Conn σ) (s : List HttpRequest × Bytes)
    (piece : Bytes) (h : Follows c s) :
    Follows (deliver core c piece) ((requestReader core.decompress).deliver closes s piece) := by
  obtain ⟨hreq, hbuf⟩ := h
  obtain ⟨hreq', hbuf'⟩ := onMessageLoop_drains core hdefer (c.buf ++ piece).length
    { c with buf := c.buf ++ piece }
  unfold Follows deliver onMessage Reader.deliver Reader.drain
  rw [← hreq, ← hbuf]
  exact ⟨hreq', hbuf'⟩

theorem follows_run (hdefer : NonDeferring core) (app : σ) (pieces : List Bytes) :
    Follows (run (deliver core) (connected app) pieces)
      (run ((requestReader core.decompress).deliver closes) ([], []) pieces) :=
  simulation_run ((requestReader core.decompress).deliver closes) Follows
    (fun c s piece _ h => follows_deliver core hdefer c s piece h) (meets_true _ _ _) ⟨rfl, rfl⟩

theorem requests_run (hdefer : NonDeferring core) (app : σ) (pieces : List Bytes) :
    (run (deliver core) (connected app) pieces).requests =
      (requestReader core.decompress).taken closes pieces :=
  (follows_run core hdefer app pieces).1

end Laws

/-! ## The law -/

/-- What the handlers see of a request. -/
def seen (request : HttpRequest) : HttpMethod × Bytes × StringMap × Bytes :=
  (request.method, request.path, request.headers, request.body)

/-- The requests of a stream do not depend on how it is cut into deliveries
exactly when no request of the stream before the last one asks to close. -/
theorem requests_do_not_depend_on_the_cut_iff {σ : Type*} (core : Core σ)
    (hdefer : NonDeferring core) (app : σ) (stream : Bytes) :
    (∀ c d, IsCut stream c → IsCut stream d →
        (run (deliver core) (connected app) c).requests.map seen =
          (run (deliver core) (connected app) d).requests.map seen) ↔
      ∀ request ∈ ((requestReader core.decompress).items stream).dropLast,
        request.keepAlive = true := by
  have hcuts := (requestReader core.decompress).cuts_agree_iff closes seen stream
  simp only [requests_run core hdefer app]
  rw [hcuts]
  simp only [closes, Bool.not_eq_false']

def okCore : Core Unit where
  handle _ _ := ({}, ())
  decompress _ := []

/-- Two requests, of which only the last one asks to close. -/
theorem requests_do_not_depend_on_the_cut_close_last :
    (run (deliver okCore) (connected ())
        [text "GET /a HTTP/1.1\r\n\r\nGET /b HTTP/1.0\r\n\r\n"]).requests.map seen =
      (run (deliver okCore) (connected ())
        [text "GET /a HT", text "TP/1.1\r\n\r\nGET /b HTTP/1.0\r\n\r\n"]).requests.map seen :=
  (requests_do_not_depend_on_the_cut_iff okCore (fun _ _ => rfl) () _).mpr (by decide +kernel)
    _ _ ⟨rfl, by decide⟩ ⟨by decide, by decide⟩

/-- The first request asks to close. In one piece the second one stays in the
buffer. In a piece of its own it is handed over. -/
theorem a_request_behind_a_close_depends_on_the_cut :
    let first := text "GET /a HTTP/1.1\r\nConnection: close\r\n\r\n"
    let second := text "GET /b HTTP/1.1\r\n\r\n"
    IsCut (first ++ second) [first ++ second] ∧ IsCut (first ++ second) [first, second] ∧
      (run (deliver okCore) (connected ()) [first ++ second]).requests.map HttpRequest.path =
        [text "/a"] ∧
      (run (deliver okCore) (connected ()) [first, second]).requests.map HttpRequest.path =
        [text "/a", text "/b"] ∧
      (run (deliver okCore) (connected ()) [first ++ second]).requests.map seen ≠
        (run (deliver okCore) (connected ()) [first, second]).requests.map seen := by
  refine ⟨⟨by decide, by decide⟩, ⟨by decide, by decide⟩, by decide +kernel, by decide +kernel, ?_⟩
  intro hsame
  have hlen := congrArg List.length hsame
  revert hlen
  decide +kernel

/-! ## Requests behind a shutdown -/

def Call.dispatches : Call → Bool
  | .handleRequest _ => true
  | _ => false

/-- A shutdown is not followed by a request for the core. -/
def Quiet (first later : Call) : Prop := first = .shutdown → later.dispatches = false

instance (first later : Call) : Decidable (Quiet first later) :=
  inferInstanceAs (Decidable (first = .shutdown → later.dispatches = false))

theorem quiet_append {calls more : List Call} (h : .shutdown ∉ calls)
    (hmore : more.Pairwise Quiet) : (calls ++ more).Pairwise Quiet := by
  induction calls with
  | nil => exact hmore
  | cons call calls ih =>
    rw [cons_append, pairwise_cons]
    refine ⟨?_, ih (fun hmem => h (mem_cons_of_mem call hmem))⟩
    rintro later - rfl
    exact absurd (mem_cons_self ..) h

theorem shutdown_notMem_respond (response : HttpResponse) : .shutdown ∉ respond response := by
  unfold respond
  split
  · simp
  · split <;> simp

section Shutdown

variable {σ : Type*} (core : Core σ)

/-- The loop adds calls of which only the last one can be a shutdown. It hands a
request over exactly when the buffer begins with one. -/
theorem onMessageLoop_calls (fuel : Nat) (c : Conn σ) :
    ∃ new, (onMessageLoop core fuel c).calls = c.calls ++ new ∧ new.Pairwise Quiet ∧
      ((∃ call ∈ new, call.dispatches = true) ↔
        0 < fuel ∧ (parseRequest core.decompress c.buf).isComplete = true) := by
  induction fuel generalizing c with
  | zero => exact ⟨[], by simp [onMessageLoop], by simp, by simp⟩
  | succ fuel ih =>
    cases hparse : parseRequest core.decompress c.buf with
    | incomplete =>
      rw [onMessageLoop_incomplete core hparse]
      exact ⟨[], by simp, by simp, by simp [ParseResult.isComplete]⟩
    | error =>
      rw [onMessageLoop_error core hparse]
      refine ⟨[.send badRequestResponse.toString, .shutdown], rfl, ?_, ?_⟩
      · have hsend : Call.shutdown ∉ [Call.send badRequestResponse.toString] := by simp
        exact quiet_append hsend (by simp)
      · simp [ParseResult.isComplete, Call.dispatches]
    | complete request rest =>
      -- whatever follows it, the first new call hands the request over
      have hdispatch : ∀ more : List Call,
          (∃ call ∈ Call.handleRequest request :: more, call.dispatches = true) ↔
            0 < fuel + 1 ∧ (ParseResult.complete request rest).isComplete = true :=
        fun more => iff_of_true ⟨_, mem_cons_self .., rfl⟩ ⟨Nat.succ_pos fuel, rfl⟩
      have hquiet : ∀ more, more.Pairwise Quiet →
          (.handleRequest request :: (respond (outgoing core c.app request) ++ more)).Pairwise
            Quiet := by
        intro more hmore
        have hcalls : Call.shutdown ∉
            Call.handleRequest request :: respond (outgoing core c.app request) := by
          simpa using shutdown_notMem_respond _
        exact quiet_append hcalls hmore
      rw [onMessageLoop_complete core hparse]
      split
      · exact ⟨[.handleRequest request], rfl, by simp, hdispatch []⟩
      · split
        · exact ⟨_, rfl, hquiet [.shutdown] (by simp), hdispatch _⟩
        · obtain ⟨new, hcalls, hnew, -⟩ := ih _
          refine ⟨_, ?_, hquiet new hnew, hdispatch _⟩
          rw [hcalls, append_assoc, cons_append]

theorem deliver_calls (c : Conn σ) (piece : Bytes) :
    ∃ new, (deliver core c piece).calls = c.calls ++ new ∧ new.Pairwise Quiet ∧
      ((∃ call ∈ new, call.dispatches = true) ↔
        (parseRequest core.decompress (c.buf ++ piece)).isComplete = true) := by
  obtain ⟨new, hcalls, hnew, hdispatch⟩ :=
    onMessageLoop_calls core (c.buf ++ piece).length { c with buf := c.buf ++ piece }
  refine ⟨new, hcalls, hnew, hdispatch.trans ?_⟩
  rw [and_iff_right_iff_imp]
  intro hcomplete
  by_contra hzero
  have hnil : c.buf ++ piece = [] := eq_nil_of_length_eq_zero (by omega)
  rw [hnil] at hcomplete
  cases hcomplete

/-- A connection that has been shut down gets no more bytes that complete a request. -/
def CompletesNoRequest (c : Conn σ) (piece : Bytes) : Prop :=
  .shutdown ∈ c.calls → (parseRequest core.decompress (c.buf ++ piece)).isComplete = false

end Shutdown

/-- No request is handed to the core behind a shutdown exactly when, at each delivery
after a shutdown, the bytes left in the buffer and the new ones together do not begin
with a complete request. -/
theorem no_request_is_dispatched_after_a_shutdown_iff {σ : Type*} (core : Core σ) (app : σ)
    (pieces : List Bytes) :
    (run (deliver core) (connected app) pieces).calls.Pairwise Quiet ↔
      Meets (deliver core) (CompletesNoRequest core) (connected app) pieces := by
  have hstep : ∀ (c : Conn σ) piece, True → ((deliver core c piece).calls.Pairwise Quiet ↔
      c.calls.Pairwise Quiet ∧ CompletesNoRequest core c piece) := by
    intro c piece _
    obtain ⟨new, hcalls, hnew, hdispatch⟩ := deliver_calls core c piece
    unfold CompletesNoRequest
    rw [hcalls, pairwise_append, ← Bool.not_eq_true, ← hdispatch]
    refine and_congr_right (fun _ => ?_)
    constructor
    · rintro ⟨-, hbehind⟩ hshut ⟨call, hmem, hcall⟩
      rw [hbehind _ hshut call hmem rfl] at hcall
      cases hcall
    · intro hnone
      refine ⟨hnew, ?_⟩
      rintro _ hshut call hmem rfl
      rw [← Bool.not_eq_true]
      exact fun hcall => hnone hshut ⟨call, hmem, hcall⟩
  have hlaw := law_run_iff (s := connected app) (fun c => c.calls.Pairwise Quiet)
    (fun _ _ _ => trivial) hstep trivial pieces
  exact hlaw.trans (and_iff_right List.Pairwise.nil)

/-- A request that asks to close, and another one in a delivery of its own: the second
one is handed over although the connection has been shut down. -/
theorem a_request_is_dispatched_after_a_shutdown :
    ¬(run (deliver okCore) (connected ())
        [text "GET /a HTTP/1.0\r\n\r\n", text "GET /b HTTP/1.1\r\n\r\n"]).calls.Pairwise Quiet := by
  decide +kernel

end mymuduo.http_server
