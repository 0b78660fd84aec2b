-- `HttpsServer::onMessage` (src/http/HttpsServer.h): the request loop of `HttpServer`,
-- written out a second time around the same core. It sends every response with
-- `toString`, so the bytes of a file are missing.
import Mymuduo.HttpRouting

open List bytes runs

namespace mymuduo.https_server

open http_core http_request http_response http_server
open http_routing (HttpCore)

/-! ## The server -/

/-- What `onMessage` calls, on the core, on the TLS engine and on the connection. -/
inductive SslCall
  | handleRequest (request : HttpRequest)
  | sslWrite (data : Bytes)
  | sslShutdown
  | shutdown
  deriving DecidableEq

structure SslConn (σ : Type*) where
  pendingPlaintext : Bytes
  app : σ
  calls : List SslCall

section Server

variable {σ : Type*} (core : Core σ)

def onPlaintextLoop : Nat → SslConn σ → SslConn σ
  | 0, c => c
  | fuel + 1, c =>
    if c.pendingPlaintext = [] then c
    else
      match parseRequestString core.decompress c.pendingPlaintext with
      | .incomplete => c
      | .error => { c with calls := c.calls ++ [.sslWrite badRequestResponse.toString, .shutdown] }
      | .complete request rest =>
        let (response, app) := core.handle c.app request
        let response := { response with closeConnection := !request.keepAlive }
        let c : SslConn σ :=
          { pendingPlaintext := rest, app
            calls := c.calls ++ [.handleRequest request, .sslWrite response.toString] }
        if response.closeConnection then { c with calls := c.calls ++ [.sslShutdown, .shutdown] }
        else onPlaintextLoop fuel c

/-- What `SSL_read` says when it has given all plaintext that is there. -/
inductive SslStatus
  | wantRead
  | zeroReturn
  | failed
  deriving DecidableEq

/-- The part of `onMessage` behind the TLS handshake: the plaintext of the delivery
goes to the end of the pending one. The peer's close alert, or a TLS error, ends the
connection before the loop. -/
def onMessage (c : SslConn σ) (plaintext : Bytes) (status : SslStatus) : SslConn σ :=
  let c := { c with pendingPlaintext := c.pendingPlaintext ++ plaintext }
  if status = .wantRead then onPlaintextLoop core c.pendingPlaintext.length c
  else { c with calls := c.calls ++ [.shutdown] }

/-- A delivery that leaves the TLS connection open. -/
def deliver (c : SslConn σ) (piece : Bytes) : SslConn σ := onMessage core c piece .wantRead

def connected (app : σ) : SslConn σ := { pendingPlaintext := [], app, calls := [] }

end Server

/-! ## The bytes of both servers -/

def SslCall.bytes : SslCall → Bytes
  | .sslWrite data => data
  | _ => []

section Laws

variable {σ : Type*} (core : Core σ) (content : Nat → Bytes)

/-- Both connections have handed over the same bytes, have been shut down equally
often, and wait with the same bytes and the same state of the core. -/
structure Same (c : Conn σ) (d : SslConn σ) : Prop where
  buf : c.buf = d.pendingPlaintext
  app : c.app = d.app
  bytes : c.calls.flatMap (Call.bytes content) = d.calls.flatMap SslCall.bytes
  shutdowns : c.calls.count .shutdown = d.calls.count .shutdown

/-- The file, if the response has one, is what `toString` writes behind the header. -/
def FileIsTail (response : HttpResponse) : Prop :=
  response.hasFileBody = true →
    (content response.bodyFileFd_.toNat).take response.bodyFileSize_ = response.tail

/-- `HttpServer` hands over the text of a response exactly when a file of it is what
`toString` writes. -/
theorem respond_bytes_iff (response : HttpResponse) :
    (respond response).flatMap (Call.bytes content) = response.toString ↔
      FileIsTail content response := by
  rw [HttpResponse.toString]
  by_cases hfile : response.hasFileBody = true
  · simp [respond, FileIsTail, hfile, Call.bytes]
  · exact iff_of_true (respond_bytes content (by simpa using hfile)) (fun h => absurd h hfile)

theorem respond_shutdowns (response : HttpResponse) : (respond response).count .shutdown = 0 :=
  count_eq_zero.mpr (shutdown_notMem_respond response)

theorem onPlaintextLoop_incomplete {fuel : Nat} {d : SslConn σ}
    (h : parseRequest core.decompress d.pendingPlaintext = .incomplete) :
    onPlaintextLoop core fuel d = d := by
  cases fuel with
  | zero => rfl
  | succ fuel =>
    rw [onPlaintextLoop, parseRequestString_eq, h]
    simp

theorem onPlaintextLoop_error {fuel : Nat} {d : SslConn σ}
    (h : parseRequest core.decompress d.pendingPlaintext = .error) :
    onPlaintextLoop core (fuel + 1) d =
      { d with calls := d.calls ++ [.sslWrite badRequestResponse.toString, .shutdown] } := by
  rw [onPlaintextLoop, if_neg (http_server.ne_nil_of_parsed h nofun), parseRequestString_eq, h]

theorem onPlaintextLoop_complete {fuel : Nat} {d : SslConn σ} {request : HttpRequest} {rest : Bytes}
    (h : parseRequest core.decompress d.pendingPlaintext = .complete request rest) :
    onPlaintextLoop core (fuel + 1) d =
      if closes request then
        { pendingPlaintext := rest, app := (core.handle d.app request).2
          calls :=
            d.calls ++ [.handleRequest request, .sslWrite (outgoing core d.app request).toString,
            .sslShutdown, .shutdown] }
      else
        onPlaintextLoop core fuel
          { pendingPlaintext := rest, app := (core.handle d.app request).2
            calls := d.calls ++
              [.handleRequest request, .sslWrite (outgoing core d.app request).toString] } := by
  rw [onPlaintextLoop, if_neg (http_server.ne_nil_of_parsed h nofun), parseRequestString_eq, h]
  simp only [append_assoc, cons_append, nil_append]
  rfl

/-- Every response to a request that the parser can give is the same for both. -/
def AnswersAlike : Prop :=
  ∀ app request, (∃ buf rest, parseRequest core.decompress buf = .complete request rest) →
    FileIsTail content (core.handle app request).1

theorem same_loop (hdefer : NonDeferring core) (halike : AnswersAlike core content) (fuel : Nat)
    {c : Conn σ} {d : SslConn σ} (h : Same content c d) :
    Same content (onMessageLoop core fuel c) (onPlaintextLoop core fuel d) := by
  induction fuel generalizing c d with
  | zero => exact h
  | succ fuel ih =>
    obtain ⟨hbuf, happ, hbytes, hshut⟩ := h
    cases hparse : parseRequest core.decompress c.buf with
    | incomplete =>
      rw [onMessageLoop_incomplete core hparse, onPlaintextLoop_incomplete core (hbuf ▸ hparse)]
      exact ⟨hbuf, happ, hbytes, hshut⟩
    | error =>
      rw [onMessageLoop_error core hparse, onPlaintextLoop_error core (hbuf ▸ hparse)]
      refine ⟨hbuf, happ, ?_, ?_⟩
      · rw [flatMap_append, flatMap_append, hbytes]
        rfl
      · rw [count_append, count_append, hshut]
        rfl
    | complete request rest =>
      -- the same response goes out on both sides
      have hresponse : (respond (outgoing core c.app request)).flatMap (Call.bytes content) =
          (outgoing core d.app request).toString := by
        rw [← happ]
        exact (respond_bytes_iff content _).mpr (halike c.app request ⟨_, _, hparse⟩)
      have hcount := respond_shutdowns (outgoing core c.app request)
      rw [onMessageLoop_complete core hparse, onPlaintextLoop_complete core (hbuf ▸ hparse),
        if_neg (by rw [hdefer]; simp)]
      split
      on_goal 2 => apply ih
      all_goals
        refine ⟨rfl, by rw [happ], ?_, ?_⟩
        · simp [hbytes, hresponse, Call.bytes, SslCall.bytes]
        · simp [hshut, hcount]

theorem same_run (hdefer : NonDeferring core) (halike : AnswersAlike core content) (app : σ)
    (pieces : List Bytes) :
    Same content (run (http_server.deliver core) (http_server.connected app) pieces)
      (run (deliver core) (connected app) pieces) := by
  refine simulation_run (deliver core) (Same content) ?_ (meets_true _ _ _) ⟨rfl, rfl, rfl, rfl⟩
  intro c d piece _ h
  have hlen : (c.buf ++ piece).length = (d.pendingPlaintext ++ piece).length := by rw [h.buf]
  unfold http_server.deliver http_server.onMessage deliver onMessage
  rw [if_pos rfl, hlen]
  exact same_loop core content hdefer halike _ ⟨by rw [h.buf], h.app, h.bytes, h.shutdowns⟩

theorem alike_of_same_bytes (hdefer : NonDeferring core) {app : σ} {request : HttpRequest}
    {front : Bytes} (hparse : parseRequest core.decompress front = .complete request [])
    (h : (http_server.deliver core (http_server.connected app) front).calls.flatMap
        (Call.bytes content) =
      (deliver core (connected app) front).calls.flatMap SslCall.bytes) :
    FileIsTail content (core.handle app request).1 := by
  have hwait : parseRequest core.decompress [] = .incomplete := rfl
  obtain ⟨n, hn⟩ : ∃ n, front.length = n + 1 := by
    cases front with
    | nil => cases hparse
    | cons b front => exact ⟨front.length, rfl⟩
  unfold http_server.deliver http_server.onMessage deliver onMessage at h
  dsimp only [http_server.connected, connected] at h
  rw [if_pos rfl, nil_append, hn, onMessageLoop_complete core hparse,
    onPlaintextLoop_complete core hparse, if_neg (by rw [hdefer]; simp),
    onMessageLoop_incomplete core hwait, onPlaintextLoop_incomplete core hwait] at h
  refine (respond_bytes_iff content (outgoing core app request)).mp ?_
  split at h <;> simpa [Call.bytes, SslCall.bytes] using h

end Laws

/-! ## The law -/

/-- Both servers hand over the same bytes, and shut down equally often, for all streams
in whatever pieces, exactly when no response has a file other than what `toString`
writes behind its header. -/
theorem https_sends_the_bytes_of_http_iff {σ : Type*} (core : HttpCore σ)
    (hdefer : NonDeferring core.toCore) :
    (∀ app pieces,
        (run (http_server.deliver core.toCore) (http_server.connected app) pieces).calls.flatMap
            (Call.bytes core.files.content) =
          (run (deliver core.toCore) (connected app) pieces).calls.flatMap SslCall.bytes ∧
        (run (http_server.deliver core.toCore) (http_server.connected app) pieces).calls.count
            .shutdown =
          (run (deliver core.toCore) (connected app) pieces).calls.count .shutdown) ↔
      AnswersAlike core.toCore core.files.content := by
  constructor
  · rintro hsame app request ⟨buf, rest, hparse⟩
    obtain ⟨front, -, -, hfront⟩ := parseRequest_front core.toCore.decompress hparse
    exact alike_of_same_bytes core.toCore core.files.content hdefer hfront (hsame app [front]).1
  · intro halike app pieces
    have hrun := same_run core.toCore core.files.content hdefer halike app pieces
    exact ⟨hrun.bytes, hrun.shutdowns⟩

/-- A site with one text at `/hello` and the directory `/srv` at `/static`, where every
file is descriptor 3 with the bytes of `hi`. -/
def site (withFiles : Bool) : HttpCore Unit where
  exactRoutes_ path :=
    if path = text "/hello" then
      some (fun _ => some (fun _ response app => (response.setText (text "hello"), app)))
    else none
  staticDirs_ := if withFiles then AList.insert (text "/static") (text "/srv") ∅ else ∅
  files :=
    { realpath := some
      openFile := fun _ => some 3
      fstat := fun _ => some ⟨true, 2⟩
      content := fun _ => text "hi" }
  compress _ := []
  decompress _ := []

theorem site_answers (app : Unit) (request : HttpRequest) :
    ((site false).toCore.handle app request).1 = ({} : HttpResponse).setText (text "hello") ∨
      ((site false).toCore.handle app request).1 =
        HttpResponse.notFound (text "Not Found: " ++ request.path) := by
  by_cases hpath : request.path = text "/hello" <;>
    simp [HttpCore.toCore, HttpCore.handleRequest, HttpCore.handleRequestUse, HttpCore.findHandler,
      HttpCore.postProcessResponse, http_routing.runMiddlewares, http_routing.bestStaticDir, site,
      hpath]

/-- Without the directory, two requests in two pieces. -/
theorem https_sends_the_bytes_of_http_without_files :
    let pieces := [text "GET /hello HTTP/1.1\r\n\r\nGET /no", text "ne HTTP/1.0\r\n\r\n"]
    (run (http_server.deliver (site false).toCore) (http_server.connected ()) pieces).calls.flatMap
        (Call.bytes (site false).files.content) =
      (run (deliver (site false).toCore) (connected ()) pieces).calls.flatMap SslCall.bytes := by
  refine ((https_sends_the_bytes_of_http_iff (site false) ?_).mpr ?_ () _).1
  · intro app request
    rcases site_answers app request with h | h <;> rw [h] <;> rfl
  · intro app request _
    rcases site_answers app request with h | h <;> rw [h] <;> exact fun hfile => nomatch hfile

/-- A file that is served at `/static`: its two bytes are missing in the plaintext. -/
theorem https_leaves_out_the_bytes_of_a_file :
    let pieces := [text "GET /static/a HTTP/1.1\r\n\r\n"]
    (run (http_server.deliver (site true).toCore) (http_server.connected ()) pieces).calls.flatMap
        (Call.bytes (site true).files.content) ≠
      (run (deliver (site true).toCore) (connected ()) pieces).calls.flatMap SslCall.bytes := by
  decide +kernel

end mymuduo.https_server
