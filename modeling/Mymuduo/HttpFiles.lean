-- The descriptors of file responses, from `serveFile` (src/http/HttpCore.h) through
-- the two servers to the queue of the connection (src/net/TcpConnection.cc). A
-- deferred response and every response of `HttpsServer` never hand them over.
import Mathlib.Data.List.Perm.Basic
import Mymuduo.HttpCompression
import Mymuduo.HttpsServer
import Mymuduo.StaticFiles
import Mymuduo.TcpOutput

open List bytes runs

namespace mymuduo.tcp_connection

/-! ## What a connection does with descriptors -/

namespace TcpConnection

/-- The descriptors handed to the connection: closed by it, or queued. -/
def descriptors (c : TcpConnection) : List Int := c.closedFds ++ c.pendingFiles_.map PendingFile.fd

/-- `closePendingFiles`, all that the destructor does with files -/
def closePendingFiles (c : TcpConnection) : TcpConnection :=
  { c with closedFds := c.closedFds ++ c.pendingFiles_.map PendingFile.fd, pendingFiles_ := [] }

variable (c : TcpConnection)

theorem closedFds_closePendingFiles : c.closePendingFiles.closedFds = c.descriptors := rfl

theorem drainFiles_fds (files : List PendingFile) (rs : List SysResult) :
    (drainFiles files rs).closed ++ (drainFiles files rs).files.map PendingFile.fd =
      files.map PendingFile.fd := by
  induction files generalizing rs with
  | nil => rfl
  | cons pf files ih =>
    have hnext := ih rs.tail
    unfold drainFiles
    dsimp only
    generalize (if pf.remaining < kBatch then pf.remaining else kBatch) = toSend
    split
    · split
      · split
        · rw [cons_append, hnext, map_cons]
        · rfl
      · rw [cons_append, hnext, map_cons]
    · rfl
    · rfl

theorem descriptors_drainPendingFiles (rs : List SysResult) :
    (c.drainPendingFiles rs).1.descriptors = c.descriptors := by
  unfold descriptors drainPendingFiles
  dsimp only [accept]
  rw [append_assoc, drainFiles_fds]

theorem descriptors_finishWrite (rs : List SysResult) :
    (c.finishWrite rs).descriptors = c.descriptors := by
  have hdrain := descriptors_drainPendingFiles c rs
  unfold finishWrite
  dsimp only
  split
  · exact hdrain
  · split
    · unfold shutdownInLoop
      split <;> exact hdrain
    · exact hdrain

theorem descriptors_handleWrite (w : SysResult) (rs : List SysResult) :
    (c.handleWrite w rs).descriptors = c.descriptors := by
  unfold handleWrite
  dsimp only
  split
  · rfl
  · split
    · split
      · split
        · rfl
        · exact descriptors_finishWrite _ rs
      · rfl
    · exact descriptors_finishWrite c rs

theorem descriptors_shutdown : c.shutdown.descriptors = c.descriptors := by
  unfold shutdown
  split
  · unfold shutdownInLoop
    split <;> rfl
  · rfl

theorem descriptors_writeDirect (data : Bytes) (w : SysResult) :
    (c.writeDirect data w).1.descriptors = c.descriptors := by
  unfold writeDirect
  split <;> rfl

theorem descriptors_sendIov (slices : List Bytes) (w : SysResult) :
    (c.sendIov slices w).descriptors = c.descriptors := by
  have hwrite := descriptors_writeDirect c ((slices.take kMaxIov).flatten) w
  unfold sendIov
  split
  · rfl
  · split
    · rfl
    · dsimp only
      split <;> exact hwrite

theorem descriptors_sendInLoop (data : Bytes) (w : SysResult) :
    (c.sendInLoop data w).descriptors = c.descriptors := by
  have hwrite := descriptors_writeDirect c data w
  unfold sendInLoop
  split
  · rfl
  · dsimp only
    by_cases hdirect : (!c.isWriting && c.outputBuffer_.isEmpty) = true
    · rw [if_pos hdirect]
      split <;> exact hwrite
    · rw [if_neg hdirect]
      split <;> rfl

theorem descriptors_send (data : Bytes) (w : SysResult) :
    (c.send data w).descriptors = c.descriptors := by
  unfold send
  split
  · exact descriptors_sendInLoop c data w
  · rfl

theorem descriptors_sendFile {pf : PendingFile} (hfd : 0 ≤ pf.fd) (rs : List SysResult) :
    (c.sendFile pf rs).descriptors.Perm (pf.fd :: c.descriptors) := by
  unfold sendFile
  split
  · unfold descriptors
    rw [append_assoc]
    exact perm_middle
  · have hqueued :
        ({ c with pendingFiles_ := c.pendingFiles_ ++ [pf] } : TcpConnection).descriptors.Perm
        (pf.fd :: c.descriptors) := by
      unfold descriptors
      rw [map_append, ← append_assoc]
      exact perm_append_singleton _ _
    dsimp only
    split
    · exact hqueued
    · have hdrain :=
        descriptors_drainPendingFiles { c with pendingFiles_ := c.pendingFiles_ ++ [pf] } rs
      split <;> exact (List.Perm.of_eq hdrain).trans hqueued

end TcpConnection

end mymuduo.tcp_connection

namespace mymuduo.http_routing

/-! ## Descriptors in the core -/

namespace FileUse

def opened : FileUse → List Int
  | untouched => []
  | closed fd => [(fd : Int)]
  | served fd => [(fd : Int)]

def closedFds : FileUse → List Int
  | closed fd => [(fd : Int)]
  | _ => []

def left : FileUse → List Int
  | served fd => [(fd : Int)]
  | _ => []

end FileUse

end mymuduo.http_routing

namespace mymuduo.http_files

open http_core http_request http_response http_server http_routing tcp_connection

/-- The response belongs to the use: it has the descriptor that is left, or no file. -/
def Carries (use : FileUse) (deferred : Bool) (response : HttpResponse) : Prop :=
  match use with
  | .untouched => True
  | .closed _ => response.hasFileBody = false
  | .served fd => response.bodyFileFd_ = fd ∧ response.deferred = deferred

variable (files : FileSystem)

theorem serveFileUse_carries (response : HttpResponse) (dir filename : Bytes) :
    Carries (serveFileUse files response dir filename).2 response.deferred
      (serveFileUse files response dir filename).1 := by
  unfold serveFileUse
  dsimp only
  split
  · trivial
  · split
    · split
      · trivial
      · split
        · trivial
        · split
          · rfl
          · split
            · rfl
            · split
              · rfl
              · exact ⟨rfl, rfl⟩
    · trivial

section Core

variable {σ : Type*} (core : HttpCore σ)

/-- A middleware has marked the response as deferred. -/
def deferredBefore (request : HttpRequest) (app : σ) : Bool :=
  (runMiddlewares request core.middlewares_ {} app).2.1.deferred

/-- What `handleRequest` does with a descriptor of `serveFile`. -/
def outcome (request : HttpRequest) (app : σ) : FileUse :=
  (core.handleRequestUse request {} app).2

theorem handleRequest_carries (request : HttpRequest) (app : σ) :
    Carries (outcome core request app) (deferredBefore core request app)
      (core.handleRequest request {} app).1 := by
  unfold outcome deferredBefore HttpCore.handleRequest HttpCore.handleRequestUse
  obtain ⟨ended, response, app'⟩ := runMiddlewares request core.middlewares_ {} app
  cases ended with
  | true => trivial
  | false =>
    cases core.findHandler request with
    | some handler => trivial
    | none =>
      cases bestStaticDir request.path (core.staticDirs_.entries.map (fun e => (e.1, e.2))) with
      | none => trivial
      | some found => exact serveFileUse_carries core.files response found.2 _

theorem carries_postProcessResponse {o : FileUse} {deferred : Bool} {response : HttpResponse}
    (h : Carries o deferred response) (request : HttpRequest) :
    Carries o deferred (core.postProcessResponse request response) := by
  rw [HttpCore.postProcessResponse_eq]
  split <;> exact h

theorem handle_carries (request : HttpRequest) (app : σ) :
    Carries (outcome core request app) (deferredBefore core request app)
      (core.toCore.handle app request).1 :=
  carries_postProcessResponse core (handleRequest_carries core request app) request

end Core

/-! ## One round of a server -/

section Round

variable {σ : Type*}

/-- What the loop of `HttpServer::onMessage` calls on the connection for one request. -/
def roundCalls (core : Core σ) (app : σ) (request : HttpRequest) : List Call :=
  if (core.handle app request).1.deferred then []
  else respond (outgoing core app request) ++ if closes request then [.shutdown] else []

theorem onMessageLoop_round (core : Core σ) {fuel : Nat} {c : Conn σ} {request : HttpRequest}
    {rest : Bytes} (h : parseRequest core.decompress c.buf = .complete request rest) :
    onMessageLoop core (fuel + 1) c =
      let c' : Conn σ :=
        { buf := rest, app := (core.handle c.app request).2
          calls := c.calls ++ .handleRequest request :: roundCalls core c.app request }
      if (core.handle c.app request).1.deferred || closes request then c'
      else onMessageLoop core fuel c' := by
  rw [onMessageLoop_complete core h]
  unfold roundCalls
  cases (core.handle c.app request).1.deferred with
  | true => rfl
  | false =>
    cases closes request with
    | true => rfl
    | false => simp

/-- The state of the core behind some rounds, and their calls: a request that was read, with its
own response, made in the state that it finds, or input that is refused. -/
inductive Rounds (core : Core σ) (start : σ) : σ → List Call → Prop
  | nil : Rounds core start start []
  | answered {app : σ} {calls : List Call} {buf rest : Bytes} {request : HttpRequest}
      (h : Rounds core start app calls)
      (hparse : parseRequest core.decompress buf = .complete request rest) :
      Rounds core start (core.handle app request).2
        (calls ++ .handleRequest request :: roundCalls core app request)
  | refused {app : σ} {calls : List Call} {buf : Bytes} (h : Rounds core start app calls)
      (hparse : parseRequest core.decompress buf = .error) :
      Rounds core start app (calls ++ [.send badRequestResponse.toString, .shutdown])

theorem Rounds.onMessageLoop {core : Core σ} {start : σ} {c : Conn σ} (fuel : Nat)
    (h : Rounds core start c.app c.calls) :
    Rounds core start (onMessageLoop core fuel c).app (onMessageLoop core fuel c).calls := by
  induction fuel generalizing c with
  | zero => exact h
  | succ fuel ih =>
    cases hparse : parseRequest core.decompress c.buf with
    | incomplete =>
      rw [onMessageLoop_incomplete core hparse]
      exact h
    | error =>
      rw [onMessageLoop_error core hparse]
      exact h.refused hparse
    | complete request rest =>
      rw [onMessageLoop_round core hparse]
      have hround := h.answered hparse
      dsimp only
      split
      · exact hround
      · exact ih hround

/-- Whatever arrives, and however it is cut, a connection makes nothing but whole rounds. -/
theorem deliveries_are_rounds (core : Core σ) (app : σ) (pieces : List Bytes) :
    let c := run (deliver core) (connected app) pieces
    Rounds core app c.app c.calls := by
  have hstep : ∀ (c : Conn σ) (piece : Bytes), Rounds core app c.app c.calls →
      Rounds core app (deliver core c piece).app (deliver core c piece).calls :=
    fun _ _ h => Rounds.onMessageLoop _ h
  exact invariant_always hstep .nil pieces

def handedFds (calls : List Call) : List Int :=
  calls.filterMap (fun call =>
    match call with
    | .sendFile fd _ => some fd
    | _ => none)

theorem handedFds_respond (response : HttpResponse) :
    handedFds (respond response) = if response.hasFileBody then [response.bodyFileFd_] else [] := by
  unfold respond
  split
  · rfl
  · split <;> rfl

theorem handedFds_roundCalls (core : Core σ) (app : σ) (request : HttpRequest) :
    handedFds (roundCalls core app request) =
      if (core.handle app request).1.deferred = false ∧
        (core.handle app request).1.hasFileBody = true
      then [(core.handle app request).1.bodyFileFd_] else [] := by
  have hclose : handedFds (if closes request then [.shutdown] else []) = [] := by
    split <;> rfl
  have hrespond := handedFds_respond (outgoing core app request)
  unfold roundCalls
  cases hdeferred : (core.handle app request).1.deferred with
  | true => simp [handedFds]
  | false =>
    unfold handedFds at hclose hrespond ⊢
    rw [if_neg Bool.false_ne_true, filterMap_append, hclose, hrespond, append_nil]
    simp only [true_and]
    rfl

/-- A call on the connection, with the results of its system calls. -/
def perform (files : FileSystem) (c : TcpConnection) (call : Call)
    (result : SysResult × List SysResult) : TcpConnection :=
  match call with
  | .handleRequest _ => c
  | .send data => c.send data result.1
  | .sendIov slices => c.sendIov slices result.1
  | .sendFile fd count =>
    c.sendFile ⟨fd, fun i => (files.content fd.toNat).getD i 0, 0, count⟩ result.2
  | .shutdown => c.shutdown

/-- The calls one after the other. A call without a result gets `EAGAIN`. -/
def performAll (files : FileSystem) : TcpConnection → List Call →
    List (SysResult × List SysResult) → TcpConnection
  | c, [], _ => c
  | c, call :: calls, results =>
    performAll files (perform files c call (results.headD (.fail .EAGAIN, []))) calls results.tail

theorem count_perform (c : TcpConnection) {call : Call}
    (hfd : ∀ fd ∈ handedFds [call], 0 ≤ fd) (result : SysResult × List SysResult) (fd : Int) :
    (perform files c call result).descriptors.count fd =
      c.descriptors.count fd + (handedFds [call]).count fd := by
  cases call with
  | handleRequest request => rfl
  | send data => exact congrArg (List.count fd) (c.descriptors_send data result.1)
  | sendIov slices => exact congrArg (List.count fd) (c.descriptors_sendIov slices result.1)
  | sendFile fd' count =>
    have hperm := @TcpConnection.descriptors_sendFile c
      ⟨fd', fun i => (files.content fd'.toNat).getD i 0, 0, count⟩
      (hfd fd' (mem_singleton_self _)) result.2
    refine (hperm.count_eq fd).trans ?_
    rw [count_cons]
    simp [handedFds, count_cons]
  | shutdown => exact congrArg (List.count fd) c.descriptors_shutdown

theorem count_performAll (calls : List Call) (c : TcpConnection)
    (results : List (SysResult × List SysResult)) (hfd : ∀ fd ∈ handedFds calls, 0 ≤ fd)
    (fd : Int) :
    (performAll files c calls results).descriptors.count fd =
      c.descriptors.count fd + (handedFds calls).count fd := by
  induction calls generalizing c results with
  | nil => rfl
  | cons call calls ih =>
    have happend : handedFds (call :: calls) = handedFds [call] ++ handedFds calls :=
      filterMap_append (l := [call])
    rw [happend] at hfd ⊢
    rw [performAll, ih _ _ (fun fd h => hfd fd (mem_append_right _ h)),
      count_perform files c (fun fd h => hfd fd (mem_append_left _ h)), count_append]
    omega

end Round

/-! ## A connection of a server -/

inductive Protocol
  | http
  | https
  deriving DecidableEq

/-- A request with its surroundings: the file system that it finds, the results of the system
calls, and for `HttpsServer` the ciphertexts that `sslWrite` and `SSL_shutdown` send. -/
structure Round where
  files : FileSystem
  request : HttpRequest
  results : List (SysResult × List SysResult)
  ciphertexts : List Bytes

/-- What happens on a connection: a request is answered, or something else happens to the
connection, in the poller or in user code. -/
inductive Input
  | request (round : Round)
  | other (op : TcpConnection.Op)

/-- Each open of `serveFile` and each descriptor of user code has a number of its own.
`opened` are those of `serveFile` and `foreign` those that user code handed over. `closedByCore`
is what `serveFile` itself closed, and `dropped` what a response had at its end without
being handed over. -/
structure Session (σ : Type*) where
  app : σ
  conn : TcpConnection
  opened : List Int
  foreign : List Int
  closedByCore : List Int
  dropped : List Int

section Session

variable {σ : Type*} (protocol : Protocol) (core : HttpCore σ)

def Session.start (app : σ) (mark : Nat) (onComplete onHighWater : Bool) : Session σ where
  app := app
  conn := .established mark onComplete onHighWater
  opened := []
  foreign := []
  closedByCore := []
  dropped := []

def coreOf (round : Round) : HttpCore σ := { core with files := round.files }

/-- What a server calls on the connection for a request. `HttpsServer` has no call for a file. -/
def callsOf (app : σ) (round : Round) : List Call :=
  match protocol with
  | .http => roundCalls (coreOf core round).toCore app round.request
  | .https => round.ciphertexts.map Call.send ++ if closes round.request then [.shutdown] else []

/-- The numbers are new: a descriptor that `serveFile` opens is no other one, and user code has
none of those that `serveFile` has opened. -/
def Fresh (s : Session σ) (round : Round) : Prop :=
  (∀ fd ∈ (outcome (coreOf core round) round.request s.app).opened,
      fd ∉ s.opened ∧ fd ∉ s.foreign) ∧
    ∀ fd ∈ handedFds (callsOf protocol core s.app round), fd ∉ s.opened

instance (s : Session σ) (round : Round) : Decidable (Fresh protocol core s round) :=
  inferInstanceAs (Decidable (_ ∧ _))

def answer (s : Session σ) (round : Round) : Session σ :=
  let o := outcome (coreOf core round) round.request s.app
  let calls := callsOf protocol core s.app round
  { app := ((coreOf core round).toCore.handle s.app round.request).2
    conn := performAll round.files s.conn calls round.results
    opened := s.opened ++ o.opened
    foreign := s.foreign ++ (handedFds calls).filter (· ∉ o.opened)
    closedByCore := s.closedByCore ++ o.closedFds
    dropped := s.dropped ++ o.left.filter (· ∉ handedFds calls) }

/-- A step that cannot happen changes nothing. -/
def step (s : Session σ) : Input → Session σ
  | .request round => if Fresh protocol core s round then answer protocol core s round else s
  | .other (.sendFile pf rs) =>
    if 0 ≤ pf.fd ∧ pf.fd ∉ s.opened then
      { s with conn := s.conn.sendFile pf rs, foreign := s.foreign ++ [pf.fd] }
    else s
  | .other op => { s with conn := s.conn.step op }

/-- Behind the destructor of the connection, each descriptor of `serveFile` has been closed once. -/
def ClosedOnce (s : Session σ) : Prop :=
  ∀ fd ∈ s.opened, (s.closedByCore ++ s.conn.closePendingFiles.closedFds).count fd = 1

/-- A served file goes out: `HttpServer` answers, and no middleware has marked the response as
deferred. -/
def HandsOver (s : Session σ) : Input → Prop
  | .request round => Fresh protocol core s round →
      ∀ fd, outcome (coreOf core round) round.request s.app = .served fd →
        protocol = .http ∧ deferredBefore (coreOf core round) round.request s.app = false
  | .other _ => True

/-- Each descriptor is somewhere: closed, held by the connection, or dropped. -/
structure Accounted (s : Session σ) : Prop where
  count : ∀ fd, s.closedByCore.count fd + s.conn.descriptors.count fd + s.dropped.count fd =
    s.opened.count fd + s.foreign.count fd
  nodup : s.opened.Nodup
  apart : ∀ fd ∈ s.opened, fd ∉ s.foreign
  dropped_opened : ∀ fd ∈ s.dropped, fd ∈ s.opened

/-- Of the descriptors that were opened, exactly the dropped ones are not closed. -/
theorem closedOnce_iff {s : Session σ} (h : Accounted s) : ClosedOnce s ↔ s.dropped = [] := by
  have hone : ∀ fd ∈ s.opened,
      (s.closedByCore ++ s.conn.closePendingFiles.closedFds).count fd + s.dropped.count fd = 1 := by
    intro fd hfd
    have hcount := h.count fd
    rw [count_eq_one_of_mem h.nodup hfd, count_eq_zero.mpr (h.apart fd hfd)] at hcount
    rw [count_append, TcpConnection.closedFds_closePendingFiles]
    exact hcount
  constructor
  · intro hclosed
    refine eq_nil_iff_forall_not_mem.mpr ?_
    intro fd hfd
    have hopened := h.dropped_opened fd hfd
    have hboth := hone fd hopened
    have hpos := count_pos_iff.mpr hfd
    rw [hclosed fd hopened] at hboth
    omega
  · intro hnil fd hfd
    have hboth := hone fd hfd
    rw [hnil, count_nil] at hboth
    exact hboth

/-- What a request hands over: what the outcome left, nothing, or a descriptor of user code. -/
theorem handedFds_callsOf (app : σ) (round : Round) :
    (∀ fd ∈ handedFds (callsOf protocol core app round), 0 ≤ fd) ∧
      match outcome (coreOf core round) round.request app with
      | .untouched => True
      | .closed _ => handedFds (callsOf protocol core app round) = []
      | .served fd => handedFds (callsOf protocol core app round) =
          if protocol = .http ∧ deferredBefore (coreOf core round) round.request app = false
          then [(fd : Int)] else [] := by
  have hcarries := handle_carries (coreOf core round) round.request app
  cases protocol with
  | https =>
    have hnone : handedFds (callsOf .https core app round) = [] := by
      unfold callsOf handedFds
      rw [filterMap_append]
      split <;> simp
    rw [hnone]
    refine ⟨fun fd hfd => absurd hfd not_mem_nil, ?_⟩
    cases outcome (coreOf core round) round.request app <;> simp
  | http =>
    have hround : handedFds (callsOf .http core app round) = _ :=
      handedFds_roundCalls (coreOf core round).toCore app round.request
    rw [hround]
    constructor
    · intro fd hfd
      split at hfd
      · rename_i hfile
        rw [mem_singleton.mp hfd]
        simpa [HttpResponse.hasFileBody] using hfile.2
      · cases hfd
    · cases houtcome : outcome (coreOf core round) round.request app with
      | untouched => trivial
      | closed fd =>
        rw [houtcome] at hcarries
        exact if_neg (fun h => by rw [hcarries] at h; cases h.2)
      | served fd =>
        rw [houtcome] at hcarries
        obtain ⟨hfd, hdeferred⟩ := hcarries
        have hfile :
            ((coreOf core round).toCore.handle app round.request).1.hasFileBody = true := by
          simp [HttpResponse.hasFileBody, hfd]
        rw [hfile, hfd, hdeferred]
        simp

theorem count_answer (app : σ) (round : Round) (fd : Int) :
    let o := outcome (coreOf core round) round.request app
    let handed := handedFds (callsOf protocol core app round)
    o.closedFds.count fd + handed.count fd + (o.left.filter (· ∉ handed)).count fd =
      o.opened.count fd + (handed.filter (· ∉ o.opened)).count fd := by
  have hhanded := (handedFds_callsOf protocol core app round).2
  cases houtcome : outcome (coreOf core round) round.request app with
  | untouched => simp [FileUse.opened, FileUse.closedFds, FileUse.left]
  | closed fd' =>
    rw [houtcome] at hhanded
    rw [hhanded]
    simp [FileUse.opened, FileUse.closedFds, FileUse.left]
  | served fd' =>
    rw [houtcome] at hhanded
    rw [hhanded]
    split <;> simp [FileUse.opened, FileUse.closedFds, FileUse.left]

theorem left_subset_opened (o : FileUse) : ∀ fd ∈ o.left, fd ∈ o.opened := by
  cases o with
  | untouched | served fd' => exact fun fd hfd => hfd
  | closed fd' => exact fun fd hfd => absurd hfd not_mem_nil

theorem nodup_opened (o : FileUse) : o.opened.Nodup := by
  cases o with
  | untouched => exact nodup_nil
  | closed fd | served fd => exact nodup_singleton _

theorem accounted_answer {s : Session σ} (h : Accounted s) {round : Round}
    (hfresh : Fresh protocol core s round) : Accounted (answer protocol core s round) := by
  have hhanded := (handedFds_callsOf protocol core s.app round).1
  refine ⟨?_, ?_, ?_, ?_⟩
  · intro fd
    have hold := h.count fd
    have hnew := count_answer protocol core s.app round fd
    have hconn := count_performAll round.files (callsOf protocol core s.app round) s.conn
      round.results hhanded fd
    dsimp only [answer]
    rw [hconn]
    simp only [count_append]
    omega
  · refine List.Nodup.append h.nodup (nodup_opened _) ?_
    intro fd hold hnew
    exact (hfresh.1 fd hnew).1 hold
  · intro fd hfd hforeign
    rcases mem_append.mp hfd with hold | hnew
    · rcases mem_append.mp hforeign with hf | hf
      · exact h.apart fd hold hf
      · exact hfresh.2 fd (mem_of_mem_filter hf) hold
    · rcases mem_append.mp hforeign with hf | hf
      · exact (hfresh.1 fd hnew).2 hf
      · exact absurd hnew (by simpa using (mem_filter.mp hf).2)
  · intro fd hfd
    rcases mem_append.mp hfd with hold | hnew
    · exact mem_append_left _ (h.dropped_opened fd hold)
    · exact mem_append_right _ (left_subset_opened _ fd (mem_of_mem_filter hnew))

theorem Accounted.conn {s : Session σ} (h : Accounted s) {c : TcpConnection}
    (hc : c.descriptors = s.conn.descriptors) : Accounted { s with conn := c } :=
  ⟨fun fd => by rw [hc]; exact h.count fd, h.nodup, h.apart, h.dropped_opened⟩

theorem accounted_sendFile {s : Session σ} (h : Accounted s) {pf : PendingFile} (hfd : 0 ≤ pf.fd)
    (hother : pf.fd ∉ s.opened) (rs : List SysResult) :
    Accounted { s with conn := s.conn.sendFile pf rs, foreign := s.foreign ++ [pf.fd] } := by
  refine ⟨?_, h.nodup, ?_, h.dropped_opened⟩
  · intro fd
    have hold := h.count fd
    have hperm := (s.conn.descriptors_sendFile hfd rs).count_eq fd
    dsimp only
    rw [hperm, count_append, count_cons, count_singleton]
    omega
  · intro fd hopened hforeign
    rcases mem_append.mp hforeign with hf | hf
    · exact h.apart fd hopened hf
    · rw [mem_singleton.mp hf] at hopened
      exact hother hopened

theorem accounted_step (s : Session σ) (a : Input) (h : Accounted s) :
    Accounted (step protocol core s a) := by
  cases a with
  | request round => exact guarded h fun hfresh => accounted_answer protocol core h hfresh
  | other op =>
    cases op with
    | send data w => exact h.conn (s.conn.descriptors_send data w)
    | sendIov slices w => exact h.conn (s.conn.descriptors_sendIov slices w)
    | sendFile pf rs => exact guarded h fun hpf => accounted_sendFile h hpf.1 hpf.2 rs
    | shutdown => exact h.conn s.conn.descriptors_shutdown
    | handleWrite w rs => exact h.conn (s.conn.descriptors_handleWrite w rs)
    | handleClose => exact h.conn rfl

theorem dropped_answer_iff (s : Session σ) (round : Round) :
    (answer protocol core s round).dropped = [] ↔ s.dropped = [] ∧
      ∀ fd, outcome (coreOf core round) round.request s.app = .served fd →
        protocol = .http ∧ deferredBefore (coreOf core round) round.request s.app = false := by
  have hhanded := (handedFds_callsOf protocol core s.app round).2
  dsimp only [answer]
  rw [append_eq_nil_iff]
  refine and_congr_right fun _ => ?_
  cases houtcome : outcome (coreOf core round) round.request s.app with
  | untouched | closed fd => simp [FileUse.left]
  | served fd =>
    rw [houtcome] at hhanded
    rw [hhanded]
    by_cases hout :
      protocol = .http ∧ deferredBefore (coreOf core round) round.request s.app = false
    · rw [if_pos hout]
      simp [FileUse.left, hout]
    · rw [if_neg hout]
      simp only [FileUse.left, FileUse.served.injEq]
      refine iff_of_false (by simp) ?_
      intro h
      exact hout (h fd rfl)

theorem dropped_step_iff (s : Session σ) (a : Input) :
    (step protocol core s a).dropped = [] ↔ s.dropped = [] ∧ HandsOver protocol core s a := by
  cases a with
  | request round =>
    simp only [step, HandsOver]
    split
    · rename_i hfresh
      rw [dropped_answer_iff]
      exact and_congr_right fun _ => ⟨fun h _ => h, fun h => h hfresh⟩
    · rename_i hfresh
      exact (and_iff_left fun h => absurd h hfresh).symm
  | other op =>
    refine Iff.trans ?_ (and_iff_left trivial).symm
    cases op with
    | sendFile pf rs =>
      simp only [step]
      split <;> rfl
    | _ => rfl

theorem accounted_start (app : σ) (mark : Nat) (onComplete onHighWater : Bool) :
    Accounted (Session.start app mark onComplete onHighWater) :=
  ⟨fun _ => rfl, nodup_nil, fun _ h => absurd h not_mem_nil, fun _ h => absurd h not_mem_nil⟩

/-- In every run, each descriptor of `serveFile` is closed exactly once by the end of the
connection, exactly when every served file is handed over. -/
theorem descriptors_closed_once_iff (app : σ) (mark : Nat) (onComplete onHighWater : Bool)
    (inputs : List Input) :
    ClosedOnce (run (step protocol core) (Session.start app mark onComplete onHighWater) inputs) ↔
      Meets (step protocol core) (HandsOver protocol core)
        (Session.start app mark onComplete onHighWater) inputs := by
  have hstart := accounted_start app mark onComplete onHighWater
  have hlaw := law_run_iff (fun s : Session σ => s.dropped = []) (accounted_step protocol core)
    (fun s a _ => dropped_step_iff protocol core s a) hstart inputs
  rw [closedOnce_iff (invariant_always (accounted_step protocol core) hstart inputs), hlaw]
  exact and_iff_right rfl

end Session

/-! ## Two leaks -/

def staticCore (middlewares : List (HttpHandler Unit)) : HttpCore Unit where
  middlewares_ := middlewares
  staticDirs_ := (∅ : StringMap).insert (text "/") (text "/srv/www")
  files := linkedFiles
  compress := id
  decompress := id

def deferAll : HttpHandler Unit := fun _ response app => ({ response with deferred := true }, app)

def pageRequest : Input := .request ⟨linkedFiles, { path := text "/page" }, [], []⟩

/-- `HttpsServer` leaks the descriptor of every file, and `HttpServer` that of a deferred
response. -/
theorem served_files_leak :
    (run (step .https (staticCore [])) (Session.start () 0 false false) [pageRequest]).opened =
      [3] ∧
      ¬ClosedOnce
        (run (step .https (staticCore [])) (Session.start () 0 false false) [pageRequest]) ∧
      ¬ClosedOnce
        (run (step .http (staticCore [deferAll])) (Session.start () 0 false false)
          [pageRequest]) := by
  have hhttps : (run (step .https (staticCore [])) (Session.start () 0 false false)
      [pageRequest]).opened = [3] := by decide
  have hhttp : (run (step .http (staticCore [deferAll])) (Session.start () 0 false false)
      [pageRequest]).opened = [3] := by decide
  refine ⟨hhttps, ?_, ?_⟩
  · intro h
    exact absurd (h 3 (by rw [hhttps]; exact mem_singleton_self _)) (by decide)
  · intro h
    exact absurd (h 3 (by rw [hhttp]; exact mem_singleton_self _)) (by decide)

end mymuduo.http_files
