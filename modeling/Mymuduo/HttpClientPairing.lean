-- Calls, connection and server around one `HttpClient`. A call pushes its promise
-- and sends its request in two critical sections, so other calls and the connection
-- callback can come in between, and a send of another thread waits in the loop, where
-- a send of the loop thread goes past it. Each response goes to its own call in every
-- run where each send is made by the oldest call that has not sent, and goes past none.
import Mymuduo.HttpClient
import Mymuduo.Runs

open List bytes runs

namespace mymuduo.http_client

open tcp_connection

/-- The bytes of an answer are one whole response, as the client reads it. -/
structure Answer where
  bytes : Bytes
  response : HttpClientResponse
  whole : nextResponse bytes = .complete response []

/-- An `asyncRequest` call, with the text that `buildRequest` made for it. -/
structure Call where
  id : Nat
  httpReq : Bytes
  deriving DecidableEq

/-- The client, the calls between their two critical sections, and the connection:
the sends of other threads that wait in the loop, whether the socket takes no more
bytes, the requests that wait for an answer and the bytes on their way back. The last
two fields are a record of what was sent and answered; no step reads them. -/
structure System where
  client : Client := {}
  calls : Nat := 0
  waiting : List Call := []
  pendingFunctors_ : List Call := []
  silent : Bool := false
  requests : List Call := []
  inFlight : Bytes := []
  sent : List Nat := []
  answered : List (Nat × HttpClientResponse) := []

/-- `silence` is the half-close, or a write that fails with `EPIPE` or `ECONNRESET`. -/
inductive Event
  | asyncRequest (httpReq : Bytes)
  | resume (id : Nat) (inLoopThread expired : Bool)
  | runFunctor
  | timeout (id : Nat)
  | connected
  | closing (state : StateE)
  | silence
  | disconnected
  | answer (a : Answer)
  | onMessage (n : Nat)

namespace System

def sendInLoop (s : System) (call : Call) : System :=
  if s.silent then s else { s with requests := s.requests ++ [call] }

/-- `TcpConnection::send`. It drops the text when the connection is not in the state
`kConnected` any more, and in another thread it leaves the text to the loop. -/
def send (s : System) (inLoopThread : Bool) (call : Call) : System :=
  if s.client.conn = some .kConnected then
    if inLoopThread then s.sendInLoop call
    else { s with pendingFunctors_ := s.pendingFunctors_ ++ [call] }
  else s

/-- The second critical section of a call. -/
def sendOrFail (s : System) (inLoopThread : Bool) (call : Call) : System :=
  match s.client.conn with
  | none =>
    { s with
      client := s.client.failNotConnected
      waiting := s.waiting.erase call }
  | some _ =>
    { s.send inLoopThread call with
      waiting := s.waiting.erase call
      sent := s.sent ++ [call.id] }

/-- The first request that waits for an answer gets this one. -/
def serve (s : System) (a : Answer) : System :=
  match s.requests with
  | [] => s
  | call :: requests =>
    { s with
      requests
      inFlight := s.inFlight ++ a.bytes
      answered := s.answered ++ [(call.id, a.response)] }

/-- A read event with the next `n` bytes. The loop of `onMessage` returns, because
answers are whole responses. -/
def receive (s : System) (n : Nat) : System :=
  match s.client.onMessage (s.inFlight.take n) with
  | none => s
  | some client => { s with client, inFlight := s.inFlight.drop n }

def step (s : System) : Event → System
  | .asyncRequest httpReq =>
    { s with
      client := s.client.push s.calls
      calls := s.calls + 1
      waiting := s.waiting ++ [⟨s.calls, httpReq⟩] }
  | .resume id inLoopThread expired =>
    match s.waiting.find? (fun call => call.id = id) with
    | none => s
    | some call =>
      -- a call without a connection waits until its three seconds are over
      if s.client.conn = none ∧ expired = false then s else s.sendOrFail inLoopThread call
  | .runFunctor =>
    match s.pendingFunctors_ with
    | [] => s
    | call :: pendingFunctors_ => { s with pendingFunctors_ }.sendInLoop call
  | .timeout _ => s -- `request` returns to its caller and leaves the promise in the queue
  | .connected => if s.client.conn = none then { s with client := s.client.onConnected } else s
  | .closing state =>
    if s.client.conn = none ∨ state = .kConnected then s
    else
      { s with
        client := { s.client with conn := some state }
        silent := s.silent || state = .kDisconnected }
  | .silence => if s.client.conn = none then s else { s with silent := true }
  -- the functors of a connection that is down do nothing
  | .disconnected =>
    if s.client.conn = none then s
    else
      { s with
        client := s.client.onDisconnected
        pendingFunctors_ := []
        silent := false
        requests := []
        inFlight := [] }
  | .answer a => s.serve a
  | .onMessage n => s.receive n

/-- Each promise with a successful value has the response to the request of its call. -/
def PairsResponses (s : System) : Prop :=
  ∀ p ∈ s.client.fulfilled, p.2.success = true → p ∈ s.answered

instance (s : System) : Decidable s.PairsResponses :=
  inferInstanceAs (Decidable (∀ p ∈ s.client.fulfilled, p.2.success = true → p ∈ s.answered))

def unsent (s : System) : List Nat := s.client.pendingQueue.filter (· ∉ s.sent)

/-- A call that sends finds its own promise in the queue, before every other promise
whose request has not been sent, and in the loop thread it finds no send that waits. -/
def SendsInTurn (s : System) : Event → Prop
  | .resume id inLoopThread _ =>
    (∃ call ∈ s.waiting, call.id = id) → s.client.conn ≠ none →
      s.unsent.head? = some id ∧ (inLoopThread = true → s.pendingFunctors_ = [])
  | _ => True

instance (s : System) (e : Event) : Decidable (s.SendsInTurn e) := by
  unfold SendsInTurn
  cases e <;> infer_instance

end System

/-! ## Promises -/

namespace Client

def promises (c : Client) : List Nat := c.fulfilled.map Prod.fst ++ c.pendingQueue

theorem promises_setFront (c : Client) (resp : HttpClientResponse) :
    (c.setFront resp).promises = c.promises := by
  unfold setFront promises
  split
  · rfl
  · rename_i id ids hqueue
    simp [hqueue]

theorem promises_onDisconnected (c : Client) : c.onDisconnected.promises = c.promises := by
  unfold onDisconnected promises
  simp [Function.comp_def]

theorem promises_takeResponses {fuel : Nat} {c c' : Client} (h : takeResponses fuel c = some c') :
    c'.promises = c.promises := by
  induction fuel generalizing c with
  | zero => cases h
  | succ fuel ih =>
    unfold takeResponses at h
    split at h
    · cases h
      rfl
    · rw [ih h]
      exact promises_setFront c _
    · rw [ih h]
      exact promises_setFront c _

end Client

variable {call : Call}

namespace System

/-- Promises are numbered in the order of their calls. They leave the queue in this
order, each with one value. -/
structure Numbered (s : System) : Prop where
  promises : s.client.promises = List.range s.calls
  waiting_lt : ∀ call ∈ s.waiting, call.id < s.calls
  sent_lt : ∀ id ∈ s.sent, id < s.calls

theorem mem_of_find? {s : System} {id : Nat}
    (h : s.waiting.find? (fun call => call.id = id) = some call) :
    call ∈ s.waiting ∧ call.id = id :=
  ⟨mem_of_find?_eq_some h, by simpa using find?_some h⟩

theorem send_eq (s : System) (inLoopThread : Bool) (call : Call) :
    ∃ functors requests, s.send inLoopThread call =
      { s with pendingFunctors_ := functors, requests := requests } := by
  unfold send sendInLoop
  split
  · split
    · split <;> exact ⟨_, _, rfl⟩
    · exact ⟨_, _, rfl⟩
  · exact ⟨_, _, rfl⟩

theorem numbered_sendOrFail {s : System} (h : s.Numbered) (inLoopThread : Bool)
    (hcall : call ∈ s.waiting) : (s.sendOrFail inLoopThread call).Numbered := by
  unfold sendOrFail
  split
  · refine ⟨?_, fun c hc => h.waiting_lt c (mem_of_mem_erase hc), h.sent_lt⟩
    exact (s.client.promises_setFront _).trans h.promises
  · obtain ⟨functors, requests, hsend⟩ := s.send_eq inLoopThread call
    rw [hsend]
    refine ⟨h.promises, fun c hc => h.waiting_lt c (mem_of_mem_erase hc), ?_⟩
    exact forall_mem_append.mpr ⟨h.sent_lt, forall_mem_singleton.mpr (h.waiting_lt call hcall)⟩

theorem numbered_step (s : System) (e : Event) (h : s.Numbered) : (s.step e).Numbered := by
  cases e with
  | asyncRequest httpReq =>
    refine ⟨?_, ?_, fun id hid => Nat.lt_succ_of_lt (h.sent_lt id hid)⟩
    · have hpush : (s.client.push s.calls).promises = s.client.promises ++ [s.calls] :=
        (append_assoc _ _ _).symm
      rw [step, hpush, h.promises, range_succ]
    · refine forall_mem_append.mpr ⟨?_, forall_mem_singleton.mpr (Nat.lt_succ_self s.calls)⟩
      exact fun call hcall => Nat.lt_succ_of_lt (h.waiting_lt call hcall)
  | resume id inLoopThread expired =>
    dsimp only [step]
    split
    · exact h
    · rename_i call hfind
      split
      · exact h
      · exact numbered_sendOrFail h inLoopThread (mem_of_find? hfind).1
  | runFunctor =>
    dsimp only [step, sendInLoop]
    split
    · exact h
    · split <;> exact { h with }
  | timeout id => exact h
  | connected => exact guarded h fun _ => { h with }
  | closing state | silence => exact guarded_not h fun _ => { h with }
  | disconnected =>
    exact guarded_not h fun _ =>
      ⟨s.client.promises_onDisconnected.trans h.promises, h.waiting_lt, h.sent_lt⟩
  | answer a =>
    dsimp only [step, serve]
    split
    · exact h
    · exact { h with }
  | onMessage n =>
    dsimp only [step, receive]
    split
    · exact h
    · rename_i client hclient
      refine ⟨?_, h.waiting_lt, h.sent_lt⟩
      exact (Client.promises_takeResponses hclient).trans h.promises

theorem numbered_start : ({} : System).Numbered := ⟨rfl, by simp, by simp⟩

/-- In every run the promises get their values in the order of their calls, each one
at most once, and a promise without a value is still in the queue. -/
theorem promises_run (events : List Event) :
    (run step {} events).client.promises = List.range (run step {} events).calls :=
  (invariant_always numbered_step numbered_start events).promises

/-! ## Answers -/

abbrev Coming := List (Nat × Answer)

end System

theorem Answer.bytes_ne_nil (a : Answer) : a.bytes ≠ [] := by
  intro hnil
  have hwhole := a.whole
  rw [hnil, nextResponse_nil] at hwhole
  cases hwhole

/-- What the client has received of a stream that begins with an answer ends inside the
answer, or holds all of it. -/
theorem Answer.buffered (a : Answer) {buf later rest : Bytes} (h : buf ++ later = a.bytes ++ rest) :
    nextResponse buf = .wait ∨
      ∃ more, buf = a.bytes ++ more ∧ more ++ later = rest ∧
        nextResponse buf = .complete a.response more := by
  have hbuf : buf <+: a.bytes ++ rest := ⟨later, h⟩
  have ha : a.bytes <+: a.bytes ++ rest := prefix_append a.bytes rest
  rcases Nat.lt_or_ge buf.length a.bytes.length with hlt | hge
  · left
    obtain ⟨back, hback⟩ := prefix_of_prefix_length_le hbuf ha hlt.le
    apply nextResponse_front (hback ▸ a.whole)
    rintro rfl
    rw [append_nil] at hback
    rw [hback] at hlt
    omega
  · right
    obtain ⟨more, rfl⟩ := prefix_of_prefix_length_le ha hbuf hge
    rw [append_assoc] at h
    exact ⟨more, rfl, append_cancel_left h, nextResponse_append a.whole more⟩

namespace Client

theorem setFront_fields (c : Client) (resp : HttpClientResponse) :
    (c.setFront resp).pendingQueue = c.pendingQueue.tail ∧
      (c.setFront resp).recvBuffer = c.recvBuffer ∧ (c.setFront resp).conn = c.conn := by
  unfold setFront
  cases h : c.pendingQueue with
  | nil => simp [h]
  | cons id ids => simp

theorem setFront_cons {c : Client} {id : Nat} {ids : List Nat} (h : c.pendingQueue = id :: ids)
    (resp : HttpClientResponse) :
    c.setFront resp = { c with pendingQueue := ids, fulfilled := c.fulfilled ++ [(id, resp)] } := by
  unfold setFront
  rw [h]

/-- The loop gives each answer that is there to its own promise, when the promises of
the answers stand in front of the queue in the same order. It leaves the bytes of an
answer that is not all there. -/
theorem takeResponses_answers (coming : System.Coming) {fuel : Nat} {c : Client} {later : Bytes}
    {ids : List Nat} (hbytes : c.recvBuffer ++ later = coming.flatMap (fun p => p.2.bytes))
    (hqueue : c.pendingQueue = coming.map Prod.fst ++ ids) (hfuel : c.recvBuffer.length < fuel) :
    ∃ taken left c', coming = taken ++ left ∧ takeResponses fuel c = some c' ∧
      c'.recvBuffer ++ later = left.flatMap (fun p => p.2.bytes) ∧
      c'.pendingQueue = left.map Prod.fst ++ ids ∧
      c'.fulfilled = c.fulfilled ++ taken.map (fun p => (p.1, p.2.response)) ∧
      c'.conn = c.conn := by
  induction coming generalizing fuel c with
  | nil =>
    obtain ⟨hbuf, hlater⟩ := append_eq_nil_iff.mp hbytes
    obtain ⟨fuel, rfl⟩ := Nat.exists_eq_succ_of_ne_zero (by omega : fuel ≠ 0)
    refine ⟨[], [], c, rfl, ?_, hbytes, hqueue, by simp, rfl⟩
    unfold takeResponses
    rw [hbuf, nextResponse_nil]
  | cons p coming ih =>
    obtain ⟨id, a⟩ := p
    obtain ⟨fuel, rfl⟩ := Nat.exists_eq_succ_of_ne_zero (by omega : fuel ≠ 0)
    unfold takeResponses
    rcases a.buffered hbytes with hwait | ⟨more, hbuf, hrest, hnext⟩
    · rw [hwait]
      exact ⟨[], (id, a) :: coming, c, rfl, rfl, hbytes, hqueue, by simp, rfl⟩
    · -- the first answer is all there, and its promise is in front
      have hlen : more.length < fuel := by
        have := length_pos_iff.mpr a.bytes_ne_nil
        rw [hbuf, length_append] at hfuel
        omega
      rw [hnext]
      dsimp only
      rw [setFront_cons hqueue]
      obtain ⟨taken, left, c', hsplit, htake, hleft, hqueue', hful, hconn⟩ :=
        ih (c := { c with
          recvBuffer := more
          pendingQueue := coming.map Prod.fst ++ ids
          fulfilled := c.fulfilled ++ [(id, a.response)] }) hrest rfl hlen
      refine ⟨(id, a) :: taken, left, c', by rw [hsplit]; rfl, htake, hleft, hqueue', ?_, hconn⟩
      rw [hful]
      simp

end Client

namespace System

/-- The queue in line with the connection: first the promises of the answers on their
way, then those of the requests without an answer, then those that were sent and are not
there, then those that have not been sent. As long as the socket takes bytes, those that
are not there wait in the loop, and behind them are those that `send` dropped. -/
structure Lined (s : System) (coming : Coming) (behind later : List Nat) : Prop where
  queue : s.client.pendingQueue =
    (coming.map Prod.fst ++ s.requests.map Call.id ++ behind) ++ later
  sent : ∀ id ∈ coming.map Prod.fst ++ s.requests.map Call.id ++ behind, id ∈ s.sent
  unsent : ∀ id ∈ later, id ∉ s.sent
  bytes : s.client.recvBuffer ++ s.inFlight = coming.flatMap (fun p => p.2.bytes)
  answers : ∀ p ∈ coming, (p.1, p.2.response) ∈ s.answered
  waits : s.silent = false → ∃ dropped, behind = s.pendingFunctors_.map Call.id ++ dropped ∧
    (s.client.conn = some .kConnected → dropped = [])
  fresh : s.client.conn = none →
    coming = [] ∧ s.requests = [] ∧ behind = [] ∧ s.pendingFunctors_ = [] ∧ s.silent = false

/-- What holds in every run where calls send in turn. -/
structure Paired (s : System) : Prop where
  numbered : s.Numbered
  lined : ∃ coming behind later, s.Lined coming behind later
  pairs : s.PairsResponses

variable {s : System} {behind later : List Nat}

theorem unsent_eq {coming : Coming} (h : s.Lined coming behind later) : s.unsent = later := by
  unfold unsent
  rw [h.queue, filter_append, filter_eq_nil_iff.mpr, nil_append, filter_eq_self.mpr]
  · intro id hid
    simpa using h.unsent id hid
  · intro id hid
    simpa using h.sent id hid

/-- Nothing is on the connection or on its way there. -/
structure Idle (s : System) : Prop where
  requests : s.requests = []
  functors : s.pendingFunctors_ = []
  heard : s.silent = false
  bytes : s.client.recvBuffer ++ s.inFlight = []
  unsent : ∀ id ∈ s.client.pendingQueue, id ∉ s.sent

theorem lined_idle (h : s.Idle) : s.Lined [] [] s.client.pendingQueue where
  queue := by simp [h.requests]
  sent := by simp [h.requests]
  unsent := h.unsent
  bytes := by simpa using h.bytes
  answers := by simp
  waits _ := ⟨[], by simp [h.functors], fun _ => rfl⟩
  fresh _ := ⟨rfl, h.requests, rfl, h.functors, h.heard⟩

theorem idle_of_lined {coming : Coming} (h : s.Lined coming behind later)
    (hconn : s.client.conn = none) : s.Idle := by
  obtain ⟨rfl, hrequests, rfl, hfunctors, hopen⟩ := h.fresh hconn
  have hqueue : s.client.pendingQueue = later := by simpa [hrequests] using h.queue
  refine ⟨hrequests, hfunctors, hopen, by simpa using h.bytes, ?_⟩
  rw [hqueue]
  exact h.unsent

theorem pairs_setFront (h : s.PairsResponses) {resp : HttpClientResponse}
    (hresp : resp.success = false) :
    ∀ p ∈ (s.client.setFront resp).fulfilled, p.2.success = true → p ∈ s.answered := by
  unfold Client.setFront
  split
  · exact h
  · exact forall_mem_append.mpr ⟨h, forall_mem_singleton.mpr fun hsuccess => by
      simp [hresp] at hsuccess⟩

theorem sent_next {coming : Coming} {id : Nat} (hnum : s.Numbered)
    (hl : s.Lined coming behind (id :: later)) :
    (∀ k ∈ (coming.map Prod.fst ++ s.requests.map Call.id ++ behind) ++ [id], k ∈ s.sent ++ [id]) ∧
      ∀ k ∈ later, k ∉ s.sent ++ [id] := by
  have hnodup : (id :: later).Nodup := by
    have hall : s.client.promises.Nodup := hnum.promises ▸ nodup_range
    have hqueue := hall.of_append_right
    rw [hl.queue] at hqueue
    exact hqueue.of_append_right
  constructor
  · exact fun k hk => mem_append.mpr ((mem_append.mp hk).imp_left (hl.sent k))
  · intro k hk hsent
    rcases mem_append.mp hsent with hsent | hsent
    · exact hl.unsent k (mem_cons_of_mem _ hk) hsent
    · rw [mem_singleton.mp hsent] at hk
      exact (List.nodup_cons.mp hnodup).1 hk

/-! ## One step -/

theorem paired_asyncRequest (h : s.Paired) (httpReq : Bytes) :
    (s.step (.asyncRequest httpReq)).Paired := by
  obtain ⟨coming, behind, later, hl⟩ := h.lined
  refine ⟨numbered_step s _ h.numbered, ⟨coming, behind, later ++ [s.calls], ?_⟩, h.pairs⟩
  refine { hl with queue := ?_, unsent := ?_ }
  · have hqueue : (s.client.push s.calls).pendingQueue = s.client.pendingQueue ++ [s.calls] := rfl
    dsimp only [step]
    rw [hqueue, hl.queue, append_assoc _ later]
  · refine forall_mem_append.mpr ⟨hl.unsent, forall_mem_singleton.mpr fun hsent => ?_⟩
    exact absurd (h.numbered.sent_lt s.calls hsent) (Nat.lt_irrefl s.calls)

/-- A call that gives up takes a promise from a queue in which none has been sent. -/
theorem paired_fail (h : s.Paired) (inLoopThread : Bool) (hcall : call ∈ s.waiting)
    (hconn : s.client.conn = none) : (s.sendOrFail inLoopThread call).Paired := by
  obtain ⟨coming, behind, later, hl⟩ := h.lined
  have hidle := idle_of_lined hl hconn
  have hnum := numbered_sendOrFail h.numbered inLoopThread hcall
  unfold sendOrFail at hnum ⊢
  rw [hconn] at hnum ⊢
  obtain ⟨hqueue, hbuf, -⟩ := s.client.setFront_fields { error := text "not connected" }
  refine ⟨hnum, ⟨[], [], _, lined_idle { hidle with bytes := ?_, unsent := ?_ }⟩,
    pairs_setFront h.pairs rfl⟩
  · dsimp only [Client.failNotConnected]
    rw [hbuf]
    exact hidle.bytes
  · dsimp only [Client.failNotConnected]
    rw [hqueue]
    exact fun id hid => hidle.unsent id (mem_of_mem_tail hid)

theorem send_later {inLoopThread : Bool} {state : StateE} (call : Call)
    (hstate : s.client.conn = some state)
    (hlater : ¬(state = .kConnected ∧ inLoopThread = true ∧ s.silent = false)) :
    ∃ functors, s.send inLoopThread call = { s with pendingFunctors_ := functors } ∧
      (s.silent = false →
        functors = s.pendingFunctors_ ++ if state = .kConnected then [call] else []) := by
  unfold send sendInLoop
  rw [hstate]
  by_cases hup : state = .kConnected
  · subst hup
    rw [if_pos rfl]
    split
    · rename_i hloop
      have hsilent : s.silent = true := by simpa [hloop] using hlater
      rw [if_pos hsilent]
      exact ⟨s.pendingFunctors_, rfl, by simp [hsilent]⟩
    · exact ⟨_, rfl, fun _ => rfl⟩
  · rw [if_neg (by simpa using hup)]
    exact ⟨s.pendingFunctors_, rfl, by simp [hup]⟩

/-- A call that sends in turn moves its promise from those not sent to the end of those
sent, as its request goes to the end of the requests or of those that wait, or is lost. -/
theorem paired_send (h : s.Paired) {inLoopThread : Bool} (hcall : call ∈ s.waiting)
    (hconn : s.client.conn ≠ none) (hturn : s.unsent.head? = some call.id)
    (hfree : inLoopThread = true → s.pendingFunctors_ = []) :
    (s.sendOrFail inLoopThread call).Paired := by
  obtain ⟨coming, behind, later, hl⟩ := h.lined
  have hnum := numbered_sendOrFail h.numbered inLoopThread hcall
  rw [unsent_eq hl] at hturn
  obtain ⟨later, rfl⟩ := head?_eq_some_iff.mp hturn
  obtain ⟨state, hstate⟩ := Option.ne_none_iff_exists'.mp hconn
  obtain ⟨hsent, hlater⟩ := sent_next h.numbered hl
  unfold sendOrFail at hnum ⊢
  rw [hstate] at hnum ⊢
  dsimp only at hnum ⊢
  -- the request comes to the requests, with nothing between, or to those behind them
  by_cases hwire : state = .kConnected ∧ inLoopThread = true ∧ s.silent = false
  · obtain ⟨rfl, hloop, hopen⟩ := hwire
    obtain ⟨dropped, rfl, hdropped⟩ := hl.waits hopen
    have hbehind : s.pendingFunctors_.map Call.id ++ dropped = [] := by
      simp [hfree hloop, hdropped hstate]
    rw [hbehind] at hl hsent
    have hwrite : s.send inLoopThread call = { s with requests := s.requests ++ [call] } := by
      simp [send, sendInLoop, hstate, hloop, hopen]
    rw [hwrite] at hnum ⊢
    refine ⟨hnum, ⟨coming, [], later, by simp [hl.queue], ?_, hlater, hl.bytes, hl.answers, ?_,
      ?_⟩, h.pairs⟩
    · simpa using hsent
    · exact fun _ => ⟨[], by simp [hfree hloop], fun _ => rfl⟩
    · exact fun hnone => absurd hnone hconn
  · obtain ⟨functors, hkeep, hfunctors⟩ := send_later call hstate hwire
    rw [hkeep] at hnum ⊢
    refine ⟨hnum, ⟨coming, behind ++ [call.id], later, by simp [hl.queue], ?_, hlater, hl.bytes,
      hl.answers, ?_, fun hnone => absurd hnone hconn⟩, h.pairs⟩
    · simpa using hsent
    · intro hopen
      obtain ⟨dropped, rfl, hdropped⟩ := hl.waits hopen
      by_cases hup : state = .kConnected
      · refine ⟨[], ?_, fun _ => rfl⟩
        simp [hfunctors hopen, hup, hdropped (hup ▸ hstate)]
      · refine ⟨dropped ++ [call.id], by simp [hfunctors hopen, hup], fun hnow => ?_⟩
        exact absurd (Option.some.inj (hstate.symm.trans hnow)) hup

theorem paired_runFunctor (h : s.Paired) : (s.step .runFunctor).Paired := by
  have hnum := numbered_step s .runFunctor h.numbered
  obtain ⟨coming, behind, later, hl⟩ := h.lined
  dsimp only [step, sendInLoop] at hnum ⊢
  cases hfunctors : s.pendingFunctors_ with
  | nil => exact h
  | cons call functors =>
    have hup : s.client.conn ≠ none := by
      intro hnone
      simpa [hfunctors] using (hl.fresh hnone).2.2.2.1
    rw [hfunctors] at hnum
    dsimp only at hnum ⊢
    split at hnum
    · rename_i hsilent
      rw [if_pos hsilent]
      exact ⟨hnum, ⟨coming, behind, later, { hl with
        waits := by simp [hsilent], fresh := fun hnone => absurd hnone hup }⟩, h.pairs⟩
    · rename_i hopen
      rw [if_neg hopen]
      rw [Bool.not_eq_true] at hopen
      obtain ⟨dropped, rfl, hdropped⟩ := hl.waits hopen
      refine ⟨hnum, ⟨coming, functors.map Call.id ++ dropped, later, ?_, ?_, hl.unsent, hl.bytes,
        hl.answers, fun _ => ⟨dropped, rfl, hdropped⟩, fun hnone => absurd hnone hup⟩, h.pairs⟩
      · simp [hl.queue, hfunctors]
      · intro id hid
        apply hl.sent
        simpa [hfunctors] using hid

theorem paired_connected (h : s.Paired) : (s.step .connected).Paired := by
  refine guarded h fun hconn => ?_
  have hnum := numbered_step s .connected h.numbered
  obtain ⟨coming, behind, later, hl⟩ := h.lined
  have hidle := idle_of_lined hl hconn
  rw [step, if_pos hconn] at hnum
  exact ⟨hnum, ⟨[], [], _, lined_idle { hidle with }⟩, h.pairs⟩

theorem paired_closing (h : s.Paired) (state : StateE) : (s.step (.closing state)).Paired := by
  refine guarded_not h fun hgo => ?_
  have hnum := numbered_step s (.closing state) h.numbered
  obtain ⟨coming, behind, later, hl⟩ := h.lined
  rw [step, if_neg hgo] at hnum
  refine ⟨hnum, ⟨coming, behind, later, { hl with waits := ?_, fresh := nofun }⟩, h.pairs⟩
  intro hopen
  obtain ⟨dropped, hbehind, -⟩ := hl.waits (Bool.or_eq_false_iff.mp hopen).1
  exact ⟨dropped, hbehind, fun hup => absurd (Or.inr (Option.some.inj hup)) hgo⟩

theorem paired_silence (h : s.Paired) : (s.step .silence).Paired := by
  refine guarded_not h fun hconn => ?_
  have hnum := numbered_step s .silence h.numbered
  obtain ⟨coming, behind, later, hl⟩ := h.lined
  rw [step, if_neg hconn] at hnum
  exact ⟨hnum, ⟨coming, behind, later,
    { hl with waits := nofun, fresh := fun hnone => absurd hnone hconn }⟩, h.pairs⟩

theorem paired_disconnected (h : s.Paired) : (s.step .disconnected).Paired := by
  refine guarded_not h fun hconn => ?_
  have hnum := numbered_step s .disconnected h.numbered
  rw [step, if_neg hconn] at hnum
  refine ⟨hnum, ⟨[], [], _, lined_idle ⟨rfl, rfl, rfl, rfl, ?_⟩⟩, ?_⟩
  · simp [Client.onDisconnected]
  intro p hp hsuccess
  rcases mem_append.mp hp with hp | hp
  · exact h.pairs p hp hsuccess
  · obtain ⟨id, -, rfl⟩ := mem_map.mp hp
    cases hsuccess

theorem paired_answer (h : s.Paired) (a : Answer) : (s.step (.answer a)).Paired := by
  have hnum := numbered_step s (.answer a) h.numbered
  obtain ⟨coming, behind, later, hl⟩ := h.lined
  dsimp only [step, serve] at hnum ⊢
  cases hrequests : s.requests with
  | nil => exact h
  | cons call requests =>
    rw [hrequests] at hnum
    refine ⟨hnum, ⟨coming ++ [(call.id, a)], behind, later, ?_, ?_, hl.unsent, ?_, ?_, hl.waits,
      ?_⟩, ?_⟩
    · simp [hl.queue, hrequests]
    · intro id hid
      apply hl.sent
      rw [hrequests]
      simpa using hid
    · rw [← append_assoc, hl.bytes]
      simp
    · refine forall_mem_append.mpr ⟨fun p hp => mem_append_left _ (hl.answers p hp), ?_⟩
      simp
    · intro hnone
      have := (hl.fresh hnone).2.1
      rw [hrequests] at this
      cases this
    · intro p hp hsuccess
      exact mem_append_left _ (h.pairs p hp hsuccess)

theorem paired_onMessage (h : s.Paired) (n : Nat) : (s.step (.onMessage n)).Paired := by
  have hnum := numbered_step s (.onMessage n) h.numbered
  obtain ⟨coming, behind, later, hl⟩ := h.lined
  have hbytes : (s.client.recvBuffer ++ s.inFlight.take n) ++ s.inFlight.drop n =
      coming.flatMap (fun p => p.2.bytes) := by
    rw [append_assoc, take_append_drop]
    exact hl.bytes
  have hqueue : s.client.pendingQueue =
      coming.map Prod.fst ++ (s.requests.map Call.id ++ behind ++ later) := by
    rw [hl.queue]
    simp
  obtain ⟨taken, left, c, rfl, htake, hleft, hqueue', hful, hconn⟩ :=
    Client.takeResponses_answers coming (c := { s.client with
      recvBuffer := s.client.recvBuffer ++ s.inFlight.take n }) hbytes hqueue (Nat.lt_succ_self _)
  have hclient : s.client.onMessage (s.inFlight.take n) = some c := htake
  dsimp only [step, receive] at hnum ⊢
  rw [hclient] at hnum ⊢
  refine ⟨hnum, ⟨left, behind, later, ?_, ?_, hl.unsent, hleft, ?_, ?_, ?_⟩, ?_⟩
  · simp [hqueue']
  · intro id hid
    apply hl.sent
    rw [map_append, append_assoc, append_assoc]
    exact mem_append_right _ (by simpa using hid)
  · intro p hp
    exact hl.answers p (mem_append_right _ hp)
  · rw [hconn]
    exact hl.waits
  · intro hnone
    rw [hconn] at hnone
    obtain ⟨hcoming, hrest⟩ := hl.fresh hnone
    exact ⟨(append_eq_nil_iff.mp hcoming).2, hrest⟩
  · intro p hp hsuccess
    rw [hful] at hp
    rcases mem_append.mp hp with hp | hp
    · exact h.pairs p hp hsuccess
    · obtain ⟨q, hq, rfl⟩ := mem_map.mp hp
      exact hl.answers q (mem_append_left _ hq)

theorem paired_resume (h : s.Paired) (id : Nat) (inLoopThread expired : Bool)
    (hturn : s.SendsInTurn (.resume id inLoopThread expired)) :
    (s.step (.resume id inLoopThread expired)).Paired := by
  dsimp only [step]
  split
  · exact h
  · rename_i call hfind
    obtain ⟨hcall, rfl⟩ := mem_of_find? hfind
    split
    · exact h
    · by_cases hconn : s.client.conn = none
      · exact paired_fail h inLoopThread hcall hconn
      · obtain ⟨hfirst, hfree⟩ := hturn ⟨call, hcall, rfl⟩ hconn
        exact paired_send h hcall hconn hfirst hfree

theorem paired_step (s : System) (e : Event) (hturn : s.SendsInTurn e) (h : s.Paired) :
    (s.step e).Paired := by
  cases e with
  | asyncRequest httpReq => exact paired_asyncRequest h httpReq
  | resume id inLoopThread expired => exact paired_resume h id inLoopThread expired hturn
  | runFunctor => exact paired_runFunctor h
  | timeout id => exact h
  | connected => exact paired_connected h
  | closing state => exact paired_closing h state
  | silence => exact paired_silence h
  | disconnected => exact paired_disconnected h
  | answer a => exact paired_answer h a
  | onMessage n => exact paired_onMessage h n

theorem paired_start : ({} : System).Paired :=
  ⟨numbered_start, ⟨[], [], [], lined_idle ⟨rfl, rfl, rfl, rfl, by simp⟩⟩, by simp [PairsResponses]⟩

/-! ## Whole runs -/

/-- In every run in which each call that sends is the oldest one in the queue that has
not sent, and goes past no send that waits in the loop, each successful promise has the
response to the request of its own call. -/
theorem responses_go_to_their_own_calls_when_calls_send_in_turn (events : List Event)
    (hturn : Meets step SendsInTurn {} events) : (run step {} events).PairsResponses :=
  (invariant_run paired_step hturn paired_start).pairs

def answerA : Answer :=
  ⟨text "HTTP/1.1 200 OK\r\nContent-Length: 1\r\n\r\na",
    { statusCode := 200, statusMessage := text "OK", body := text "a", success := true
      headers := (∅ : http_request.StringMap).insert (text "content-length") (text "1") },
    by decide +kernel⟩

def answerB : Answer :=
  ⟨text "HTTP/1.1 200 OK\r\nContent-Length: 1\r\n\r\nb",
    { statusCode := 200, statusMessage := text "OK", body := text "b", success := true
      headers := (∅ : http_request.StringMap).insert (text "content-length") (text "1") },
    by decide +kernel⟩

/-- Call 0 is lost with its connection. Calls 1 and 2 push before either sends, and
send in this order: 1 in another thread, and 2 in the loop thread, behind the functor of
1. Their answers come in two pieces, cut inside the first. -/
def sendInOrder : List Event :=
  [.asyncRequest [], .connected, .resume 0 false false, .disconnected, .asyncRequest [],
    .asyncRequest [], .connected, .resume 1 false false, .runFunctor, .timeout 1,
    .resume 2 true false, .answer answerA, .answer answerB, .onMessage 10, .onMessage 200]

theorem responses_go_to_their_own_calls_after_a_reconnect :
    Meets step SendsInTurn {} sendInOrder ∧ (run step {} sendInOrder).PairsResponses ∧
      (1, answerA.response) ∈ (run step {} sendInOrder).client.fulfilled :=
  ⟨by decide +kernel,
    responses_go_to_their_own_calls_when_calls_send_in_turn sendInOrder (by decide +kernel),
    by decide +kernel⟩

/-- Two calls push, and the second one sends first: from another thread as well, or from
the loop thread when the first has sent and its request waits there. The server answers the
request of the second with `b`, and the client gives this response to the first call. -/
theorem a_response_goes_to_another_call_when_sends_cross :
    ¬(run step {} [.connected, .asyncRequest [], .asyncRequest [], .resume 1 false false,
      .resume 0 false false, .runFunctor, .runFunctor, .answer answerB, .answer answerA,
      .onMessage 200]).PairsResponses ∧
    ¬(run step {} [.connected, .asyncRequest [], .resume 0 false false, .asyncRequest [],
      .resume 1 true false, .runFunctor, .answer answerB, .answer answerA,
      .onMessage 200]).PairsResponses := by
  refine ⟨?_, ?_⟩ <;> decide +kernel

end System

end mymuduo.http_client
