-- `ReactorRpcClient` (src/rpc/RpcClient.h): calls that wait under their ids for a
-- response. A message callback takes everything that was read as the end of one
-- response, and a lost connection tells no call.
import Mathlib.Data.List.Nodup
import Mymuduo.Json
import Mymuduo.Lines
import Mymuduo.Runs
import Mymuduo.TcpConnection

open List bytes json words runs
open Function (update update_self update_of_ne update_apply)

namespace mymuduo.reactor_rpc_client

open tcp_connection

/-! ## The client -/

/-- What a future gets. A promise that goes away without a value is broken. -/
inductive Outcome
  | value (v : Json)
  | broken

/-- A promise in `pendingCalls_` is the number of its call. -/
structure ReactorRpcClient where
  nextId_ : Int := 1
  pendingCalls_ : Int → Option Nat := fun _ => none
  conn_ : Option StateE := none

def requestJson (method : Bytes) (params : Json) (id : Int) : Json :=
  .object (setField (text "id") (.integer id) (setField (text "params") params
    (setField (text "method") (.string method)
      (setField (text "jsonrpc") (.string (text "2.0")) []))))

def httpReq (body : Bytes) : Bytes :=
  text "POST /rpc HTTP/1.1\r\n" ++ text "Content-Type: application/json\r\n" ++
    text "Content-Length: " ++ decimal body.length ++ text "\r\n" ++
    text "Connection: keep-alive\r\n" ++ text "\r\n" ++ body

def notConnected : Json := .object [(text "error", .string (text "not connected"))]

/-- The error of a response, or else its result. -/
def answerOf (resp : Json) : Json :=
  match resp.field (text "error") with
  | some error => error
  | none => (resp.field (text "result")).getD .null

/-- The message callback: the client behind it, and the promise that gets a value. What was
read is gone, whether it was used or not. -/
def ReactorRpcClient.onMessage (library : Library) (client : ReactorRpcClient) (data : Bytes) :
    ReactorRpcClient × Option (Nat × Json) :=
  match find (text "\r\n\r\n") data with
  | none => (client, none)
  | some bodyStart =>
    match library.parse (data.drop (bodyStart + 4)) with
    | none => (client, none)
    | some resp =>
      match library.valueInt (text "id") (-1) resp with
      | .error _ => (client, none)
      | .ok id =>
        match client.pendingCalls_ id with
        | none => (client, none)
        | some call =>
          ({ client with pendingCalls_ := update client.pendingCalls_ id none },
            some (call, answerOf resp))

/-! ## Calls, connection and server -/

structure Response (library : Library) where
  id : Int
  head : Bytes
  body : Bytes
  fields : List (Bytes × Json)
  low : -2 ^ 31 ≤ id
  high : id < 2 ^ 31
  blank : find (text "\r\n\r\n") (head ++ (text "\r\n\r\n" ++ body)) = some head.length
  read : library.parse body = some (.object fields)
  own : getField (text "id") fields = some (.integer id)

section System

variable {library : Library}

namespace Response

def bytes (r : Response library) : Bytes := r.head ++ (text "\r\n\r\n" ++ r.body)

def answer (r : Response library) : Json := answerOf (.object r.fields)

theorem head_lt (r : Response library) : r.head.length < r.bytes.length := by
  unfold bytes
  rw [length_append, length_append, length_crlf_crlf]
  omega

end Response

/-- Where a call is: it has its id, it is registered, its request is with the server, its
response is on the way. -/
inductive Stage
  | idle
  | begun
  | waiting
  | asked
  | answered
  | over
  deriving DecidableEq

/-- The client, its calls with their ids and what their futures got, and the connection: the
responses on their way and how much of the first one was read. The last three fields are a
record of what was sent, of the responses that were read to their end, and of the calls that
were open when a connection went down; no step reads them. -/
structure System (library : Library) where
  client : ReactorRpcClient := {}
  made : Nat := 0
  ids : Nat → Int := fun _ => 0
  requests : Nat → Bytes := fun _ => []
  stage : Nat → Stage := fun _ => .idle
  outcome : Nat → Option Outcome := fun _ => none
  coming : List (Nat × Response library) := []
  offset : Nat := 0
  sent : List (Nat × Bytes) := []
  arrived : List (Nat × Response library) := []
  cutOff : List Nat := []

inductive Event (library : Library)
  | asyncCall (method : Bytes) (params : Json)
  | register (k : Nat)
  | finish (k : Nat)
  | connected
  | closing (state : StateE)
  | disconnected
  | answer (k : Nat) (r : Response library)
  | deliver (n : Nat)

namespace System

/-- The responses that end within the first `n` bytes, the bytes of the next one, and the
rest. -/
def settle : Nat → List (Nat × Response library) →
    List (Nat × Response library) × Nat × List (Nat × Response library)
  | n, [] => ([], n, [])
  | n, e :: coming =>
    if e.2.bytes.length ≤ n then
      let rest := settle (n - e.2.bytes.length) coming
      (e :: rest.1, rest.2)
    else ([], n, e :: coming)

def pending (s : System library) : List Nat :=
  (range s.made).filter (fun k => s.client.pendingCalls_ (s.ids k) = some k)

/-- Up to the critical sections: the id, and the text of the request. If `dump` throws, the id
is used up and there is no call. -/
def asyncCall (s : System library) (method : Bytes) (params : Json) : System library :=
  let id := s.client.nextId_
  let client := { s.client with nextId_ := int32 (id + 1) }
  match library.dump (requestJson method params id) with
  | none => { s with client }
  | some body =>
    { s with
      client
      made := s.made + 1
      ids := update s.ids s.made id
      requests := update s.requests s.made (httpReq body)
      stage := update s.stage s.made .begun }

/-- The first critical section. A promise under the same id goes away. -/
def register (s : System library) (k : Nat) : System library :=
  { s with
    client := { s.client with
      pendingCalls_ := update s.client.pendingCalls_ (s.ids k) (some k) }
    stage := update s.stage k .waiting
    outcome := match s.client.pendingCalls_ (s.ids k) with
      | some old => update s.outcome old (some .broken)
      | none => s.outcome }

/-- The second critical section, with a connection or at the end of the three seconds. A
connection that is not in the state `kConnected` any more drops the text. -/
def finish (s : System library) (k : Nat) : System library :=
  match s.client.conn_ with
  | some state =>
    { s with
      stage := update s.stage k (if state = .kConnected then .asked else .over)
      sent := s.sent ++ [(k, s.requests k)] }
  | none =>
    match s.client.pendingCalls_ (s.ids k) with
    | some call =>
      { s with
        client := { s.client with
          pendingCalls_ := update s.client.pendingCalls_ (s.ids k) none }
        stage := update s.stage k .over
        outcome := update s.outcome call (some (.value notConnected)) }
    | none => { s with stage := update s.stage k .over }

/-- The server keeps nothing for a connection that is gone, and the client only drops its
pointer. -/
def disconnect (s : System library) : System library :=
  { s with
    client := { s.client with conn_ := none }
    stage := fun k => if s.stage k = .asked ∨ s.stage k = .answered then .over else s.stage k
    coming := []
    offset := 0
    cutOff := s.cutOff ++ s.pending }

/-- What a read of `n` bytes hands to the message callback. -/
def piece (s : System library) (n : Nat) : Bytes :=
  ((s.coming.flatMap (fun e => e.2.bytes)).drop s.offset).take n

def deliver (s : System library) (n : Nat) : System library :=
  let called := s.client.onMessage library (s.piece n)
  let settled := settle (s.offset + n) s.coming
  { s with
    client := called.1
    outcome := match called.2 with
      | some (call, v) => update s.outcome call (some (.value v))
      | none => s.outcome
    stage := fun k => if k ∈ settled.1.map Prod.fst then .over else s.stage k
    coming := settled.2.2
    offset := settled.2.1
    arrived := s.arrived ++ settled.1 }

/-- A step that cannot happen changes nothing. -/
def step (s : System library) : Event library → System library
  | .asyncCall method params => s.asyncCall method params
  | .register k => if s.stage k = .begun then s.register k else s
  | .finish k => if s.stage k = .waiting then s.finish k else s
  | .connected =>
    if s.client.conn_ = none then { s with client := { s.client with conn_ := some .kConnected } }
    else s
  | .closing state =>
    if s.client.conn_ = none ∨ state = .kConnected then s
    else { s with client := { s.client with conn_ := some state } }
  | .disconnected => if s.client.conn_ = none then s else s.disconnect
  | .answer k r =>
    if s.stage k = .asked ∧ r.id = s.ids k then
      { s with stage := update s.stage k .answered, coming := s.coming ++ [(k, r)] }
    else s
  | .deliver n =>
    if 0 < n ∧ s.offset + n ≤ (s.coming.flatMap (fun e => e.2.bytes)).length then s.deliver n else s

/-! ## What a call is to get -/

def IsError : Outcome → Prop
  | .value v => (v.field (text "error")).isSome
  | .broken => True

/-- Every response that was read to its end has resolved the call with its id. A future has
the answer of its own response, or its request was never sent. A call that was open when
the connection went down has an error. -/
structure Lawful (s : System library) : Prop where
  resolved : ∀ e ∈ s.arrived, e.2.id = s.ids e.1 ∧ s.outcome e.1 = some (.value e.2.answer)
  own : ∀ k v, s.outcome k = some v → (∃ e ∈ s.arrived, e.1 = k ∧ v = .value e.2.answer) ∨
    v = .value notConnected ∧ ∀ request, (k, request) ∉ s.sent
  failed : ∀ k ∈ s.cutOff, ∃ v, s.outcome k = some v ∧ IsError v

/-- The step is of a kind that the client can follow: no id is used twice at a time, no call is
open when the connection goes down, and a read ends within the head of a response or with the
response. -/
def Careful (s : System library) : Event library → Prop
  | .register k => s.stage k = .begun → s.client.pendingCalls_ (s.ids k) = none
  | .disconnected => s.client.conn_ ≠ none → s.pending = []
  | .deliver n => ∀ e ∈ s.coming.head?,
      s.offset + n ≤ e.2.head.length ∨ s.offset + n = e.2.bytes.length
  | _ => True

instance (s : System library) (e : Event library) : Decidable (s.Careful e) := by
  unfold Careful
  cases e <;> infer_instance

/-- What the stages say of the responses. -/
structure Stream (s : System library) : Prop where
  coming : ∀ e ∈ s.coming, s.stage e.1 = .answered ∧ e.2.id = s.ids e.1
  nodup : (s.coming.map Prod.fst).Nodup
  offset : ∀ e ∈ s.coming.head?, s.offset ≤ e.2.head.length
  rest : s.coming = [] → s.offset = 0
  done : ∀ e ∈ s.arrived, s.stage e.1 = .over
  cutOff : s.cutOff = []

/-- What they say of the client. -/
structure Tracks (s : System library) : Prop extends Stream s where
  waits : ∀ k, s.stage k = .waiting ∨ s.stage k = .asked ∨ s.stage k = .answered →
    s.client.pendingCalls_ (s.ids k) = some k ∧ s.outcome k = none
  early : ∀ k, s.stage k = .idle ∨ s.stage k = .begun ∨ s.stage k = .waiting →
    s.outcome k = none ∧ ∀ request, (k, request) ∉ s.sent
  born : ∀ k, s.made ≤ k → s.stage k = .idle

variable {s s' : System library}

theorem tracks_start : Tracks ({} : System library) where
  coming _ he := absurd he not_mem_nil
  nodup := nodup_nil
  offset _ he := by cases he
  rest _ := rfl
  done _ he := absurd he not_mem_nil
  cutOff := rfl
  waits k h := by simp at h
  early _ _ := ⟨rfl, fun _ => not_mem_nil⟩
  born _ _ := rfl

theorem lawful_start : Lawful ({} : System library) where
  resolved _ he := absurd he not_mem_nil
  own _ _ h := by cases h
  failed _ hk := absurd hk not_mem_nil

variable {k : Nat} {client : ReactorRpcClient} {stages : Nat → Stage} {ids : Nat → Int}
  {outcome : Nat → Option Outcome} {sent : List (Nat × Bytes)}

theorem Stream.keep (h : Stream s) {made : Nat} {requests : Nat → Bytes}
    (hstage : ∀ k, s.stage k = .answered ∨ s.stage k = .over →
      stages k = s.stage k ∧ ids k = s.ids k) :
    Stream { s with client, made, ids, requests, stage := stages, outcome, sent } := by
  refine { h with coming := fun e he => ?_, done := fun e he => ?_ }
  · obtain ⟨hanswered, hid⟩ := h.coming e he
    obtain ⟨hsame, hids⟩ := hstage e.1 (Or.inl hanswered)
    exact ⟨hsame.trans hanswered, hid.trans hids.symm⟩
  · have hover := h.done e he
    exact (hstage e.1 (Or.inr hover)).1.trans hover

theorem Stream.move (h : Stream s) {stage : Stage}
    (hk : s.stage k ≠ .answered ∧ s.stage k ≠ .over) :
    Stream { s with client, stage := update s.stage k stage, outcome, sent } := by
  refine h.keep fun j hj => ⟨update_of_ne ?_ .., rfl⟩
  rintro rfl
  exact hj.elim hk.1 hk.2

def Open (stage : Stage) : Prop := stage = .waiting ∨ stage = .asked ∨ stage = .answered

theorem Tracks.move (h : Tracks s) {stage : Stage} {coming arrived : List (Nat × Response library)}
    {offset : Nat} (hk : s.stage k ≠ .idle) (hstream : Stream s')
    (hs' : s' =
      { s with client, stage := update s.stage k stage, outcome, sent, coming, offset, arrived })
    (hwaits : Open stage → client.pendingCalls_ (s.ids k) = some k ∧ outcome k = none)
    (hearly : stage = .idle ∨ stage = .begun ∨ stage = .waiting → outcome k = none ∧ ∀ request,
      (k, request) ∉ sent)
    (hpending : ∀ j, j ≠ k → Open (s.stage j) → client.pendingCalls_ (s.ids j) = some j)
    (houtcome : ∀ j, j ≠ k → outcome j = s.outcome j)
    (hsent : ∀ j, j ≠ k → ∀ request, (j, request) ∈ sent → (j, request) ∈ s.sent) : Tracks s' := by
  subst hs'
  refine ⟨hstream, ?_, ?_, ?_⟩
  · intro j hj
    by_cases hjk : j = k
    · subst hjk
      simp only [update_self] at hj
      exact hwaits hj
    · simp only [update_of_ne hjk] at hj
      exact ⟨hpending j hjk hj, (houtcome j hjk).trans (h.waits j hj).2⟩
  · intro j hj
    by_cases hjk : j = k
    · subst hjk
      simp only [update_self] at hj
      exact hearly hj
    · simp only [update_of_ne hjk] at hj
      obtain ⟨hnone, hunsent⟩ := h.early j hj
      exact ⟨(houtcome j hjk).trans hnone,
        fun request hmem => hunsent request (hsent j hjk request hmem)⟩
  · intro j hj
    have hidle := h.born j hj
    have hjk : j ≠ k := by
      rintro rfl
      exact hk hidle
    exact (update_of_ne hjk ..).trans hidle

theorem mem_pending (h : Tracks s) (hk : Open (s.stage k)) : k ∈ s.pending := by
  refine mem_filter.mpr ⟨?_, by simpa using (h.waits k hk).1⟩
  rw [mem_range]
  by_contra hge
  simp [Open, h.born k (Nat.le_of_not_lt hge)] at hk

/-! ## Steps of the calls -/

theorem tracks_client (h : Tracks s) (hclient : client.pendingCalls_ = s.client.pendingCalls_) :
    Tracks { s with client } := by
  refine ⟨{ h with }, ?_, h.early, h.born⟩
  rw [hclient]
  exact h.waits

theorem lawful_client (h : Lawful s) (client : ReactorRpcClient) : Lawful { s with client } :=
  { h with }

theorem tracks_asyncCall (h : Tracks s) (method : Bytes) (params : Json) :
    Tracks (s.asyncCall method params) := by
  unfold asyncCall
  dsimp only
  split
  · exact tracks_client h rfl
  · have hidle := h.born s.made (Nat.le_refl _)
    refine ⟨h.toStream.keep ?_, ?_, ?_, ?_⟩
    · intro k hk
      have hne : k ≠ s.made := by
        rintro rfl
        simp [hidle] at hk
      exact ⟨update_of_ne hne .., update_of_ne hne ..⟩
    · intro k hk
      dsimp only at hk ⊢
      by_cases hmade : k = s.made
      · subst hmade
        simp at hk
      · rw [update_of_ne hmade] at hk ⊢
        exact h.waits k hk
    · intro k hk
      dsimp only at hk ⊢
      by_cases hmade : k = s.made
      · rw [hmade]
        exact h.early s.made (Or.inl hidle)
      · rw [update_of_ne hmade] at hk
        exact h.early k hk
    · intro k hk
      dsimp only at hk ⊢
      rw [update_of_ne (by omega)]
      exact h.born k (by omega)

theorem lawful_asyncCall (h : Tracks s) (hl : Lawful s) (method : Bytes) (params : Json) :
    Lawful (s.asyncCall method params) := by
  unfold asyncCall
  dsimp only
  split
  · exact lawful_client hl _
  · refine ⟨?_, hl.own, hl.failed⟩
    intro e he
    have hne : e.1 ≠ s.made := by
      intro hmade
      have hstage := h.done e he
      rw [hmade, h.born s.made (Nat.le_refl _)] at hstage
      cases hstage
    dsimp only
    rw [update_of_ne hne]
    exact hl.resolved e he

theorem register_of_free (hfree : s.client.pendingCalls_ (s.ids k) = none) :
    s.register k = { s with
      client := { s.client with
        pendingCalls_ := update s.client.pendingCalls_ (s.ids k) (some k) }
      stage := update s.stage k .waiting } := by
  unfold register
  rw [hfree]

theorem tracks_register (h : Tracks s) (hk : s.stage k = .begun)
    (hfree : s.client.pendingCalls_ (s.ids k) = none) : Tracks (s.register k) := by
  have hearly := h.early k (Or.inr (Or.inl hk))
  have hstarted : s.stage k ≠ .idle := by simp [hk]
  have hunanswered : s.stage k ≠ .answered ∧ s.stage k ≠ .over := by simp [hk]
  rw [register_of_free hfree]
  refine h.move hstarted (h.toStream.move hunanswered) rfl ?_ ?_ ?_ ?_ ?_
  · exact fun _ => ⟨update_self .., hearly.1⟩
  · exact fun _ => hearly
  · intro j _ hj
    obtain ⟨hpending, -⟩ := h.waits j hj
    -- another open call has another id, since this one was free
    have hids : s.ids j ≠ s.ids k := by
      intro heq
      rw [heq, hfree] at hpending
      cases hpending
    dsimp only
    rw [update_of_ne hids]
    exact hpending
  · exact fun _ _ => rfl
  · exact fun _ _ _ hmem => hmem

theorem lawful_register (hl : Lawful s) (hfree : s.client.pendingCalls_ (s.ids k) = none) :
    Lawful (s.register k) := by
  rw [register_of_free hfree]
  exact { hl with }

theorem waits_erase (h : Tracks s) {j : Nat} (hk : s.client.pendingCalls_ (s.ids k) = some k)
    (hj : Open (s.stage j)) (hne : j ≠ k) :
    update s.client.pendingCalls_ (s.ids k) none (s.ids j) = some j := by
  obtain ⟨hpending, -⟩ := h.waits j hj
  have hids : s.ids j ≠ s.ids k := by
    intro heq
    rw [heq, hk] at hpending
    exact hne (Option.some.inj hpending).symm
  rw [update_of_ne hids]
  exact hpending

theorem finish_of_waiting (h : Tracks s) (hk : s.stage k = .waiting)
    (hconn : s.client.conn_ = none) :
    s.finish k = { s with
      client := { s.client with
        pendingCalls_ := update s.client.pendingCalls_ (s.ids k) none }
      stage := update s.stage k .over
      outcome := update s.outcome k (some (.value notConnected)) } := by
  unfold finish
  rw [hconn]
  rw [(h.waits k (Or.inl hk)).1]

theorem finish_of_conn {state : StateE} (hconn : s.client.conn_ = some state) :
    s.finish k = { s with
      stage := update s.stage k (if state = .kConnected then .asked else .over)
      sent := s.sent ++ [(k, s.requests k)] } := by
  unfold finish
  rw [hconn]

theorem mem_sent_of_ne {j : Nat} {request text : Bytes} {sent : List (Nat × Bytes)} (hne : j ≠ k)
    (h : (j, request) ∈ sent ++ [(k, text)]) : (j, request) ∈ sent := by
  rcases mem_append.mp h with hold | hnew
  · exact hold
  · exact absurd (congrArg Prod.fst (mem_singleton.mp hnew)) hne

theorem tracks_finish (h : Tracks s) (hk : s.stage k = .waiting) : Tracks (s.finish k) := by
  have hopen := h.waits k (Or.inl hk)
  have hstarted : s.stage k ≠ .idle := by simp [hk]
  have hunanswered : s.stage k ≠ .answered ∧ s.stage k ≠ .over := by simp [hk]
  cases hconn : s.client.conn_ with
  | none =>
    rw [finish_of_waiting h hk hconn]
    refine h.move hstarted (h.toStream.move hunanswered) rfl ?_ ?_ ?_ ?_ ?_
    · exact fun hstage => by simp [Open] at hstage
    · exact fun hstage => by simp at hstage
    · exact fun j hne hj => waits_erase h hopen.1 hj hne
    · exact fun j hne => update_of_ne hne ..
    · exact fun _ _ _ hmem => hmem
  | some state =>
    rw [finish_of_conn hconn]
    refine h.move hstarted (h.toStream.move hunanswered) rfl ?_ ?_ ?_ ?_ ?_
    · exact fun _ => hopen
    · intro hstage
      split at hstage <;> simp at hstage
    · exact fun j _ hj => (h.waits j hj).1
    · exact fun _ _ => rfl
    · exact fun j hne request hmem => mem_sent_of_ne hne hmem

theorem lawful_finish (h : Tracks s) (hl : Lawful s) (hk : s.stage k = .waiting) :
    Lawful (s.finish k) := by
  cases hconn : s.client.conn_ with
  | none =>
    rw [finish_of_waiting h hk hconn]
    refine ⟨?_, ?_, ?_⟩
    · intro e he
      have hne : e.1 ≠ k := by
        rintro rfl
        have hover := h.done e he
        rw [hk] at hover
        cases hover
      dsimp only
      rw [update_of_ne hne]
      exact hl.resolved e he
    · intro j v hv
      dsimp only at hv ⊢
      by_cases hjk : j = k
      · subst hjk
        rw [update_self] at hv
        exact Or.inr ⟨(Option.some.inj hv).symm, (h.early j (Or.inr (Or.inr hk))).2⟩
      · rw [update_of_ne hjk] at hv
        exact hl.own j v hv
    · intro j hj
      rw [h.cutOff] at hj
      exact absurd hj not_mem_nil
  | some state =>
    rw [finish_of_conn hconn]
    refine ⟨hl.resolved, ?_, hl.failed⟩
    intro j v hv
    have hne : j ≠ k := by
      rintro rfl
      rw [(h.waits j (Or.inl hk)).2] at hv
      cases hv
    rcases hl.own j v hv with harrived | ⟨heq, hsent⟩
    · exact Or.inl harrived
    · exact Or.inr ⟨heq, fun request hmem => hsent request (mem_sent_of_ne hne hmem)⟩

/-! ## Steps of the connection -/

theorem coming_of_pending (h : Tracks s) (hpending : s.pending = []) :
    s.coming = [] ∧ ∀ k, s.stage k ≠ .asked ∧ s.stage k ≠ .answered := by
  have hnone : ∀ k, ¬Open (s.stage k) := by
    intro k hk
    have hmem := mem_pending h hk
    rw [hpending] at hmem
    exact absurd hmem not_mem_nil
  refine ⟨?_,
    fun k => ⟨fun hk => hnone k (by simp [Open, hk]), fun hk => hnone k (by simp [Open, hk])⟩⟩
  cases hcoming : s.coming with
  | nil => rfl
  | cons e coming =>
    have hanswered := (h.coming e (by rw [hcoming]; exact mem_cons_self)).1
    exact absurd (Or.inr (Or.inr hanswered)) (hnone e.1)

theorem disconnect_of_pending (h : Tracks s) (hpending : s.pending = []) :
    s.disconnect = { s with client := { s.client with conn_ := none } } := by
  obtain ⟨hcoming, hstage⟩ := coming_of_pending h hpending
  have hsame : (fun k => if s.stage k = .asked ∨ s.stage k = .answered then Stage.over
      else s.stage k) = s.stage := by
    funext k
    rw [if_neg (not_or.mpr (hstage k))]
  unfold disconnect
  rw [hsame, hpending, append_nil, ← h.rest hcoming, ← hcoming]

theorem tracks_answer (h : Tracks s) {r : Response library} (hk : s.stage k = .asked)
    (hid : r.id = s.ids k) :
    Tracks { s with stage := update s.stage k .answered, coming := s.coming ++ [(k, r)] } := by
  have hne : ∀ j, s.stage j ≠ .asked → j ≠ k := by
    rintro j hj rfl
    exact hj hk
  have hstream : Stream { s with
      stage := update s.stage k .answered, coming := s.coming ++ [(k, r)] } := by
    constructor
    · intro e he
      dsimp only at he ⊢
      rcases mem_append.mp he with hold | hnew
      · obtain ⟨hanswered, hids⟩ := h.coming e hold
        rw [update_of_ne (hne _ (by simp [hanswered]))]
        exact ⟨hanswered, hids⟩
      · rw [mem_singleton.mp hnew]
        exact ⟨update_self .., hid⟩
    · rw [map_append, map_singleton, nodup_append]
      refine ⟨h.nodup, nodup_singleton _, ?_⟩
      intro a ha b hb
      obtain ⟨e, he, rfl⟩ := mem_map.mp ha
      rw [mem_singleton.mp hb]
      exact hne _ (by simp [(h.coming e he).1])
    · intro e he
      cases hcoming : s.coming with
      | nil =>
        rw [h.rest hcoming]
        exact Nat.zero_le _
      | cons first coming =>
        refine h.offset e ?_
        rw [hcoming] at he ⊢
        exact he
    · intro hnil
      exact absurd hnil (by simp)
    · intro e he
      have hover := h.done e he
      dsimp only
      rw [update_of_ne (hne _ (by simp [hover]))]
      exact hover
    · exact h.cutOff
  have hstarted : s.stage k ≠ .idle := by simp [hk]
  refine h.move hstarted hstream rfl ?_ ?_ ?_ ?_ ?_
  · exact fun _ => h.waits k (Or.inr (Or.inl hk))
  · exact fun hstage => by simp at hstage
  · exact fun j _ hj => (h.waits j hj).1
  · exact fun _ _ => rfl
  · exact fun _ _ _ hmem => hmem

/-! ## Deliveries -/

variable {n : Nat}

/-- A piece that ends before the blank line is of no use, and does no harm. -/
theorem onMessage_head (client : ReactorRpcClient) (r : Response library) {a : Nat}
    (h : a + n ≤ r.head.length) :
    client.onMessage library ((r.bytes.drop a).take n) = (client, none) := by
  have hnone : find (text "\r\n\r\n") ((r.bytes.drop a).take n) = none :=
    find_piece r.blank (by decide) h
  unfold ReactorRpcClient.onMessage
  rw [hnone]

theorem onMessage_response {client : ReactorRpcClient} {r : Response library} {a : Nat}
    (ha : a ≤ r.head.length) (hk : client.pendingCalls_ r.id = some k) :
    client.onMessage library (r.bytes.drop a) =
      ({ client with pendingCalls_ := update client.pendingCalls_ r.id none },
        some (k, r.answer)) := by
  have hfind : find (text "\r\n\r\n") (r.bytes.drop a) = some (r.head.length - a) :=
    find_drop r.blank ha
  have hbody : (r.bytes.drop a).drop (r.head.length - a + 4) = r.body := by
    have hsum : a + (r.head.length - a + 4) = (r.head ++ text "\r\n\r\n").length := by
      rw [length_append, length_crlf_crlf]
      omega
    rw [drop_drop, hsum]
    unfold Response.bytes
    rw [← append_assoc, drop_left]
  unfold ReactorRpcClient.onMessage
  rw [hfind]
  dsimp only
  rw [hbody, r.read]
  dsimp only
  rw [library.valueInt_integer r.own r.low r.high]
  dsimp only
  rw [hk]
  rfl

variable {e : Nat × Response library} {coming : List (Nat × Response library)}

theorem settle_head (h : n < e.2.bytes.length) : settle n (e :: coming) = ([], n, e :: coming) := by
  rw [settle, if_neg (by omega)]

theorem settle_zero (coming : List (Nat × Response library)) :
    settle 0 coming = ([], 0, coming) := by
  cases coming with
  | nil => rfl
  | cons e coming => exact settle_head (Nat.lt_of_le_of_lt (Nat.zero_le _) e.2.head_lt)

theorem settle_response (e : Nat × Response library) (coming : List (Nat × Response library)) :
    settle e.2.bytes.length (e :: coming) = ([e], 0, coming) := by
  rw [settle, if_pos (Nat.le_refl _), Nat.sub_self, settle_zero]

theorem piece_eq (hcoming : s.coming = e :: coming) (hn : s.offset + n ≤ e.2.bytes.length) :
    s.piece n = (e.2.bytes.drop s.offset).take n := by
  unfold piece
  rw [hcoming, flatMap_cons, drop_append_of_le_length (by omega),
    take_append_of_le_length (by rw [length_drop]; omega)]

theorem deliver_head (hcoming : s.coming = e :: coming) (hn : s.offset + n ≤ e.2.head.length) :
    s.deliver n = { s with offset := s.offset + n } := by
  have hlt := e.2.head_lt
  unfold deliver
  rw [piece_eq hcoming (by omega), onMessage_head s.client e.2 hn, hcoming, settle_head (by omega)]
  simp [← hcoming]

/-- The first response that is coming resolves its call. -/
def resolve (s : System library) (e : Nat × Response library)
    (coming : List (Nat × Response library)) : System library :=
  { s with
    client := { s.client with
      pendingCalls_ := update s.client.pendingCalls_ (s.ids e.1) none }
    outcome := update s.outcome e.1 (some (.value e.2.answer))
    stage := update s.stage e.1 .over
    coming
    offset := 0
    arrived := s.arrived ++ [e] }

theorem Stream.resolve (h : Stream s) (hcoming : s.coming = e :: coming) :
    Stream (s.resolve e coming) := by
  have hnodup := h.nodup
  rw [hcoming, map_cons, nodup_cons] at hnodup
  constructor
  · intro e' he'
    obtain ⟨hanswered', hid'⟩ := h.coming e' (by rw [hcoming]; exact mem_cons_of_mem _ he')
    have hne : e'.1 ≠ e.1 := by
      intro heq
      exact hnodup.1 (heq ▸ mem_map_of_mem he')
    dsimp only [System.resolve]
    rw [update_of_ne hne]
    exact ⟨hanswered', hid'⟩
  · exact hnodup.2
  · exact fun _ _ => Nat.zero_le _
  · exact fun _ => rfl
  · intro e' he'
    dsimp only [System.resolve] at he' ⊢
    rw [update_apply]
    split
    · rfl
    · rename_i hne
      rcases mem_append.mp he' with hold | hnew
      · exact h.done e' hold
      · exact absurd (by rw [mem_singleton.mp hnew]) hne
  · exact h.cutOff

theorem deliver_response (h : Tracks s) (hcoming : s.coming = e :: coming)
    (hn : s.offset + n = e.2.bytes.length) : s.deliver n = s.resolve e coming := by
  obtain ⟨hanswered, hid⟩ := h.coming e (by rw [hcoming]; exact mem_cons_self)
  have hoffset := h.offset e (by rw [hcoming]; rfl)
  have hpending : s.client.pendingCalls_ e.2.id = some e.1 := by
    rw [hid]
    exact (h.waits e.1 (Or.inr (Or.inr hanswered))).1
  have hpiece : s.piece n = e.2.bytes.drop s.offset := by
    rw [piece_eq hcoming (by omega), take_of_length_le (by rw [length_drop]; omega)]
  have hstage : (fun k => if k ∈ [e].map Prod.fst then Stage.over else s.stage k) =
      update s.stage e.1 .over := by
    funext k
    simp [update_apply]
  unfold deliver resolve
  rw [hpiece, onMessage_response hoffset hpending, hcoming, hn, settle_response, hid]
  dsimp only
  rw [hstage]

theorem deliver_cases (hpos : 0 < n)
    (hn : s.offset + n ≤ (s.coming.flatMap (fun e => e.2.bytes)).length)
    (hcareful : s.Careful (.deliver n)) :
    ∃ e coming, s.coming = e :: coming ∧
      (s.offset + n ≤ e.2.head.length ∨ s.offset + n = e.2.bytes.length) := by
  cases hcoming : s.coming with
  | nil =>
    rw [hcoming, flatMap_nil, length_nil] at hn
    omega
  | cons e coming => exact ⟨e, coming, rfl, hcareful e (by rw [hcoming]; rfl)⟩

theorem tracks_deliver (h : Tracks s) (hpos : 0 < n)
    (hn : s.offset + n ≤ (s.coming.flatMap (fun e => e.2.bytes)).length)
    (hcareful : s.Careful (.deliver n)) : Tracks (s.deliver n) := by
  obtain ⟨e, coming, hcoming, hhead | hend⟩ := deliver_cases hpos hn hcareful
  · rw [deliver_head hcoming hhead]
    refine ⟨⟨h.coming, h.nodup, ?_, ?_, h.done, h.cutOff⟩, h.waits, h.early, h.born⟩
    · intro e' he'
      rw [hcoming] at he'
      cases he'
      exact hhead
    · intro hnil
      rw [hcoming] at hnil
      cases hnil
  · obtain ⟨hanswered, hid⟩ := h.coming e (by rw [hcoming]; exact mem_cons_self)
    rw [deliver_response h hcoming hend]
    have hstarted : s.stage e.1 ≠ .idle := by simp [hanswered]
    refine h.move hstarted (h.toStream.resolve hcoming) rfl ?_ ?_ ?_ ?_ ?_
    · exact fun hstage => by simp [Open] at hstage
    · exact fun hstage => by simp at hstage
    · exact fun j hne hj => waits_erase h (h.waits e.1 (Or.inr (Or.inr hanswered))).1 hj hne
    · exact fun j hne => update_of_ne hne ..
    · exact fun _ _ _ hmem => hmem

theorem lawful_deliver (h : Tracks s) (hl : Lawful s) (hpos : 0 < n)
    (hn : s.offset + n ≤ (s.coming.flatMap (fun e => e.2.bytes)).length)
    (hcareful : s.Careful (.deliver n)) : Lawful (s.deliver n) := by
  obtain ⟨e, coming, hcoming, hhead | hend⟩ := deliver_cases hpos hn hcareful
  · rw [deliver_head hcoming hhead]
    exact { hl with }
  · obtain ⟨hanswered, hid⟩ := h.coming e (by rw [hcoming]; exact mem_cons_self)
    rw [deliver_response h hcoming hend]
    refine ⟨?_, ?_, ?_⟩
    · intro e' he'
      dsimp only [resolve] at he' ⊢
      rcases mem_append.mp he' with hold | hnew
      · -- a response that came before was for another call
        have hne : e'.1 ≠ e.1 := by
          intro heq
          have hover := h.done e' hold
          rw [heq, hanswered] at hover
          cases hover
        rw [update_of_ne hne]
        exact hl.resolved e' hold
      · rw [mem_singleton.mp hnew, update_self]
        exact ⟨hid, rfl⟩
    · intro j v hv
      dsimp only [resolve] at hv ⊢
      by_cases hje : j = e.1
      · subst hje
        rw [update_self] at hv
        exact Or.inl ⟨e, mem_append_right _ mem_cons_self, rfl, (Option.some.inj hv).symm⟩
      · rw [update_of_ne hje] at hv
        rcases hl.own j v hv with ⟨e', he', heq⟩ | hunsent
        · exact Or.inl ⟨e', mem_append_left _ he', heq⟩
        · exact Or.inr hunsent
    · intro j hj
      dsimp only [resolve] at hj
      rw [h.cutOff] at hj
      exact absurd hj not_mem_nil

/-! ## Runs -/

theorem kept_step (h : Tracks s) (hl : Lawful s) {event : Event library}
    (hcareful : s.Careful event) : Tracks (s.step event) ∧ Lawful (s.step event) := by
  cases event with
  | asyncCall method params =>
    exact ⟨tracks_asyncCall h method params, lawful_asyncCall h hl method params⟩
  | register k =>
    dsimp only [step]
    split
    · rename_i hk
      exact ⟨tracks_register h hk (hcareful hk), lawful_register hl (hcareful hk)⟩
    · exact ⟨h, hl⟩
  | finish k =>
    dsimp only [step]
    split
    · rename_i hk
      exact ⟨tracks_finish h hk, lawful_finish h hl hk⟩
    · exact ⟨h, hl⟩
  | connected =>
    dsimp only [step]
    split
    · exact ⟨tracks_client h rfl, lawful_client hl _⟩
    · exact ⟨h, hl⟩
  | closing state =>
    dsimp only [step]
    split
    · exact ⟨h, hl⟩
    · exact ⟨tracks_client h rfl, lawful_client hl _⟩
  | disconnected =>
    dsimp only [step]
    split
    · exact ⟨h, hl⟩
    · rename_i hconn
      rw [disconnect_of_pending h (hcareful hconn)]
      exact ⟨tracks_client h rfl, lawful_client hl _⟩
  | answer k r =>
    dsimp only [step]
    split
    · rename_i hk
      exact ⟨tracks_answer h hk.1 hk.2, { hl with }⟩
    · exact ⟨h, hl⟩
  | deliver n =>
    dsimp only [step]
    split
    · rename_i hn
      exact ⟨tracks_deliver h hn.1 hn.2 hcareful, lawful_deliver h hl hn.1 hn.2 hcareful⟩
    · exact ⟨h, hl⟩

end System

/-- In every run of careful steps, each response that was read has resolved the call with its
id, no future has anything else, and no call was open when a connection went down. -/
theorem calls_resolved_of_careful (events : List (Event library))
    (h : Meets System.step System.Careful {} events) :
    System.Lawful (run System.step {} events) := by
  have hstep : ∀ (s : System library) event, s.Careful event →
      s.Tracks ∧ s.Lawful → (s.step event).Tracks ∧ (s.step event).Lawful :=
    fun _ _ hcareful hs => System.kept_step hs.1 hs.2 hcareful
  exact (invariant_run hstep h ⟨System.tracks_start, System.lawful_start⟩).2

end System

/-! ## Two calls -/

def firstFields : List (Bytes × Json) := [(text "id", .integer 1), (text "result", .bool true)]

def secondFields : List (Bytes × Json) :=
  [(text "error", .string (text "no")), (text "id", .integer 2)]

def twoLibrary : Library := .reading [.object firstFields, .object secondFields]

def firstResponse : Response twoLibrary where
  id := 1
  head := text "HTTP/1.1 200 OK"
  body := (Json.object firstFields).compact
  fields := firstFields
  low := by decide
  high := by decide
  blank := by decide
  read := rfl
  own := rfl

def secondResponse : Response twoLibrary where
  id := 2
  head := text "HTTP/1.1 200 OK"
  body := (Json.object secondFields).compact
  fields := secondFields
  low := by decide
  high := by decide
  blank := by decide
  read := rfl
  own := rfl

/-- Two calls, and the server answers the second one first. -/
def twoCalls : List (Event twoLibrary) :=
  [.connected, .asyncCall (text "a") .null, .asyncCall (text "b") .null, .register 0, .register 1,
    .finish 0, .finish 1, .answer 1 secondResponse, .answer 0 firstResponse]

/-- Read one by one, with a cut in the first head. -/
theorem calls_resolved_of_careful_two :
    let events := twoCalls ++ [.deliver 3, .deliver 37, .deliver 41, .disconnected]
    Meets System.step System.Careful {} events ∧ System.Lawful (run System.step {} events) :=
  ⟨by decide, calls_resolved_of_careful _ (by decide)⟩

/-- Read together, or with a cut in a body, the responses are lost. Then the connection goes
down and the calls stay open. -/
theorem responses_read_together_are_lost :
    let together := run System.step {} (twoCalls ++ [.deliver 81, .disconnected])
    let cut := run System.step {} (twoCalls ++ [.deliver 20, .deliver 20, .disconnected])
    (together.arrived.map Prod.fst = [1, 0] ∧ together.cutOff = [0, 1] ∧
        (together.outcome 0).isNone ∧ (together.outcome 1).isNone) ∧
      (cut.arrived.map Prod.fst = [1] ∧ cut.cutOff = [0, 1] ∧
        (cut.outcome 0).isNone ∧ (cut.outcome 1).isNone) := by
  decide

end mymuduo.reactor_rpc_client
