-- The protobuf RPC client (src/rpc/RpcClientPb.h) against a server that runs
-- `RpcServerPb` on every connection. A call holds the mutex of the client from its
-- first byte to its last one, and gives its connection up when it breaks off inside
-- a frame.
import Mathlib.Data.List.Forall2
import Mymuduo.RpcServerPb

open List bytes length_prefix runs words

namespace mymuduo.rpc_client_pb

open rpc_server_pb

def RPC_MAX_FRAME_LENGTH : Nat := 64 * 1024 * 1024

/-! ## Connections -/

/-- A connection with both ends: the bytes that the client wrote and the server did
not get yet, the input buffer of the server and the data it processed, the responses
that went out, and the bytes that the client read. The server end is open until
`shutdown()`; then `send` does nothing. `asked` are the requests of the calls, in
order. -/
structure Link where
  outbound : Bytes := []
  buf : Bytes := []
  processed : List Bytes := []
  answers : List RpcResponse := []
  isOpen : Bool := true
  received : Bytes := []
  asked : List RpcRequest := []

variable {σ β : Type}

namespace Link

def send (l : Link) (response : RpcResponse) : Link :=
  if l.isOpen then { l with answers := l.answers ++ [response] } else l

variable (server : RpcServerPb σ)

/-- One round of the loop of `onMessage`. The state of the methods is that of the
moment, so that other connections can be served between two rounds. -/
def serve (l : Link) (app : σ) : Link :=
  match front kMaxFrameSize l.buf with
  | .incomplete => l
  | .invalid => { l.send RpcServerPb.invalidFrame with isOpen := false }
  | .frame data rest =>
    { l with buf := rest, processed := l.processed ++ [data] }.send (server.answer data app).1

def deliver (l : Link) (n : Nat) : Link :=
  { l with buf := l.buf ++ l.outbound.take n, outbound := l.outbound.drop n }

def wire (l : Link) : Bytes := (l.answers.map server.responseFrame).flatten

def available (l : Link) : Bytes := (l.wire server).drop l.received.length

/-! ## The rounds make up `onMessage` -/

/-- The data of the calls before `shutdown`. What is sent behind it is dropped. -/
def sentBy : List Call → List Bytes
  | [] => []
  | .send data :: calls => data :: sentBy calls
  | .shutdown :: _ => []

theorem sentBy_append (calls more : List Call) :
    sentBy (calls ++ more) =
      if .shutdown ∈ calls then sentBy calls else sentBy calls ++ sentBy more := by
  induction calls with
  | nil => rfl
  | cons call calls ih =>
    cases call with
    | send data =>
      rw [cons_append, sentBy, ih, sentBy]
      by_cases hdown : Call.shutdown ∈ calls <;> simp [hdown]
    | shutdown => simp [sentBy]

/-- The server end of a link is that of a connection of the server. -/
structure Shows (l : Link) (c : Conn σ) : Prop where
  buf : l.buf = c.buf
  processed : l.processed = c.processed
  answers : l.answers.map server.responseFrame = sentBy c.calls
  isOpen : l.isOpen = true ↔ .shutdown ∉ c.calls

variable {server}

theorem Shows.send {l : Link} {c : Conn σ} (h : Shows server l c) (r : RpcResponse) (rest : Bytes)
    (app : σ) (processed : List Bytes) :
    Shows server ({ l with buf := rest, processed }.send r)
      { buf := rest, app, calls := c.calls ++ [.send (server.responseFrame r)], processed } := by
  unfold Link.send
  by_cases hopen : l.isOpen = true
  · rw [if_pos hopen]
    refine ⟨rfl, rfl, ?_, ?_⟩
    · rw [map_append, h.answers, sentBy_append, if_neg (h.isOpen.mp hopen)]
      rfl
    · simpa using h.isOpen
  · have hdown : .shutdown ∈ c.calls := by
      by_contra hnot
      exact hopen (h.isOpen.mpr hnot)
    rw [if_neg hopen]
    refine ⟨rfl, rfl, ?_, ?_⟩
    · rw [h.answers, sentBy_append, if_pos hdown]
    · simpa using h.isOpen

theorem Shows.shutdown {l : Link} {c : Conn σ} (h : Shows server l c) :
    Shows server { l with isOpen := false } { c with calls := c.calls ++ [.shutdown] } := by
  refine ⟨h.buf, h.processed, ?_, by simp⟩
  rw [h.answers, sentBy_append]
  simp [sentBy]

/-- A call of `onMessage` is some rounds, each with the state that the methods have
then. -/
theorem rounds_of_onMessageLoop {fuel : Nat} {l : Link} {c : Conn σ} (h : Shows server l c) :
    ∃ apps, Shows server (run (Link.serve server) l apps) (server.onMessageLoop fuel c) := by
  induction fuel generalizing l c with
  | zero => exact ⟨[], h⟩
  | succ fuel ih =>
    rw [RpcServerPb.onMessageLoop]
    cases hfront : front kMaxFrameSize c.buf with
    | incomplete => exact ⟨[], h⟩
    | invalid =>
      refine ⟨[c.app], ?_⟩
      have hsend := (h.send RpcServerPb.invalidFrame l.buf c.app l.processed).shutdown
      rw [append_assoc] at hsend
      rw [run_cons, run_nil, ← h.buf, ← h.processed, serve, h.buf, hfront]
      exact h.buf ▸ hsend
    | frame data rest =>
      have hsend := h.send (server.answer data c.app).1 rest (server.answer data c.app).2
        (c.processed ++ [data])
      obtain ⟨apps, happs⟩ := ih hsend
      refine ⟨c.app :: apps, ?_⟩
      have hround : l.serve server c.app =
          { l with buf := rest, processed := c.processed ++ [data] }.send
            (server.answer data c.app).1 := by
        unfold serve
        rw [h.buf, hfront, h.processed]
      rw [run_cons, hround]
      exact happs

end Link

/-! ## The client -/

/-- The arguments of `call`: the request message in its serialised form, and
`ParseFromString` of the response. -/
structure CallArgs (β : Type) where
  service : Bytes
  method : Bytes
  params : Bytes
  parse : Bytes → Option β

/-- A call that has its id, with its connection and its place among the calls there. -/
structure Pending (β : Type) where
  args : CallArgs β
  id : Int
  link : Nat
  position : Nat

def Pending.request (call : Pending β) : RpcRequest where
  service := call.args.service
  method := call.args.method
  params := call.args.params
  id := call.id

/-- Where the thread that holds the mutex is: in `::connect`, for a call or not; in
`sendAll`, with the rest of its buffer and the buffer of the next `sendAll`; in
`recvAll`, for the length or for the data. -/
inductive Phase (β : Type)
  | connecting (next : Option (CallArgs β))
  | sending (call : Pending β) (rest later : Bytes)
  | receiving (call : Pending β) (len : Option Nat) (got : Bytes)

/-- A call that returned true, with the response that it filled in. -/
structure Returned (β : Type) where
  thread : Nat
  call : Pending β
  response : β

inductive Op (β : Type)
  | connect
  | disconnect
  | call (args : CallArgs β)

/-- The client and its connections, which are numbered in the order of `::connect`.
`sock_` is the number of a connection. -/
structure System (β : Type) where
  links : Nat → Link := fun _ => {}
  opened : Nat := 0
  sock_ : Option Nat := none
  connected_ : Bool := false
  nextId_ : Int := 1
  running : Option (Nat × Phase β) := none
  returned : List (Returned β) := []

/-- A thread gets the mutex; `::connect` succeeds or not; `send` or `recv` moves some
bytes or fails; bytes reach the server; the server makes a round of its loop. -/
inductive Event (σ β : Type)
  | start (thread : Nat) (op : Op β)
  | connected (ok : Bool)
  | send (n : Nat)
  | recv (n : Nat)
  | fails
  | deliver (link n : Nat)
  | serve (link : Nat) (app : σ)

namespace System

def setLink (s : System β) (k : Nat) (l : Link) : System β :=
  { s with links := Function.update s.links k l }

def readBytes (s : System β) (k : Nat) (chunk : Bytes) : System β :=
  s.setLink k { s.links k with received := (s.links k).received ++ chunk }

/-- The ways out of `call` with `connected_ = false`. -/
def fail (s : System β) : System β := { s with connected_ := false, running := none }

variable (server : RpcServerPb σ)

/-- The request gets its id and its bytes. The socket is the one that the thread finds
under the mutex. -/
def begin (s : System β) (thread : Nat) (args : CallArgs β) : System β :=
  match s.sock_ with
  | none => s
  | some k =>
    let l := s.links k
    let call : Pending β := { args, id := s.nextId_, link := k, position := l.asked.length }
    let data := server.protobuf.serializeRequest call.request
    { s.setLink k { l with asked := l.asked ++ [call.request] } with
      nextId_ := (s.nextId_ + 1).bmod (2 ^ 64)
      running := some (thread, .sending call (bigEndian 4 data.length) data) }

def start (s : System β) (thread : Nat) : Op β → System β
  | .connect =>
    if s.connected_ then s else { s with running := some (thread, .connecting none) }
  | .disconnect => { s with sock_ := none, connected_ := false }
  | .call args =>
    if s.connected_ then s.begin server thread args
    else { s with running := some (thread, .connecting (some args)) }

/-- The end of `connect()` or `connectInternal()`, with a new socket. -/
def connect (s : System β) (thread : Nat) (next : Option (CallArgs β)) (ok : Bool) : System β :=
  if ok then
    let s := { s with
      sock_ := some s.opened, connected_ := true, opened := s.opened + 1, running := none }
    match next with
    | none => s
    | some args => s.begin server thread args
  else { s with sock_ := none, running := none }

/-- The next place in `call` behind a `send` that left `rest`. -/
def afterSend (call : Pending β) (rest later : Bytes) : Phase β :=
  if rest ≠ [] then .sending call rest later
  else if later ≠ [] then .sending call later []
  else .receiving call none []

def gotLength (s : System β) (thread : Nat) (call : Pending β) (got : Bytes) : System β :=
  let len := declared got
  if len ≤ 0 ∨ (RPC_MAX_FRAME_LENGTH : Int) < len then s.fail
  else { s with running := some (thread, .receiving call (some len.toNat) []) }

/-- The whole frame is there. Only a response with code 0 that parses is a success. -/
def finish (s : System β) (thread : Nat) (call : Pending β) (respData : Bytes) : System β :=
  let s := { s with running := none }
  match server.protobuf.parseResponse respData with
  | none => s
  | some resp =>
    if resp.code ≠ 0 then s
    else
      match call.args.parse resp.result with
      | none => s
      | some response => { s with returned := s.returned ++ [{ thread, call, response }] }

/-- One `recv` that gives at most `n` bytes. It waits while there are none. -/
def recv (s : System β) (thread : Nat) (call : Pending β) (len : Option Nat) (got : Bytes)
    (n : Nat) :
    System β :=
  let wanted := len.getD 4
  let chunk := ((s.links call.link).available server).take (min n (wanted - got.length))
  if chunk = [] then s
  else
    let s := s.readBytes call.link chunk
    if (got ++ chunk).length < wanted then
      { s with running := some (thread, .receiving call len (got ++ chunk)) }
    else
      match len with
      | none => s.gotLength thread call (got ++ chunk)
      | some _ => s.finish server thread call (got ++ chunk)

/-- A step that the holder of the mutex or the connection does not allow changes
nothing. -/
def step (s : System β) : Event σ β → System β
  | .start thread op =>
    match s.running with
    | none => s.start server thread op
    | some _ => s
  | .connected ok =>
    match s.running with
    | some (thread, .connecting next) => s.connect server thread next ok
    | _ => s
  | .send n =>
    match s.running with
    | some (thread, .sending call rest later) =>
      if 1 ≤ n ∧ n ≤ rest.length then
        let l := s.links call.link
        { s.setLink call.link { l with outbound := l.outbound ++ rest.take n } with
          running := some (thread, afterSend call (rest.drop n) later) }
      else s
    | _ => s
  | .recv n =>
    match s.running with
    | some (thread, .receiving call len got) => s.recv server thread call len got n
    | _ => s
  | .fails =>
    match s.running with
    | some (_, .sending ..) => s.fail
    | some (_, .receiving ..) => s.fail
    | _ => s
  | .deliver k n => if k < s.opened then s.setLink k ((s.links k).deliver n) else s
  | .serve k app => if k < s.opened then s.setLink k ((s.links k).serve server app) else s

end System

/-! ## What holds of a connection -/

/-- The message is below the limit of 2 GB, and parsing gives it back. -/
def RequestFits (protobuf : Protobuf) (request : RpcRequest) : Prop :=
  (protobuf.serializeRequest request).length < 2 ^ 31 ∧
    protobuf.parseRequest (protobuf.serializeRequest request) = some request

def ResponseFits (protobuf : Protobuf) (response : RpcResponse) : Prop :=
  (protobuf.serializeResponse response).length < 2 ^ 31 ∧
    protobuf.parseResponse (protobuf.serializeResponse response) = some response

instance (protobuf : Protobuf) (request : RpcRequest) : Decidable (RequestFits protobuf request) :=
  inferInstanceAs (Decidable (_ ∧ _))

instance (protobuf : Protobuf) (response : RpcResponse) :
    Decidable (ResponseFits protobuf response) :=
  inferInstanceAs (Decidable (_ ∧ _))

namespace Link

variable (server : RpcServerPb σ)

/-- The frames of the requests are those that were processed, the bytes on their way,
and `rest`, which is still to be written. -/
def Unsent (rest : Bytes) (l : Link) : Prop :=
  (l.processed.map frame).flatten ++ (l.buf ++ (l.outbound ++ rest)) =
    ((l.asked.map server.protobuf.serializeRequest).map frame).flatten

/-- The client read the first `n` responses and the bytes `got` of the next one. -/
def ReadTo (n : Nat) (got : Bytes) (l : Link) : Prop :=
  n ≤ l.answers.length ∧
    l.received = ((l.answers.take n).map server.responseFrame).flatten ++ got

/-- Each response answers the data at its place. When the server end is closed, one
more response went out, the error for a bad length. -/
structure Sound (l : Link) : Prop where
  unsent : ∃ rest, Unsent server rest l
  small : ∀ data ∈ l.processed, data.length < 2 ^ 31
  served : ∃ served, List.Forall₂ (fun data r => ∃ app, r = (server.answer data app).1)
    l.processed served ∧ l.answers = served ++ if l.isOpen then [] else [RpcServerPb.invalidFrame]
  closed : l.isOpen = false → front kMaxFrameSize l.buf = .invalid
  received : l.received <+: l.wire server

/-- What the server end does: no request and no read changes, responses are added. -/
structure Grows (l l' : Link) : Prop where
  asked : l'.asked = l.asked
  received : l'.received = l.received
  answers : l.answers <+: l'.answers
  unsent : ∀ rest, Unsent server rest l → Unsent server rest l'

variable {server}

variable {l : Link}

theorem ReadTo.grow {l' : Link} (hgrows : Grows server l l') {n : Nat} {got : Bytes}
    (h : ReadTo server n got l) : ReadTo server n got l' := by
  obtain ⟨more, hmore⟩ := hgrows.answers
  refine ⟨?_, ?_⟩
  · rw [← hmore, length_append]
    exact Nat.le_add_right_of_le h.1
  · rw [hgrows.received, h.2, ← hmore, take_append_of_le_length h.1]

theorem Sound.received_of_grows {l' : Link} (h : Sound server l) (hgrows : Grows server l l') :
    l'.received <+: l'.wire server := by
  obtain ⟨more, hmore⟩ := hgrows.answers
  rw [hgrows.received]
  refine h.received.trans ?_
  unfold wire
  rw [← hmore, map_append, flatten_append]
  exact prefix_append _ _

theorem deliver_grows (l : Link) (n : Nat) : Grows server l (l.deliver n) where
  asked := rfl
  received := rfl
  answers := prefix_refl _
  unsent rest h := by
    unfold Unsent at h ⊢
    dsimp only [deliver]
    rw [← h, append_assoc l.buf, ← append_assoc (l.outbound.take n), take_append_drop]

theorem Sound.deliver (h : Sound server l) (n : Nat) : Sound server (l.deliver n) where
  unsent := by
    obtain ⟨rest, hrest⟩ := h.unsent
    exact ⟨rest, (deliver_grows l n).unsent rest hrest⟩
  small := h.small
  served := h.served
  closed hclosed := front_invalid_append (h.closed hclosed) _
  received := h.received

theorem serve_cases (h : Sound server l) (app : σ) :
    l.serve server app = l ∨
      (l.isOpen = true ∧ front kMaxFrameSize l.buf = .invalid ∧
        l.serve server app =
          { l with answers := l.answers ++ [RpcServerPb.invalidFrame], isOpen := false }) ∨
      ∃ data rest, l.isOpen = true ∧ l.buf = frame data ++ rest ∧ data.length ≤ kMaxFrameSize ∧
        l.serve server app =
          { l with
            buf := rest, processed := l.processed ++ [data]
            answers := l.answers ++ [(server.answer data app).1] } := by
  unfold serve
  cases hfront : front kMaxFrameSize l.buf with
  | incomplete => exact Or.inl rfl
  | invalid =>
    cases hopen : l.isOpen with
    | false =>
      left
      dsimp only [send]
      rw [hopen, if_neg (by decide), ← hopen]
    | true =>
      right
      left
      dsimp only [send]
      rw [hopen, if_pos rfl]
      exact ⟨rfl, rfl, rfl⟩
  | frame data rest =>
    right
    right
    obtain ⟨hbuf, -, hmax⟩ := (front_eq_frame_iff kMaxFrameSize_lt).mp hfront
    have hopen : l.isOpen = true := by
      -- a closed end has a bad length at its front
      by_contra hclosed
      have hinvalid := h.closed (by simpa using hclosed)
      rw [hfront] at hinvalid
      cases hinvalid
    refine ⟨data, rest, hopen, hbuf, hmax, ?_⟩
    dsimp only [send]
    rw [if_pos hopen]

theorem serve_grows (h : Sound server l) (app : σ) : Grows server l (l.serve server app) := by
  rcases serve_cases h app with hsame | ⟨-, -, heq⟩ | ⟨data, rest, -, hbuf, -, heq⟩
  · rw [hsame]
    exact ⟨rfl, rfl, prefix_refl _, fun _ hrest => hrest⟩
  · rw [heq]
    exact ⟨rfl, rfl, prefix_append _ _, fun _ hrest => hrest⟩
  · rw [heq]
    refine ⟨rfl, rfl, prefix_append _ _, ?_⟩
    intro rest' hrest
    unfold Unsent at hrest ⊢
    rw [← hrest, hbuf]
    simp only [map_append, map_cons, map_nil, flatten_append,
      flatten_cons, flatten_nil, append_nil, append_assoc]

theorem Sound.serve (h : Sound server l) (app : σ) : Sound server (l.serve server app) := by
  have hgrows := serve_grows h app
  have hreceived := h.received_of_grows hgrows
  have hunsent : ∃ rest, Unsent server rest (l.serve server app) := by
    obtain ⟨rest, hrest⟩ := h.unsent
    exact ⟨rest, hgrows.unsent rest hrest⟩
  obtain ⟨served, hserved, hanswers⟩ := h.served
  rcases serve_cases h app with hsame | ⟨hopen, hinvalid, heq⟩ | ⟨data, rest, hopen, hbuf, hmax,
    heq⟩
  · rw [hsame]
    exact h
  · rw [heq] at hreceived hunsent ⊢
    rw [hopen, if_pos rfl, append_nil] at hanswers
    exact ⟨hunsent, h.small, ⟨served, hserved, by rw [hanswers]; rfl⟩, fun _ => hinvalid, hreceived⟩
  · rw [heq] at hreceived hunsent ⊢
    rw [hopen, if_pos rfl, append_nil] at hanswers
    refine ⟨hunsent, ?_, ⟨served ++ [(server.answer data app).1], ?_, ?_⟩, ?_, hreceived⟩
    · exact forall_mem_append.mpr
        ⟨h.small, forall_mem_singleton.mpr (lt_of_le_of_lt hmax kMaxFrameSize_lt)⟩
    · exact rel_append hserved (List.Forall₂.cons ⟨app, rfl⟩ List.Forall₂.nil)
    · rw [hanswers, if_pos hopen, append_nil]
    · intro hclosed
      rw [hopen] at hclosed
      cases hclosed

theorem Unsent.ask (h : Unsent server [] l) (request : RpcRequest) :
    Unsent server (frame (server.protobuf.serializeRequest request))
      { l with asked := l.asked ++ [request] } := by
  unfold Unsent at h ⊢
  rw [map_append, map_append, flatten_append, ← h]
  simp only [map_cons, map_nil, flatten_cons, flatten_nil, append_nil, append_assoc]

theorem Unsent.write {written rest : Bytes} (h : Unsent server (written ++ rest) l) :
    Unsent server rest { l with outbound := l.outbound ++ written } := by
  unfold Unsent at h ⊢
  rw [← h, append_assoc l.outbound]

theorem Sound.wire_eq (h : Sound server l) : l.wire server = l.received ++ l.available server := by
  obtain ⟨rest, hrest⟩ := h.received
  unfold available
  rw [← hrest, drop_left]

theorem Sound.read (h : Sound server l) {chunk : Bytes} (hchunk : chunk <+: l.available server) :
    Sound server { l with received := l.received ++ chunk } where
  unsent := h.unsent
  small := h.small
  served := h.served
  closed := h.closed
  received := by
    have hwire := h.wire_eq
    unfold wire at hwire ⊢
    rw [hwire]
    exact (prefix_append_right_inj l.received).mpr hchunk

theorem ReadTo.read {n : Nat} {got : Bytes} (h : ReadTo server n got l) (chunk : Bytes) :
    ReadTo server n (got ++ chunk) { l with received := l.received ++ chunk } := by
  refine ⟨h.1, ?_⟩
  rw [h.2, append_assoc]

theorem ReadTo.whole (h : Sound server l) (hfits : ∀ r ∈ l.answers, ResponseFits server.protobuf r)
    {n : Nat} {header body : Bytes} (hread : ReadTo server n (header ++ body) l)
    (hheader : header.length = 4) (hbody : declared header = body.length) :
    ∃ r, l.answers[n]? = some r ∧ body = server.protobuf.serializeResponse r ∧
      ReadTo server (n + 1) [] l := by
  obtain ⟨hn, hreceived⟩ := hread
  have hrest : (header ++ body) ++ l.available server =
      ((l.answers.drop n).map server.responseFrame).flatten := by
    have hwire := h.wire_eq
    unfold wire at hwire
    rw [← take_append_drop n l.answers, map_append, flatten_append, hreceived,
      append_assoc] at hwire
    exact (append_cancel_left hwire).symm
  cases hdrop : l.answers.drop n with
  | nil =>
    rw [hdrop, map_nil, flatten_nil] at hrest
    have hempty := congrArg length hrest
    rw [length_append, length_append, hheader, length_nil] at hempty
    omega
  | cons r rs =>
    have hget : l.answers[n]? = some r := by
      have hhead := congrArg head? hdrop
      rw [head?_drop] at hhead
      exact hhead
    have hr : r ∈ l.answers := mem_of_getElem? hget
    have hlt : n < l.answers.length := (List.getElem?_eq_some_iff.mp hget).1
    rw [hdrop, map_cons, flatten_cons] at hrest
    have hlength : declared header = (server.protobuf.serializeResponse r).length := by
      have hfront := declared_frame (hfits r hr).1 (rs.map server.responseFrame).flatten
      rw [show frame (server.protobuf.serializeResponse r) = server.responseFrame r from rfl,
        ← hrest,
        append_assoc, declared_append (by omega)] at hfront
      exact hfront
    have hsame : header ++ body = server.responseFrame r := by
      refine (append_inj hrest ?_).1
      rw [length_append, RpcServerPb.responseFrame, length_frame]
      omega
    refine ⟨r, hget, ?_, hlt, ?_⟩
    · have hsplit : header ++ body = bigEndian 4 (server.protobuf.serializeResponse r).length ++
          server.protobuf.serializeResponse r := hsame
      exact (append_inj hsplit (by rw [hheader, length_bigEndian])).2
    · rw [append_nil, hreceived, hsame, take_add_one, hget, map_append, flatten_append]
      simp

end Link

end mymuduo.rpc_client_pb
