-- The etcd client (src/util/EtcdClient.h): one HTTP exchange for each request, the
-- keys under a common beginning, and the poll that reports what changed since the
-- last one. A request that fails and a store without such keys look the same to
-- the poll.
import Mymuduo.HttpRequest
import Mymuduo.Json

open bytes words json

namespace mymuduo.etcd_client

open http_request (StringMap)

/-! ## Base64 -/

def tbl : Bytes := text "ABCDEFGHIJKLMNOPQRSTUVWXYZabcdefghijklmnopqrstuvwxyz0123456789+/"

/-- The character for the six bits of `v` above the lowest `shift`. -/
def sextet (v shift : Nat) : UInt8 := tbl.getD ((v >>> shift) &&& 0x3F) 0

def base64 : Bytes → Bytes
  | a :: b :: c :: rest =>
    let v := (a.toNat <<< 16) ||| (b.toNat <<< 8) ||| c.toNat
    [sextet v 18, sextet v 12, sextet v 6, sextet v 0] ++ base64 rest
  | [a, b] =>
    let v := (a.toNat <<< 16) ||| (b.toNat <<< 8)
    [sextet v 18, sextet v 12, sextet v 6, 61]
  | [a] =>
    let v := a.toNat <<< 16
    [sextet v 18, sextet v 12, 61, 61]
  | [] => []

/-- The loop of `unbase64`. `val` is an `int` by its bits; characters outside the table are
skipped. -/
def unbase64From (val : Nat) (valb : Int) : Bytes → Bytes
  | [] => []
  | c :: rest =>
    match tbl.idxOf? c with
    | none => unbase64From val valb rest
    | some d =>
      let val := ((val <<< 6) ||| d) % 2 ^ 32
      let valb := valb + 6
      if 0 ≤ valb then
        UInt8.ofNat ((val >>> valb.toNat) &&& 0xFF) :: unbase64From val (valb - 8) rest
      else unbase64From val valb rest

def unbase64 (input : Bytes) : Bytes := unbase64From 0 (-8) input

/-! ## One request -/

/-- What the system calls of one exchange do: whether there is a socket, an address and a
connection, how much `send` takes, and what the calls of `recv` give until one gives
nothing. -/
structure Network where
  socket : Bool
  address : Bool
  connect : Bool
  sent : Int
  received : List Bytes

structure EtcdClient where
  host_ : Bytes
  port_ : Int
  apiPrefix_ : Bytes := text "/v3beta"
  lastSnapshot_ : StringMap := ∅

namespace EtcdClient

def requestText (client : EtcdClient) (path body : Bytes) : Bytes :=
  text "POST " ++ path ++ text " HTTP/1.0\r\n" ++
    text "Host: " ++ client.host_ ++ text ":" ++ text (toString client.port_) ++ text "\r\n" ++
    text "Content-Type: application/json\r\n" ++
    text "Content-Length: " ++ decimal body.length ++ text "\r\n" ++
    text "Connection: close\r\n" ++ text "\r\n" ++ body

/-- The body of the response. The empty text stands for every failure. -/
def post (client : EtcdClient) (net : Network) (path body : Bytes) : Bytes :=
  if net.socket = false then []
  else if net.address = false then []
  else if net.connect = false then []
  else if net.sent < (client.requestText path body).length then []
  else
    match find (text "\r\n\r\n") net.received.flatten with
    | none => []
    | some p => net.received.flatten.drop (p + 4)

/-- The end of the range of keys: the last byte plus one. -/
def rangeEnd (keyPrefix : Bytes) : Bytes :=
  match keyPrefix.getLast? with
  | none => keyPrefix
  | some last => if last = 0xFF then keyPrefix ++ [0] else keyPrefix.dropLast ++ [last + 1]

def rangeJson (keyPrefix : Bytes) : Json :=
  .object (setField (text "range_end") (.string (base64 (rangeEnd keyPrefix)))
    (setField (text "key") (.string (base64 keyPrefix)) []))

structure KV where
  key : Bytes := []
  value : Bytes := []
  deriving DecidableEq

/-- A text field of an entry, decoded; an entry without it has the empty text. -/
def decodedField (library : Library) (name : Bytes) (kv : Json) : Except Thrown Bytes :=
  match kv.field name with
  | none => .ok []
  | some value => (library.getString value).map unbase64

def readKvs (library : Library) : List Json → Except Thrown (List KV)
  | [] => .ok []
  | kv :: kvs => do
    let key ← decodedField library (text "key") kv
    let value ← decodedField library (text "value") kv
    let rest ← readKvs library kvs
    return { key, value } :: rest

def readRange (library : Library) (resp : Bytes) : Except Thrown (List KV) :=
  if resp = [] then .ok []
  else
    match library.parse resp with
    | none => .ok []
    | some j =>
      match j.field (text "kvs") with
      | none => .ok []
      | some kvs => readKvs library kvs.elements

def getPrefix (client : EtcdClient) (library : Library) (net : Network) (keyPrefix : Bytes) :
    Except Thrown (List KV) :=
  match library.dump (rangeJson keyPrefix) with
  | none => .error .other
  | some body => readRange library (client.post net (client.apiPrefix_ ++ text "/kv/range") body)

/-! ## The poll -/

structure Change where
  added : List KV
  removed : List Bytes
  updated : List KV
  deriving DecidableEq

def snapshot (kvs : List KV) : StringMap := kvs.foldl (fun cur kv => cur.insert kv.key kv.value) ∅

def change (last cur : StringMap) : Change where
  added := (cur.entries.filter (fun e => last.lookup e.1 = none)).map (fun e => ⟨e.1, e.2⟩)
  removed := (last.entries.filter (fun e => cur.lookup e.1 = none)).map (·.1)
  updated := (cur.entries.filter (fun e =>
    decide (last.lookup e.1 ≠ none) && decide (last.lookup e.1 ≠ some e.2))).map
      (fun e => ⟨e.1, e.2⟩)

/-- What the callback is called with, if it is, and the client behind the poll. An exception
leaves the client as it was. -/
def pollOnce (client : EtcdClient) (library : Library) (net : Network) (keyPrefix : Bytes) :
    Option Change × EtcdClient :=
  match client.getPrefix library net keyPrefix with
  | .error _ => (none, client)
  | .ok kvs =>
    let cur := snapshot kvs
    let delta := change client.lastSnapshot_ cur
    (if delta.added ≠ [] ∨ delta.removed ≠ [] ∨ delta.updated ≠ [] then some delta else none,
      { client with lastSnapshot_ := cur })

/-! ## Requests that fail -/

/-- The ways in which a request fails. A timeout before the end of the head leaves no end of
it, and one inside the body leaves a text that is not JSON. -/
inductive Fails (client : EtcdClient) (library : Library) (net : Network) (path body : Bytes) :
    Prop
  | noSocket (h : net.socket = false)
  | badAddress (h : net.address = false)
  | refused (h : net.connect = false)
  | shortSend (h : net.sent < (client.requestText path body).length)
  | noHeaderEnd (h : find (text "\r\n\r\n") net.received.flatten = none)
  | unparsable (p : Nat) (hend : find (text "\r\n\r\n") net.received.flatten = some p)
    (h : library.parse (net.received.flatten.drop (p + 4)) = none)
  | noKvs (p : Nat) (j : Json) (hend : find (text "\r\n\r\n") net.received.flatten = some p)
    (hparse : library.parse (net.received.flatten.drop (p + 4)) = some j)
    (h : j.field (text "kvs") = none)

variable {client : EtcdClient} {library : Library} {net : Network} {path body keyPrefix : Bytes}

/-- The body that `post` returns: nothing, or what stands behind the end of the head. -/
theorem post_cases (client : EtcdClient) (net : Network) (path body : Bytes) :
    client.post net path body = [] ∨
      net.socket = true ∧ net.address = true ∧ net.connect = true ∧
        (client.requestText path body).length ≤ net.sent ∧
        ∃ p, find (text "\r\n\r\n") net.received.flatten = some p ∧
          client.post net path body = net.received.flatten.drop (p + 4) := by
  unfold post
  split
  · exact Or.inl rfl
  rename_i hsocket
  split
  · exact Or.inl rfl
  rename_i haddress
  split
  · exact Or.inl rfl
  rename_i hconnect
  split
  · exact Or.inl rfl
  split
  · exact Or.inl rfl
  · rename_i p hp
    rw [Bool.not_eq_false] at hsocket haddress hconnect
    exact Or.inr ⟨hsocket, haddress, hconnect, by omega, p, hp, rfl⟩

theorem readRange_of_fails (h : Fails client library net path body) :
    readRange library (client.post net path body) = .ok [] := by
  rcases post_cases client net path body with hempty |
    ⟨hsocket, haddress, hconnect, hsent, p, hp, hbody⟩
  · rw [hempty]
    rfl
  unfold readRange
  split
  · rfl
  rw [hbody]
  cases h with
  | noSocket hno =>
    rw [hsocket] at hno
    cases hno
  | badAddress hno =>
    rw [haddress] at hno
    cases hno
  | refused hno =>
    rw [hconnect] at hno
    cases hno
  | shortSend hno => omega
  | noHeaderEnd hno =>
    rw [hp] at hno
    cases hno
  | unparsable p' hend hno =>
    rw [hp] at hend
    cases hend
    rw [hno]
  | noKvs p' j hend hparse hno =>
    rw [hp] at hend
    cases hend
    rw [hparse]
    dsimp only
    rw [hno]

/-- The path and the body of the request that `getPrefix` sends fail. -/
def PollFails (client : EtcdClient) (library : Library) (net : Network) (keyPrefix : Bytes) :
    Prop :=
  ∃ body, library.dump (rangeJson keyPrefix) = some body ∧
    Fails client library net (client.apiPrefix_ ++ text "/kv/range") body

theorem getPrefix_of_fails (h : PollFails client library net keyPrefix) :
    client.getPrefix library net keyPrefix = .ok [] := by
  obtain ⟨body, hdump, hfails⟩ := h
  unfold getPrefix
  rw [hdump]
  exact readRange_of_fails hfails

theorem change_empty (last : StringMap) : change last ∅ = ⟨[], last.keys, []⟩ := by
  have hall : last.entries.filter (fun e => decide ((∅ : StringMap).lookup e.1 = none)) =
      last.entries := by
    apply List.filter_eq_self.mpr
    intro e _
    simp
  unfold change
  rw [hall]
  rfl

/-- A poll whose request fails calls nobody and keeps the snapshot exactly when the snapshot
is empty. -/
theorem failed_poll_changes_nothing_iff (client : EtcdClient) (library : Library) (net : Network)
    (keyPrefix : Bytes) (h : PollFails client library net keyPrefix) :
    ((client.pollOnce library net keyPrefix).1 = none ∧
        (client.pollOnce library net keyPrefix).2.lastSnapshot_ = client.lastSnapshot_) ↔
      client.lastSnapshot_ = ∅ := by
  have hpoll : client.pollOnce library net keyPrefix =
      (if client.lastSnapshot_.keys ≠ [] then some ⟨[], client.lastSnapshot_.keys, []⟩ else none,
        { client with lastSnapshot_ := ∅ }) := by
    unfold pollOnce
    rw [getPrefix_of_fails h]
    simp [snapshot, change_empty]
  rw [hpoll]
  constructor
  · rintro ⟨-, hsame⟩
    exact hsame.symm
  · intro hempty
    have hkeys : client.lastSnapshot_.keys = [] := by
      rw [hempty]
      rfl
    exact ⟨if_neg (fun hne => hne hkeys), hempty.symm⟩

end EtcdClient

open EtcdClient

/-- A library for an exchange without an answer. -/
def deafLibrary : Library := .reading []

def knowsOne : EtcdClient where
  host_ := text "127.0.0.1"
  port_ := 2379
  lastSnapshot_ := (∅ : StringMap).insert (text "/svc/a") (text "1")

def refusedNetwork : Network := ⟨true, true, false, 0, []⟩

theorem knowsOne_pollFails : knowsOne.PollFails deafLibrary refusedNetwork (text "/svc/") :=
  ⟨_, rfl, .refused rfl⟩

theorem failed_poll_changes_nothing_iff_refused :
    ((knowsOne.pollOnce deafLibrary refusedNetwork (text "/svc/")).1 = none ∧
        (knowsOne.pollOnce deafLibrary refusedNetwork (text "/svc/")).2.lastSnapshot_ =
          knowsOne.lastSnapshot_) ↔ knowsOne.lastSnapshot_ = ∅ :=
  failed_poll_changes_nothing_iff knowsOne deafLibrary refusedNetwork (text "/svc/")
    knowsOne_pollFails

/-- A refused connection reports the only key as removed, and forgets it. -/
theorem refused_poll_removes_the_key :
    (knowsOne.pollOnce deafLibrary refusedNetwork (text "/svc/")).1 =
        some ⟨[], [text "/svc/a"], []⟩ ∧
      (knowsOne.pollOnce deafLibrary refusedNetwork (text "/svc/")).2.lastSnapshot_.keys = [] := by
  decide

end mymuduo.etcd_client
