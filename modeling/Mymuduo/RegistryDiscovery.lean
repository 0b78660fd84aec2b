-- From a registration to a discovery: the body that the registry client writes
-- (src/registry/RegistryClient.h) through the handlers of the registry server
-- (src/registry/RegistryServer.h) into the catalog, and the query of the client
-- through the parser and the routes back to it.
import Mymuduo.RegistryClient
import Mymuduo.RegistryServer
import Mymuduo.RpcServer

open List bytes json words runs

namespace mymuduo.registry_server

open service_meta service_catalog registry_client http_request http_response http_core http_routing

/-! ## Parameters of a query -/

/-- A text that can stand as a value in a query. -/
def PlainText (s : Bytes) : Prop := s ≠ [] ∧ ∀ c ∈ text " ?&=:#\r\n", c ∉ s

instance (s : Bytes) : Decidable (PlainText s) :=
  inferInstanceAs (Decidable (s ≠ [] ∧ ∀ c ∈ text " ?&=:#\r\n", c ∉ s))

structure PlainKey (key : ServiceKey) : Prop where
  namespace_ : PlainText key.namespace_
  serviceName : PlainText key.serviceName
  version : PlainText key.version

/-- The name is found behind the names of other parameters. -/
theorem find_name {name front : Bytes} {others : List Bytes} (hname : 61 ∉ name)
    (hothers : ∀ other ∈ others, 61 ∉ other ∧ ¬name <:+ other) (hfront : 61 ∉ front)
    (rest : Bytes) :
    find (name ++ text "=")
        (others.flatMap (· ++ text "=") ++ front ++ (name ++ text "=") ++ rest) =
      some (others.flatMap (· ++ text "=") ++ front).length := by
  induction others with
  | nil =>
    have hboth : 61 ∉ front ++ name := by
      rw [mem_append, not_or]
      exact ⟨hfront, hname⟩
    have hfind := find_closed hboth (suffix_append front name) rest
    rw [length_append, Nat.add_sub_cancel] at hfind
    simpa [text] using hfind
  | cons other others ih =>
    obtain ⟨⟨hother, hsuffix⟩, hothers⟩ := forall_mem_cons.mp hothers
    have hskip := find_closed_behind hname hother hsuffix
      (others.flatMap (· ++ text "=") ++ front ++ (name ++ text "=") ++ rest)
    rw [show [61] = text "=" by decide, ih hothers] at hskip
    simpa [text, Nat.add_comm, Nat.add_assoc, Nat.add_left_comm] using hskip

variable {front : Bytes}

/-- The value runs from behind `name=` to the next `&` or to the end. -/
theorem getQueryParam_eq {path param value tail : Bytes} (hpath : 63 ∉ path) (hparam : 61 ∉ param)
    {others : List Bytes} (hothers : ∀ other ∈ others, 61 ∉ other ∧ ¬param <:+ other)
    (hfront : 61 ∉ front) (hvalue : 38 ∉ value)
    (htail : tail = [] ∨ ∃ more, tail = text "&" ++ more) (defaultValue : Bytes) :
    getQueryParam (path ++ text "?" ++ (others.flatMap (· ++ text "=") ++ front ++
      (param ++ text "=") ++ (value ++ tail))) param defaultValue = value := by
  have hfind := find_name hparam hothers hfront (value ++ tail)
  generalize others.flatMap (· ++ text "=") ++ front = front at hfind ⊢
  have hmark : find (text "?")
      (path ++ text "?" ++ (front ++ (param ++ text "=") ++ (value ++ tail))) =
        some path.length := by
    rw [append_assoc path]
    exact find_behind hpath [] _
  have hquery : (path ++ text "?" ++ (front ++ (param ++ text "=") ++ (value ++ tail))).drop
      (path.length + 1) = front ++ (param ++ text "=") ++ (value ++ tail) := by
    rw [show path.length + 1 = (path ++ text "?").length by simp [text], drop_left]
  unfold getQueryParam
  rw [hmark]
  dsimp only
  rw [hquery, hfind]
  dsimp only
  rw [← length_append, findFrom_append, drop_left]
  rcases htail with rfl | ⟨more, rfl⟩
  · have hend : find (text "&") value = none := find_eq_none_of_notMem hvalue []
    rw [append_nil, hend]
    rfl
  · have hend : find (text "&") (value ++ (text "&" ++ more)) = some value.length :=
      find_behind hvalue [] more
    rw [hend]
    dsimp only [Option.map]
    rw [Nat.add_sub_cancel, substr_append]

def discoverRoute : Bytes := text "/api/v1/registry/discover"

def discoverQuery (key : ServiceKey) : Bytes :=
  text "namespace=" ++ key.namespace_ ++ text "&serviceName=" ++ key.serviceName ++
    text "&version=" ++ key.version

theorem discoverPath_eq (key : ServiceKey) :
    discoverPath key = discoverRoute ++ text "?" ++ discoverQuery key := by
  have hfront : text "/api/v1/registry/discover?namespace=" =
      discoverRoute ++ text "?" ++ text "namespace=" := by decide
  unfold discoverPath discoverQuery
  rw [hfront]
  simp only [append_assoc]

section Query

variable {key : ServiceKey}

theorem plain_parts {s : Bytes} (h : PlainText s) : 38 ∉ s ∧ 61 ∉ s ++ text "&" := by
  rw [mem_append, not_or]
  exact ⟨h.2 38 (by decide), h.2 61 (by decide), by decide⟩

theorem discoverPath_split (key : ServiceKey) :
    discoverPath key = discoverRoute ++ text "?" ++ (text "namespace" ++ text "=" ++
      key.namespace_ ++ text "&" ++ text "serviceName" ++ text "=" ++ key.serviceName ++
        text "&" ++ text "version" ++ text "=" ++ key.version) := by
  rw [discoverPath_eq, discoverQuery,
    show text "namespace=" = text "namespace" ++ text "=" by decide,
    show text "&serviceName=" = text "&" ++ text "serviceName" ++ text "=" by decide,
    show text "&version=" = text "&" ++ text "version" ++ text "=" by decide]
  simp

theorem getQueryParam_namespace (h : PlainKey key) (defaultValue : Bytes) :
    getQueryParam (discoverPath key) (text "namespace") defaultValue = key.namespace_ := by
  have hparam := getQueryParam_eq (show 63 ∉ discoverRoute by decide)
    (show 61 ∉ text "namespace" by decide) (forall_mem_nil _) not_mem_nil
    (plain_parts h.namespace_).1 (Or.inr ⟨text "serviceName" ++ text "=" ++ key.serviceName ++
      text "&" ++ text "version" ++ text "=" ++ key.version, rfl⟩) defaultValue
  rw [discoverPath_split]
  simpa using hparam

theorem getQueryParam_serviceName (h : PlainKey key) (defaultValue : Bytes) :
    getQueryParam (discoverPath key) (text "serviceName") defaultValue = key.serviceName := by
  have hparam := getQueryParam_eq (show 63 ∉ discoverRoute by decide)
    (show 61 ∉ text "serviceName" by decide)
    (show ∀ other ∈ [text "namespace"], 61 ∉ other ∧ ¬text "serviceName" <:+ other by decide)
    (plain_parts h.namespace_).2 (plain_parts h.serviceName).1
    (Or.inr ⟨text "version" ++ text "=" ++ key.version, rfl⟩) defaultValue
  rw [discoverPath_split]
  simpa using hparam

theorem getQueryParam_version (h : PlainKey key) (defaultValue : Bytes) :
    getQueryParam (discoverPath key) (text "version") defaultValue = key.version := by
  have hothers : ∀ other ∈ [text "namespace", key.namespace_ ++ text "&" ++ text "serviceName"],
      61 ∉ other ∧ ¬text "version" <:+ other := by
    refine forall_mem_cons.mpr ⟨by decide, forall_mem_singleton.mpr ⟨?_, fun hsuffix => ?_⟩⟩
    · rw [mem_append, not_or]
      exact ⟨(plain_parts h.namespace_).2, by decide⟩
    · have hshort := suffix_of_suffix_length_le hsuffix (suffix_append ..) (by decide)
      exact absurd hshort (by decide)
  have hparam := getQueryParam_eq (show 63 ∉ discoverRoute by decide)
    (show 61 ∉ text "version" by decide) hothers (plain_parts h.serviceName).2
    (plain_parts h.version).1 (Or.inl rfl) defaultValue
  rw [discoverPath_split]
  simpa using hparam

/-- In the whole path of the client, the server would find the key again. -/
theorem queriedKey_discoverPath (h : PlainKey key) :
    RegistryServer.queriedKey (discoverPath key) = key := by
  unfold RegistryServer.queriedKey
  rw [getQueryParam_namespace h, getQueryParam_serviceName h, getQueryParam_version h]

theorem queriedKey_discoverRoute :
    (RegistryServer.queriedKey discoverRoute).serviceName = [] := by decide

end Query

/-! ## The request of the client at the server -/

theorem parseHeader_line {line more : Bytes} {parsed first : HttpRequest} (hline : 13 ∉ line)
    (hfirst : ({} : HttpRequest).parseRequestLine line = some first)
    (h : parseHeader (line ++ (crlf ++ more)) {} = some parsed) :
    parsed.method = first.method ∧ parsed.path = first.path := by
  unfold parseHeader at h
  rw [find_crlf hline] at h
  dsimp only at h
  split at h
  · cases h
  · rw [take_left, hfirst] at h
    cases h
    have hstep : ∀ (acc : HttpRequest) (l : Bytes),
        acc.method = first.method ∧ acc.path = first.path →
        (acc.parseHeader l).method = first.method ∧ (acc.parseHeader l).path = first.path :=
      fun _ _ hacc => hacc
    exact foldLines_keeps hstep _ _ _ ⟨rfl, rfl⟩

variable {host : Bytes}

theorem parseRequest_getRequest {decompress : Bytes → Bytes} {path query : Bytes}
    {request : HttpRequest} (hpath : 32 ∉ path ∧ 13 ∉ path ∧ 63 ∉ path)
    (hquery : 32 ∉ query ∧ 13 ∉ query)
    (h : parseRequest decompress (getRequest host (path ++ text "?" ++ query)) =
      .complete request rest) :
    request.method = .GET ∧ request.path = path := by
  obtain ⟨headerEnd, parsed, hfind, hparse, -, -, rfl, -⟩ :=
    (parseRequest_complete_iff decompress _ rest request).mp h
  have htarget : 13 ∉ path ++ text "?" ++ query := by
    simp only [mem_append, not_or]
    exact ⟨⟨hpath.2.1, by decide⟩, hquery.2⟩
  have hline := (isLine_words (show 13 ∉ text "GET" by decide) htarget
    (show 13 ∉ text "HTTP/1.1" by decide)).2
  have hfirst := HttpRequest.parseRequestLine_query {} (text "HTTP/1.1")
    (show 32 ∉ text "GET" by decide) hpath.1 hquery.1 hpath.2.2
  have hsplit : getRequest host (path ++ text "?" ++ query) =
      (text "GET" ++ text " " ++ (path ++ text "?" ++ query) ++ text " " ++ text "HTTP/1.1") ++
        (crlf ++ 72 :: (text "ost: " ++ host ++ text "\r\n" ++ text "Connection: close\r\n" ++
          text "\r\n")) := by
    unfold getRequest
    rw [show text "GET " = text "GET" ++ text " " by decide,
      show text " HTTP/1.1\r\n" = text " " ++ text "HTTP/1.1" ++ crlf by decide,
      show text "Host: " = 72 :: text "ost: " by decide]
    simp
  generalize text "GET" ++ text " " ++ (path ++ text "?" ++ query) ++ text " " ++ text "HTTP/1.1" =
    line at hline hfirst hsplit
  -- the blank line stands behind the request line, so the header section has all of it
  rw [hsplit, find_blank_skips hline (by decide)] at hfind
  obtain ⟨n, -, rfl⟩ := Option.map_eq_some_iff.mp hfind
  rw [hsplit, ← append_assoc line, Nat.add_comm, take_length_add_append, append_assoc] at hparse
  obtain ⟨hmethod, hpath'⟩ := parseHeader_line hline hfirst hparse
  have hkeeps : ∀ r : HttpRequest, (maybeDecompressRequestBody decompress r).method = r.method ∧
      (maybeDecompressRequestBody decompress r).path = r.path := by
    intro r
    unfold maybeDecompressRequestBody
    dsimp only
    split
    · exact ⟨rfl, rfl⟩
    · split
      · exact ⟨rfl, rfl⟩
      · split <;> exact ⟨rfl, rfl⟩
  rw [(hkeeps _).1, (hkeeps _).2]
  split <;> exact ⟨hmethod, hpath'⟩

theorem parseRequest_discover {decompress : Bytes → Bytes} {key : ServiceKey} (h : PlainKey key)
    {request : HttpRequest}
    (hparse : parseRequest decompress (getRequest host (discoverPath key)) =
      .complete request rest) :
    request.method = .GET ∧ request.path = discoverRoute := by
  have hplain : ∀ s, PlainText s → 32 ∉ s ∧ 13 ∉ s :=
    fun s hs => ⟨hs.2 32 (by decide), hs.2 13 (by decide)⟩
  obtain ⟨hns, hns'⟩ := hplain _ h.namespace_
  obtain ⟨hname, hname'⟩ := hplain _ h.serviceName
  obtain ⟨hversion, hversion'⟩ := hplain _ h.version
  rw [discoverPath_eq] at hparse
  refine parseRequest_getRequest ⟨by decide, by decide, by decide⟩ ⟨?_, ?_⟩ hparse
  · simp only [discoverQuery, mem_append, not_or]
    exact ⟨⟨⟨⟨⟨by decide, hns⟩, by decide⟩, hname⟩, by decide⟩, hversion⟩
  · simp only [discoverQuery, mem_append, not_or]
    exact ⟨⟨⟨⟨⟨by decide, hns'⟩, by decide⟩, hname'⟩, by decide⟩, hversion'⟩

def postFields (host body contentType : Bytes) : List (Bytes × Bytes) :=
  [(text "Host", host), (text "Content-Type", contentType),
    (text "Content-Length", decimal body.length), (text "Connection", text "close")]

theorem postRequest_eq_message (host path body contentType : Bytes) :
    postRequest host path body contentType =
      message (text "POST" ++ text " " ++ path ++ text " " ++ text "HTTP/1.1")
        (postFields host body contentType) body := by
  have hcrlf : text "\r\n" = crlf := by decide
  unfold postRequest
  rw [message_eq_flatMap, show text "POST " = text "POST" ++ text " " by decide,
    show text " HTTP/1.1\r\n" = text " " ++ text "HTTP/1.1" ++ crlf by decide,
    show text "Host: " = text "Host" ++ text ": " by decide,
    show text "Content-Type: " = text "Content-Type" ++ text ": " by decide,
    show text "Content-Length: " = text "Content-Length" ++ text ": " by decide,
    show text "Connection: close\r\n" =
      text "Connection" ++ text ": " ++ text "close" ++ crlf by decide,
    hcrlf]
  simp [postFields, headerLine]

theorem fieldText_postFields {contentType : Bytes} (hhost : NoBreak host)
    (htype : NoBreak contentType) (body : Bytes) :
    ∀ field ∈ postFields host body contentType, FieldText field := by
  simp only [postFields, forall_mem_cons]
  exact ⟨fieldText_mk (by decide) hhost, fieldText_mk (by decide) htype,
    fieldText_mk (by decide) (noBreak_decimal _), by decide, fun _ h => absurd h not_mem_nil⟩

/-- What the parser makes of its header section. -/
def postHead (host path body contentType : Bytes) : HttpRequest where
  method := .POST
  version := .HTTP_11
  path
  headers := (postFields host body contentType).foldl insertField ∅

variable {body : Bytes}

theorem contentLength_postHead (host path contentType : Bytes)
    (hbody : body.length ≤ kMaxBodySize) :
    (postHead host path body contentType).contentLength = body.length := by
  have hlookup : (postHead host path body contentType).headers.lookup (text "content-length") =
      some (keptValue (decimal body.length)) :=
    (lookup_insertFields_last ∅ _ _).trans rfl
  unfold kMaxBodySize at hbody
  unfold HttpRequest.contentLength HttpRequest.getHeader
  rw [show lower (text "content-length") = text "content-length" by decide, hlookup,
    keptValue_decimal]
  dsimp only [Option.getD_some]
  rw [if_neg (decimal_ne_nil _), stoul_decimal (by omega)]
  rfl

theorem getHeader_encoding_postHead (host path body contentType : Bytes) :
    (postHead host path body contentType).getHeader (text "content-encoding") = [] := by
  have hlookup : (postHead host path body contentType).headers.lookup (text "content-encoding") =
      none := (lookup_insertFields_last ∅ _ _).trans rfl
  unfold HttpRequest.getHeader
  rw [show lower (text "content-encoding") = text "content-encoding" by decide, hlookup]
  rfl

theorem parseRequest_postRequest (decompress : Bytes → Bytes) {path contentType body : Bytes}
    (hhost : NoBreak host) (htype : NoBreak contentType)
    (hpath : 32 ∉ path ∧ 13 ∉ path ∧ 63 ∉ path)
    (hline :
      (text "POST" ++ text " " ++ path ++ text " " ++ text "HTTP/1.1").length ≤ kMaxRequestLine)
    (hbody : body.length ≤ kMaxBodySize) :
    parseRequest decompress (postRequest host path body contentType) =
      .complete { postHead host path body contentType with body } [] := by
  have hfields := fieldText_postFields hhost htype body
  have hfirst := HttpRequest.parseRequestLine_written {} (text "HTTP/1.1")
    (show 32 ∉ text "POST" by decide) hpath.1 hpath.2.2
  have hwords : IsLine (text "POST" ++ text " " ++ path ++ text " " ++ text "HTTP/1.1") :=
    isLine_words (by decide) hpath.2.1 (by decide)
  have hcontent := contentLength_postHead host path contentType hbody
  have hplain : ({ postHead host path body contentType with body } : HttpRequest).getHeader
      (text "content-encoding") = [] := getHeader_encoding_postHead host path body contentType
  have hparse : _ = some (postHead host path body contentType) :=
    parseHeader_written hwords.2 hline hfields hfirst
  rw [postRequest_eq_message, parseRequest_message_iff decompress hwords hfields hparse, hcontent]
  refine ⟨hbody, le_rfl, ?_, drop_length.symm⟩
  rw [take_length, maybeDecompressRequestBody_plain decompress hplain]

/-! ## A registration, and others behind it -/

/-- The instance as the server keeps it: with an id, and with the heartbeat of its
registration. -/
def kept (key : ServiceKey) (inst : InstanceMeta) (now : Int) : InstanceMeta :=
  (if inst.instanceId = [] then { inst with instanceId := generateInstanceId key inst now }
    else inst).heartbeat now

theorem heartbeat_kept (key : ServiceKey) (inst : InstanceMeta) (now : Int) :
    (kept key inst now).heartbeat now = kept key inst now := rfl

theorem ttlSeconds_kept (key : ServiceKey) (inst : InstanceMeta) (now : Int) :
    (kept key inst now).ttlSeconds = inst.ttlSeconds := by
  unfold kept
  split <;> rfl

variable {inst : InstanceMeta}

theorem healthy_kept {key : ServiceKey} {start now : Int}
    (httl : 1 ≤ inst.ttlSeconds ∧ inst.ttlSeconds ≤ 2000000)
    (hnow : start ≤ now ∧ now ≤ start + inst.ttlSeconds * 1000) :
    Catalog.healthy now (kept key inst start) = true := by
  have hstart : (kept key inst start).lastHeartbeatMs = start := rfl
  have hstatus : (kept key inst start).status = text "UP" := rfl
  have hfresh : (kept key inst start).isExpired now = false := by
    unfold InstanceMeta.isExpired
    rw [ttlSeconds_kept, hstart, int32_eq (by omega) (by omega), int64_eq (by omega) (by omega)]
    exact decide_eq_false (by omega)
  unfold Catalog.healthy
  rw [hstatus, hfresh]
  rfl

theorem mem_registered {now : Int} (h : inst.heartbeat now = inst) (l : List InstanceMeta) :
    inst ∈ Directory.registered inst now l := by
  unfold Directory.registered
  split
  · rename_i hsome
    obtain ⟨old, hold, hid⟩ := hsome
    refine mem_map.mpr ⟨old, hold, ?_⟩
    rw [if_pos hid, ← Catalog.heartbeat_eq_refreshed, h]
  · exact mem_append_right l (mem_singleton_self inst)

theorem mem_registered_of_ne {other : InstanceMeta} {l : List InstanceMeta} (h : inst ∈ l)
    (hne : other.instanceId ≠ inst.instanceId) (now : Int) :
    inst ∈ Directory.registered other now l := by
  unfold Directory.registered
  split
  · refine mem_map.mpr ⟨inst, h, ?_⟩
    rw [if_neg hne.symm]
  · exact mem_append_left _ h

namespace RegistryServer

variable (server : RegistryServer) {key : ServiceKey} {inst : InstanceMeta}

theorem registration_written (h : inst.InRange)
    (hbody : server.library.parse body = some (registerJson key inst)) (now : Int) :
    server.registration now body = .ok (key, kept key inst now) := by
  have hservice : getField (text "service") (setField (text "instance") inst.toJson
      (setField (text "service") key.toJson [])) = some key.toJson := by
    rw [getField_setField_of_ne (by decide), getField_setField_self]
  have hinstance : getField (text "instance") (setField (text "instance") inst.toJson
      (setField (text "service") key.toJson [])) = some inst.toJson := getField_setField_self ..
  unfold registration parse
  rw [hbody]
  dsimp only [bind, Except.bind, registerJson]
  rw [server.library.index_of_field hservice]
  dsimp only
  rw [ServiceKey.fromJson_toJson]
  rw [server.library.index_of_field hinstance]
  dsimp only
  rw [InstanceMeta.fromJson_toJson h]
  rfl

/-- A registration that arrives at its time. -/
def next (r : Registry) (arrival : Int × HttpRequest) : Registry :=
  (server.handleRegister arrival.2 {} (r.at_ arrival.1)).2

/-- The request of `registerService` gets there, and does what its body says. -/
theorem registration_arrives (engine : RegexEngine) (files : FileSystem)
    (compress decompress : Bytes → Bytes) :
    ∃ core, server.core engine files compress decompress = some core ∧
      ∀ host body, NoBreak host → body.length ≤ kMaxBodySize → ∃ request,
        parseRequest decompress (postRequest host (text "/api/v1/registry/register") body
            (text "application/json")) = .complete request [] ∧
          ∀ (r : Registry) (now : Int),
            (core.toCore.handle (r.at_ now) request).2 = server.next r (now, { body }) := by
  obtain ⟨core, hcore, hhandle⟩ := server.core_handle engine files compress decompress
  refine ⟨core, hcore, ?_⟩
  intro host body hhost hbody
  refine ⟨_, parseRequest_postRequest decompress hhost (by decide)
    ⟨by decide, by decide, by decide⟩ (by decide) hbody, ?_⟩
  intro r now
  rw [hhandle (.POST, text "/api/v1/registry/register", server.handleRegister)
    (by simp [handlers]) _ (r.at_ now) rfl rfl]
  rfl

/-- The registration does not take the place of the instance with this id. -/
def Other (key : ServiceKey) (id : Bytes) (arrival : Int × HttpRequest) : Prop :=
  ∀ k i, server.registration arrival.1 arrival.2.body = .ok (k, i) → k.key = key.key →
    i.instanceId ≠ id

theorem next_of_registration (r : Registry) (arrival : Int × HttpRequest)
    (h : server.registration arrival.1 arrival.2.body = .ok (key, inst)) :
    ∃ terminated,
      server.next r arrival = { (r.at_ arrival.1).registerInstance key inst with terminated } := by
  have heffect : server.handleRegister.effect arrival.2 (r.at_ arrival.1) =
      (r.at_ arrival.1).registerInstance key inst := by
    have hread : server.registration (r.at_ arrival.1).clock arrival.2.body = .ok (key, inst) := h
    unfold handleRegister
    dsimp only
    rw [hread]
  obtain ⟨terminated, hrun⟩ := server.handleRegister.run_eq arrival.2 {} (r.at_ arrival.1)
  refine ⟨terminated, ?_⟩
  unfold next
  rw [hrun, heffect]

theorem view_registerInstance (r : Registry) (key : ServiceKey) (inst : InstanceMeta) :
    (r.registerInstance key inst).catalog_.view =
      Function.update r.catalog_.view key.key
        (Directory.registered inst r.clock (r.catalog_.view key.key)) :=
  Catalog.view_step r.sound (r.handsInNew key inst r.clock)

theorem mem_view_next {r : Registry} {arrival : Int × HttpRequest}
    (hother : server.Other key inst.instanceId arrival) (h : inst ∈ r.catalog_.view key.key) :
    inst ∈ (server.next r arrival).catalog_.view key.key := by
  cases hread : server.registration arrival.1 arrival.2.body with
  | error e =>
    have hread' : server.registration (r.at_ arrival.1).clock arrival.2.body = .error e := hread
    obtain ⟨terminated, hrun⟩ := server.handleRegister.run_eq arrival.2 {} (r.at_ arrival.1)
    unfold next
    rw [hrun]
    unfold handleRegister
    dsimp only
    rw [hread']
    exact h
  | ok registered =>
    obtain ⟨k, i⟩ := registered
    obtain ⟨terminated, hnext⟩ := server.next_of_registration r arrival hread
    rw [hnext, view_registerInstance]
    by_cases hk : key.key = k.key
    · rw [hk, Function.update_self]
      exact mem_registered_of_ne (hk ▸ h) (hother k i hread hk.symm) arrival.1
    · rw [Function.update_of_ne hk]
      exact h

/-! ## Discovery -/

/-- The instance found is the one that was registered. The server gives it an id if it has
none, and keeps the time of the heartbeat and the status itself. -/
structure SameInstance (inst found : InstanceMeta) : Prop where
  instanceId : inst.instanceId ≠ [] → found.instanceId = inst.instanceId
  host : found.host = inst.host
  port : found.port = inst.port
  weight : found.weight = inst.weight
  ttlSeconds : found.ttlSeconds = inst.ttlSeconds
  metadata : found.metadata = inst.metadata

theorem sameInstance_kept (key : ServiceKey) (inst : InstanceMeta) (now : Int) :
    SameInstance inst (kept key inst now) := by
  unfold kept
  split
  · rename_i hempty
    exact ⟨fun hne => absurd hempty hne, rfl, rfl, rfl, rfl, rfl⟩
  · exact ⟨fun _ => rfl, rfl, rfl, rfl, rfl, rfl⟩

/-- The array of instances in the body of an answer has the instance. -/
def Carries (inst : InstanceMeta) (body : Bytes) : Prop :=
  ∃ fields values found, server.library.parse body = some (.object fields) ∧
    getField (text "instances") fields = some (.array values) ∧
    found.toJson ∈ values ∧ SameInstance inst found

/-- A key and an instance, and the body that `registerService` writes for them. -/
structure Registered (key : ServiceKey) (inst : InstanceMeta) (body : Bytes) : Prop where
  plain : PlainKey key
  inRange : inst.InRange
  ttlSeconds : 1 ≤ inst.ttlSeconds ∧ inst.ttlSeconds ≤ 2000000
  written : server.library.dump (registerJson key inst) = some body
  read : server.library.parse body = some (registerJson key inst)

/-- The server behind a registration and others, at a later time. -/
def registeredAt (before : Registry) (start : Int) (body : Bytes)
    (others : List (Int × HttpRequest)) (now : Int) : Registry :=
  (run server.next (server.next before (start, { body })) others).at_ now

theorem mem_discover (h : server.Registered key inst body) (before : Registry)
    (start : Int) {others : List (Int × HttpRequest)}
    (hothers : ∀ arrival ∈ others, server.Other key (kept key inst start).instanceId arrival)
    {now : Int} (hnow : start ≤ now ∧ now ≤ start + inst.ttlSeconds * 1000) :
    kept key inst start ∈ (server.registeredAt before start body others now).discover key := by
  have hregistered : kept key inst start ∈
      (server.next before (start, { body })).catalog_.view key.key := by
    obtain ⟨terminated, hnext⟩ := server.next_of_registration before (start, { body })
      (server.registration_written h.inRange h.read start)
    rw [hnext, view_registerInstance, Function.update_self]
    exact mem_registered (heartbeat_kept key inst start) _
  have hstep : ∀ (r : Registry) (arrival : Int × HttpRequest),
      server.Other key (kept key inst start).instanceId arrival →
      kept key inst start ∈ r.catalog_.view key.key →
      kept key inst start ∈ (server.next r arrival).catalog_.view key.key :=
    fun r arrival hother hmem => server.mem_view_next hother hmem
  have hrun := invariant_run hstep (meets_of_forall server.next _
    (fun arrival harrival _ => hothers arrival harrival) _) hregistered
  unfold Registry.discover
  rw [Catalog.map_discover]
  exact mem_filter.mpr ⟨hrun, healthy_kept h.ttlSeconds hnow⟩

theorem carries_discoverJson {instances : List InstanceMeta} {found : InstanceMeta}
    (hbody : server.library.parse body = some (discoverJson key instances))
    (hfound : found ∈ instances) (hsame : SameInstance inst found) : server.Carries inst body :=
  ⟨_, _, found, hbody, getField_setField_self .., mem_map_of_mem hfound, hsame⟩

theorem dump_of_writes {value : Json} (h : server.library.Writes value) :
    ∃ body, server.dump value = .ok body ∧ server.library.parse body = some value := by
  obtain ⟨body, hdump, hparse⟩ := h
  refine ⟨body, ?_, hparse⟩
  unfold dump
  rw [hdump]

theorem composedDiscover_discoverPath {r : Registry} {found : InstanceMeta} (hkey : PlainKey key)
    (hfound : found ∈ r.discover key) (hsame : SameInstance inst found)
    (hwrites : server.library.Writes (discoverJson key (r.discover key))) :
    ∃ reply, server.composedDiscover (discoverPath key) r = .ok reply ∧
      server.Carries inst reply := by
  obtain ⟨reply, hdump, hparse⟩ := server.dump_of_writes hwrites
  refine ⟨reply, ?_, server.carries_discoverJson hparse hfound hsame⟩
  unfold composedDiscover
  rw [queriedKey_discoverPath hkey]
  dsimp only
  rw [if_neg hkey.serviceName.1, hdump]

theorem composedDiscover_discoverRoute (r : Registry)
    (hwrites : server.library.Writes (errorJson (-32602) (text "Missing serviceName"))) :
    ∃ reply, server.composedDiscover discoverRoute r = .ok reply ∧
      server.library.parse reply = some (errorJson (-32602) (text "Missing serviceName")) := by
  obtain ⟨reply, hdump, hparse⟩ := server.dump_of_writes hwrites
  refine ⟨reply, ?_, hparse⟩
  unfold composedDiscover
  dsimp only
  rw [if_pos queriedKey_discoverRoute, makeError, hdump]

/-- Over the wire, every discovery is answered by a response without a body. -/
theorem discovery_answers_empty (hkey : PlainKey key) (engine : RegexEngine) (files : FileSystem)
    (compress decompress : Bytes → Bytes) :
    ∃ core, server.core engine files compress decompress = some core ∧
      ∀ host request rest (r : Registry),
        parseRequest decompress (getRequest host (discoverPath key)) = .complete request rest →
        request.path = discoverRoute ∧ (core.toCore.handle r request).1 = {} := by
  obtain ⟨core, hcore, hhandle⟩ := server.core_handle engine files compress decompress
  refine ⟨core, hcore, ?_⟩
  intro host request rest r hparse
  obtain ⟨hmethod, hpath⟩ := parseRequest_discover hkey hparse
  refine ⟨hpath, ?_⟩
  rw [hhandle (.GET, discoverRoute, server.handleDiscover) (by simp [handlers, discoverRoute])
    request r hmethod hpath]
  obtain ⟨terminated, hrun⟩ := server.handleDiscover.run_eq request {} r
  rw [hrun]

theorem not_carries_empty (hempty : server.library.parse [] = none) (inst : InstanceMeta) :
    ¬ server.Carries inst ({} : HttpResponse).body := by
  rintro ⟨fields, values, found, hbody, -⟩
  have hnone : server.library.parse ({} : HttpResponse).body = none := hempty
  rw [hnone] at hbody
  cases hbody

/-- The response to a discovery carries the instance exactly when the response that was handed
in did. Over the wire a fresh one is handed in, and what is composed and dropped is an error,
since the parser has cut the query off the path. With the path of the client as it was
written, it would be the right answer. -/
theorem discovery_carries_iff {body : Bytes} (h : server.Registered key inst body)
    (before : Registry) (start : Int) {others : List (Int × HttpRequest)}
    (hothers : ∀ arrival ∈ others, server.Other key (kept key inst start).instanceId arrival)
    {now : Int} (hnow : start ≤ now ∧ now ≤ start + inst.ttlSeconds * 1000)
    (hreply : server.library.Writes (discoverJson key
      ((server.registeredAt before start body others now).discover key)))
    (herror : server.library.Writes (errorJson (-32602) (text "Missing serviceName")))
    (hempty : server.library.parse [] = none) (engine : RegexEngine) (files : FileSystem)
    (compress decompress : Bytes → Bytes) :
    let after := server.registeredAt before start body others now
    (∀ request resp, server.Carries inst (server.handleDiscover request resp after).1.body ↔
        server.Carries inst resp.body) ∧
      (∃ core, server.core engine files compress decompress = some core ∧
        ∀ host request rest,
          parseRequest decompress (getRequest host (discoverPath key)) = .complete request rest →
          ¬ server.Carries inst (core.toCore.handle after request).1.body ∧
            ∃ reply, server.composedDiscover request.path after = .ok reply ∧
              server.library.parse reply = some (errorJson (-32602) (text "Missing serviceName"))) ∧
      ∃ reply, server.composedDiscover (discoverPath key) after = .ok reply ∧
        server.Carries inst reply := by
  intro after
  refine ⟨fun request resp => ?_, ?_, ?_⟩
  · obtain ⟨terminated, hrun⟩ := server.handleDiscover.run_eq request resp after
    rw [hrun]
  · obtain ⟨core, hcore, hanswer⟩ := server.discovery_answers_empty h.plain engine files compress
      decompress
    refine ⟨core, hcore, ?_⟩
    intro host request rest hparse
    obtain ⟨hpath, hhandle⟩ := hanswer host request rest after hparse
    rw [hpath, hhandle]
    exact ⟨server.not_carries_empty hempty inst, server.composedDiscover_discoverRoute after herror⟩
  · exact server.composedDiscover_discoverPath h.plain
      (server.mem_discover h before start hothers hnow) (sameInstance_kept key inst start) hreply

end RegistryServer

/-! ## One discovery -/

def oneKey : ServiceKey := ⟨text "ns", text "orders", text "v1"⟩

def oneInstance : InstanceMeta := { instanceId := text "i", host := text "10.0.0.1", port := 80 }

def oneLibrary : Library :=
  .reading [registerJson oneKey oneInstance, discoverJson oneKey [kept oneKey oneInstance 5],
    errorJson (-32602) (text "Missing serviceName")]

def oneServer : RegistryServer where
  library := oneLibrary
  what _ _ := []

theorem oneServer_reads : oneServer.library.parse
    (registerJson oneKey oneInstance).compact = some (registerJson oneKey oneInstance) := by
  rw [oneServer, oneLibrary, Library.reads_head]

theorem oneServer_registered : oneServer.Registered oneKey oneInstance
    (registerJson oneKey oneInstance).compact where
  plain := ⟨by decide +kernel, by decide +kernel, by decide +kernel⟩
  inRange := ⟨by decide, by decide, by decide, by decide⟩
  ttlSeconds := by decide
  written := rfl
  read := oneServer_reads

theorem oneServer_writes_reply :
    oneServer.library.Writes (discoverJson oneKey [kept oneKey oneInstance 5]) := by
  refine ⟨_, rfl, ?_⟩
  dsimp only [oneServer, oneLibrary, Library.reading]
  rw [find?_cons_of_neg (by decide), find?_cons_of_pos (by simp)]

theorem oneServer_writes_error :
    oneServer.library.Writes (errorJson (-32602) (text "Missing serviceName")) := by
  refine ⟨_, rfl, ?_⟩
  dsimp only [oneServer, oneLibrary, Library.reading]
  rw [find?_cons_of_neg (by decide), find?_cons_of_neg (by decide), find?_cons_of_pos (by simp)]

theorem oneServer_empty : oneServer.library.parse [] = none := by
  dsimp only [oneServer, oneLibrary, Library.reading]
  rw [find?_cons_of_neg (by decide), find?_cons_of_neg (by decide),
    find?_cons_of_neg (by decide), find?_nil]

/-- The server at 6 ms, behind the registration at 5 ms. -/
def oneRegistry : Registry :=
  oneServer.registeredAt {} 5 (registerJson oneKey oneInstance).compact [] 6

theorem oneRegistry_discover : oneRegistry.discover oneKey = [kept oneKey oneInstance 5] := by
  obtain ⟨terminated, hnext⟩ := oneServer.next_of_registration {}
    (5, { body := (registerJson oneKey oneInstance).compact })
    (oneServer.registration_written oneServer_registered.inRange oneServer_reads 5)
  unfold oneRegistry RegistryServer.registeredAt
  dsimp only [run, foldl_nil]
  rw [hnext]
  cases terminated <;> decide

/-- The request that registers it arrives at 5 ms, and it can be found at 6 ms. -/
theorem registration_arrives_one :
    ∃ core request, oneServer.core plainEngine bareCore.files id id = some core ∧
      parseRequest id (postRequest (text "registry") (text "/api/v1/registry/register")
          (registerJson oneKey oneInstance).compact (text "application/json")) =
        .complete request [] ∧
      ((core.toCore.handle (({} : Registry).at_ 5) request).2.at_ 6).discover oneKey =
        [kept oneKey oneInstance 5] := by
  obtain ⟨core, hcore, harrives⟩ :=
    oneServer.registration_arrives plainEngine bareCore.files id id
  obtain ⟨request, hparse, hhandle⟩ := harrives (text "registry")
    (registerJson oneKey oneInstance).compact (by decide) (by decide +kernel)
  refine ⟨core, request, hcore, hparse, ?_⟩
  rw [hhandle]
  exact oneRegistry_discover

theorem discovery_carries_iff_one :
    (∀ request resp,
        oneServer.Carries oneInstance (oneServer.handleDiscover request resp oneRegistry).1.body ↔
          oneServer.Carries oneInstance resp.body) ∧
      ∃ reply, oneServer.composedDiscover (discoverPath oneKey) oneRegistry = .ok reply ∧
        oneServer.Carries oneInstance reply := by
  have hreply : oneServer.library.Writes (discoverJson oneKey (oneRegistry.discover oneKey)) := by
    rw [oneRegistry_discover]
    exact oneServer_writes_reply
  have hnow : (5 : Int) ≤ 6 ∧ (6 : Int) ≤ 5 + oneInstance.ttlSeconds * 1000 := by decide
  have h := oneServer.discovery_carries_iff oneServer_registered {} 5
    (fun _ harrival => absurd harrival not_mem_nil) hnow hreply oneServer_writes_error
    oneServer_empty plainEngine bareCore.files id id
  exact ⟨h.1, h.2.2⟩

/-- The catalog has the instance, and its request is read and routed. The response is empty. -/
theorem registered_instance_is_not_discovered :
    oneServer.Registered oneKey oneInstance (registerJson oneKey oneInstance).compact ∧
      kept oneKey oneInstance 5 ∈ oneRegistry.discover oneKey ∧
      ∃ core request rest, oneServer.core plainEngine bareCore.files id id = some core ∧
        parseRequest id (getRequest (text "registry") (discoverPath oneKey)) =
          .complete request rest ∧
        (core.toCore.handle oneRegistry request).1 = {} ∧
        ¬ oneServer.Carries oneInstance (core.toCore.handle oneRegistry request).1.body := by
  have hcomplete :
      (parseRequest id (getRequest (text "registry") (discoverPath oneKey))).isComplete =
      true := by decide +kernel
  obtain ⟨core, hcore, hanswer⟩ :=
    oneServer.discovery_answers_empty oneServer_registered.plain plainEngine bareCore.files id id
  refine ⟨oneServer_registered, by rw [oneRegistry_discover]; exact mem_singleton_self _, core, ?_⟩
  cases hparse : parseRequest id (getRequest (text "registry") (discoverPath oneKey)) with
  | complete request rest =>
    refine ⟨request, rest, hcore, rfl, ?_, ?_⟩
    · rw [(hanswer _ request rest oneRegistry hparse).2]
    · rw [(hanswer _ request rest oneRegistry hparse).2]
      exact oneServer.not_carries_empty oneServer_empty oneInstance
  | incomplete | error =>
    rw [hparse] at hcomplete
    cases hcomplete

end mymuduo.registry_server
