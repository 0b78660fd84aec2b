-- The opening handshake between `WebSocketClient` and `WebSocketServer`. Each end
-- writes a header section that the parser of the other end reads back, so every
-- connection opens on both ends, whatever the nonce, the path and the cut of the
-- two messages.
import Mymuduo.WebSocketClient
import Mymuduo.WebSocketCuts

open List hiding head
open bytes runs words

namespace mymuduo.websocket_frame

/-! ## Base64 texts -/

def IsBase64 (c : UInt8) : Prop := c ∈ base64Chars ∨ c = 61

theorem isBase64_getD (k : Nat) : IsBase64 (base64Chars.getD (k &&& 0x3F) 0) := by
  have hlt : k &&& 0x3F < base64Chars.length := lt_of_le_of_lt Nat.and_le_right (by decide +kernel)
  left
  rw [getD_eq_getElem _ _ hlt]
  exact getElem_mem hlt

theorem isBase64_ite {p : Prop} [Decidable p] (k : Nat) :
    IsBase64 (if p then base64Chars.getD (k &&& 0x3F) 0 else 61) := by
  split
  · exact isBase64_getD k
  · exact Or.inr rfl

theorem isBase64_group {p q : Prop} [Decidable p] [Decidable q] {k₁ k₂ k₃ k₄ : Nat} {c : UInt8}
    (h : c ∈ [base64Chars.getD (k₁ &&& 0x3F) 0, base64Chars.getD (k₂ &&& 0x3F) 0,
      if p then base64Chars.getD (k₃ &&& 0x3F) 0 else 61,
      if q then base64Chars.getD (k₄ &&& 0x3F) 0 else 61]) : IsBase64 c := by
  have hall := forall_mem_cons.mpr ⟨isBase64_getD k₁, forall_mem_cons.mpr
    ⟨isBase64_getD k₂, forall_mem_cons.mpr
      ⟨isBase64_ite k₃ (p := p), forall_mem_singleton.mpr (isBase64_ite k₄ (p := q))⟩⟩⟩
  exact hall c h

theorem not_blank_of_isBase64 {c : UInt8} (h : IsBase64 c) :
    websocket_server.isBlank c = false ∧ c ≠ 13 ∧ c ≠ 10 := by
  -- the blanks and the ends of a line are all at 32 or below
  have hall : ∀ c ∈ base64Chars, 32 < c := by decide +kernel
  have habove : 32 < c := by
    rcases h with h | rfl
    · exact hall c h
    · decide
  have hne : ∀ d : UInt8, d ≤ 32 → c ≠ d := by
    rintro d hd rfl
    exact absurd habove (UInt8.not_lt.mpr hd)
  refine ⟨?_, hne 13 (by decide), hne 10 (by decide)⟩
  simp [websocket_server.isBlank, hne 32 (by decide), hne 9 (by decide), hne 13 (by decide),
    hne 10 (by decide)]

theorem noBreak_of_isBase64 {s : Bytes} (h : ∀ c ∈ s, IsBase64 c) : NoBreak s :=
  ⟨fun hc => (not_blank_of_isBase64 (h _ hc)).2.1 rfl,
    fun hc => (not_blank_of_isBase64 (h _ hc)).2.2 rfl⟩

theorem isBase64_acceptKey {sha1 : Bytes → Bytes} {key : Bytes} {c : UInt8}
    (h : c ∈ computeAcceptKey sha1 key) : IsBase64 c := by
  obtain ⟨i, -, hc⟩ := mem_flatMap.mp h
  exact isBase64_group hc

theorem acceptKey_ne_nil (sha1 : Bytes → Bytes) (key : Bytes) : computeAcceptKey sha1 key ≠ [] := by
  unfold computeAcceptKey
  rw [flatMap_cons]
  unfold base64Round
  exact cons_ne_nil _ _

end mymuduo.websocket_frame

namespace mymuduo.websocket_client

open websocket_frame

theorem isBase64_encode {data : Bytes} {c : UInt8} (h : c ∈ base64Encode data) : IsBase64 c := by
  obtain ⟨i, -, hc⟩ := mem_flatMap.mp h
  exact isBase64_group hc

theorem base64Encode_ne_nil {data : Bytes} (h : data ≠ []) : base64Encode data ≠ [] := by
  have hpos := length_pos_iff.mpr h
  obtain ⟨n, hn⟩ : ∃ n, (data.length + 2) / 3 = n + 1 := ⟨(data.length + 2) / 3 - 1, by omega⟩
  unfold base64Encode
  rw [hn, range_succ_eq_map, flatMap_cons]
  unfold base64Group
  simp

end mymuduo.websocket_client

namespace mymuduo.websocket_server

open http_request (headerLine head message message_parts FieldText first_line_words substr)
open websocket_frame

/-! ## The request, read by the server -/

theorem trim_blank (value : Bytes) : trim (32 :: value) = trim value := by
  unfold trim
  rw [dropWhile_cons_of_pos (by decide)]

theorem trim_of_not_blank {s : Bytes} (h : ∀ c ∈ s, isBlank c = false) : trim s = s := by
  have hdrop : s.dropWhile isBlank = s := by
    rw [dropWhile_eq_self_iff]
    intro hpos
    rw [h _ (getElem_mem hpos)]
    simp
  unfold trim
  rw [hdrop, rdropWhile_eq_self_iff]
  intro hne
  rw [h _ (getLast_mem hne)]
  simp

def insertLine (headers : List (Bytes × Bytes)) (line : Bytes) : List (Bytes × Bytes) :=
  match find (text ":") line with
  | some colon => mapInsert (trim (line.take colon)) (trim (line.drop (colon + 1))) headers
  | none => headers

/-- The loop of `parseHeaders` goes over the lines. An empty line has no colon. -/
theorem parseHeadersFrom_eq (header : Bytes) (fuel pos : Nat) (headers : List (Bytes × Bytes)) :
    parseHeadersFrom header fuel pos headers = foldLines insertLine header fuel pos headers := by
  induction fuel generalizing pos headers with
  | zero => rfl
  | succ fuel ih =>
    rw [parseHeadersFrom, foldLines]
    split
    · rw [ih]
      congr 1
      unfold substr
      generalize (header.drop pos).take _ = line
      by_cases hnil : line = []
      · rw [if_pos hnil, hnil]
        rfl
      · rw [if_neg hnil]
        rfl
    · rfl

theorem insertLine_headerLine (headers : List (Bytes × Bytes)) {field : Bytes × Bytes}
    (h : 58 ∉ field.1) :
    insertLine headers (headerLine field) = mapInsert (trim field.1) (trim field.2) headers := by
  unfold insertLine
  rw [http_request.find_headerLine h, http_request.headerLine_eq]
  dsimp only
  rw [take_left, drop_append, drop_eq_nil_of_le (by omega), Nat.add_sub_cancel_left]
  exact congrArg (mapInsert (trim field.1) · headers) (trim_blank field.2)

theorem parseHeaders_written {fields : List (Bytes × Bytes)}
    (h : ∀ field ∈ fields, FieldText field) :
    parseHeaders (crlf.intercalate (fields.map headerLine)) =
      fields.foldl (fun headers field => mapInsert (trim field.1) (trim field.2) headers) [] := by
  have hlines := http_request.isLine_of_fields h
  have hfuel := Nat.le_succ_of_le (length_le_length_intercalate hlines)
  have hfold := foldLines_intercalate insertLine [] hlines hfuel []
  unfold parseHeaders
  rw [parseHeadersFrom_eq]
  refine hfold.trans ?_
  rw [foldl_map]
  apply foldl_ext
  intro headers field hfield
  exact insertLine_headerLine headers (h field hfield).2.2

def getLine (path : Bytes) : Bytes := text "GET" ++ text " " ++ path ++ text " " ++ text "HTTP/1.1"

theorem isLine_getLine {path : Bytes} (h : NoBreak path) : IsLine (getLine path) :=
  http_request.isLine_words (by decide) h.1 (by decide)

/-- What the checks of the handshake see of a request that was written as a first line
and fields. -/
theorem parseUpgrade_message {path : Bytes} (field : Bytes × Bytes) (fields : List (Bytes × Bytes))
    (hpath : 32 ∉ path) (hbreak : NoBreak path) :
    parseUpgrade (message (getLine path) (field :: fields) [])
        (head (getLine path) (field :: fields)).length =
      let headers := parseHeaders (crlf.intercalate ((field :: fields).map headerLine))
      if lower (getHeader headers (text "Upgrade")) ≠ text "websocket" then
        .error (text "Missing or invalid Upgrade header")
      else if find (text "upgrade") (lower (getHeader headers (text "Connection"))) = none then
        .error (text "Missing or invalid Connection header")
      else if getHeader headers (text "Sec-WebSocket-Key") = [] then
        .error (text "Missing Sec-WebSocket-Key header")
      else .ok ⟨path, headers, getHeader headers (text "Sec-WebSocket-Key")⟩ := by
  let section_ := crlf.intercalate ((field :: fields).map headerLine)
  have hhead : head (getLine path) (field :: fields) = getLine path ++ crlf ++ section_ := by
    unfold head
    rw [map_cons, intercalate_cons_cons]
    rfl
  have hrequest : message (getLine path) (field :: fields) [] =
      getLine path ++ (crlf ++ (section_ ++ text "\r\n\r\n")) := by
    unfold message
    rw [hhead, append_nil]
    simp only [append_assoc]
  have hfirst : find crlf (message (getLine path) (field :: fields) []) =
      some (getLine path).length := by
    rw [hrequest]
    exact find_crlf (isLine_getLine hbreak).2 _
  have hsection : headerSection (message (getLine path) (field :: fields) []) (getLine path).length
      (head (getLine path) (field :: fields)).length = section_ := by
    have hlen : (head (getLine path) (field :: fields)).length =
        (getLine path).length + 2 + section_.length := by
      rw [hhead]
      simp only [length_append, crlf, length_cons, length_nil]
    have htwo : (getLine path ++ crlf).length = (getLine path).length + 2 := by
      rw [length_append]
      rfl
    unfold headerSection substr
    rw [if_pos (by omega), hrequest, ← append_assoc, ← htwo, drop_left, hlen]
    apply take_left'
    omega
  obtain ⟨hspace1, hspace2, -, hsub, -⟩ :=
    first_line_words (text "HTTP/1.1") (a := text "GET") (by decide) hpath
  unfold parseUpgrade
  rw [hfirst]
  dsimp only
  have htake : (message (getLine path) (field :: fields) []).take (getLine path).length =
      getLine path := by
    rw [hrequest, take_left]
  rw [htake, hsection]
  have hline : getLine path =
      text "GET" ++ text " " ++ path ++ text " " ++ text "HTTP/1.1" := rfl
  rw [hline, hspace1]
  dsimp only
  rw [hspace2]
  dsimp only
  have hlength :
      path.length + ((text "GET").length + 1) - (text "GET").length - 1 = path.length := by
    omega
  rw [hlength, hsub]

def upgradeFields (host key : Bytes) : List (Bytes × Bytes) :=
  [(text "Host", host), (text "Upgrade", text "websocket"), (text "Connection", text "Upgrade"),
    (text "Sec-WebSocket-Key", key), (text "Sec-WebSocket-Version", text "13")]

/-- What the server reads from the client's request, in the order of the names. -/
def upgradeHeaders (host key : Bytes) : List (Bytes × Bytes) :=
  [(text "Connection", text "Upgrade"), (text "Host", trim host), (text "Sec-WebSocket-Key", key),
    (text "Sec-WebSocket-Version", text "13"), (text "Upgrade", text "websocket")]

theorem fieldText_upgradeFields {host key : Bytes} (hhost : NoBreak host) (hkey : NoBreak key) :
    ∀ field ∈ upgradeFields host key, FieldText field := by
  simp only [upgradeFields, forall_mem_cons]
  exact ⟨http_request.fieldText_mk (by decide) hhost, by decide, by decide,
    http_request.fieldText_mk (by decide) hkey, by decide, nofun⟩

theorem parseHeaders_upgradeFields {host key : Bytes} (hhost : NoBreak host) (hkey : NoBreak key)
    (htrim : trim key = key) :
    parseHeaders (crlf.intercalate ((upgradeFields host key).map headerLine)) =
      upgradeHeaders host key := by
  rw [parseHeaders_written (fieldText_upgradeFields hhost hkey)]
  unfold upgradeFields upgradeHeaders
  simp only [foldl_cons, foldl_nil, htrim]
  rfl

/-- A Base64 text that is not empty passes the checks as the key of a request. -/
theorem upgradeRequest_message {path host key : Bytes} (hpath : 32 ∉ path) (hbreak : NoBreak path)
    (hhost : NoBreak host) (hkey : ∀ c ∈ key, IsBase64 c) (hne : key ≠ []) :
    UpgradeRequest (message (getLine path) (upgradeFields host key) [])
      ⟨path, upgradeHeaders host key, key⟩ := by
  have hkeyBreak := noBreak_of_isBase64 hkey
  have htrim : trim key = key :=
    trim_of_not_blank (fun c hc => (not_blank_of_isBase64 (hkey c hc)).1)
  obtain ⟨hfind, -, -, hlength⟩ := message_parts (isLine_getLine hbreak)
    (fieldText_upgradeFields hhost hkeyBreak) []
  have hend : (message (getLine path) (upgradeFields host key) []).length - 4 =
      (head (getLine path) (upgradeFields host key)).length := by
    rw [hlength]
    simp
  have hheaders := parseHeaders_upgradeFields hhost hkeyBreak htrim
  have hchecks :=
    parseUpgrade_message (text "Host", host) (upgradeFields host key).tail hpath hbreak
  have hgetUpgrade : getHeader (upgradeHeaders host key) (text "Upgrade") = text "websocket" := rfl
  have hgetConnection : getHeader (upgradeHeaders host key) (text "Connection") = text "Upgrade" :=
    rfl
  have hgetKey : getHeader (upgradeHeaders host key) (text "Sec-WebSocket-Key") = key := rfl
  refine ⟨?_, ?_⟩
  · rw [hend]
    exact hfind
  · rw [hend]
    refine hchecks.trans ?_
    dsimp only
    have hfields : (text "Host", host) :: (upgradeFields host key).tail = upgradeFields host key :=
      rfl
    rw [hfields, hheaders, hgetUpgrade, hgetConnection, hgetKey, if_neg (by decide),
      if_neg (by decide), if_neg hne]

section Opens

variable {σ : Type*} (srv : Server σ)

theorem deliver_nothing {c : Conn σ} (ho : c.session.state_ = .Open) (hlives : c.crashed = false)
    (hbuf : c.buf = []) : deliver srv c [] = c := by
  have hsame : { c with buf := c.buf ++ [] } = c := by rw [append_nil]
  unfold deliver onMessage
  rw [if_neg (by rw [hlives]; simp), hsame, ho]
  dsimp only [handleWsFrames]
  rw [hbuf]
  rfl

theorem run_nothing {c : Conn σ} (ho : c.session.state_ = .Open) (hlives : c.crashed = false)
    (hbuf : c.buf = []) {pieces : List Bytes} (hflat : pieces.flatten = []) :
    run (deliver srv) c pieces = c := by
  induction pieces with
  | nil => rfl
  | cons piece pieces ih =>
    obtain ⟨rfl, hrest⟩ := append_eq_nil_iff.mp hflat
    rw [run_cons, deliver_nothing srv ho hlives hbuf]
    exact ih hrest

theorem run_request {request : Bytes} {u : Upgrade} (h : UpgradeRequest request u)
    (hv : validates srv u = true) (app : σ) {pieces : List Bytes} {buf : Bytes}
    (hbuf : buf.length < request.length) (hflat : buf ++ pieces.flatten = request) :
    run (deliver srv) ((accepted app).withBuf buf) pieces = openSession srv (accepted app) u := by
  induction pieces generalizing buf with
  | nil =>
    rw [flatten_nil, append_nil] at hflat
    rw [hflat] at hbuf
    exact absurd hbuf (lt_irrefl _)
  | cons piece pieces ih =>
    rw [flatten_cons, ← append_assoc] at hflat
    rw [run_cons]
    by_cases hshort : (buf ++ piece).length < request.length
    · rw [deliver_unfinished srv h app ⟨_, hflat⟩ hshort]
      exact ih hshort hflat
    · -- the last byte of the request is here, so nothing can follow
      have hnone : pieces.flatten = [] := by
        have hlen := congrArg length hflat
        rw [length_append] at hlen
        exact eq_nil_of_length_eq_zero (by omega)
      rw [hnone, append_nil] at hflat
      have hend : find blankLine (buf ++ piece) = some (request.length - 4) := by
        rw [hflat]
        exact h.ends
      have hu : parseUpgrade (buf ++ piece) (request.length - 4) = .ok u := by
        rw [hflat]
        exact h.valid
      have hopen := deliver_admitted srv (c := (accepted app).withBuf buf) rfl rfl hend hu hv
      have hdrop : (((accepted app).withBuf buf).buf ++ piece).drop (request.length - 4 + 4) = [] :=
        drop_of_length_le (by
          change (buf ++ piece).length ≤ _
          rw [hflat]
          omega)
      obtain ⟨k1, -, k3, k4, -⟩ := openSession_keeps srv (accepted app) u
      have hbuf' :
          (openSession srv (accepted app) u).withBuf [] = openSession srv (accepted app) u :=
        (openSession_withBuf srv (accepted app) [] u).symm
      rw [hopen, hdrop, openSession_withBuf]
      change run (deliver srv) ((openSession srv (accepted app) u).withBuf []) pieces = _
      rw [hbuf']
      exact run_nothing srv k1 k4 k3 hnone

end Opens

end mymuduo.websocket_server

namespace mymuduo.websocket_client

open http_request (headerLine head message message_parts FieldText)
open websocket_frame
open websocket_server (switchingResponse blankLine)

/-! ## The answer, read by the client -/

theorem trimValue_of_not_blank {s : Bytes} (hne : s ≠ [])
    (h : ∀ c ∈ s, websocket_server.isBlank c = false) : trimValue (32 :: s) = s := by
  have hblank : ∀ c ∈ s, isBlankOrTab c = false := by
    intro c hc
    have := h c hc
    unfold websocket_server.isBlank at this
    unfold isBlankOrTab
    simp only [Bool.or_eq_false_iff] at this ⊢
    exact this.1.1
  have hdrop : (32 :: s).dropWhile isBlankOrTab = s := by
    rw [dropWhile_cons_of_pos (by decide), dropWhile_eq_self_iff]
    intro hpos
    rw [hblank _ (getElem_mem hpos)]
    simp
  have hall : ¬(32 :: s).all isBlankOrTab = true := by
    intro hall
    have hlast := all_eq_true.mp hall (s.getLast hne)
      (mem_cons_of_mem 32 (getLast_mem hne))
    rw [hblank _ (getLast_mem hne)] at hlast
    cases hlast
  unfold trimValue
  rw [if_neg hall, hdrop, rdropWhile_eq_self_iff]
  intro hne'
  rw [hblank _ (getLast_mem hne')]
  simp

def switchingLine : Bytes := text "HTTP/1.1 101 Switching Protocols"

def answerFields (accept : Bytes) : List (Bytes × Bytes) :=
  [(text "Upgrade", text "websocket"), (text "Connection", text "Upgrade"),
    (text "Sec-WebSocket-Accept", accept)]

theorem switchingResponse_eq (accept : Bytes) :
    switchingResponse accept = message switchingLine (answerFields accept) [] := by
  have hname : text "Sec-WebSocket-Accept: " = text "Sec-WebSocket-Accept" ++ text ": " := by decide
  have hupgrade : text "Upgrade: websocket" = text "Upgrade" ++ text ": " ++ text "websocket" := by
    decide
  have hconnection :
      text "Connection: Upgrade" = text "Connection" ++ text ": " ++ text "Upgrade" := by
    decide
  rw [http_request.message_eq_flatMap]
  unfold switchingResponse answerFields headerLine switchingLine
  rw [hname, hupgrade, hconnection]
  simp

theorem isLine_switchingLine : IsLine switchingLine := by
  unfold IsLine
  exact ⟨by decide, by decide⟩

theorem fieldText_answerFields {accept : Bytes} (h : NoBreak accept) :
    ∀ field ∈ answerFields accept, FieldText field := by
  simp only [answerFields, forall_mem_cons]
  exact ⟨by decide, by decide, http_request.fieldText_mk (by decide) h, nofun⟩

theorem answer_parts {line : Bytes} (hline : 13 ∉ line) (field : Bytes × Bytes)
    (fields : List (Bytes × Bytes)) :
    statusLine (head line (field :: fields)) = line ∧
      headerSection (head line (field :: fields)) =
        crlf.intercalate ((field :: fields).map headerLine) := by
  have hhead : head line (field :: fields) =
      line ++ (crlf ++ crlf.intercalate ((field :: fields).map headerLine)) := by
    unfold head
    rw [map_cons, intercalate_cons_cons, append_assoc]
  have htwo : line.length + 2 = (line ++ crlf).length := by
    rw [length_append]
    rfl
  unfold statusLine headerSection
  rw [hhead, find_crlf hline]
  dsimp only
  refine ⟨take_left .., ?_⟩
  rw [htwo, ← append_assoc, drop_left]

theorem acceptValue_answer {accept : Bytes} (hkey : ∀ c ∈ accept, IsBase64 c) (hne : accept ≠ []) :
    acceptValue (head switchingLine (answerFields accept)) = accept := by
  have hbreak := noBreak_of_isBase64 hkey
  have hlines := http_request.isLine_of_fields (fieldText_answerFields hbreak)
  have hsection : headerSection (head switchingLine (answerFields accept)) =
      crlf.intercalate ((answerFields accept).map headerLine) :=
    (answer_parts isLine_switchingLine.2 _ (answerFields accept).tail).2
  have hfold := foldLines_intercalate readAccept [] hlines (length_le_length_intercalate hlines) []
  unfold acceptValue
  rw [hsection]
  refine hfold.trans ?_
  have htrim : trimValue (32 :: accept) = accept :=
    trimValue_of_not_blank hne (fun c hc => (not_blank_of_isBase64 (hkey c hc)).1)
  have hlast :
      ∀ acc, readAccept acc (headerLine (text "Sec-WebSocket-Accept", accept)) = accept := by
    intro acc
    have hname : find (text ":") (text "Sec-WebSocket-Accept: ") = some 20 := by decide
    have hfind : find (text ":") (headerLine (text "Sec-WebSocket-Accept", accept)) = some 20 :=
      find_append hname accept
    unfold readAccept
    rw [hfind]
    exact htrim
  unfold answerFields
  rw [map_cons, map_cons, map_cons, map_nil, foldl_cons, foldl_cons, foldl_cons, foldl_nil]
  exact hlast _

section Opens

variable {σ : Type*} (w : Settings σ)

/-- The client when its handshake is through, and its open callback ran. -/
def opened (c : Client σ) : Client σ := Client.fireOpen w { c with state_ := .Open }

theorem handleWsFrames_nil (c : Client σ) (h : c.recvBuffer_ = []) : handleWsFrames w c [] = c := by
  unfold handleWsFrames
  rw [append_nil, h]
  change (c.withBuf []) = c
  unfold Client.withBuf
  rw [← h]

/-- What the client does with the bytes that it has before its handshake is through. The
frames behind an answer that it takes are handled like any delivery. -/
theorem handleHandshakeResponse_eq (c : Client σ) (data : Bytes) :
    handleHandshakeResponse w c data =
      match find blankLine (c.recvBuffer_ ++ data) with
      | none => c.withBuf (c.recvBuffer_ ++ data)
      | some headerEnd =>
        let headerBlock := (c.recvBuffer_ ++ data).take headerEnd
        if find (text "HTTP/1.1 101") (statusLine headerBlock) = none then
          failHandshake w (c.withBuf (c.recvBuffer_ ++ data))
            (text "Handshake failed: " ++ statusLine headerBlock)
        else if acceptValue headerBlock ≠ computeAcceptKey w.sha1 c.pendingKey_ then
          failHandshake w (c.withBuf (c.recvBuffer_ ++ data))
            (text "Handshake failed: invalid Sec-WebSocket-Accept")
        else
          handleWsFrames w ((opened w c).withBuf [])
            ((c.recvBuffer_ ++ data).drop (headerEnd + 4)) := by
  have hopen : Client.fireOpen w { c.withBuf (c.recvBuffer_ ++ data) with state_ := .Open } =
      (opened w c).withBuf (c.recvBuffer_ ++ data) :=
    fire_withBuf w { c with state_ := .Open } (c.recvBuffer_ ++ data) .opened
      (w.openCallback c.app .Open)
  unfold handleHandshakeResponse
  dsimp only [Client.withBuf] at hopen ⊢
  cases find blankLine (c.recvBuffer_ ++ data) with
  | none => rfl
  | some headerEnd =>
    dsimp only
    rw [hopen]
    congr 2
    split
    · rename_i hnil
      rw [hnil]
      exact (handleWsFrames_nil w _ rfl).symm
    · rfl

theorem message_append (line : Bytes) (fields : List (Bytes × Bytes)) (rest : Bytes) :
    message line fields [] ++ rest = message line fields rest := by
  unfold message
  simp

/-- The client takes the answer that the server computes, and goes on with what comes
behind it. -/
theorem handleHandshakeResponse_answer (c : Client σ) {data rest : Bytes}
    (h : c.recvBuffer_ ++ data =
      switchingResponse (computeAcceptKey w.sha1 c.pendingKey_) ++ rest) :
    handleHandshakeResponse w c data = handleWsFrames w ((opened w c).withBuf []) rest := by
  have hkey : ∀ ch ∈ computeAcceptKey w.sha1 c.pendingKey_, IsBase64 ch :=
    fun ch hch => isBase64_acceptKey hch
  have haccept := acceptValue_answer hkey (acceptKey_ne_nil w.sha1 c.pendingKey_)
  have hstatus : statusLine (head switchingLine
      (answerFields (computeAcceptKey w.sha1 c.pendingKey_))) = switchingLine :=
    (answer_parts isLine_switchingLine.2 _ _).1
  have h101 : find (text "HTTP/1.1 101") switchingLine ≠ none := by decide
  rw [switchingResponse_eq, message_append] at h
  obtain ⟨hfind, htake, hdrop, -⟩ := message_parts isLine_switchingLine
    (fieldText_answerFields (noBreak_of_isBase64 hkey)) rest
  rw [← h] at hfind htake hdrop
  have hend : find blankLine (c.recvBuffer_ ++ data) = _ := hfind
  rw [handleHandshakeResponse_eq, hend]
  dsimp only
  rw [htake, hstatus, if_neg h101, haccept, if_neg (not_not.mpr rfl), hdrop]

theorem handleHandshakeResponse_part (c : Client σ) {accept data more : Bytes}
    (hkey : ∀ ch ∈ accept, IsBase64 ch)
    (h : c.recvBuffer_ ++ data ++ more = switchingResponse accept) (hmore : more ≠ []) :
    handleHandshakeResponse w c data = c.withBuf (c.recvBuffer_ ++ data) := by
  have hbreak := noBreak_of_isBase64 hkey
  obtain ⟨hfind, -, -, hlength⟩ :=
    message_parts isLine_switchingLine (fieldText_answerFields hbreak) []
  rw [← switchingResponse_eq, ← h] at hfind hlength
  have hnone : find blankLine (c.recvBuffer_ ++ data) = none := by
    cases hpart : find blankLine (c.recvBuffer_ ++ data) with
    | none => rfl
    | some i =>
      -- the blank line would end before the answer does
      have hin := find_add_length_le hpart
      have hsame := (find_append hpart more).symm.trans hfind
      have hpos := length_pos_iff.mpr hmore
      rw [Option.some.injEq] at hsame
      rw [websocket_server.length_blankLine] at hin
      rw [length_append, length_nil] at hlength
      omega
  rw [handleHandshakeResponse_eq, hnone]

theorem deliver_connecting {c : Client σ} (hs : c.state_ = .Connecting) (hlives : c.crashed = false)
    (piece : Bytes) : deliver w c piece = handleHandshakeResponse w c piece := by
  unfold deliver onMessage
  rw [if_neg (by rw [hlives]; simp), hs]

/-- However the answer and what comes behind it are cut, the client opens, and then
handles what came with the end of the answer and the pieces behind it. -/
theorem run_answer {c : Client σ} (hs : c.state_ = .Connecting) (hlives : c.crashed = false)
    {pieces : List Bytes} {buf rest : Bytes}
    (hbuf : buf.length < (switchingResponse (computeAcceptKey w.sha1 c.pendingKey_)).length)
    (hflat : buf ++ pieces.flatten =
      switchingResponse (computeAcceptKey w.sha1 c.pendingKey_) ++ rest) :
    ∃ first others, first ++ others.flatten = rest ∧
      run (deliver w) (c.withBuf buf) pieces =
        run (deliver w) (handleWsFrames w ((opened w c).withBuf []) first) others := by
  induction pieces generalizing buf with
  | nil =>
    have hlen := congrArg length hflat
    simp only [flatten_nil, append_nil, length_append] at hlen
    omega
  | cons piece pieces ih =>
    rw [flatten_cons, ← append_assoc] at hflat
    rw [run_cons, deliver_connecting w (c := c.withBuf buf) hs hlives]
    by_cases hshort : (buf ++ piece).length <
        (switchingResponse (computeAcceptKey w.sha1 c.pendingKey_)).length
    · obtain ⟨more, hmore⟩ := prefix_of_prefix_length_le ⟨_, hflat⟩
        (prefix_append _ rest) (le_of_lt hshort)
      have hne : more ≠ [] := by
        rintro rfl
        rw [append_nil] at hmore
        rw [hmore] at hshort
        exact absurd hshort (lt_irrefl _)
      rw [handleHandshakeResponse_part w (c.withBuf buf) (fun ch hch => isBase64_acceptKey hch)
        hmore hne]
      exact ih hshort hflat
    · obtain ⟨first, hfirst⟩ := prefix_of_prefix_length_le (prefix_append _ rest)
        ⟨_, hflat⟩ (not_lt.mp hshort)
      refine ⟨first, pieces, ?_, ?_⟩
      · rw [← hfirst, append_assoc] at hflat
        exact append_cancel_left hflat
      · have hopen : opened w (c.withBuf buf) = (opened w c).withBuf buf :=
          fire_withBuf w { c with state_ := .Open } buf .opened (w.openCallback c.app .Open)
        rw [handleHandshakeResponse_answer w (c.withBuf buf) hfirst.symm, hopen]
        rfl

theorem run_nothing {c : Client σ} (hs : c.state_ ≠ .Connecting) (hbuf : c.recvBuffer_ = [])
    {pieces : List Bytes} (hflat : pieces.flatten = []) : run (deliver w) c pieces = c := by
  induction pieces with
  | nil => rfl
  | cons piece pieces ih =>
    obtain ⟨rfl, hrest⟩ := append_eq_nil_iff.mp hflat
    have hstep : deliver w c [] = c := by
      unfold deliver onMessage
      split
      · rfl
      · split
        · rename_i hconnecting
          exact absurd hconnecting hs
        · exact handleWsFrames_nil w c hbuf
        · rfl
    rw [run_cons, hstep]
    exact ih hrest

end Opens

end mymuduo.websocket_client

namespace mymuduo.websocket_interop

open http_request (headerLine message)
open websocket_client (Settings Client Call onConnected base64Encode upgradeRequest)
open websocket_frame
open websocket_server

theorem upgradeRequest_eq {τ : Type*} (w : Settings τ) (key : Bytes) :
    upgradeRequest w key = message (getLine w.path_) (upgradeFields w.host_ key) [] := by
  have hget : text "GET " = text "GET" ++ text " " := by decide
  have hversion : text " HTTP/1.1\r\n" = text " " ++ text "HTTP/1.1" ++ crlf := by decide
  have hhost : text "Host: " = text "Host" ++ text ": " := by decide
  have hupgrade : text "Upgrade: websocket\r\n" =
      text "Upgrade" ++ text ": " ++ text "websocket" ++ crlf := by decide
  have hconnection : text "Connection: Upgrade\r\n" =
      text "Connection" ++ text ": " ++ text "Upgrade" ++ crlf := by decide
  have hkey : text "Sec-WebSocket-Key: " = text "Sec-WebSocket-Key" ++ text ": " := by decide
  have hwsVersion : text "Sec-WebSocket-Version: 13\r\n" =
      text "Sec-WebSocket-Version" ++ text ": " ++ text "13" ++ crlf := by decide
  have hcrlf : text "\r\n" = crlf := by decide
  rw [http_request.message_eq_flatMap]
  unfold upgradeRequest upgradeFields headerLine getLine
  rw [hget, hversion, hhost, hupgrade, hconnection, hkey, hwsVersion, hcrlf]
  simp

theorem switchingResponse_pos (accept : Bytes) :
    ([] : Bytes).length < (switchingResponse accept).length := by
  unfold switchingResponse
  simp [text]

/-- What a session is when its handshake is through: it is open, it knows its path, and
the `101` response went out before the frames of the connection handler. -/
theorem openSession_accepted {σ : Type*} (srv : Server σ) (app : σ) (u : Upgrade) :
    (openSession srv (accepted app) u).session.state_ = .Open ∧
      (openSession srv (accepted app) u).session.context_.lookup (text "path") = some u.path ∧
      ∃ replies : List Reply, (openSession srv (accepted app) u).sent =
        .http (switchingResponse (computeAcceptKey srv.sha1 u.key)) ::
          replies.map (fun r => .frame r.bytes) := by
  let c := switchProtocols srv (accepted app) u
  let out := srv.connectionHandler c.app c.session
  have hlive : Conn.Live { c with app := out.1 } := ⟨rfl, rfl, rfl⟩
  have hopen : openSession srv (accepted app) u =
      { c with app := out.1, sent := c.sent ++ out.2.map (fun r => .frame r.bytes) } :=
    replies_live hlive out.2
  rw [hopen]
  exact ⟨rfl, AList.lookup_insert _, out.2, rfl⟩

/-- The upgrade request of the client opens the session, and the answer of the server
opens the client, for every nonce, host and path that fit on their lines and for every
cut of both messages. -/
theorem handshakes_open_both_ends {σ τ : Type*} (srv : Server σ) (w : Settings τ) (app : σ)
    (k : Client τ) (nonce : Bytes) (hnonce : nonce.length = 16) (hhost : NoBreak w.host_)
    (hpath : 32 ∉ w.path_) (hbreak : NoBreak w.path_) (hsha : srv.sha1 = w.sha1)
    (haccepts : ∀ validator, srv.handshakeValidator = some validator →
      validator w.path_ (upgradeHeaders w.host_ (base64Encode nonce)) = true)
    (hlives : k.crashed = false) (pieces : List Bytes)
    (hsent : (onConnected w k nonce).sent = k.sent ++ [pieces.flatten]) :
    let c := run (websocket_server.deliver srv) (accepted app) pieces
    let answer := switchingResponse (computeAcceptKey srv.sha1 (base64Encode nonce))
    c.session.state_ = .Open ∧ c.session.context_.lookup (text "path") = some w.path_ ∧
      (∃ replies : List Reply, c.sent = .http answer :: replies.map (fun r => .frame r.bytes)) ∧
      ∀ back : List Bytes, back.flatten = answer →
        let k' := run (websocket_client.deliver w) (onConnected w k nonce) back
        k'.callbacks = k.callbacks ++ [.opened] ∧
          ((∀ call ∈ (w.openCallback k.app .Open).2, call.Sends) → k'.state_ = .Open) := by
  intro c answer
  have hkey : ∀ ch ∈ base64Encode nonce, IsBase64 ch :=
    fun ch hch => websocket_client.isBase64_encode hch
  have hne : base64Encode nonce ≠ [] := by
    apply websocket_client.base64Encode_ne_nil
    rintro rfl
    cases hnonce
  -- the server's end
  have hrequest := upgradeRequest_message hpath hbreak hhost hkey hne
  rw [← upgradeRequest_eq w (base64Encode nonce)] at hrequest
  have hflat : pieces.flatten = upgradeRequest w (base64Encode nonce) := by
    have hlast := append_cancel_left (hsent.symm.trans rfl)
    simpa using hlast
  have hv : validates srv ⟨w.path_, upgradeHeaders w.host_ (base64Encode nonce),
      base64Encode nonce⟩ = true := by
    unfold validates
    split
    · rfl
    · rename_i validator hvalidator
      exact haccepts validator hvalidator
  have hfour := four_le_length hrequest
  have hpos : ([] : Bytes).length < (upgradeRequest w (base64Encode nonce)).length := by
    rw [length_nil]
    omega
  have hc : c = openSession srv (accepted app) _ := run_request srv hrequest hv app hpos hflat
  obtain ⟨hstate, hcontext, hreplies⟩ := openSession_accepted srv app
    ⟨w.path_, upgradeHeaders w.host_ (base64Encode nonce), base64Encode nonce⟩
  rw [hc]
  refine ⟨hstate, hcontext, hreplies, ?_⟩
  -- the client's end
  intro back hback
  have hanswer : [] ++ back.flatten = switchingResponse (computeAcceptKey w.sha1
      (onConnected w k nonce).pendingKey_) ++ [] := by
    rw [nil_append, append_nil, hback, ← hsha]
    rfl
  obtain ⟨first, others, hrest, hrun⟩ := websocket_client.run_answer w
    (c := onConnected w k nonce) rfl hlives (switchingResponse_pos _) hanswer
  obtain ⟨rfl, hothers⟩ := append_eq_nil_iff.mp hrest
  obtain ⟨hcallbacks, -, hopen⟩ := websocket_client.fire_keeps w
    { onConnected w k nonce with state_ := .Open } .opened (w.openCallback k.app .Open)
  have hstays : ((websocket_client.opened w (onConnected w k nonce)).withBuf []).state_ ≠
      .Connecting := by
    rcases hopen with hopen | ⟨-, -, hopen⟩ <;> exact fun h => nomatch h.symm.trans hopen
  have hend : run (websocket_client.deliver w) (onConnected w k nonce) back =
      (websocket_client.opened w (onConnected w k nonce)).withBuf [] := by
    refine hrun.trans ?_
    rw [websocket_client.handleWsFrames_nil w _ rfl]
    exact websocket_client.run_nothing w hstays rfl hothers
  rw [hend]
  refine ⟨hcallbacks, fun hsends => ?_⟩
  rcases hopen with hopen | ⟨⟨call, hcall, hnot⟩, -, -⟩
  · exact hopen
  · exact absurd (hsends call hcall) hnot

def chatClient : Settings Unit where
  path_ := text "/chat"
  host_ := text "127.0.0.1:8080"
  openCallback _ _ := ((), [])
  messageCallback _ _ _ := ((), [])
  closeCallback _ _ _ _ := ((), [])
  errorCallback _ _ _ := ((), [])
  maskingKey _ := ⟨1, 2, 3, 4⟩
  sha1 := echoServer.sha1

/-- The request comes in two pieces, cut in its first line. -/
theorem handshakes_open_both_ends_two_pieces :
    let request := upgradeRequest chatClient (base64Encode (replicate 16 7))
    (run (websocket_server.deliver echoServer) (accepted ())
      [request.take 3, request.drop 3]).session.state_ = .Open :=
  (handshakes_open_both_ends echoServer chatClient () (websocket_client.made ())
    (replicate 16 7) (by decide) (by decide) (by decide) (by decide) rfl
    (fun _ h => nomatch h) rfl _ (by
      rw [flatten_cons, flatten_cons, flatten_nil, append_nil, take_append_drop]
      rfl)).1

end mymuduo.websocket_interop
