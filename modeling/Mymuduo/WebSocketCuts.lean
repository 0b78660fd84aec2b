-- What a WebSocket connection does with a stream, and when that depends on how
-- the stream is cut into deliveries. The bytes that come with the end of the
-- handshake wait for the next delivery, so the cut shows as soon as a frame
-- among them has an effect.
import Mymuduo.WebSocketHandshake

open List bytes runs segments words

namespace mymuduo.websocket_server

open websocket_frame

section Deliveries

variable {σ : Type*} (srv : Server σ)

/-! ## Deliveries that show nothing -/

/-- Whatever still comes shows nothing, however it is cut. -/
def QuietNow (c : Conn σ) (rest : Bytes) : Prop :=
  c.crashed = true ∨
    match c.session.state_ with
    | .Connecting => c.session.connected = false ∧ QuietBlocks srv (c.buf ++ rest)
    | .Open => QuietFrames srv c.session.connected (frameReader.items (c.buf ++ rest))
    | _ => True

variable {rest : Bytes}

theorem quietNow_open {c : Conn σ} (ho : c.session.state_ = .Open)
    (h : QuietFrames srv c.session.connected (frameReader.items (c.buf ++ rest))) :
    QuietNow srv c rest := by
  right
  rw [ho]
  exact h

theorem quietNow_connecting {c : Conn σ} (hs : c.session.state_ = .Connecting)
    (hdead : c.session.connected = false) (h : QuietBlocks srv (c.buf ++ rest)) :
    QuietNow srv c rest := by
  right
  rw [hs]
  exact ⟨hdead, h⟩

theorem quietNow_closing {c : Conn σ} (rest : Bytes)
    (hs : c.session.state_ = .Closing ∨ c.session.state_ = .Closed) : QuietNow srv c rest := by
  right
  rcases hs with hs | hs
  · rw [hs]
    trivial
  · rw [hs]
    trivial

theorem handshake_quiet {c : Conn σ} (hs : c.session.state_ = .Connecting)
    (hdead : c.session.connected = false) (h : QuietBlocks srv (c.buf ++ rest)) :
    (handleHandshake srv c).observed = c.observed ∧
      (rest ≠ [] → QuietNow srv (handleHandshake srv c) rest) := by
  cases hend : find blankLine c.buf with
  | none =>
    rw [handleHandshake_waits srv hend]
    exact ⟨rfl, fun _ => quietNow_connecting srv hs hdead h⟩
  | some headerEnd =>
    have hlen := find_add_length_le hend
    rw [length_blankLine] at hlen
    have htake : (c.buf ++ rest).take (headerEnd + 4) = c.buf.take (headerEnd + 4) :=
      take_append_of_le_length hlen
    have hdrop : (c.buf ++ rest).drop (headerEnd + 4) = c.buf.drop (headerEnd + 4) ++ rest :=
      drop_append_of_le_length hlen
    rw [quietBlocks_some_iff srv (find_append hend rest), htake, hdrop] at h
    cases hadm : admits srv c.buf headerEnd with
    | true =>
      obtain ⟨u, hu, hv⟩ := admits_of_ok srv hadm
      obtain ⟨k1, k2, -, -, k5⟩ := openSession_keeps srv c u
      rw [handleHandshake_admitted srv hend hu hv]
      refine ⟨k5 hdead, fun hrest => quietNow_open srv k1 ?_⟩
      change QuietFrames srv (openSession srv c u).session.connected
        (frameReader.items (c.buf.drop (headerEnd + 4) ++ rest))
      rw [k2, hdead]
      apply h.1 (c.buf.drop (headerEnd + 4)) (prefix_append _ _)
      · intro heq
        exact hrest (self_eq_append_right.mp heq)
      · rw [take_append_drop]
        exact hadm
    | false =>
      obtain ⟨k1, k2, k3, -, k5⟩ := handleHandshake_rejected srv hend hadm
      refine ⟨k1, fun _ => quietNow_connecting srv (k2.trans hs) k3 ?_⟩
      rw [k5]
      apply h.2
      -- admitted alone, it would be admitted with what came behind it
      by_contra hne
      have hfront := admits_append srv (find_take hend (by rw [length_blankLine]))
        (by rw [length_take]; omega) (by simpa using hne) (c.buf.drop (headerEnd + 4))
      rw [take_append_drop, hadm] at hfront
      cases hfront

theorem deliver_quiet {c : Conn σ} (piece : Bytes) (h : QuietNow srv c (piece ++ rest)) :
    (deliver srv c piece).observed = c.observed ∧
      (rest ≠ [] → QuietNow srv (deliver srv c piece) rest) := by
  unfold deliver
  by_cases hcrash : c.crashed = true
  · rw [if_pos hcrash]
    exact ⟨rfl, fun _ => Or.inl hcrash⟩
  · rw [if_neg hcrash]
    have hnow := h.resolve_left hcrash
    unfold onMessage
    cases hs : c.session.state_ with
    | Connecting =>
      rw [hs] at hnow
      rw [← append_assoc] at hnow
      exact handshake_quiet srv (c := { c with buf := c.buf ++ piece }) hs hnow.1 hnow.2
    | Open =>
      rw [hs] at hnow
      rw [← append_assoc] at hnow
      obtain ⟨hobs, hstate, hquiet⟩ := loop_quiet srv (c.buf ++ piece).length
        { c with buf := c.buf ++ piece } rest hnow
      refine ⟨hobs, fun _ => ?_⟩
      rcases hstate with hstate | hstate
      · have ho := hstate.trans hs
        exact quietNow_open srv ho (hquiet ho)
      · exact quietNow_closing srv rest hstate
    | Closing | Closed => exact ⟨rfl, fun _ => quietNow_closing srv rest (by simp [hs])⟩

theorem run_quiet {pieces : List Bytes} (hne : [] ∉ pieces) {c : Conn σ}
    (h : pieces ≠ [] → QuietNow srv c pieces.flatten) :
    (run (deliver srv) c pieces).observed = c.observed := by
  induction pieces generalizing c with
  | nil => rfl
  | cons piece pieces ih =>
    obtain ⟨hobs, hquiet⟩ := deliver_quiet srv piece (h (by simp))
    rw [run_cons, ← hobs]
    apply ih (fun hmem => hne (mem_cons_of_mem _ hmem))
    intro hpieces
    apply hquiet
    intro hflat
    cases pieces with
    | nil => exact hpieces rfl
    | cons next pieces =>
      rw [flatten_cons, append_eq_nil_iff] at hflat
      exact hne (by simp [hflat.1])

/-! ## Deliveries that show something -/

/-- Frames that are not quiet show when they come in one delivery. -/
theorem deliver_loud {c : Conn σ} (ho : c.session.state_ = .Open) (hlives : c.crashed = false)
    (piece : Bytes)
    (h : ¬QuietFrames srv c.session.connected (frameReader.items (c.buf ++ piece))) :
    c.shown < (deliver srv c piece).shown := by
  unfold deliver onMessage
  rw [if_neg (by rw [hlives]; simp)]
  rw [ho]
  exact loop_loud srv (c.buf ++ piece).length { c with buf := c.buf ++ piece } (le_refl _)
    (fun _ => ho) h

theorem deliver_connecting {c : Conn σ} (hs : c.session.state_ = .Connecting)
    (hlives : c.crashed = false) (piece : Bytes) :
    deliver srv c piece = handleHandshake srv (c.withBuf (c.buf ++ piece)) := by
  unfold deliver onMessage
  rw [if_neg (by rw [hlives]; simp)]
  rw [hs]
  rfl

variable {u : Upgrade}

theorem deliver_admitted {c : Conn σ} (hs : c.session.state_ = .Connecting)
    (hlives : c.crashed = false) {piece : Bytes} {headerEnd : Nat}
    (hend : find blankLine (c.buf ++ piece) = some headerEnd)
    (hu : parseUpgrade (c.buf ++ piece) headerEnd = .ok u) (hv : validates srv u = true) :
    deliver srv c piece =
      (openSession srv c u).withBuf ((c.buf ++ piece).drop (headerEnd + 4)) := by
  have hopen := handleHandshake_admitted srv (c := c.withBuf (c.buf ++ piece)) hend hu hv
  rw [deliver_connecting srv hs hlives, hopen, openSession_withBuf]
  rfl

/-- A header section that is rejected alone is gone from the buffer, and shows nothing. -/
theorem deliver_rejected {c : Conn σ} (hs : c.session.state_ = .Connecting)
    (hlives : c.crashed = false) (hbuf : c.buf = []) {block : Bytes} {headerEnd : Nat}
    (hblock : find blankLine block = some headerEnd) (hlength : block.length = headerEnd + 4)
    (hadm : admits srv block headerEnd = false) :
    (deliver srv c block).observed = c.observed ∧
      (deliver srv c block).session.state_ = .Connecting ∧
      (deliver srv c block).session.connected = false ∧
      (deliver srv c block).crashed = false ∧ (deliver srv c block).buf = [] := by
  have hend : find blankLine (c.withBuf block).buf = some headerEnd := hblock
  obtain ⟨k1, k2, k3, k4, k5⟩ := handleHandshake_rejected srv hend hadm
  rw [deliver_connecting srv hs hlives, hbuf, nil_append]
  refine ⟨k1, k2.trans hs, k3, k4.trans hlives, ?_⟩
  rw [k5]
  exact drop_of_length_le (by rw [← hlength]; exact le_refl _)

/-- On a connection that was shut down, a header section that is admitted with a part of
what is behind it leaves this part in the buffer, and its frames show with the rest. -/
theorem admitted_loud {c : Conn σ} (hs : c.session.state_ = .Connecting)
    (hdead : c.session.connected = false) (hlives : c.crashed = false) (hbuf : c.buf = [])
    {block part more : Bytes} {headerEnd : Nat} (hblock : find blankLine block = some headerEnd)
    (hlength : block.length = headerEnd + 4) (hadm : admits srv (block ++ part) headerEnd = true)
    (hloud : ¬QuietFrames srv false (frameReader.items (part ++ more))) :
    c.shown < (run (deliver srv) c [block ++ part, more]).shown := by
  obtain ⟨u, hu, hv⟩ := admits_of_ok srv hadm
  obtain ⟨k1, k2, -, k4, k5⟩ := openSession_keeps srv c u
  have hnil : c.buf ++ (block ++ part) = block ++ part := by rw [hbuf, nil_append]
  have hfirst : deliver srv c (block ++ part) = (openSession srv c u).withBuf part := by
    rw [deliver_admitted srv hs hlives (by rw [hnil]; exact find_append hblock part)
      (by rw [hnil]; exact hu) hv, hnil, drop_left' hlength]
  have hshown : ((openSession srv c u).withBuf part).shown = c.shown :=
    shown_of_observed (k5 hdead)
  rw [run_cons, run_cons, run_nil, hfirst, ← hshown]
  apply deliver_loud srv (c := (openSession srv c u).withBuf part) k1 (k4.trans hlives)
  change ¬QuietFrames srv (openSession srv c u).session.connected (frameReader.items (part ++ more))
  rw [k2, hdead]
  exact hloud

/-- Header sections that are not quiet show in some cut: each rejected one alone,
the admitted one with the bytes that it needs, and its frames in one delivery. -/
theorem blocks_loud (stream : Bytes) (h : ¬QuietBlocks srv stream) (c : Conn σ)
    (hs : c.session.state_ = .Connecting) (hdead : c.session.connected = false)
    (hlives : c.crashed = false) (hbuf : c.buf = []) :
    ∃ pieces, IsCut stream pieces ∧ c.shown < (run (deliver srv) c pieces).shown := by
  induction hn : stream.length using Nat.strongRecOn generalizing stream c with
  | ind n ih =>
    cases hend : find blankLine stream with
    | none => exact absurd (quietBlocks_none srv hend) h
    | some headerEnd =>
      have hlen := find_add_length_le hend
      rw [length_blankLine] at hlen
      rw [quietBlocks_some_iff srv hend] at h
      have hblock : find blankLine (stream.take (headerEnd + 4)) = some headerEnd :=
        find_take hend (by rw [length_blankLine])
      have hlength : (stream.take (headerEnd + 4)).length = headerEnd + 4 := by
        rw [length_take]
        omega
      have hblock_ne : stream.take (headerEnd + 4) ≠ [] := by
        intro hnil
        rw [hnil] at hlength
        simp at hlength
      have hsplit := take_append_drop (headerEnd + 4) stream
      generalize stream.take (headerEnd + 4) = block at h hblock hlength hblock_ne hsplit
      generalize stream.drop (headerEnd + 4) = rest at h hsplit
      rcases not_and_or.mp h with hparts | hrest
      · push Not at hparts
        obtain ⟨part, ⟨more, rfl⟩, hne, hadm, hloud⟩ := hparts
        have hmore_ne : more ≠ [] := by
          rintro rfl
          exact hne (append_nil part).symm
        refine ⟨[block ++ part, more], ⟨?_, ?_⟩, ?_⟩
        · rw [← hsplit]
          simp
        · simp [hblock_ne, Ne.symm hmore_ne]
        · exact admitted_loud srv hs hdead hlives hbuf hblock hlength hadm hloud
      · push Not at hrest
        obtain ⟨hadm, hloud⟩ := hrest
        obtain ⟨k1, k2, k3, k4, k5⟩ := deliver_rejected srv hs hlives hbuf hblock hlength hadm
        obtain ⟨pieces, ⟨hflat, hne⟩, hshown⟩ := ih rest.length
          (by rw [← hn, ← hsplit, length_append]; omega) rest hloud
          (deliver srv c block) k2 k3 k4 k5 rfl
        refine ⟨block :: pieces, ⟨?_, ?_⟩, ?_⟩
        · rw [flatten_cons, hflat, hsplit]
        · simp [Ne.symm hblock_ne, hne]
        · rw [run_cons, ← shown_of_observed k1]
          exact hshown

/-! ## The law -/

/-- A header section with its blank line, and nothing behind it, that passes the
checks of the handshake. -/
structure UpgradeRequest (request : Bytes) (u : Upgrade) : Prop where
  ends : find blankLine request = some (request.length - 4)
  valid : parseUpgrade request (request.length - 4) = .ok u

/-- What may come behind the request without showing. -/
def QuietBehind (u : Upgrade) (stream : Bytes) : Prop :=
  if validates srv u then QuietFrames srv true (frameReader.items stream)
  else QuietBlocks srv stream

/-- What is observed when nothing shows behind the request. -/
def observedAlone (app : σ) (u : Upgrade) : List WsMessage × List Bytes :=
  if validates srv u then (openSession srv (accepted app) u).observed else ([], [])

variable {request : Bytes}

theorem four_le_length (h : UpgradeRequest request u) : 4 ≤ request.length := by
  have := find_add_length_le h.ends
  rw [length_blankLine] at this
  omega

theorem deliver_request (h : UpgradeRequest request u) (app : σ) (buf : Bytes) {piece more : Bytes}
    (hpiece : buf ++ piece = request ++ more) :
    let c := deliver srv ((accepted app).withBuf buf) piece
    c.observed = observedAlone srv app u ∧ c.buf = more ∧ c.crashed = false ∧
      c.session.state_ = (if validates srv u then .Open else .Connecting) ∧
      c.session.connected = validates srv u := by
  intro c
  unfold c
  have hfour := four_le_length h
  have hend : find blankLine (buf ++ piece) = some (request.length - 4) := by
    rw [hpiece]
    exact find_append h.ends more
  have hu : parseUpgrade (buf ++ piece) (request.length - 4) = .ok u := by
    rw [hpiece]
    exact parseUpgrade_append h.ends (by omega) h.valid more
  have hdrop : (buf ++ piece).drop (request.length - 4 + 4) = more := by
    rw [hpiece]
    exact drop_left' (by omega)
  unfold observedAlone
  cases hv : validates srv u with
  | true =>
    have hdel := deliver_admitted srv (c := (accepted app).withBuf buf) rfl rfl hend hu hv
    rw [openSession_withBuf] at hdel
    obtain ⟨k1, k2, -, k4, -⟩ := openSession_keeps srv (accepted app) u
    rw [hdel]
    refine ⟨rfl, hdrop, k4, k1, k2⟩
  | false =>
    have hadm : admits srv (buf ++ piece) (request.length - 4) = false := by
      unfold admits
      rw [hu]
      exact hv
    obtain ⟨k1, k2, k3, k4, k5⟩ :=
      handleHandshake_rejected srv (c := (accepted app).withBuf (buf ++ piece)) hend hadm
    have hdel := deliver_connecting srv (c := (accepted app).withBuf buf) rfl rfl piece
    rw [hdel]
    exact ⟨k1, k5.trans hdrop, k4, k2, k3⟩

theorem deliver_unfinished (h : UpgradeRequest request u) (app : σ) {buf piece : Bytes}
    (hpre : buf ++ piece <+: request) (hshort : (buf ++ piece).length < request.length) :
    deliver srv ((accepted app).withBuf buf) piece = (accepted app).withBuf (buf ++ piece) := by
  have hnone : find blankLine (buf ++ piece) = none := by
    cases hfind : find blankLine (buf ++ piece) with
    | none => rfl
    | some i =>
      obtain ⟨tail, htail⟩ := hpre
      have hlen := find_add_length_le hfind
      have hsame := find_append hfind tail
      rw [htail, h.ends] at hsame
      cases hsame
      rw [length_blankLine] at hlen
      omega
  have hdel := deliver_connecting srv (c := (accepted app).withBuf buf) rfl rfl piece
  rw [hdel]
  exact handleHandshake_waits srv (c := (accepted app).withBuf (buf ++ piece)) hnone

/-- Behind a request whose rest is quiet, every cut shows the same. -/
theorem observed_of_quiet (h : UpgradeRequest request u) {app : σ} {stream : Bytes}
    (hquiet : QuietBehind srv u stream) {pieces : List Bytes} (hne : [] ∉ pieces) {buf : Bytes}
    (hbuf : buf.length < request.length) (hflat : buf ++ pieces.flatten = request ++ stream) :
    (run (deliver srv) ((accepted app).withBuf buf) pieces).observed = observedAlone srv app u := by
  induction pieces generalizing buf with
  | nil =>
    have := congrArg List.length hflat
    simp only [flatten_nil, append_nil, length_append] at this
    omega
  | cons piece pieces ih =>
    rw [flatten_cons, ← append_assoc] at hflat
    have hne' : [] ∉ pieces := fun hmem => hne (mem_cons_of_mem _ hmem)
    rw [run_cons]
    by_cases hshort : (buf ++ piece).length < request.length
    · have hpre : buf ++ piece <+: request :=
        prefix_of_prefix_length_le ⟨_, hflat⟩ (prefix_append _ _) (le_of_lt hshort)
      rw [deliver_unfinished srv h app hpre hshort]
      exact ih hne' hshort hflat
    · have hpre : request <+: buf ++ piece :=
        prefix_of_prefix_length_le (prefix_append request stream) ⟨_, hflat⟩
          (not_lt.mp hshort)
      obtain ⟨more, hmore⟩ := hpre
      obtain ⟨k1, k2, -, k4, k5⟩ := deliver_request srv h app buf hmore.symm
      have hstream : more ++ pieces.flatten = stream := by
        rw [← hmore, append_assoc] at hflat
        exact append_cancel_left hflat
      rw [← k1]
      apply run_quiet srv hne'
      intro _
      unfold QuietBehind at hquiet
      cases hv : validates srv u with
      | true =>
        rw [hv] at hquiet k4 k5
        apply quietNow_open srv k4
        rw [k5, k2, hstream]
        exact hquiet
      | false =>
        rw [hv] at hquiet k4 k5
        apply quietNow_connecting srv k4 k5
        rw [k2, hstream]
        exact hquiet

end Deliveries

/-- The messages and the frames sent back do not depend on how the stream is cut
into deliveries exactly when what comes behind the upgrade request is quiet: no
frame of it has an effect that a client or a handler sees. -/
theorem messages_and_frames_do_not_depend_on_the_cut_iff {σ : Type*} (srv : Server σ) (app : σ)
    {request : Bytes} {u : Upgrade} (h : UpgradeRequest request u) (stream : Bytes) :
    (∀ c d, IsCut (request ++ stream) c → IsCut (request ++ stream) d →
        (run (deliver srv) (accepted app) c).observed =
          (run (deliver srv) (accepted app) d).observed) ↔
      QuietBehind srv u stream := by
  have hfour := four_le_length h
  have hrequest_ne : request ≠ [] := by
    rintro rfl
    simp at hfour
  constructor
  · intro hagree
    have hwhole : IsCut (request ++ stream) [request ++ stream] := ⟨by simp, by simp [hrequest_ne]⟩
    -- all in one delivery, what is behind the request stays in the buffer
    obtain ⟨hone, -⟩ := deliver_request srv h app [] (nil_append (request ++ stream))
    obtain ⟨k1, k2, k3, k4, k5⟩ := deliver_request srv h app []
      (by rw [nil_append, append_nil])
    have hstart : (accepted app).withBuf [] = accepted app := rfl
    rw [hstart] at hone k1 k2 k3 k4 k5
    have hsame : (deliver srv (accepted app) (request ++ stream)).shown =
        (deliver srv (accepted app) request).shown := shown_of_observed (hone.trans k1.symm)
    by_contra hloud
    unfold QuietBehind at hloud
    cases hv : validates srv u with
    | true =>
      rw [hv] at hloud k4 k5
      have hstream_ne : stream ≠ [] := by
        rintro rfl
        exact hloud (by rw [frameReader.items_of_next_none frameReader.next_nil]; trivial)
      have hcut : IsCut (request ++ stream) [request, stream] :=
        ⟨by simp, by simp [Ne.symm hrequest_ne, Ne.symm hstream_ne]⟩
      have hshown := deliver_loud srv k4 k3 stream (by rw [k5, k2]; exact hloud)
      have heq := shown_of_observed (hagree _ _ hcut hwhole)
      rw [run_cons, run_cons, run_nil, run_cons, run_nil] at heq
      omega
    | false =>
      rw [hv] at hloud k4 k5
      obtain ⟨pieces, ⟨hflat, hne⟩, hshown⟩ := blocks_loud srv stream hloud
        (deliver srv (accepted app) request) k4 k5 k3 k2
      have hcut : IsCut (request ++ stream) (request :: pieces) :=
        ⟨by rw [flatten_cons, hflat], by simp [Ne.symm hrequest_ne, hne]⟩
      have heq := shown_of_observed (hagree _ _ hcut hwhole)
      rw [run_cons, run_cons, run_nil] at heq
      omega
  · intro hquiet c d hc hd
    have hstart : accepted app = (accepted app).withBuf [] := rfl
    rw [hstart, observed_of_quiet srv h hquiet hc.2 (by simp; omega) hc.1,
      observed_of_quiet srv h hquiet hd.2 (by simp; omega) hd.1]

def echoServer : Server Unit where
  maxMessageSize := 10 * 1024 * 1024
  handshakeValidator := none
  connectionHandler _ _ := ((), [])
  messageHandler _ _ msg := ((), [.sendBinary msg.data])
  sha1 _ := [0xb3, 0x7a, 0x4f, 0x2c, 0xc0, 0x62, 0x4f, 0x16, 0x90, 0xf6, 0x46, 0x06, 0xcf, 0x38,
    0x59, 0x45, 0xb2, 0xbe, 0xc4, 0xea]

def chatRequest : Bytes :=
  text "GET /chat HTTP/1.1\r\nUpgrade: websocket\r\nConnection: Upgrade\r\n" ++
    text "Sec-WebSocket-Key: dGhlIHNhbXBsZSBub25jZQ==\r\n\r\n"

def chatUpgrade : Upgrade where
  path := text "/chat"
  headers := [(text "Connection", text "Upgrade"),
    (text "Sec-WebSocket-Key", text "dGhlIHNhbXBsZSBub25jZQ=="), (text "Upgrade", text "websocket")]
  key := text "dGhlIHNhbXBsZSBub25jZQ=="

theorem chatRequest_upgrade : UpgradeRequest chatRequest chatUpgrade :=
  ⟨by decide +kernel, by decide +kernel⟩

theorem chatRequest_ne_nil : chatRequest ≠ [] := by
  intro hnil
  have hfour := four_le_length chatRequest_upgrade
  rw [hnil] at hfour
  simp at hfour

/-- A pong behind the request has no effect, in any cut. -/
theorem messages_and_frames_do_not_depend_on_the_cut_pong :
    (run (deliver echoServer) (accepted ()) [chatRequest ++ [0x8A, 0x00]]).observed =
      (run (deliver echoServer) (accepted ()) [chatRequest, [0x8A], [0x00]]).observed :=
  (messages_and_frames_do_not_depend_on_the_cut_iff echoServer () chatRequest_upgrade
    [0x8A, 0x00]).mpr (by
      have hitems : frameReader.items [0x8A, 0x00] = [{ opcode := .Pong }] := by decide +kernel
      change QuietFrames echoServer true _
      rw [hitems]
      simp [QuietFrames, tooLarge, echoServer, signed32, WsOpcode.Pong, WsOpcode.Text,
        WsOpcode.Binary, WsOpcode.Ping, WsOpcode.Close])
    _ _ ⟨by simp, by simp⟩ ⟨by simp, by simp [Ne.symm chatRequest_ne_nil]⟩

theorem deliver_chatRequest (more : Bytes) :
    deliver echoServer (accepted ()) (chatRequest ++ more) =
      (openSession echoServer (accepted ()) chatUpgrade).withBuf more := by
  have h := chatRequest_upgrade
  have hfour := four_le_length h
  have hdata : (accepted ()).buf ++ (chatRequest ++ more) = chatRequest ++ more := nil_append _
  have hend : find blankLine ((accepted ()).buf ++ (chatRequest ++ more)) =
      some (chatRequest.length - 4) := by
    rw [hdata]
    exact find_append h.ends more
  have hu : parseUpgrade ((accepted ()).buf ++ (chatRequest ++ more)) (chatRequest.length - 4) =
      .ok chatUpgrade := by
    rw [hdata]
    exact parseUpgrade_append h.ends (by omega) h.valid more
  have hdrop : (chatRequest ++ more).drop (chatRequest.length - 4 + 4) = more :=
    drop_left' (by omega)
  rw [deliver_admitted echoServer rfl rfl hend hu rfl, hdata, hdrop]

/-- A text frame that comes with the end of the request stays in the buffer. In a
delivery of its own it reaches the handler. -/
theorem a_frame_behind_the_request_depends_on_the_cut :
    let frame : Bytes := [0x81, 0x02, 0x68, 0x69]
    IsCut (chatRequest ++ frame) [chatRequest ++ frame] ∧
      IsCut (chatRequest ++ frame) [chatRequest, frame] ∧
      (run (deliver echoServer) (accepted ()) [chatRequest ++ frame]).observed = ([], []) ∧
      (run (deliver echoServer) (accepted ()) [chatRequest, frame]).observed =
        ([⟨.Text, [0x68, 0x69]⟩], [[0x82, 0x02, 0x68, 0x69]]) := by
  intro frame
  have hopened := deliver_chatRequest []
  rw [append_nil] at hopened
  refine ⟨⟨by simp, by simp⟩, ⟨by simp, by simp [frame, Ne.symm chatRequest_ne_nil]⟩, ?_, ?_⟩
  · rw [run_cons, run_nil, deliver_chatRequest]
    rfl
  · rw [run_cons, run_cons, run_nil, hopened]
    decide +kernel

end mymuduo.websocket_server
