-- The handshake of a WebSocket connection. An upgrade request is read the same with
-- more bytes behind it. An admitted handshake opens the session and leaves what is
-- behind it in the buffer; a rejected one shuts the connection down, and the next
-- header section is tried again.
import Mymuduo.WebSocketLoop

open List bytes segments words

namespace mymuduo.websocket_server

open websocket_frame

/-! ## Handshakes -/

theorem length_blankLine : blankLine.length = 4 := length_crlf_crlf

theorem parseHeaders_crlf : parseHeaders crlf = [] := by decide

variable {request : Bytes}

theorem firstLine_cases {headerEnd : Nat} (hend : find blankLine request = some headerEnd) :
    ∃ firstLineEnd, find crlf request = some firstLineEnd ∧
      (firstLineEnd + 2 ≤ headerEnd ∨ firstLineEnd = headerEnd) := by
  have hlen := find_add_length_le hend
  obtain ⟨tail, htail⟩ := find_starts hend
  have hcrlf : crlf <+: request.drop headerEnd := by
    rw [← htail]
    exact ⟨[13, 10] ++ tail, rfl⟩
  obtain ⟨firstLineEnd, hfirst, hle⟩ := find_le (by omega) hcrlf
  refine ⟨firstLineEnd, hfirst, ?_⟩
  by_contra hcon
  have hone : headerEnd = firstLineEnd + 1 := by omega
  -- the byte at `headerEnd` would be both the end of this line and the start of the next
  obtain ⟨more, hmore⟩ := find_starts hfirst
  have hcons : request.drop firstLineEnd = 13 :: 10 :: more := hmore.symm
  have hnext : request.drop headerEnd = 10 :: more := by
    rw [hone, ← drop_drop, hcons]
    rfl
  rw [hnext] at htail
  have hbyte := congrArg head? htail
  revert hbyte
  simp [blankLine, text]

theorem parseUpgrade_append {headerEnd : Nat} {u : Upgrade}
    (hend : find blankLine request = some headerEnd) (hlen : request.length = headerEnd + 4)
    (h : parseUpgrade request headerEnd = .ok u) (more : Bytes) :
    parseUpgrade (request ++ more) headerEnd = .ok u := by
  obtain ⟨firstLineEnd, hfirst, hcases⟩ := firstLine_cases hend
  have htake : (request ++ more).take firstLineEnd = request.take firstLineEnd :=
    take_append_of_le_length (by omega)
  rcases hcases with hle | heq
  · have hsec : headerSection (request ++ more) firstLineEnd headerEnd =
        headerSection request firstLineEnd headerEnd := by
      unfold headerSection http_request.substr
      rw [if_pos hle, if_pos hle, take_drop_append (by omega)]
    unfold parseUpgrade at h ⊢
    rw [find_append hfirst]
    rw [hfirst] at h
    dsimp only at h ⊢
    rw [htake, hsec]
    exact h
  · -- without a header line there is no `Upgrade` header to accept
    exfalso
    have hsec : headerSection request firstLineEnd headerEnd = crlf := by
      obtain ⟨tail, htail⟩ := find_starts hend
      have htail_nil : tail = [] := by
        have := congrArg length htail
        rw [length_append, length_blankLine, length_drop] at this
        exact eq_nil_of_length_eq_zero (by omega)
      unfold headerSection
      rw [if_neg (by omega), heq, ← drop_drop, ← htail, htail_nil]
      decide
    unfold parseUpgrade at h
    rw [hfirst] at h
    dsimp only at h
    rw [hsec, parseHeaders_crlf] at h
    split at h
    · cases h
    · split at h <;> cases h

section Blocks

variable {σ : Type*} (srv : Server σ)

/-- The handshake on these bytes opens the session. -/
def admits (request : Bytes) (headerEnd : Nat) : Bool :=
  match parseUpgrade request headerEnd with
  | .ok u => validates srv u
  | .error _ => false

variable {headerEnd : Nat}

theorem admits_append (hend : find blankLine request = some headerEnd)
    (hlen : request.length = headerEnd + 4) (h : admits srv request headerEnd = true)
    (more : Bytes) : admits srv (request ++ more) headerEnd = true := by
  unfold admits at h ⊢
  split at h
  · rename_i u hu
    rw [parseUpgrade_append hend hlen hu more]
    exact h
  · cases h

/-- No handshake among the bytes leads to a message, on a connection that was shut
down. A header section may come with any part of what is behind it, and what comes
with it takes part in the handshake. -/
def QuietBlocks (stream : Bytes) : Prop :=
  match hend : find blankLine stream with
  | none => True
  | some headerEnd =>
    (∀ part, part <+: stream.drop (headerEnd + 4) → part ≠ stream.drop (headerEnd + 4) →
        admits srv (stream.take (headerEnd + 4) ++ part) headerEnd = true →
        QuietFrames srv false (frameReader.items (stream.drop (headerEnd + 4)))) ∧
      (admits srv (stream.take (headerEnd + 4)) headerEnd = false →
        QuietBlocks (stream.drop (headerEnd + 4)))
termination_by stream.length
decreasing_by
  have := find_add_length_le hend
  rw [length_blankLine] at this
  rw [length_drop]
  omega

theorem quietBlocks_none {stream : Bytes} (h : find blankLine stream = none) :
    QuietBlocks srv stream := by
  unfold QuietBlocks
  split
  · trivial
  · rename_i hend
    rw [h] at hend
    cases hend

theorem quietBlocks_some_iff {stream : Bytes} (h : find blankLine stream = some headerEnd) :
    QuietBlocks srv stream ↔
      (∀ part, part <+: stream.drop (headerEnd + 4) → part ≠ stream.drop (headerEnd + 4) →
          admits srv (stream.take (headerEnd + 4) ++ part) headerEnd = true →
          QuietFrames srv false (frameReader.items (stream.drop (headerEnd + 4)))) ∧
        (admits srv (stream.take (headerEnd + 4)) headerEnd = false →
          QuietBlocks srv (stream.drop (headerEnd + 4))) := by
  rw [QuietBlocks]
  split
  · rename_i hend
    rw [h] at hend
    cases hend
  · rename_i hend
    rw [h] at hend
    cases hend
    rfl

/-! ## One handshake -/

def Conn.withBuf (c : Conn σ) (buf : Bytes) : Conn σ := { c with buf }

variable (c : Conn σ)

theorem send_withBuf (buf : Bytes) (data : Sent) :
    (c.withBuf buf).send data = (c.send data).withBuf buf := by
  unfold Conn.send
  change (if c.session.connected = true then _ else _) = _
  split <;> rfl

theorem sendFrame_withBuf (buf data : Bytes) :
    (c.withBuf buf).sendFrame data = (c.sendFrame data).withBuf buf := by
  unfold Conn.sendFrame
  change (if c.session.state_ = .Open then _ else _) = _
  split
  · exact send_withBuf c buf _
  · rfl

theorem replies_withBuf (replies : List Reply) (c : Conn σ) (buf : Bytes) :
    replies.foldl Conn.reply (c.withBuf buf) = (replies.foldl Conn.reply c).withBuf buf :=
  foldl_hom (·.withBuf buf) fun c r => sendFrame_withBuf c buf r.bytes

theorem switchProtocols_withBuf (buf : Bytes) (u : Upgrade) :
    switchProtocols srv (c.withBuf buf) u = (switchProtocols srv c u).withBuf buf := by
  unfold switchProtocols
  rw [send_withBuf]
  rfl

theorem openSession_withBuf (buf : Bytes) (u : Upgrade) :
    openSession srv (c.withBuf buf) u = (openSession srv c u).withBuf buf := by
  unfold openSession
  rw [switchProtocols_withBuf]
  generalize switchProtocols srv c u = c'
  exact replies_withBuf (srv.connectionHandler c'.app c'.session).2
    { c' with app := (srv.connectionHandler c'.app c'.session).1 } buf

theorem switchProtocols_keeps (u : Upgrade) :
    (switchProtocols srv c u).session.state_ = .Open ∧
      (switchProtocols srv c u).session.connected = c.session.connected ∧
      (switchProtocols srv c u).buf = c.buf ∧ (switchProtocols srv c u).crashed = c.crashed ∧
      (switchProtocols srv c u).observed = c.observed := by
  let response := switchingResponse (computeAcceptKey srv.sha1 u.key)
  obtain ⟨hsession, hbuf, hcrashed, hmessages⟩ := send_keeps c (.http response)
  have hlive : (c.send (.http response)).session.connected = c.session.connected := by rw [hsession]
  refine ⟨rfl, hlive, hbuf, hcrashed, ?_⟩
  exact congrArg₂ Prod.mk hmessages (frames_send_http c response)

theorem openSession_keeps (u : Upgrade) :
    (openSession srv c u).session.state_ = .Open ∧
      (openSession srv c u).session.connected = c.session.connected ∧
      (openSession srv c u).buf = c.buf ∧ (openSession srv c u).crashed = c.crashed ∧
      (c.session.connected = false → (openSession srv c u).observed = c.observed) := by
  obtain ⟨h1, h2, h3, h4, h5⟩ := switchProtocols_keeps srv c u
  unfold openSession
  dsimp only
  generalize srv.connectionHandler _ _ = out
  obtain ⟨k1, k2, k3, k4, -, k6⟩ := replies_keep out.2 { switchProtocols srv c u with app := out.1 }
  refine ⟨?_, ?_, k2.trans h3, k3.trans h4, ?_⟩
  · rw [k1]
    exact h1
  · rw [k1]
    exact h2
  · intro hdead
    unfold Conn.observed at h5 ⊢
    rw [k4, k6 (h2.trans hdead), ← h5]
    rfl

theorem handleHandshake_waits {c : Conn σ} (hend : find blankLine c.buf = none) :
    handleHandshake srv c = c := by
  unfold handleHandshake
  rw [hend]

theorem refuse_keeps (response : Bytes) :
    (c.send (.http response)).shutdown.observed = c.observed ∧
      (c.send (.http response)).shutdown.session.state_ = c.session.state_ ∧
      (c.send (.http response)).shutdown.session.connected = false ∧
      (c.send (.http response)).shutdown.crashed = c.crashed ∧
      (c.send (.http response)).shutdown.buf = c.buf := by
  obtain ⟨hsession, hbuf, hcrashed, hmessages⟩ := send_keeps c (.http response)
  have hstate : (c.send (.http response)).session.state_ = c.session.state_ := by rw [hsession]
  refine ⟨?_, hstate, rfl, hcrashed, hbuf⟩
  exact congrArg₂ Prod.mk hmessages (frames_send_http c response)

/-- A handshake that is not admitted shuts the connection down and shows nothing. -/
theorem handleHandshake_rejected {c : Conn σ} (hend : find blankLine c.buf = some headerEnd)
    (hno : admits srv c.buf headerEnd = false) :
    (handleHandshake srv c).observed = c.observed ∧
      (handleHandshake srv c).session.state_ = c.session.state_ ∧
      (handleHandshake srv c).session.connected = false ∧
      (handleHandshake srv c).crashed = c.crashed ∧
      (handleHandshake srv c).buf = c.buf.drop (headerEnd + 4) := by
  unfold handleHandshake
  rw [hend]
  dsimp only
  split
  · exact refuse_keeps (c.withBuf (c.buf.drop (headerEnd + 4))) _
  · rename_i u hu
    have hv : validates srv u = false := by
      unfold admits at hno
      rw [hu] at hno
      exact hno
    rw [if_neg (by rw [hv]; simp)]
    exact refuse_keeps (c.withBuf (c.buf.drop (headerEnd + 4))) _

theorem handleHandshake_admitted {c : Conn σ} {u : Upgrade}
    (hend : find blankLine c.buf = some headerEnd) (hu : parseUpgrade c.buf headerEnd = .ok u)
    (hv : validates srv u = true) :
    handleHandshake srv c = (openSession srv c u).withBuf (c.buf.drop (headerEnd + 4)) := by
  unfold handleHandshake
  rw [hend]
  dsimp only
  rw [hu]
  dsimp only
  rw [if_pos hv]
  exact openSession_withBuf srv c _ u

theorem admits_of_ok (h : admits srv request headerEnd = true) :
    ∃ u, parseUpgrade request headerEnd = .ok u ∧ validates srv u = true := by
  unfold admits at h
  split at h
  · rename_i u hu
    exact ⟨u, hu, h⟩
  · cases h

end Blocks

end mymuduo.websocket_server
