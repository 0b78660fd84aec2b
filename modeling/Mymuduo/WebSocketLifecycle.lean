-- The laws of a session under `WebSocketServer`, over every order of deliveries, calls
-- and the TCP disconnect: in which order its handlers are called, and that no handler is
-- called before the 101 response went out.
import Mymuduo.WebSocketEvents

open List bytes runs words

namespace mymuduo.websocket_session

open websocket_frame websocket_server

/-! ## The invariant of a session -/

variable {frames : List WebSocketFrame} {l l' : Life σ} {l : Life σ} {new : List Notice}

section Sound

variable {σ : Type*}

/-- What holds of a session at any time. Before the handshake is through, the only
notices are refusals; a refused connection is not connected any more and never gets a
`101`; and the close handler runs only when the session leaves the server. -/
structure Sound (l : Life σ) : Prop where
  ordered : l.Ordered
  early : l.session.state_ = .Connecting → ∀ notice ∈ l.log,
    ∃ a : Answer, a.isRefusal = true ∧ notice = .answered a
  entered : .Open ∈ l.states → .connection ∈ l.log
  closing : .closeFrame ∈ l.log → 2 ≤ rank l.session.state_
  held : l.registered = true → .closed ∉ l.log
  refused : ∀ a : Answer, a.isRefusal = true → .answered a ∈ l.log →
    l.session.connected = false ∧ ∀ key, .answered (.switching key) ∉ l.log

theorem sound_connected (app : σ) : Sound (connected app) where
  ordered := ⟨List.pairwise_singleton _ _, fun s hs => by rw [List.mem_singleton.mp hs]; rfl, rfl⟩
  early := fun _ notice h => by cases h
  entered := fun h => by cases h
  closing := fun h => by cases h
  held := fun _ h => by cases h
  refused := fun _ _ h => by cases h

theorem Sound.announced (h : Sound l) (ho : l.session.state_ = .Open) : .connection ∈ l.log := by
  have hlast := mem_of_getLast? h.ordered.current
  rw [ho] at hlast
  exact h.entered ((mem_cons.mp hlast).resolve_left (by decide))

theorem Sound.not_switched (h : Sound l) (hs : l.session.state_ = .Connecting)
    (key : Bytes) : .answered (.switching key) ∉ l.log := by
  intro hmem
  obtain ⟨a, ha, heq⟩ := h.early hs _ hmem
  cases heq
  cases ha

/-- A session that stays where it is or begins to close stays sound, if only refusals
come before its handshake is through and its close frames make it close. -/
theorem Sound.moved (h : Sound l) (hm : Moves l l')
    (hlog : l'.log = l.log ++ new)
    (hearly : l.session.state_ = .Connecting → ∀ notice ∈ new,
      ∃ a : Answer, a.isRefusal = true ∧ notice = .answered a)
    (hanswer : ∀ a : Answer, .answered a ∈ new →
      l.session.state_ = .Connecting ∧ l'.session.connected = false)
    (hclose : .closeFrame ∈ new → 2 ≤ rank l'.session.state_) (hclosed : .closed ∉ new) :
    Sound l' where
  ordered := hm.ordered h.ordered
  early := by
    intro hs
    have hwas : l.session.state_ = .Connecting := by
      rcases hm.closing with hsame | htwo
      · exact hsame.symm.trans hs
      · rw [hs] at htwo
        exact absurd htwo (by decide)
    rw [hlog]
    intro notice hmem
    rcases mem_append.mp hmem with hmem | hmem
    · exact h.early hwas notice hmem
    · exact hearly hwas notice hmem
  entered := by
    intro hopen
    rw [hlog]
    exact mem_append_left _ (h.entered (hm.opens hopen))
  closing := by
    rw [hlog, mem_append]
    rintro (hmem | hmem)
    · exact le_trans (h.closing hmem) hm.forward
    · exact hclose hmem
  held := by
    rw [hm.registered, hlog, mem_append, not_or]
    exact fun hr => ⟨h.held hr, hclosed⟩
  refused := by
    intro a ha hmem
    rw [hlog] at hmem ⊢
    have hswitched : ∀ key, .answered (.switching key) ∉ new := by
      intro key hkey
      obtain ⟨b, hb, heq⟩ := hearly (hanswer _ hkey).1 _ hkey
      cases heq
      cases hb
    rcases mem_append.mp hmem with hmem | hmem
    · obtain ⟨hdead, hno⟩ := h.refused a ha hmem
      refine ⟨?_, fun key hkey => ?_⟩
      · rw [← Bool.not_eq_true]
        intro hc
        rw [hm.connected hc] at hdead
        cases hdead
      · exact (mem_append.mp hkey).elim (hno key) (hswitched key)
    · obtain ⟨hs, hdead⟩ := hanswer a hmem
      refine ⟨hdead, fun key hkey => ?_⟩
      exact (mem_append.mp hkey).elim (h.not_switched hs key) (hswitched key)

theorem noticeOf_cases {frame : WebSocketFrame} {notice : Notice}
    (h : noticeOf frame = some notice) :
    ((frame.opcode = .Text ∨ frame.opcode = .Binary) ∧ ∃ msg, notice = .message msg) ∨
      (frame.opcode = .Close ∧ notice = .closeFrame) := by
  unfold noticeOf at h
  split at h
  · rename_i hmsg
    cases h
    exact Or.inl ⟨hmsg, _, rfl⟩
  · split at h
    · rename_i hclose
      cases h
      exact Or.inr ⟨hclose, rfl⟩
    · cases h

theorem handled_cases {errors : List Bytes} {notice : Notice}
    (h : notice ∈ frames.filterMap noticeOf ++ errors.map .error) :
    (∃ msg, notice = .message msg) ∨
      (notice = .closeFrame ∧ ∃ frame ∈ frames, frame.opcode = .Close) ∨
      ∃ error, notice = .error error := by
  rcases mem_append.mp h with h | h
  · obtain ⟨frame, hframe, hnotice⟩ := mem_filterMap.mp h
    rcases noticeOf_cases hnotice with ⟨-, hmsg⟩ | ⟨hclose, heq⟩
    · exact Or.inl hmsg
    · exact Or.inr (Or.inl ⟨heq, frame, hframe, hclose⟩)
  · obtain ⟨error, -, heq⟩ := mem_map.mp h
    exact Or.inr (Or.inr ⟨error, heq.symm⟩)

theorem Sound.opened (h : Sound l) (hs : l.session.state_ = .Connecting)
    (hs' : l'.session.state_ ≠ .Connecting) (hregistered : l'.registered = l.registered)
    (hconnected : l'.session.connected = true → l.session.connected = true)
    (hordered : l.Ordered → l'.Ordered) {key : Bytes}
    (hlog : l'.log = l.log ++
      ((if l.session.connected then [.answered (.switching key)] else []) ++ [.connection])) :
    Sound l' where
  ordered := hordered h.ordered
  early := fun hback => absurd hback hs'
  entered := by
    rw [hlog]
    simp
  closing := by
    intro hmem
    have hold : .closeFrame ∈ l.log := by
      rw [hlog] at hmem
      split at hmem <;> simpa using hmem
    obtain ⟨a, -, heq⟩ := h.early hs _ hold
    cases heq
  held := by
    intro hr hmem
    have hold : .closed ∈ l.log := by
      rw [hlog] at hmem
      split at hmem <;> simpa using hmem
    exact h.held (hregistered.symm.trans hr) hold
  refused := by
    intro a ha hmem
    have hold : .answered a ∈ l.log := by
      rw [hlog] at hmem
      split at hmem
      · rcases mem_append.mp hmem with hmem | hmem
        · exact hmem
        · have heq : a = .switching key := by simpa using hmem
          rw [heq] at ha
          cases ha
      · simpa using hmem
    obtain ⟨hdead, hno⟩ := h.refused a ha hold
    refine ⟨?_, ?_⟩
    · rw [← Bool.not_eq_true]
      intro hc
      rw [hconnected hc] at hdead
      cases hdead
    · -- the connection was dead already, so the new answer did not go out
      intro key' hkey
      rw [hlog, hdead] at hkey
      exact hno key' (by simpa using hkey)

theorem Sound.ended (h : Sound l) (hregistered' : l'.registered = false)
    (hs' : l'.session.state_ = .Closed) (hdead : l'.session.connected = false)
    (hordered : l.Ordered → l'.Ordered) (hopens : .Open ∈ l'.states → .Open ∈ l.states)
    (hlog : l'.log = l.log ++ ((if l.session.state_ = .Closed then [] else [.closed]) ++ [.down])) :
    Sound l' where
  ordered := hordered h.ordered
  early := by
    rw [hs']
    exact fun hback => nomatch hback
  entered := by
    intro hopen
    rw [hlog]
    exact mem_append_left _ (h.entered (hopens hopen))
  closing := by
    rw [hs']
    exact fun _ => two_le_rank_closed
  held := by
    rw [hregistered']
    exact fun hr => nomatch hr
  refused := by
    have hold : ∀ a : Answer, .answered a ∈ l'.log → .answered a ∈ l.log := by
      intro a hmem
      rw [hlog] at hmem
      split at hmem <;> simpa using hmem
    intro a ha hmem
    obtain ⟨-, hno⟩ := h.refused a ha (hold a hmem)
    exact ⟨hdead, fun key hkey => hno key (hold _ hkey)⟩

theorem sound_of_does {opened ended : Bool}
    (hd : Does l l' frames opened ended) (h : Sound l) : Sound l' := by
  cases hd with
  | nothing hmoves hlog =>
    have hlog' : l'.log = l.log ++ [] := hlog.trans (append_nil _).symm
    exact h.moved hmoves hlog' (by simp) (by simp) (by simp) (by simp)
  | refused hs hmoves hdead a ha hlog =>
    have hnew : ∀ notice ∈ (if l.session.connected then [.answered a] else [] : List Notice),
        notice = .answered a := by
      intro notice hmem
      split at hmem
      · exact mem_singleton.mp hmem
      · cases hmem
    refine h.moved hmoves hlog ?_ ?_ ?_ ?_
    · exact fun _ notice hmem => ⟨a, ha, hnew notice hmem⟩
    · exact fun _ _ => ⟨hs, hdead⟩
    · exact fun hmem => nomatch hnew _ hmem
    · exact fun hmem => nomatch hnew _ hmem
  | opened hs hs' hregistered hconnected hordered key hlog =>
    exact h.opened hs hs' hregistered hconnected hordered hlog
  | handled hs hregistered hmoves frames hclose errors hlog =>
    refine h.moved hmoves hlog ?_ ?_ ?_ ?_
    · exact fun hback => nomatch hs.symm.trans hback
    · intro a hmem
      rcases handled_cases hmem with ⟨msg, heq⟩ | ⟨heq, -⟩ | ⟨error, heq⟩ <;> cases heq
    · intro hmem
      rcases handled_cases hmem with ⟨msg, heq⟩ | ⟨-, frame, hframe, hop⟩ | ⟨error, heq⟩
      · cases heq
      · exact hclose frame hframe hop
      · cases heq
    · intro hmem
      rcases handled_cases hmem with ⟨msg, heq⟩ | ⟨heq, -⟩ | ⟨error, heq⟩ <;> cases heq
  | ended hregistered hregistered' hs' hdead hordered hopens hlog =>
    exact h.ended hregistered' hs' hdead hordered hopens hlog

end Sound

/-! ## The order of the handlers -/

/-- A notice is in its place: the connection handler is called once; messages come
behind it, and before any close frame and the close handler; the close handler is called
once, for a session that was announced, and before its disconnect is over. -/
def Lawful (before : List Notice) : Notice → Prop
  | .connection => .connection ∉ before
  | .message _ => .connection ∈ before ∧ .closeFrame ∉ before ∧ .closed ∉ before
  | .closed => .connection ∈ before ∧ .closed ∉ before
  | .down => .connection ∈ before → .closed ∈ before
  | _ => True

/-- The life of a session: it only moves forward, and each notice is in its place. -/
structure Lifecycle {σ : Type*} (l : Life σ) : Prop where
  forward : l.Ordered
  lawful : Each Lawful l.log

def MessagesFirst (frames : List WebSocketFrame) : Prop :=
  frames.Pairwise (fun x y => x.opcode = .Close → y.opcode ≠ .Text ∧ y.opcode ≠ .Binary)

/-- The event brings no message behind a close frame, and it does not end a session that
was announced and is closed already, nor one that was not announced and is not closed. -/
def Orderly {σ : Type*} (srv : WebSocketServer σ) (l : Life σ) (event : Event) : Prop :=
  MessagesFirst (completes srv l event) ∧
    (ends l event = true → (.connection ∈ l.log ↔ l.session.state_ ≠ .Closed))

section Order

variable {σ : Type*}

theorem isMessage_noticeOf_iff (x y : WebSocketFrame) :
    (∀ b, noticeOf x = some b → ∀ b', noticeOf y = some b' → b = .closeFrame →
        ∀ msg, b' ≠ .message msg) ↔
      (x.opcode = .Close → y.opcode ≠ .Text ∧ y.opcode ≠ .Binary) := by
  constructor
  · intro h hx
    have hclose : noticeOf x = some .closeFrame := by
      unfold noticeOf
      rw [hx]
      rfl
    have hmsg : ¬(y.opcode = .Text ∨ y.opcode = .Binary) := by
      intro hy
      exact h _ hclose _ (if_pos hy) rfl _ rfl
    exact not_or.mp hmsg
  · rintro h b hb b' hb' rfl msg rfl
    rcases noticeOf_cases hb with ⟨-, m, hm⟩ | ⟨hx, -⟩
    · cases hm
    · rcases noticeOf_cases hb' with ⟨hy, -⟩ | ⟨-, hy⟩
      · exact absurd hy (not_or.mpr (h hx))
      · cases hy

/-- The messages of the frames that an open session handles are in their place exactly
when none stands behind a close frame. -/
theorem each_frames_iff {log : List Notice} (hconnection : .connection ∈ log)
    (hclose : .closeFrame ∉ log) (hclosed : .closed ∉ log) (frames : List WebSocketFrame) :
    Each (fun before notice => Lawful (log ++ before) notice) (frames.filterMap noticeOf) ↔
      MessagesFirst frames := by
  have hplace : ∀ before notice after, frames.filterMap noticeOf = before ++ notice :: after →
      (Lawful (log ++ before) notice ↔
        ∀ x ∈ before, x = .closeFrame → ∀ msg, notice ≠ .message msg) := by
    intro before notice after hsplit
    have hkind : ∀ x ∈ frames.filterMap noticeOf, (∃ msg, x = .message msg) ∨ x = .closeFrame := by
      intro x hx
      obtain ⟨frame, -, hframe⟩ := mem_filterMap.mp hx
      exact (noticeOf_cases hframe).imp And.right And.right
    have hno : .closed ∉ before := by
      intro hmem
      rcases hkind .closed (by rw [hsplit]; simp [hmem]) with ⟨msg, hmsg⟩ | heq
      · cases hmsg
      · cases heq
    rcases hkind notice (by rw [hsplit]; simp) with ⟨msg, rfl⟩ | rfl
    · constructor
      · rintro ⟨-, hbefore, -⟩ x hx rfl _
        exact absurd (mem_append_right _ hx) hbefore
      · intro h
        refine ⟨mem_append_left _ hconnection, ?_, ?_⟩
        · intro hmem
          exact (mem_append.mp hmem).elim hclose (fun hx => h _ hx rfl msg rfl)
        · exact fun hmem => (mem_append.mp hmem).elim hclosed hno
    · exact iff_of_true trivial (fun _ _ _ _ => nofun)
  rw [each_congr hplace, each_iff_pairwise, pairwise_filterMap]
  exact ⟨List.Pairwise.imp (fun {x y} => (isMessage_noticeOf_iff x y).mp),
    List.Pairwise.imp (fun {x y} => (isMessage_noticeOf_iff x y).mpr)⟩

/-- The end of a session is lawful exactly when the session was announced and is not
closed yet, or was not announced and is closed. -/
theorem each_ended_iff (h : Sound l) (hregistered : l.registered = true) :
    Each (fun before notice => Lawful (l.log ++ before) notice)
        ((if l.session.state_ = .Closed then [] else [.closed]) ++ [.down]) ↔
      (.connection ∈ l.log ↔ l.session.state_ ≠ .Closed) := by
  have hno := h.held hregistered
  rw [each_append_iff, each_singleton_iff]
  by_cases hs : l.session.state_ = .Closed
  · rw [if_pos hs, append_nil, append_nil]
    constructor
    · rintro ⟨-, hdown⟩
      exact iff_of_false (fun hmem => hno (hdown hmem)) (not_not.mpr hs)
    · intro hiff
      refine ⟨each_nil _, ?_⟩
      exact fun hmem => absurd hs (hiff.mp hmem)
  · rw [if_neg hs, each_singleton_iff, append_nil, append_nil]
    constructor
    · rintro ⟨hclosed, -⟩
      exact iff_of_true hclosed.1 hs
    · intro hiff
      refine ⟨⟨hiff.mpr hs, hno⟩, ?_⟩
      exact fun _ => mem_append_right _ (mem_singleton.mpr rfl)

theorem lawful_of_does {opened ended : Bool} (h : Sound l) (hd : Does l l' frames opened ended)
    (hnew : l'.log = l.log ++ new) :
    Each (fun before notice => Lawful (l.log ++ before) notice) new ↔
      MessagesFirst frames ∧
        (ended = true → (.connection ∈ l.log ↔ l.session.state_ ≠ .Closed)) := by
  have hcalm : MessagesFirst [] ∧
      (false = true → (.connection ∈ l.log ↔ l.session.state_ ≠ .Closed)) :=
    ⟨List.Pairwise.nil, fun hf => nomatch hf⟩
  cases hd with
  | nothing _ hlog =>
    rw [hlog] at hnew
    rw [self_eq_append_right.mp hnew]
    exact iff_of_true (each_nil _) hcalm
  | refused _ _ _ a _ hlog =>
    rw [← append_cancel_left (hlog.symm.trans hnew)]
    refine iff_of_true (each_of_forall ?_) hcalm
    intro notice hmem before
    split at hmem
    · rw [mem_singleton.mp hmem]
      trivial
    · cases hmem
  | opened hs _ _ _ _ key hlog =>
    have hfirst : .connection ∉ l.log := by
      intro hmem
      obtain ⟨a, -, heq⟩ := h.early hs _ hmem
      cases heq
    rw [← append_cancel_left (hlog.symm.trans hnew)]
    refine iff_of_true ?_ hcalm
    rw [each_concat_iff]
    split
    · rw [each_singleton_iff]
      refine ⟨trivial, ?_⟩
      change .connection ∉ l.log ++ _
      simpa using hfirst
    · refine ⟨each_nil _, ?_⟩
      change .connection ∉ l.log ++ _
      simpa using hfirst
  | handled hs hregistered _ frames _ errors hlog =>
    have hclose : .closeFrame ∉ l.log := by
      intro hmem
      have htwo := h.closing hmem
      rw [hs] at htwo
      exact absurd htwo (by decide)
    have herrors :
        Each (fun before notice => Lawful (l.log ++ (frames.filterMap noticeOf ++ before))
        notice) (errors.map .error) := by
      apply each_of_forall
      intro notice hmem before
      obtain ⟨error, -, rfl⟩ := mem_map.mp hmem
      trivial
    rw [← append_cancel_left (hlog.symm.trans hnew), each_append_iff,
      each_frames_iff (h.announced hs) hclose (h.held hregistered)]
    exact ⟨fun hl => ⟨hl.1, hcalm.2⟩, fun hr => ⟨hr.1, herrors⟩⟩
  | ended hregistered _ _ _ _ _ hlog =>
    rw [← append_cancel_left (hlog.symm.trans hnew), each_ended_iff h hregistered]
    exact ⟨fun hl => ⟨hcalm.1, fun _ => hl⟩, fun hr => hr.2 rfl⟩

variable (srv : WebSocketServer σ)

theorem sound_step (l : Life σ) (event : Event) (h : Sound l) : Sound (step srv l event) :=
  sound_of_does (step_does srv l event) h

theorem sound_run (app : σ) (events : List Event) : Sound (run (step srv) (connected app) events) :=
  invariant_always (sound_step srv) (sound_connected app) events

/-- The session only moves forward and its handlers are called in order, over every
order of deliveries, calls and the disconnect, exactly when every event is orderly. -/
theorem session_keeps_its_lifecycle_iff (app : σ) (events : List Event) :
    Lifecycle (run (step srv) (connected app) events) ↔
      Meets (step srv) (Orderly srv) (connected app) events := by
  have hstep : ∀ l event, Sound l →
      (Each Lawful (step srv l event).log ↔ Each Lawful l.log ∧ Orderly srv l event) := by
    intro l event hl
    have hd := step_does srv l event
    obtain ⟨new, hnew⟩ := hd.exists_new
    rw [hnew, each_append_iff, lawful_of_does hl hd hnew]
    exact Iff.rfl
  have hlaw := law_run_iff (fun l => Each Lawful l.log) (sound_step srv) hstep
    (sound_connected app) events
  constructor
  · intro h
    exact (hlaw.mp h.lawful).2
  · intro h
    exact ⟨(sound_run srv app events).ordered, hlaw.mpr ⟨each_nil _, h⟩⟩

end Order

def silentServer : WebSocketServer Unit where
  maxMessageSize := 10 * 1024 * 1024
  handshakeValidator := none
  connectionHandler _ _ := ((), [])
  messageHandler _ _ _ := ((), [])
  closeHandler _ _ := ((), [])
  errorHandler _ _ _ := ((), [])
  sha1 := echoServer.sha1

/-- A server that sends each message back. -/
def echoingServer : WebSocketServer Unit :=
  { silentServer with messageHandler := fun _ _ msg => ((), [.reply (.sendBinary msg.data)]) }

/-- A text, a ping and a close frame come in four pieces, cut inside each of the frames. -/
theorem toConn_run_frames_in_pieces :
    let pieces : List Bytes := [[0x81], [2, 104, 105, 0x89], [1, 33, 0x88], [0]]
    let l := openSession echoingServer (connected ()) chatUpgrade
    let after := run (step echoingServer) l (pieces.map .deliver)
    after.toConn = run (websocket_server.deliver echoingServer.toServer) l.toConn pieces ∧
      after.toConn.messages = [⟨.Text, [104, 105]⟩] ∧
      after.toConn.frames = [encodeBinary [104, 105], encodePong [33], encodeClose 1000 []] := by
  refine ⟨toConn_run ⟨?_, ?_, fun _ _ _ => rfl⟩ rfl _, ?_, ?_⟩
  · simp [echoingServer, silentServer]
  · simp [echoingServer]
  · decide +kernel
  · decide +kernel

/-- What becomes of a session of this server. -/
def lifeOf (events : List Event) : Life Unit := run (step silentServer) (connected ()) events

def chatAnswer : Answer := .switching (computeAcceptKey echoServer.sha1 chatUpgrade.key)

def chatLife : Life Unit := openSession silentServer (connected ()) chatUpgrade

theorem lifeOf_chat (events : List Event) :
    lifeOf (.deliver chatRequest :: events) = run (step silentServer) chatLife events := by
  unfold lifeOf chatLife
  rw [run_cons, step_request silentServer rfl rfl rfl rfl chatRequest_upgrade rfl]

/-- A text frame behind a close frame reaches the handler; a forced close takes the close
handler away from an announced session; and the close handler is called for a session
that was never announced. -/
theorem three_sessions_break_their_lifecycle :
    ¬Lifecycle (lifeOf [.deliver chatRequest,
        .deliver (encodeClose 1000 [] ++ encodeText [104, 105])]) ∧
      ¬Lifecycle (lifeOf [.deliver chatRequest, .act .forceClose, .down]) ∧
      ¬Lifecycle (lifeOf [.down]) := by
  have hmessage : (run (step silentServer) chatLife
      [.deliver (encodeClose 1000 [] ++ encodeText [104, 105])]).log =
      [.answered chatAnswer, .connection, .closeFrame, .message ⟨.Text, [104, 105]⟩] := by
    decide +kernel
  have hforced : (run (step silentServer) chatLife [.act .forceClose, .down]).log =
      [.answered chatAnswer, .connection, .down] := by
    decide +kernel
  refine ⟨fun h => ?_, fun h => ?_, fun h => ?_⟩
  · rw [lifeOf_chat] at h
    have hplace := h.lawful [.answered chatAnswer, .connection, .closeFrame] _ [] hmessage
    exact hplace.2.1 (by simp)
  · rw [lifeOf_chat] at h
    have hclosed := h.lawful [.answered chatAnswer, .connection] _ [] hforced (by simp)
    simp at hclosed
  · have hplace := h.lawful [] .closed [.down] rfl
    exact absurd hplace.1 (by simp)

/-! ## The gate of the handshake -/

/-- The notices of the connection handler and of the message handler. -/
def Notice.isServed : Notice → Bool
  | .connection => true
  | .message _ => true
  | _ => false

/-- A `101` response went to the connection before the handler was called. -/
def Answered (before : List Notice) (notice : Notice) : Prop :=
  notice.isServed = true → ∃ key, .answered (.switching key) ∈ before

/-- The handlers are called behind a `101` response only, and a session that was refused
never was open. -/
structure Gated {σ : Type*} (l : Life σ) : Prop where
  answered_first : Each Answered l.log
  refused_for_good : ∀ a : Answer, a.isRefusal = true → .answered a ∈ l.log → .Open ∉ l.path

/-- An upgrade request that the server admits finds the connection still connected. -/
def StillConnected {σ : Type*} (srv : WebSocketServer σ) (l : Life σ) (event : Event) : Prop :=
  opens srv l event = true → l.session.connected = true

section Gate

variable {σ : Type*}

/-- Over a session that only ran behind its answers, a refusal is for good. -/
theorem gated_iff (h : Sound l) : Gated l ↔ Each Answered l.log := by
  refine ⟨Gated.answered_first, fun hl => ⟨hl, ?_⟩⟩
  intro a ha hmem hopen
  have hconnection := h.entered ((mem_cons.mp hopen).resolve_left (by decide))
  obtain ⟨before, after, hsplit⟩ := append_of_mem hconnection
  obtain ⟨key, hkey⟩ := hl before .connection after hsplit rfl
  refine (h.refused a ha hmem).2 key ?_
  rw [hsplit]
  exact mem_append_left _ hkey

/-- The notices that an event adds stand behind an answer exactly when the event opens no
session whose connection was shut down, on a session that ran behind its answers so
far. -/
theorem answered_of_does {opened ended : Bool} (h : Sound l) (hl : Each Answered l.log)
    (hd : Does l l' frames opened ended) (hnew : l'.log = l.log ++ new) :
    Each (fun before notice => Answered (l.log ++ before) notice) new ↔
      (opened = true → l.session.connected = true) := by
  have hquiet : ∀ xs : List Notice, (∀ notice ∈ xs, notice.isServed = false) →
      Each (fun before notice => Answered (l.log ++ before) notice) xs := by
    intro xs hxs
    apply each_of_forall
    intro notice hmem before hserved
    rw [hxs notice hmem] at hserved
    cases hserved
  have hclosed : false = true → l.session.connected = true := fun hf => nomatch hf
  cases hd with
  | nothing _ hlog =>
    rw [hlog] at hnew
    rw [self_eq_append_right.mp hnew]
    exact iff_of_true (each_nil _) hclosed
  | refused _ _ _ a _ hlog =>
    rw [← append_cancel_left (hlog.symm.trans hnew)]
    refine iff_of_true (hquiet _ ?_) hclosed
    split <;> simp [Notice.isServed]
  | opened hs _ _ _ _ key hlog =>
    rw [← append_cancel_left (hlog.symm.trans hnew), each_concat_iff]
    cases hc : l.session.connected with
    | true =>
      refine iff_of_true ⟨hquiet _ (by simp [Notice.isServed]), ?_⟩ (fun _ => rfl)
      exact fun _ => ⟨key, mem_append_right _ (mem_singleton.mpr rfl)⟩
    | false =>
      refine iff_of_false ?_ (by simp)
      rintro ⟨-, hserved⟩
      obtain ⟨key', hkey⟩ := hserved rfl
      exact h.not_switched hs key' (by simpa using hkey)
  | handled hs _ _ frames _ errors hlog =>
    refine iff_of_true (each_of_forall ?_) hclosed
    intro notice hmem before _
    obtain ⟨old, rest, hsplit⟩ := append_of_mem (h.announced hs)
    obtain ⟨key, hkey⟩ := hl old .connection rest hsplit rfl
    refine ⟨key, mem_append_left _ ?_⟩
    rw [hsplit]
    exact mem_append_left _ hkey
  | ended _ _ _ _ _ _ hlog =>
    rw [← append_cancel_left (hlog.symm.trans hnew)]
    refine iff_of_true (hquiet _ ?_) hclosed
    split <;> simp [Notice.isServed]

variable (srv : WebSocketServer σ)

/-- The handlers of a session are called behind its `101` response only, and a refused
session stays refused, exactly when every upgrade request that the server admits finds
the connection still connected. -/
theorem handlers_stand_behind_the_handshake_iff (app : σ) (events : List Event) :
    Gated (run (step srv) (connected app) events) ↔
      Meets (step srv) (StillConnected srv) (connected app) events := by
  have hstep : ∀ l event, Sound l →
      (Each Answered (step srv l event).log ↔
        Each Answered l.log ∧ StillConnected srv l event) := by
    intro l event hl
    have hd := step_does srv l event
    obtain ⟨new, hnew⟩ := hd.exists_new
    rw [hnew, each_append_iff]
    exact and_congr_right (fun hlog => answered_of_does hl hlog hd hnew)
  rw [gated_iff (sound_run srv app events),
    law_run_iff (fun l => Each Answered l.log) (sound_step srv) hstep (sound_connected app)]
  exact and_iff_right (each_nil _)

end Gate

def refusedLife : Life Unit :=
  step silentServer (connected ()) (.deliver (text "GET / HTTP/1.1\r\n\r\n"))

theorem refusedLife_eq :
    (refusedLife.crashed, refusedLife.registered, refusedLife.session.state_,
        refusedLife.session.connected, refusedLife.buf, refusedLife.log) =
      (false, true, .Connecting, false, [],
        [.answered (.badRequest (text "Missing or invalid Upgrade header"))]) := by
  decide +kernel

/-- A request without an upgrade is answered with `400`, and the upgrade request behind
it on the same connection still opens the session. -/
theorem a_refused_connection_opens :
    let events : List Event := [.deliver (text "GET / HTTP/1.1\r\n\r\n"), .deliver chatRequest]
    let refusal : Answer := .badRequest (text "Missing or invalid Upgrade header")
    (lifeOf events).log = [.answered refusal, .connection] ∧
      (lifeOf events).session.state_ = .Open ∧ ¬Gated (lifeOf events) := by
  intro events refusal
  have hfirst := refusedLife_eq
  simp only [Prod.mk.injEq] at hfirst
  obtain ⟨hlives, hregistered, hs, hdead, hbuf, hanswered⟩ := hfirst
  have hlife : lifeOf events = openSession silentServer refusedLife chatUpgrade := by
    unfold lifeOf events
    rw [run_cons, run_cons, run_nil]
    exact step_request silentServer hlives hregistered hs hbuf chatRequest_upgrade rfl
  have hlog : (lifeOf events).log = [.answered refusal, .connection] := by
    rw [hlife]
    cases openSession_does silentServer hs chatUpgrade with
    | opened _ _ _ _ _ key hlog =>
      rw [hlog, hanswered, hdead]
      rfl
  refine ⟨hlog, ?_, fun h => ?_⟩
  · rw [hlife]
    rfl
  · obtain ⟨key, hkey⟩ := h.answered_first [.answered refusal] .connection [] hlog rfl
    have heq : Notice.answered (.switching key) = .answered (.badRequest _) :=
      mem_singleton.mp hkey
    cases heq

end mymuduo.websocket_session
