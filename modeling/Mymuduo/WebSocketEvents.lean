-- What one event does to a session of `WebSocketServer`: a delivery, a call or the TCP
-- disconnect. The laws over whole lives are read off this. With handlers that only send,
-- the deliveries do what they do in the model whose handlers cannot close.
import Mymuduo.WebSocketSession

open bytes runs words

namespace mymuduo.websocket_session

open websocket_frame websocket_server

/-! ## What an event does -/

def Answer.isRefusal : Answer → Bool
  | .switching _ => false
  | _ => true

variable {frames : List WebSocketFrame}

section Events

variable {σ : Type*} (srv : WebSocketServer σ)

/-- The frames that an event brings to the handlers. -/
def completes (l : Life σ) : Event → List WebSocketFrame
  | .deliver piece =>
    if l.crashed = false ∧ l.registered = true ∧ l.session.state_ = .Open then
      handled srv (l.buf ++ piece)
    else []
  | _ => []

/-- The event brings the end of an upgrade request that the server admits. -/
def opens (l : Life σ) : Event → Bool
  | .deliver piece =>
    if l.crashed = false ∧ l.registered = true ∧ l.session.state_ = .Connecting then
      match find blankLine (l.buf ++ piece) with
      | none => false
      | some headerEnd => admits srv.toServer (l.buf ++ piece) headerEnd
    else false
  | _ => false

/-- The event is the TCP disconnect of a session that the server still holds. -/
def ends (l : Life σ) : Event → Bool
  | .down => !l.crashed && l.registered
  | _ => false

/-- What one event can do, by the frames that it brings, whether it opens the session
and whether it ends it. -/
inductive Does (l l' : Life σ) : List WebSocketFrame → Bool → Bool → Prop
  | nothing (hmoves : Moves l l') (hlog : l'.log = l.log) : Does l l' [] false false
  | refused (hs : l.session.state_ = .Connecting) (hmoves : Moves l l')
      (hdead : l'.session.connected = false) (a : Answer) (ha : a.isRefusal = true)
      (hlog : l'.log = l.log ++ if l.session.connected then [.answered a] else []) :
      Does l l' [] false false
  | opened (hs : l.session.state_ = .Connecting) (hs' : l'.session.state_ ≠ .Connecting)
      (hregistered : l'.registered = l.registered)
      (hconnected : l'.session.connected = true → l.session.connected = true)
      (hordered : l.Ordered → l'.Ordered) (key : Bytes)
      (hlog : l'.log = l.log ++
        ((if l.session.connected then [.answered (.switching key)] else []) ++ [.connection])) :
      Does l l' [] true false
  | handled (hs : l.session.state_ = .Open) (hregistered : l.registered = true)
      (hmoves : Moves l l') (frames : List WebSocketFrame)
      (hclose : ∀ frame ∈ frames, frame.opcode = .Close → 2 ≤ rank l'.session.state_)
      (errors : List Bytes)
      (hlog : l'.log = l.log ++ (frames.filterMap noticeOf ++ errors.map .error)) :
      Does l l' frames false false
  | ended (hregistered : l.registered = true) (hregistered' : l'.registered = false)
      (hs' : l'.session.state_ = .Closed) (hdead : l'.session.connected = false)
      (hordered : l.Ordered → l'.Ordered) (hopens : .Open ∈ l'.states → .Open ∈ l.states)
      (hlog : l'.log = l.log ++
        ((if l.session.state_ = .Closed then [] else [.closed]) ++ [.down])) :
      Does l l' [] false true

theorem Does.of_same {l k l' : Life σ} {opened ended : Bool}
    (h : Does k l' frames opened ended) (hsession : k.session = l.session)
    (hstates : k.states = l.states) (hregistered : k.registered = l.registered)
    (hlog : k.log = l.log) : Does l l' frames opened ended := by
  have hmoved : ∀ m : Life σ, Moves k m → Moves l m :=
    fun m hm => hm.of_same hsession hstates hregistered
  have hkept : l.Ordered → k.Ordered := (moves_of_eq hsession hstates hregistered).ordered
  cases h with
  | nothing hm hl => exact .nothing (hmoved _ hm) (hl.trans hlog)
  | refused hs hm hdead a ha hl =>
    rw [hsession] at hs hl
    rw [hlog] at hl
    exact .refused hs (hmoved _ hm) hdead a ha hl
  | opened hs hs' hr hc ho key hl =>
    rw [hsession] at hs hc hl
    rw [hlog] at hl
    exact .opened hs hs' (hr.trans hregistered) hc (ho ∘ hkept) key hl
  | handled hs hr hm frames hclose errors hl =>
    rw [hsession] at hs
    rw [hlog] at hl
    rw [hregistered] at hr
    exact .handled hs hr (hmoved _ hm) frames hclose errors hl
  | ended hr hr' hs' hdead ho hopens hl =>
    rw [hsession, hlog] at hl
    rw [hregistered] at hr
    rw [hstates] at hopens
    exact .ended hr hr' hs' hdead (ho ∘ hkept) hopens hl

variable (l : Life σ)

theorem refuse_moves (a : Answer) :
    Moves l (l.refuse a) ∧ (l.refuse a).session.connected = false ∧
      (l.refuse a).log = l.log ++ if l.session.connected then [.answered a] else [] := by
  obtain ⟨h1, -, h3⟩ := answer_moves l a
  exact ⟨h1.trans (moves_shutdown _), rfl, h3⟩

theorem openSession_does {l : Life σ} (hs : l.session.state_ = .Connecting) (u : Upgrade) :
    Does l (openSession srv l u) [] true false := by
  let a : Answer := .switching (computeAcceptKey srv.sha1 u.key)
  let k : Life σ := (l.answer a).apply (openState u.path)
  obtain ⟨h1, h2, h3⟩ := answer_moves l a
  have hlt : rank (l.answer a).session.state_ < rank .Open := by
    rw [h2, hs]
    decide
  obtain ⟨m1, -, m3⟩ := notify_moves k .connection (srv.connectionHandler k.app k.session)
  refine .opened hs ?_ (m1.registered.trans h1.registered) ?_ ?_ (computeAcceptKey srv.sha1 u.key)
    ?_
  · intro hback
    have hforward : 1 ≤ rank (openSession srv l u).session.state_ := m1.forward
    rw [hback] at hforward
    exact absurd hforward (by decide)
  · exact fun h => h1.connected (m1.connected h)
  · exact fun h => m1.ordered (ordered_apply hlt (h1.ordered h))
  · refine m3.trans ?_
    change (l.answer a).log ++ _ = _
    rw [h3, List.append_assoc]

theorem handleHandshake_does {l : Life σ} (hs : l.session.state_ = .Connecting) :
    Does l (handleHandshake srv l) []
      (match find blankLine l.buf with
      | none => false
      | some headerEnd => admits srv.toServer l.buf headerEnd) false := by
  unfold handleHandshake
  cases find blankLine l.buf with
  | none => exact .nothing (moves_of_eq rfl rfl rfl) rfl
  | some headerEnd =>
    have hrefuse : ∀ a : Answer, a.isRefusal = true →
        Does l (Life.refuse { l with buf := l.buf.drop (headerEnd + 4) } a) [] false false := by
      intro a ha
      obtain ⟨h1, h2, h3⟩ := refuse_moves { l with buf := l.buf.drop (headerEnd + 4) } a
      exact .refused hs (h1.of_same rfl rfl rfl) h2 a ha h3
    dsimp only [admits]
    cases parseUpgrade l.buf headerEnd with
    | error msg => exact hrefuse (.badRequest msg) rfl
    | ok u =>
      dsimp only
      cases hv : validates srv.toServer u with
      | true =>
        have hopened :=
          openSession_does srv (l := { l with buf := l.buf.drop (headerEnd + 4) }) hs u
        exact hopened.of_same rfl rfl rfl rfl
      | false => exact hrefuse .forbidden rfl

theorem deliver_does (piece : Bytes) :
    Does l (step srv l (.deliver piece)) (completes srv l (.deliver piece))
      (opens srv l (.deliver piece)) false := by
  let k : Life σ := { l with buf := l.buf ++ piece }
  -- a delivery that is neither for a handshake nor for the loop
  have hcalm : ∀ l' : Life σ, Moves l l' → l'.log = l.log →
      (l.crashed = true ∨ l.registered = false ∨
        l.session.state_ ≠ .Connecting ∧ l.session.state_ ≠ .Open) →
      Does l l' (completes srv l (.deliver piece)) (opens srv l (.deliver piece)) false := by
    intro l' hmoves hlog hwhy
    have hopen : ¬(l.crashed = false ∧ l.registered = true ∧ l.session.state_ = .Open) := by
      rintro ⟨h1, h2, h3⟩
      simp [h1, h2, h3] at hwhy
    have hconnecting : ¬(l.crashed = false ∧ l.registered = true ∧
        l.session.state_ = .Connecting) := by
      rintro ⟨h1, h2, h3⟩
      simp [h1, h2, h3] at hwhy
    have hframes : completes srv l (.deliver piece) = [] := if_neg hopen
    have hopens : opens srv l (.deliver piece) = false := if_neg hconnecting
    rw [hframes, hopens]
    exact .nothing hmoves hlog
  unfold step
  split
  · rename_i hcrashed
    exact hcalm l (moves_of_eq rfl rfl rfl) rfl (Or.inl hcrashed)
  · rename_i hlives
    rw [Bool.not_eq_true] at hlives
    dsimp only
    unfold onMessage
    split
    · rename_i hgone
      exact hcalm _ ((moves_shutdown k).of_same rfl rfl rfl) rfl (Or.inr (Or.inl hgone))
    · rename_i hthere
      have hregistered : l.registered = true := by simpa using hthere
      cases hs : l.session.state_ with
      | Connecting =>
        have hframes : completes srv l (.deliver piece) = [] := if_neg (by simp [hs])
        have hopens : opens srv l (.deliver piece) = _ := if_pos ⟨hlives, hregistered, hs⟩
        rw [hframes, hopens]
        exact (handleHandshake_does srv (l := k) hs).of_same rfl rfl rfl rfl
      | Open =>
        have hframes : completes srv l (.deliver piece) = handled srv k.buf :=
          if_pos ⟨hlives, hregistered, hs⟩
        have hopens : opens srv l (.deliver piece) = false := if_neg (by simp [hs])
        obtain ⟨h1, h2, errors, h3⟩ := loop_moves srv k.buf.length k (le_refl _)
        rw [hframes, hopens]
        exact .handled hs hregistered (h1.of_same rfl rfl rfl) _ h2 errors h3
      | Closing | Closed =>
        exact hcalm k (moves_of_eq rfl rfl rfl) rfl (Or.inr (Or.inr (by rw [hs]; decide)))

theorem handleClose_moves :
    Moves l (handleClose srv l) ∧ (handleClose srv l).session.state_ = .Closed ∧
      (handleClose srv l).log = l.log ++ if l.session.state_ = .Closed then [] else [.closed] := by
  unfold handleClose
  split
  · rename_i hclosed
    exact ⟨moves_of_eq rfl rfl rfl, hclosed, (List.append_nil _).symm⟩
  · rename_i hnot
    let k : Life σ := l.apply (fun c => c.setState .Closed)
    have hmoves : Moves l k :=
      moves_apply (Or.inr ⟨(rank_lt_closed_iff _).mpr hnot, two_le_rank_closed⟩) id
    obtain ⟨m1, -, m3⟩ := notify_moves k .closed (srv.closeHandler k.app k.session)
    refine ⟨hmoves.trans m1, ?_, m3⟩
    have hforward : rank .Closed ≤ rank (k.notify .closed _).session.state_ := m1.forward
    exact not_not.mp (mt (rank_lt_closed_iff _).mpr (not_lt.mpr hforward))

theorem onDisconnected_does {l : Life σ} (hlives : l.crashed = false) :
    Does l (onDisconnected srv l) [] false (ends l .down) := by
  have hends : ends l .down = l.registered := by
    dsimp only [ends]
    rw [hlives]
    rfl
  have hshut := moves_shutdown l
  rw [hends]
  unfold onDisconnected
  dsimp only
  split
  · rename_i hregistered
    let k : Life σ := { l.apply Conn.shutdown with registered := false }
    obtain ⟨h1, h2, h3⟩ := handleClose_moves srv k
    have hordered : l.Ordered → k.Ordered := fun h => ⟨(hshut.ordered h).1, (hshut.ordered h).2,
      (hshut.ordered h).3⟩
    have hdead : (handleClose srv k).session.connected = false := by
      rw [← Bool.not_eq_true]
      intro h
      exact nomatch h1.connected h
    have htrue : l.registered = true := hregistered
    rw [htrue]
    refine .ended hregistered h1.registered h2 hdead (fun h => ?_) (hshut.opens ∘ h1.opens) ?_
    · have h' := h1.ordered (hordered h)
      exact ⟨h'.1, h'.2, h'.3⟩
    · change (handleClose srv k).log ++ [.down] = _
      rw [h3, List.append_assoc]
      rfl
  · rename_i hgone
    have hfalse : l.registered = false := by
      rw [← Bool.not_eq_true]
      exact hgone
    rw [hfalse]
    exact .nothing hshut rfl

theorem step_does (event : Event) :
    Does l (step srv l event) (completes srv l event) (opens srv l event) (ends l event) := by
  cases event with
  | deliver piece => exact deliver_does srv l piece
  | act action =>
    unfold step
    split
    · exact .nothing (moves_of_eq rfl rfl rfl) rfl
    · exact .nothing (moves_act l action) (log_act l action)
  | down =>
    unfold step
    split
    · rename_i hcrashed
      have hends : ends l .down = false := by
        dsimp only [ends]
        rw [hcrashed]
        rfl
      rw [hends]
      exact .nothing (moves_of_eq rfl rfl rfl) rfl
    · rename_i hlives
      exact onDisconnected_does srv (by simpa using hlives)

theorem Does.exists_new {l l' : Life σ} {opened ended : Bool}
    (h : Does l l' frames opened ended) : ∃ new, l'.log = l.log ++ new := by
  cases h with
  | nothing _ hlog => exact ⟨[], hlog.trans (List.append_nil _).symm⟩
  | refused _ _ _ _ _ hlog | opened _ _ _ _ _ _ hlog | handled _ _ _ _ _ _ hlog
  | ended _ _ _ _ _ _ hlog => exact ⟨_, hlog⟩

end Events

/-- A whole upgrade request that the server admits opens a session that has read
everything before it. -/
theorem step_request {σ : Type*} (srv : WebSocketServer σ) {l : Life σ} (hlives : l.crashed = false)
    (hregistered : l.registered = true) (hs : l.session.state_ = .Connecting) (hbuf : l.buf = [])
    {request : Bytes} {u : Upgrade} (h : UpgradeRequest request u)
    (hv : validates srv.toServer u = true) :
    step srv l (.deliver request) = openSession srv l u := by
  have hdata : ({ l with buf := l.buf ++ request } : Life σ) = { l with buf := request } := by
    rw [hbuf]
    rfl
  have hrest : request.drop (request.length - 4 + 4) = [] :=
    List.drop_eq_nil_of_le (by omega)
  have hsame : ({ l with buf := [] } : Life σ) = l := by
    rw [← hbuf]
  have honMessage : onMessage srv { l with buf := request } =
      handleHandshake srv { l with buf := request } := by
    unfold onMessage
    rw [if_neg (by simp [hregistered])]
    rw [hs]
  unfold step
  rw [if_neg (by simp [hlives])]
  dsimp only
  rw [hdata, honMessage]
  unfold handleHandshake
  rw [h.ends]
  dsimp only
  rw [h.valid]
  dsimp only
  rw [if_pos hv, hrest, hsame]

/-! ## The session below -/

section Below

variable {σ : Type*}

/-- The handlers send, and do not close. -/
structure WebSocketServer.OnlyReplies (srv : WebSocketServer σ) : Prop where
  connection : ∀ app session, ∀ action ∈ (srv.connectionHandler app session).2,
    ∃ r, action = .reply r
  message : ∀ app session msg, ∀ action ∈ (srv.messageHandler app session msg).2,
    ∃ r, action = .reply r
  error : ∀ app session error, srv.errorHandler app session error = (app, [])

theorem toConn_notify {out : σ × List Action} (h : ∀ action ∈ out.2, ∃ r, action = .reply r)
    (l : Life σ) (notice : Notice) :
    (l.notify notice out).toConn =
      (out.2.filterMap Action.reply?).foldl Conn.reply { l.toConn with app := out.1 } := by
  have hacts :
      ∀ (actions : List Action) (k : Life σ), (∀ action ∈ actions, ∃ r, action = .reply r) →
      (actions.foldl Life.act k).toConn =
        (actions.filterMap Action.reply?).foldl Conn.reply k.toConn := by
    intro actions
    induction actions with
    | nil => exact fun _ _ => rfl
    | cons action actions ih =>
      intro k hk
      obtain ⟨r, rfl⟩ := hk action List.mem_cons_self
      exact ih (k.act (.reply r)) (fun a ha => hk a (List.mem_cons_of_mem _ ha))
  exact hacts out.2 _ h

theorem toConn_answer (l : Life σ) (a : Answer) :
    (l.answer a).toConn = l.toConn.send (.http a.bytes) := by
  unfold Life.answer
  split <;> rfl

variable {srv : WebSocketServer σ} (h : srv.OnlyReplies)

include h

theorem toConn_handleError (l : Life σ) (error : Bytes) :
    (handleError srv l error).toConn = l.toConn.handleError error := by
  unfold handleError
  rw [h.error]
  rfl

theorem toConn_openSession (l : Life σ) (u : Upgrade) :
    (openSession srv l u).toConn = websocket_server.openSession srv.toServer l.toConn u := by
  have hopen : ((l.answer (.switching (computeAcceptKey srv.sha1 u.key))).apply
      (openState u.path)).toConn = switchProtocols srv.toServer l.toConn u := by
    change openState u.path (l.answer _).toConn = _
    rw [toConn_answer]
    rfl
  unfold openSession websocket_server.openSession
  rw [toConn_notify (h.connection _ _), hopen]
  rfl

theorem toConn_handleHandshake (l : Life σ) :
    (handleHandshake srv l).toConn = websocket_server.handleHandshake srv.toServer l.toConn := by
  have hrefuse : ∀ (k : Life σ) a, (k.refuse a).toConn = (k.toConn.send (.http a.bytes)).shutdown :=
    fun k a => congrArg Conn.shutdown (toConn_answer k a)
  unfold handleHandshake websocket_server.handleHandshake
  cases find blankLine l.buf with
  | none => rfl
  | some headerEnd =>
    dsimp only
    cases parseUpgrade l.buf headerEnd with
    | error msg => exact hrefuse _ _
    | ok u =>
      dsimp only
      split
      · exact toConn_openSession h _ u
      · exact hrefuse _ _

theorem toConn_handleFrame (l : Life σ) (frame : WebSocketFrame) :
    (handleFrame srv l frame).toConn =
      websocket_server.handleFrame srv.toServer l.toConn frame := by
  unfold handleFrame websocket_server.handleFrame
  split
  · exact toConn_notify (h.message _ _ _) _ _
  · split
    · rfl
    · split <;> rfl

theorem toConn_loop (fuel : Nat) (l : Life σ) :
    (handleWsFramesLoop srv fuel l).toConn =
      websocket_server.handleWsFramesLoop srv.toServer fuel l.toConn := by
  induction fuel generalizing l with
  | zero => rfl
  | succ fuel ih =>
    unfold handleWsFramesLoop websocket_server.handleWsFramesLoop
    split
    · rfl
    · cases decode l.buf with
      | error fault => rfl
      | ok result =>
        cases result with
        | incomplete => rfl
        | error => exact congrArg Conn.forceClose (toConn_handleError h l _)
        | ok frame consumed =>
          dsimp only
          split
          · exact congrArg (fun c => Conn.close c 1009 (text "Message too large"))
              (toConn_handleError h _ _)
          · rw [ih, toConn_handleFrame h]

/-- With handlers that only send, the deliveries do to the connection what they do in
the model without closing handlers. -/
theorem toConn_deliver {l : Life σ} (hl : l.registered = true) (piece : Bytes) :
    (step srv l (.deliver piece)).toConn =
      websocket_server.deliver srv.toServer l.toConn piece := by
  unfold step websocket_server.deliver
  split
  · rfl
  · have hreg : ¬({ l with buf := l.buf ++ piece } : Life σ).registered = false := by
      simpa using hl
    dsimp only
    unfold onMessage websocket_server.onMessage
    rw [if_neg hreg]
    cases hs : l.session.state_ with
    | Connecting => exact toConn_handleHandshake h _
    | Open => exact toConn_loop h _ _
    | Closing | Closed => rfl

omit h in
theorem Does.registered_eq {l l' : Life σ} {opened : Bool}
    (hd : Does l l' frames opened false) : l'.registered = l.registered := by
  cases hd with
  | nothing hmoves _ | refused _ hmoves _ _ _ _ | handled _ _ hmoves _ _ _ _ =>
    exact hmoves.registered
  | opened _ _ hregistered _ _ _ _ => exact hregistered

theorem toConn_run {l : Life σ} (hl : l.registered = true) (pieces : List Bytes) :
    (run (step srv) l (pieces.map .deliver)).toConn =
      run (websocket_server.deliver srv.toServer) l.toConn pieces := by
  induction pieces generalizing l with
  | nil => rfl
  | cons piece pieces ih =>
    rw [List.map_cons, run_cons, run_cons, ih ((deliver_does srv l piece).registered_eq.trans hl),
      toConn_deliver h hl]

end Below

end mymuduo.websocket_session
