-- The laws of the output side of a connection: what one call does to the
-- two queues, when the channel asks for write events, in which order the
-- bytes leave, and what the socket has accepted at the half-close.
import Mymuduo.Runs
import Mymuduo.TcpConnection

open List bytes runs

namespace mymuduo.tcp_connection

namespace TcpConnection

/-! ## What one call does -/

/-- The channel asks for write events exactly when something waits to go out. -/
def WriteInterest (c : TcpConnection) : Prop :=
  c.isWriting = true ↔ c.outputBuffer_ ≠ [] ∨ c.pendingFiles_ ≠ []

/-- A send wrote `now` to the socket and put `later` in the backlog. It writes
only when it finds no backlog. -/
structure Took (c c' : TcpConnection) (now later : Bytes) : Prop where
  state_ : c'.state_ = c.state_
  files : c'.pendingFiles_ = c.pendingFiles_
  shutdowns : c'.shutdownWrites = c.shutdownWrites
  accepted : c'.accepted = c.accepted ++ now
  output : c'.outputBuffer_ = c.outputBuffer_ ++ later
  direct : now ≠ [] → c.isWriting = false ∧ c.outputBuffer_ = []
  interest : c.WriteInterest → c'.WriteInterest

theorem took_refl (c : TcpConnection) : Took c c [] [] where
  state_ := rfl
  files := rfl
  shutdowns := rfl
  accepted := by simp
  output := by simp
  direct := by simp
  interest := id

theorem appendOutput_took (c : TcpConnection) (data : Bytes)
    (h : data ≠ [] ∨ c.isWriting = true ∨ c.outputBuffer_ ≠ []) :
    Took c (c.appendOutput data) [] data := by
  refine ⟨rfl, rfl, rfl, (append_nil _).symm, rfl, by simp, ?_⟩
  intro hi
  simp only [WriteInterest, appendOutput, queueHighWaterMark, true_iff, ne_eq,
    append_eq_nil_iff] at hi ⊢
  tauto

theorem writeDirect_took (c : TcpConnection) (data : Bytes) (w : SysResult)
    (hw : c.isWriting = false) (ho : c.outputBuffer_ = []) :
    Took c (c.writeDirect data w).1 (data.take (c.writeDirect data w).2.1) [] := by
  cases w with
  | fail e => simpa [writeDirect] using took_refl c
  | ok n => exact ⟨rfl, rfl, rfl, rfl, (append_nil _).symm, fun _ => ⟨hw, ho⟩, id⟩

theorem writeDirect_fault (c : TcpConnection) (data : Bytes) (w : SysResult)
    (h : ∀ e, w = .fail e → e.faultError = false) : (c.writeDirect data w).2.2 = false := by
  cases w with
  | fail e => exact h e rfl
  | ok n => rfl

variable {c : TcpConnection}

theorem took_trans {a b : TcpConnection} {now later : Bytes} (h1 : Took a b now [])
    (h2 : Took b c [] later) : Took a c now later where
  state_ := h2.state_.trans h1.state_
  files := h2.files.trans h1.files
  shutdowns := h2.shutdowns.trans h1.shutdowns
  accepted := by rw [h2.accepted, h1.accepted]; simp
  output := by rw [h2.output, h1.output]; simp
  direct := h1.direct
  interest := h2.interest ∘ h1.interest

/-- A result that is no `EPIPE` and no `ECONNRESET`. -/
def NoFault (w : SysResult) : Prop := ∀ e, w = .fail e → e.faultError = false

/-- `sendInLoop` splits its data in what it wrote and what waits. Only a fault
loses data. -/
theorem sendInLoop_took (c : TcpConnection) (data : Bytes) (w : SysResult)
    (hs : c.state_ ≠ .kDisconnected) :
    ∃ now later, Took c (c.sendInLoop data w) now later ∧ (NoFault w → now ++ later = data) := by
  unfold sendInLoop
  rw [if_neg hs]
  by_cases hidle : (!c.isWriting && c.outputBuffer_.isEmpty) = true
  · rw [if_pos hidle]
    simp only [Bool.and_eq_true, Bool.not_eq_true', List.isEmpty_iff] at hidle
    have hdirect := writeDirect_took c data w hidle.1 hidle.2
    generalize hd : c.writeDirect data w = d at hdirect ⊢
    obtain ⟨c1, nwrote, fault⟩ := d
    have hfault : NoFault w → fault = false := by
      intro hw
      have := writeDirect_fault c data w hw
      rwa [hd] at this
    dsimp only at hdirect ⊢
    split
    · rename_i hlate
      simp only [Bool.and_eq_true, decide_eq_true_eq] at hlate
      have hne : data.drop nwrote ≠ [] := by
        simp only [ne_eq, drop_eq_nil_iff]; omega
      exact ⟨data.take nwrote, data.drop nwrote,
        took_trans hdirect (appendOutput_took c1 _ (Or.inl hne)), fun _ => take_append_drop ..⟩
    · rename_i hall
      refine ⟨data.take nwrote, [], hdirect, fun hw => ?_⟩
      simp only [hfault hw, Bool.not_false, Bool.true_and, decide_eq_true_eq] at hall
      rw [append_nil, take_of_length_le (by omega)]
  · rw [if_neg hidle]
    have hback : c.isWriting = true ∨ c.outputBuffer_ ≠ [] := by
      simp only [Bool.and_eq_true, Bool.not_eq_true', List.isEmpty_iff] at hidle
      by_cases hw : c.isWriting = true
      · exact Or.inl hw
      · exact Or.inr (fun ho => hidle ⟨by simpa using hw, ho⟩)
    simp only [Bool.not_false, Nat.sub_zero, Bool.true_and, decide_eq_true_eq, drop_zero]
    split
    · exact ⟨[], data, appendOutput_took c data (Or.inr hback), fun _ => rfl⟩
    · have hnil : data = [] := eq_nil_of_length_eq_zero (by omega)
      exact ⟨[], [], took_refl c, fun _ => hnil.symm⟩

theorem unwritten_eq (skip : Nat) (slices : List Bytes) :
    unwritten skip slices = slices.flatten.drop skip := by
  induction slices generalizing skip with
  | nil => simp [unwritten]
  | cons s slices ih =>
    unfold unwritten
    split
    · rename_i h
      rw [ih, flatten_cons, drop_append, drop_eq_nil_of_le h, nil_append]
    · rw [ih, flatten_cons, drop_append, Nat.sub_eq_zero_of_le (by omega : skip ≤ s.length)]

/-- `sendIov` splits its data in what it wrote and what waits, when `writev`
gets every slice. -/
theorem sendIov_took (c : TcpConnection) (slices : List Bytes) (w : SysResult)
    (hs : c.state_ = .kConnected) :
    ∃ now later, Took c (c.sendIov slices w) now later ∧
      (NoFault w → slices.length ≤ kMaxIov → now ++ later = slices.flatten) := by
  unfold sendIov
  by_cases hnone : slices.length = 0
  · rw [if_pos (Or.inl hnone)]
    exact ⟨[], [], took_refl c, fun _ _ => by simp [eq_nil_of_length_eq_zero hnone]⟩
  rw [if_neg (by tauto)]
  by_cases hback : (c.isWriting || !c.outputBuffer_.isEmpty) = true
  · rw [if_pos hback]
    have hor : c.isWriting = true ∨ c.outputBuffer_ ≠ [] := by simpa using hback
    exact ⟨[], slices.flatten, appendOutput_took c _ (Or.inr hor), fun _ _ => rfl⟩
  rw [if_neg hback]
  simp only [Bool.or_eq_true, Bool.not_eq_true', isEmpty_eq_false_iff, not_or,
    Bool.not_eq_true, ne_eq, not_not] at hback
  dsimp only
  generalize hiov : (slices.take kMaxIov).flatten = iov
  have hdirect := writeDirect_took c iov w hback.1 hback.2
  have hfault := writeDirect_fault c iov w
  generalize c.writeDirect iov w = d at hdirect hfault ⊢
  obtain ⟨c1, nwrote, fault⟩ := d
  dsimp only at hdirect hfault ⊢
  have hprefix : iov <+: slices.flatten := by
    rw [← hiov, ← take_append_drop kMaxIov slices, flatten_append, take_append_drop]
    exact prefix_append _ _
  split
  · rename_i hlate
    simp only [Bool.and_eq_true, decide_eq_true_eq] at hlate
    have hlen := hprefix.length_le
    have hne : unwritten nwrote slices ≠ [] := by
      rw [unwritten_eq, ne_eq, drop_eq_nil_iff]; omega
    refine ⟨iov.take nwrote, unwritten nwrote slices, { hdirect with output := ?_, interest := ?_ },
      ?_⟩
    · dsimp only [queueHighWaterMark]
      rw [hdirect.output, append_nil]
    · intro hi
      simp only [WriteInterest, queueHighWaterMark, true_iff, ne_eq, append_eq_nil_iff]
      tauto
    · intro _ _
      rw [unwritten_eq, prefix_iff_eq_take.mp hprefix, take_take,
        Nat.min_eq_left (by omega), take_append_drop]
  · rename_i hall
    refine ⟨iov.take nwrote, [], hdirect, fun hw hcount => ?_⟩
    simp only [hfault hw, Bool.not_false, Bool.true_and, decide_eq_true_eq] at hall
    rw [append_nil, take_of_length_le (by omega), ← hiov, take_of_length_le hcount]

/-! ## What a drain of the file queue does -/

/-- The results of `sendfile` on a file that is not truncated: some bytes, or
`EAGAIN`. -/
def SendsFile : SysResult → Bool
  | .ok n => n > 0
  | .fail e => e = .EAGAIN

/-- No file of the queue is sent in full. -/
def FilesOpen (files : List PendingFile) : Prop := ∀ pf ∈ files, 0 < pf.remaining

theorem drainFiles_stillNeed (files : List PendingFile) (rs : List SysResult) :
    (drainFiles files rs).stillNeed = true ↔ (drainFiles files rs).files ≠ [] := by
  induction files generalizing rs with
  | nil => simp [drainFiles]
  | cons pf files ih =>
    unfold drainFiles
    dsimp only
    generalize (if pf.remaining < kBatch then pf.remaining else kBatch) = toSend
    split
    · split
      · split
        · exact ih rs.tail
        · simp
      · exact ih rs.tail
    · simp
    · simp

/-- `n` bytes of a file, and the file after `sendfile` moved on by `n`. -/
theorem bytes_take_append (pf : PendingFile) (n : Nat) (h : n ≤ pf.remaining) :
    pf.bytes.take n ++
      PendingFile.bytes { pf with offset := pf.offset + n, remaining := pf.remaining - n } =
      pf.bytes := by
  have hsplit : List.range' pf.offset pf.remaining =
      List.range' pf.offset n ++ List.range' (pf.offset + n) (pf.remaining - n) := by
    have := @range'_append pf.offset n (pf.remaining - n) 1
    rw [Nat.one_mul, Nat.add_sub_cancel' h] at this
    exact this.symm
  unfold PendingFile.bytes
  rw [← map_take, ← map_append, hsplit, take_left' length_range']

/-- A drain sends the files from the front, and loses none of their bytes. -/
theorem drainFiles_sends (files : List PendingFile) (rs : List SysResult)
    (hrs : ∀ r ∈ rs, SendsFile r = true) (hopen : FilesOpen files) :
    (drainFiles files rs).sent ++ (drainFiles files rs).files.flatMap PendingFile.bytes =
        files.flatMap PendingFile.bytes ∧
      FilesOpen (drainFiles files rs).files := by
  induction files generalizing rs with
  | nil => simp [drainFiles, FilesOpen]
  | cons pf files ih =>
    have hpf : 0 < pf.remaining := hopen pf (by simp)
    have hrest : FilesOpen files := fun x hx => hopen x (by simp [hx])
    have htail : ∀ r ∈ rs.tail, SendsFile r = true := fun r hr => hrs r (mem_of_mem_tail hr)
    have hhead : SendsFile (rs.headD (.fail .EAGAIN)) = true := by
      cases rs with
      | nil => rfl
      | cons r rs => exact hrs r (by simp)
    obtain ⟨ih1, ih2⟩ := ih rs.tail htail hrest
    unfold drainFiles
    dsimp only
    generalize htoSend : (if pf.remaining < kBatch then pf.remaining else kBatch) = toSend
    have hto : 0 < toSend ∧ toSend ≤ pf.remaining := by
      rw [← htoSend]
      unfold kBatch
      split <;> omega
    split
    · rename_i n hn
      simp only [hn, SendsFile, decide_eq_true_eq] at hhead
      rw [if_pos (by omega)]
      have hbytes := bytes_take_append pf (min n toSend) (by omega)
      split
      · rename_i hdone
        have hnil : PendingFile.bytes { pf with
            offset := pf.offset + min n toSend, remaining := pf.remaining - min n toSend } =
              [] := by
          simp [PendingFile.bytes, hdone]
        rw [hnil, append_nil] at hbytes
        refine ⟨?_, ih2⟩
        rw [flatMap_cons, hbytes, append_assoc, ih1]
      · rename_i hmore
        refine ⟨?_, ?_⟩
        · rw [flatMap_cons, ← append_assoc, hbytes, flatMap_cons]
        · intro x hx
          rcases mem_cons.mp hx with rfl | hx
          · exact Nat.pos_of_ne_zero hmore
          · exact hrest x hx
    · exact ⟨rfl, hopen⟩
    · rename_i e hne he
      simp only [he, SendsFile, decide_eq_true_eq] at hhead
      exact absurd hhead hne

/-- A write event sent `now`. When a connection that is closing has nothing more
to write, the event half-closes the socket at that point. -/
structure Wrote (c c' : TcpConnection) (rs : List SysResult) (now : Bytes) : Prop where
  state_ : c'.state_ = c.state_
  accepted : c'.accepted = c.accepted ++ now
  shutdowns : c'.shutdownWrites = c.shutdownWrites ++
    if c.isWriting = true ∧ c.state_ = .kDisconnecting ∧ c'.isWriting = false then [c'.accepted]
    else []
  files : c.pendingFiles_ = [] → c'.pendingFiles_ = []
  sends : (∀ r ∈ rs, SendsFile r = true) → FilesOpen c.pendingFiles_ →
    now ++ c'.waiting = c.waiting ∧ FilesOpen c'.pendingFiles_

theorem wrote_refl (c : TcpConnection) (rs : List SysResult) : Wrote c c rs [] where
  state_ := rfl
  accepted := by simp
  shutdowns := by simp +contextual
  files := id
  sends _ ho := ⟨rfl, ho⟩

theorem writeOutput_wrote (c : TcpConnection) (rs : List SysResult) (n : Nat) :
    Wrote c (c.writeOutput n) rs (c.outputBuffer_.take n) where
  state_ := rfl
  accepted := rfl
  shutdowns := by cases hw : c.isWriting <;> simp [writeOutput, accept, hw]
  files := id
  sends _ ho := ⟨by simp [waiting, writeOutput, accept, ← List.append_assoc], ho⟩

theorem wrote_trans {a b : TcpConnection} {rs : List SysResult} {now later : Bytes}
    (h1 : Wrote a b rs now) (hw : b.isWriting = a.isWriting)
    (hs : b.shutdownWrites = a.shutdownWrites) (h2 : Wrote b c rs later) :
    Wrote a c rs (now ++ later) where
  state_ := h2.state_.trans h1.state_
  accepted := by rw [h2.accepted, h1.accepted, List.append_assoc]
  shutdowns := by
    have := h2.shutdowns
    rwa [hw, hs, h1.state_] at this
  files := h2.files ∘ h1.files
  sends hrs ho := by
    obtain ⟨h3, h4⟩ := h1.sends hrs ho
    obtain ⟨h5, h6⟩ := h2.sends hrs h4
    exact ⟨by rw [append_assoc, h5, h3], h6⟩

theorem finishWrite_wrote (c : TcpConnection) (rs : List SysResult) (hw : c.isWriting = true)
    (ho : c.outputBuffer_ = []) :
    Wrote c (c.finishWrite rs) rs (drainFiles c.pendingFiles_ rs).sent ∧
      (c.finishWrite rs).WriteInterest := by
  have hneed := drainFiles_stillNeed c.pendingFiles_ rs
  have hsends := drainFiles_sends c.pendingFiles_ rs
  have hfiles : c.pendingFiles_ = [] → (drainFiles c.pendingFiles_ rs).files = [] := by
    intro h
    rw [h]
    rfl
  unfold finishWrite drainPendingFiles
  generalize drainFiles c.pendingFiles_ rs = d at hneed hsends hfiles ⊢
  dsimp only [accept]
  by_cases hstill : d.stillNeed = true
  · rw [if_pos hstill]
    refine ⟨⟨rfl, rfl, by simp [hw], hfiles, fun hrs hopen => ?_⟩, ?_⟩
    · obtain ⟨h1, h2⟩ := hsends hrs hopen
      exact ⟨by simpa [waiting, ho] using h1, h2⟩
    · simp [WriteInterest, hw, hneed.mp hstill]
  · have hnil : d.files = [] := by
      by_contra h
      exact hstill (hneed.mpr h)
    rw [if_neg hstill]
    have hall : (∀ r ∈ rs, SendsFile r = true) → FilesOpen c.pendingFiles_ →
        d.sent = c.pendingFiles_.flatMap PendingFile.bytes := by
      intro hrs hopen
      simpa [hnil] using (hsends hrs hopen).1
    unfold queueWriteComplete shutdownInLoop
    dsimp only
    split <;> rename_i hstate
    all_goals
      refine ⟨⟨rfl, rfl, by simp [hw, hstate], hfiles, fun hrs hopen => ?_⟩, ?_⟩
      · simp [waiting, ho, hnil, hall hrs hopen, FilesOpen]
      · simp [WriteInterest, ho, hnil]

theorem handleWrite_wrote (c : TcpConnection) (w : SysResult) (rs : List SysResult) :
    (∃ now, Wrote c (c.handleWrite w rs) rs now) ∧
      (c.WriteInterest → (c.handleWrite w rs).WriteInterest) := by
  unfold handleWrite
  by_cases hw : c.isWriting = true
  swap
  · rw [if_pos (by simpa using hw)]
    exact ⟨⟨[], wrote_refl c rs⟩, id⟩
  rw [if_neg (by simp [hw])]
  by_cases hbuf : c.outputBuffer_.length > 0
  swap
  · rw [if_neg hbuf]
    have hfinish := finishWrite_wrote c rs hw (eq_nil_of_length_eq_zero (by omega))
    exact ⟨⟨_, hfinish.1⟩, fun _ => hfinish.2⟩
  rw [if_pos hbuf]
  generalize w.taken c.outputBuffer_.length = n
  by_cases hn : n > 0
  swap
  · rw [if_neg hn]
    exact ⟨⟨[], wrote_refl c rs⟩, id⟩
  rw [if_pos hn]
  have hwrote := writeOutput_wrote c rs n
  have hwriting : (c.writeOutput n).isWriting = true := hw
  by_cases hmore : (c.writeOutput n).outputBuffer_.length > 0
  · rw [if_pos hmore]
    refine ⟨⟨_, hwrote⟩, fun _ => ?_⟩
    simp [WriteInterest, hwriting, ne_nil_of_length_pos hmore]
  · rw [if_neg hmore]
    -- the write emptied `outputBuffer_`, so the files follow in the same event
    have hfinish := finishWrite_wrote (c.writeOutput n) rs hwriting
      (eq_nil_of_length_eq_zero (by omega))
    exact ⟨⟨_, wrote_trans hwrote rfl rfl hfinish.1⟩, fun _ => hfinish.2⟩

/-- `sendFile` puts its file behind all that waits, and may start to send. -/
theorem sendFile_adds (c : TcpConnection) (pf : PendingFile) (rs : List SysResult)
    (hs : c.state_ = .kConnected) :
    (c.sendFile pf rs).state_ = c.state_ ∧ (c.sendFile pf rs).shutdownWrites = c.shutdownWrites ∧
      (c.WriteInterest → (c.sendFile pf rs).WriteInterest) ∧
      ((∀ r ∈ rs, SendsFile r = true) → FilesOpen c.pendingFiles_ →
        (c.sendFile pf rs).accepted ++ (c.sendFile pf rs).waiting =
            c.accepted ++ c.waiting ++ pf.bytes ∧
          FilesOpen (c.sendFile pf rs).pendingFiles_) := by
  unfold sendFile
  by_cases hcount : pf.remaining = 0
  · rw [if_pos (Or.inr hcount)]
    have hnil : pf.bytes = [] := by simp [PendingFile.bytes, hcount]
    split
    · exact ⟨rfl, rfl, id, fun _ ho => ⟨by simp [hnil, waiting], ho⟩⟩
    · exact ⟨rfl, rfl, id, fun _ ho => ⟨by simp [hnil], ho⟩⟩
  rw [if_neg (by tauto)]
  have hopen' : FilesOpen c.pendingFiles_ → FilesOpen (c.pendingFiles_ ++ [pf]) := fun ho =>
    forall_mem_append.mpr ⟨ho, forall_mem_singleton.mpr (Nat.pos_of_ne_zero hcount)⟩
  dsimp only
  split
  · refine ⟨rfl, rfl, fun _ => by simp [WriteInterest], fun _ ho => ⟨?_, hopen' ho⟩⟩
    simp [waiting]
  · rename_i hidle
    simp only [Bool.or_eq_true, Bool.not_eq_true', isEmpty_eq_false_iff, not_or,
      Bool.not_eq_true, ne_eq, not_not] at hidle
    have hneed := drainFiles_stillNeed (c.pendingFiles_ ++ [pf]) rs
    have hsends := drainFiles_sends (c.pendingFiles_ ++ [pf]) rs
    unfold drainPendingFiles
    dsimp only [accept]
    generalize drainFiles (c.pendingFiles_ ++ [pf]) rs = d at hneed hsends ⊢
    have hheld : (∀ r ∈ rs, SendsFile r = true) → FilesOpen c.pendingFiles_ →
        c.accepted ++ d.sent ++ (c.outputBuffer_ ++ d.files.flatMap PendingFile.bytes) =
            c.accepted ++ c.waiting ++ pf.bytes ∧ FilesOpen d.files := by
      intro hrs ho
      obtain ⟨h1, h2⟩ := hsends hrs (hopen' ho)
      refine ⟨?_, h2⟩
      rw [hidle.2, nil_append, append_assoc, h1]
      simp [waiting, hidle.2]
    split
    · rename_i hstill
      exact ⟨rfl, rfl, fun _ => by simp [WriteInterest, hneed.mp hstill], hheld⟩
    · rename_i hstill
      have hnil : d.files = [] := by
        by_contra h
        exact hstill (hneed.mpr h)
      exact ⟨rfl, rfl, fun _ => by simp [WriteInterest, queueWriteComplete, hidle, hnil], hheld⟩

/-! ## The write interest -/

/-- The connection is up, or it is closing and still sends. -/
def Live (c : TcpConnection) : Prop := c.state_ = .kConnected ∨ c.state_ = .kDisconnecting

theorem send_up (h : c.state_ = .kConnected) (data : Bytes) (w : SysResult) :
    c.send data w = c.sendInLoop data w := if_pos h

theorem send_down (h : c.state_ ≠ .kConnected) (data : Bytes) (w : SysResult) :
    c.send data w = c := if_neg h

theorem sendIov_down (h : c.state_ ≠ .kConnected) (slices : List Bytes) (w : SysResult) :
    c.sendIov slices w = c := if_pos (Or.inr h)

theorem shutdown_down (h : c.state_ ≠ .kConnected) : c.shutdown = c := if_neg h

theorem handleWrite_idle (h : ¬c.isWriting = true) (w : SysResult) (rs : List SysResult) :
    c.handleWrite w rs = c := if_pos (by simpa using h)

theorem shutdown_up (h : c.state_ = .kConnected) :
    c.shutdown.state_ = .kDisconnecting ∧
      c.shutdown.shutdownWrites = c.shutdownWrites ++ if c.isWriting then [] else [c.accepted] := by
  unfold shutdown shutdownInLoop
  rw [if_pos h]
  split <;> simp

theorem shutdown_fields (c : TcpConnection) :
    c.shutdown.isWriting = c.isWriting ∧ c.shutdown.outputBuffer_ = c.outputBuffer_ ∧
      c.shutdown.pendingFiles_ = c.pendingFiles_ ∧ c.shutdown.accepted = c.accepted := by
  unfold shutdown shutdownInLoop
  split
  · split <;> simp
  · simp

theorem interest_step (c : TcpConnection) (op : Op) (h : c.Live → c.WriteInterest) :
    (c.step op).Live → (c.step op).WriteInterest := by
  cases op with
  | send data w =>
    by_cases hs : c.state_ = .kConnected
    · obtain ⟨now, later, htook, _⟩ := sendInLoop_took c data w (by rw [hs]; simp)
      rw [step, send_up hs]
      exact fun _ => htook.interest (h (Or.inl hs))
    · rw [step, send_down hs]
      exact h
  | sendIov slices w =>
    by_cases hs : c.state_ = .kConnected
    · obtain ⟨now, later, htook, _⟩ := sendIov_took c slices w hs
      exact fun _ => htook.interest (h (Or.inl hs))
    · rw [step, sendIov_down hs]
      exact h
  | sendFile pf rs =>
    by_cases hs : c.state_ = .kConnected
    · exact fun _ => (sendFile_adds c pf rs hs).2.2.1 (h (Or.inl hs))
    · dsimp only [step]
      unfold sendFile
      rw [if_pos (Or.inl hs)]
      split <;> exact h
  | shutdown =>
    obtain ⟨h1, h2, h3, _⟩ := shutdown_fields c
    intro hlive
    have hc : c.Live := by
      by_cases hs : c.state_ = .kConnected
      · exact Or.inl hs
      · rwa [step, shutdown_down hs] at hlive
    simpa only [step, WriteInterest, h1, h2, h3] using h hc
  | handleWrite w rs =>
    obtain ⟨⟨now, hwrote⟩, hinterest⟩ := handleWrite_wrote c w rs
    intro hlive
    apply hinterest
    apply h
    have := hwrote.state_
    simp only [Live, step] at hlive ⊢
    rwa [this] at hlive
  | handleClose =>
    intro hlive
    simp [Live, step, handleClose] at hlive

/-- Between the callbacks of the loop, the channel of a live connection is
registered for writing if and only if a queue is not empty, whatever the calls
and the results of `write`, `writev` and `sendfile`. -/
theorem write_interest_matches_waiting_output (mark : Nat) (onComplete onHighWater : Bool)
    (ops : List Op) (hlive : (run step (established mark onComplete onHighWater) ops).Live) :
    (run step (established mark onComplete onHighWater) ops).isWriting = true ↔
      (run step (established mark onComplete onHighWater) ops).outputBuffer_ ≠ [] ∨
        (run step (established mark onComplete onHighWater) ops).pendingFiles_ ≠ [] := by
  have hinv := invariant_always interest_step (s := established mark onComplete onHighWater)
    (fun _ => by simp [WriteInterest, established]) ops
  exact hinv hlive

/-- A file of three bytes of which `sendfile` takes two. -/
theorem write_interest_matches_waiting_output_two_of_three :
    (run step (established 100 true true)
      [.sendFile ⟨7, fun _ => 65, 0, 3⟩ [.ok 2], .shutdown]).Live ∧
    ((run step (established 100 true true)
      [.sendFile ⟨7, fun _ => 65, 0, 3⟩ [.ok 2], .shutdown]).isWriting = true ↔
      (run step (established 100 true true)
        [.sendFile ⟨7, fun _ => 65, 0, 3⟩ [.ok 2], .shutdown]).outputBuffer_ ≠ [] ∨
      (run step (established 100 true true)
        [.sendFile ⟨7, fun _ => 65, 0, 3⟩ [.ok 2], .shutdown]).pendingFiles_ ≠ []) := by
  refine ⟨?live, write_interest_matches_waiting_output 100 true true _ ?live⟩
  exact Or.inr (by decide)

/-! ## The order of the output -/

/-- All bytes that the connection got: what the socket accepted, and what waits. -/
def held (c : TcpConnection) : Bytes := c.accepted ++ c.waiting

/-- The results in which a call loses nothing by itself: no fault on a write,
files that are not truncated, and no more slices than one `writev` gets. -/
def Clean : Op → Prop
  | .send _ w => NoFault w
  | .sendIov slices w => NoFault w ∧ slices.length ≤ kMaxIov
  | .sendFile _ rs => ∀ r ∈ rs, SendsFile r = true
  | .handleWrite _ rs => ∀ r ∈ rs, SendsFile r = true
  | .shutdown => True
  | .handleClose => True

/-- No bytes go to `send` or `sendIov` while a file waits. -/
def NoSendPastFile (c : TcpConnection) : Op → Prop
  | .send data _ => data = [] ∨ c.pendingFiles_ = []
  | .sendIov slices _ => slices.flatten = [] ∨ c.pendingFiles_ = []
  | _ => True

instance (c : TcpConnection) (op : Op) : Decidable (NoSendPastFile c op) :=
  have (data : Bytes) : Decidable (data = [] ∨ c.pendingFiles_ = []) :=
    decidable_of_iff (data.isEmpty || c.pendingFiles_.isEmpty) (by simp)
  match op with
  | .send data _ => this data
  | .sendIov slices _ => this slices.flatten
  | .sendFile .. => isTrue trivial
  | .shutdown => isTrue trivial
  | .handleWrite .. => isTrue trivial
  | .handleClose => isTrue trivial

theorem took_held {c' : TcpConnection} {now later data : Bytes} (h : Took c c' now later)
    (hdata : now ++ later = data) (hfile : data = [] ∨ c.pendingFiles_ = []) :
    c'.held = c.held ++ data := by
  unfold held waiting
  rw [h.accepted, h.output, h.files]
  rcases hfile with hnil | hnil
  · subst hnil
    obtain ⟨rfl, rfl⟩ := append_eq_nil_iff.mp hdata
    simp
  · subst hdata
    by_cases hnow : now = []
    · simp [hnow, hnil]
    · simp [(h.direct hnow).2, hnil]

theorem held_step (c : TcpConnection) (op : Op) (hclean : Clean op) (hfile : NoSendPastFile c op)
    (hopen : FilesOpen c.pendingFiles_) :
    (c.step op).held = c.held ++ c.payload op ∧ FilesOpen (c.step op).pendingFiles_ := by
  unfold payload
  cases op with
  | send data w =>
    by_cases hs : c.state_ = .kConnected
    · obtain ⟨now, later, htook, hdata⟩ := sendInLoop_took c data w (by rw [hs]; simp)
      rw [step, send_up hs, if_pos hs]
      exact ⟨took_held htook (hdata hclean) hfile, by rwa [htook.files]⟩
    · rw [step, send_down hs, if_neg hs]
      exact ⟨by simp, hopen⟩
  | sendIov slices w =>
    by_cases hs : c.state_ = .kConnected
    · obtain ⟨now, later, htook, hdata⟩ := sendIov_took c slices w hs
      rw [if_pos hs]
      exact ⟨took_held htook (hdata hclean.1 hclean.2) hfile, by rwa [step, htook.files]⟩
    · rw [step, sendIov_down hs, if_neg hs]
      exact ⟨by simp, hopen⟩
  | sendFile pf rs =>
    by_cases hs : c.state_ = .kConnected
    · rw [if_pos hs]
      exact (sendFile_adds c pf rs hs).2.2.2 hclean hopen
    · dsimp only [step]
      unfold sendFile
      rw [if_pos (Or.inl hs), if_neg hs]
      split
      · exact ⟨by simp [held, waiting], hopen⟩
      · exact ⟨by simp, hopen⟩
  | shutdown =>
    obtain ⟨_, h2, h3, h4⟩ := shutdown_fields c
    simp only [step, held, waiting, h2, h3, h4, ite_self, append_nil, true_and]
    exact hopen
  | handleWrite w rs =>
    obtain ⟨⟨now, hwrote⟩, _⟩ := handleWrite_wrote c w rs
    obtain ⟨h1, h2⟩ := hwrote.sends hclean hopen
    refine ⟨?_, h2⟩
    simp only [step, held, ite_self, append_nil]
    rw [hwrote.accepted, append_assoc, h1]
  | handleClose => exact ⟨by simp [step, handleClose, held, waiting], hopen⟩

/-- The output keeps the order of the calls in every run in which no bytes go to
`send` or `sendIov` while a file waits in `pendingFiles_`: what the socket
accepted and what waits are together the payloads of the calls, in order. -/
theorem output_keeps_call_order_when_no_send_passes_a_file (mark : Nat)
    (onComplete onHighWater : Bool) (ops : List Op) (hclean : ∀ op ∈ ops, Clean op)
    (hfile : Meets step NoSendPastFile (established mark onComplete onHighWater) ops) :
    (run step (established mark onComplete onHighWater) ops).accepted <+:
        collect step payload (established mark onComplete onHighWater) ops ∧
      (run step (established mark onComplete onHighWater) ops).held =
        collect step payload (established mark onComplete onHighWater) ops := by
  have hok := meets_and step hfile
    (meets_of_forall step (fun _ op => Clean op) (fun op hop _ => hclean op hop) _)
  have hheld := conserved_run held payload (fun c op h ho => (held_step c op h.2 h.1 ho).2)
    (fun c op h ho => (held_step c op h.2 h.1 ho).1) hok (by simp [FilesOpen, established])
  have hstart : (established mark onComplete onHighWater).held = [] := rfl
  rw [hstart, nil_append] at hheld
  refine ⟨?_, hheld⟩
  rw [← hheld]
  exact prefix_append _ _

/-- A file goes out behind a backlog, and a send comes after the file. -/
theorem output_keeps_call_order_backlog_then_file :
    let ops : List Op := [.send [1, 2] (.ok 1), .sendFile ⟨7, fun _ => 65, 0, 2⟩ [],
      .handleWrite (.ok 1) [.ok 2], .send [3] (.fail .EAGAIN)]
    (run step (established 100 true true) ops).accepted <+:
        collect step payload (established 100 true true) ops ∧
      (run step (established 100 true true) ops).held =
        collect step payload (established 100 true true) ops :=
  output_keeps_call_order_when_no_send_passes_a_file 100 true true _
    (by simp [Clean, NoFault, SendsFile, Errno.faultError]) (by decide)

/-- A send overtakes a file: `sendfile` took one byte of two when `send` came, and
`handleWrite` then sends `outputBuffer_` before the rest of the file. -/
theorem a_send_overtakes_a_waiting_file :
    let ops : List Op := [.sendFile ⟨7, fun _ => 65, 0, 2⟩ [.ok 1], .send [66] (.ok 1),
      .handleWrite (.ok 1) [.ok 1]]
    (∀ op ∈ ops, Clean op) ∧
      (run step (established 100 true true) ops).accepted = [65, 66, 65] ∧
      collect step payload (established 100 true true) ops = [65, 65, 66] ∧
      ¬ (run step (established 100 true true) ops).accepted <+:
        collect step payload (established 100 true true) ops := by
  refine ⟨by simp [Clean, NoFault, SendsFile], by decide, by decide, by decide⟩

/-! ## The half-close -/

/-- The calls of a graceful shutdown: sends with no fault, the shutdown, and
write events with any result. -/
def Graceful : Op → Prop
  | .send _ w => NoFault w
  | .shutdown => True
  | .handleWrite .. => True
  | _ => False

/-- The half-close waits for the write interest: while the connection is up or
writes, there is none. After that there is one, with all the bytes accepted. -/
structure ClosesOnce (c : TcpConnection) : Prop where
  no_files : c.pendingFiles_ = []
  live : c.Live
  interest : c.WriteInterest
  before : c.state_ = .kConnected ∨ c.isWriting = true → c.shutdownWrites = []
  after : c.state_ = .kDisconnecting → c.isWriting = false → c.shutdownWrites = [c.accepted]

theorem closesOnce_send (h : ClosesOnce c) (data : Bytes) (w : SysResult) :
    ClosesOnce (c.send data w) := by
  by_cases hs : c.state_ = .kConnected
  · obtain ⟨now, later, htook, _⟩ := sendInLoop_took c data w (by rw [hs]; simp)
    have hs' := htook.state_.trans hs
    rw [send_up hs]
    refine ⟨htook.files.trans h.no_files, Or.inl hs', htook.interest h.interest, ?_, ?_⟩
    · intro _
      rw [htook.shutdowns]
      exact h.before (Or.inl hs)
    · intro hd
      rw [hs'] at hd
      cases hd
  · rw [send_down hs]
    exact h

theorem closesOnce_shutdown (h : ClosesOnce c) : ClosesOnce c.shutdown := by
  by_cases hs : c.state_ = .kConnected
  · obtain ⟨h1, h2, h3, h4⟩ := shutdown_fields c
    obtain ⟨hd, hsw⟩ := shutdown_up hs
    rw [h.before (Or.inl hs), nil_append] at hsw
    refine ⟨h3.trans h.no_files, Or.inr hd, ?_, ?_, ?_⟩
    · simpa only [WriteInterest, h1, h2, h3] using h.interest
    · rintro (hc | hw)
      · rw [hd] at hc
        cases hc
      · rw [h1] at hw
        rw [hsw, if_pos hw]
    · intro _ hw
      rw [h1] at hw
      rw [hsw, h4, hw]
      rfl
  · rw [shutdown_down hs]
    exact h

theorem closesOnce_handleWrite (h : ClosesOnce c) (w : SysResult) (rs : List SysResult) :
    ClosesOnce (c.handleWrite w rs) := by
  by_cases hw : c.isWriting = true
  · obtain ⟨⟨now, hwrote⟩, hinterest⟩ := handleWrite_wrote c w rs
    have hsw := hwrote.shutdowns
    rw [h.before (Or.inr hw), nil_append] at hsw
    refine ⟨hwrote.files h.no_files, ?_, hinterest h.interest, ?_, ?_⟩
    · rw [Live, hwrote.state_]
      exact h.live
    · -- up, or still writing: this event did not end the writing of a closing connection
      intro hc
      rw [hwrote.state_] at hc
      rw [hsw, if_neg]
      rintro ⟨_, hd, hw'⟩
      rcases hc with hc | hc
      · rw [hc] at hd
        cases hd
      · rw [hw'] at hc
        cases hc
    · intro hd hw'
      rw [hwrote.state_] at hd
      rw [hsw, if_pos ⟨hw, hd, hw'⟩]
  · rw [handleWrite_idle hw]
    exact h

theorem closesOnce_step (c : TcpConnection) (op : Op) (hop : Graceful op) (h : ClosesOnce c) :
    ClosesOnce (c.step op) := by
  cases op with
  | send data w => exact closesOnce_send h data w
  | shutdown => exact closesOnce_shutdown h
  | handleWrite w rs => exact closesOnce_handleWrite h w rs
  | sendIov slices w | sendFile pf rs | handleClose => cases hop

theorem handleWrite_no_files (c : TcpConnection) (w : SysResult) (rs : List SysResult)
    (h : c.pendingFiles_ = []) : c.handleWrite w rs = c.handleWrite w [] := by
  simp [handleWrite, finishWrite, drainPendingFiles, writeOutput, accept, h, drainFiles]

theorem graceful_held (c : TcpConnection) (op : Op) (hop : Graceful op) (h : c.pendingFiles_ = []) :
    (c.step op).held = c.held ++ c.payload op := by
  have hopen : FilesOpen c.pendingFiles_ := by simp [FilesOpen, h]
  cases op with
  | send data w => exact (held_step c (.send data w) hop (Or.inr h) hopen).1
  | shutdown => exact (held_step c .shutdown trivial trivial hopen).1
  | handleWrite w rs =>
    have hheld := (held_step c (.handleWrite w []) (by simp [Clean]) trivial hopen).1
    rw [step, handleWrite_no_files c w rs h]
    exact hheld
  | sendIov slices w | sendFile pf rs | handleClose => cases hop

/-- A graceful shutdown truncates nothing: `shutdownWrite` runs at most once, and
the socket has then accepted all that `send` got while the connection was up. -/
theorem shutdown_never_truncates (mark : Nat) (onComplete onHighWater : Bool) (ops : List Op)
    (hops : ∀ op ∈ ops, Graceful op) :
    (run step (established mark onComplete onHighWater) ops).shutdownWrites.length ≤ 1 ∧
      ∀ accepted ∈ (run step (established mark onComplete onHighWater) ops).shutdownWrites,
        accepted = collect step payload (established mark onComplete onHighWater) ops := by
  have hok := meets_of_forall step (fun _ op => Graceful op) (fun op hop _ => hops op hop)
    (established mark onComplete onHighWater)
  have hstart : ClosesOnce (established mark onComplete onHighWater) :=
    ⟨rfl, Or.inl rfl, by simp [WriteInterest, established], fun _ => rfl, by simp [established]⟩
  have hinv := invariant_run closesOnce_step hok hstart
  have hheld := conserved_run held payload closesOnce_step
    (fun c op hop h => graceful_held c op hop h.no_files) hok hstart
  have hnil : (established mark onComplete onHighWater).held = [] := rfl
  rw [hnil, nil_append] at hheld
  generalize run step (established mark onComplete onHighWater) ops = c at hinv hheld ⊢
  rw [← hheld]
  by_cases hw : c.isWriting = true
  · simp [hinv.before (Or.inr hw)]
  rcases hinv.live with hs | hs
  · simp [hinv.before (Or.inl hs)]
  · have hout : c.outputBuffer_ = [] := by
      by_contra hne
      exact hw (hinv.interest.mpr (Or.inl hne))
    rw [hinv.after hs (by simpa using hw)]
    simp [held, waiting, hout, hinv.no_files]

/-- A partial write, the shutdown, and the event that writes the rest. -/
theorem shutdown_never_truncates_partial_write :
    let ops : List Op :=
      [.send [1, 2, 3] (.ok 1), .shutdown, .handleWrite (.ok 2) [], .send [4] (.ok 1)]
    (run step (established 100 true true) ops).shutdownWrites = [[1, 2, 3]] ∧
      (run step (established 100 true true) ops).shutdownWrites.length ≤ 1 ∧
      ∀ accepted ∈ (run step (established 100 true true) ops).shutdownWrites,
        accepted = collect step payload (established 100 true true) ops :=
  ⟨by decide, shutdown_never_truncates 100 true true _ (by simp [Graceful, NoFault])⟩

end TcpConnection

end mymuduo.tcp_connection
