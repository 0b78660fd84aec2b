-- `sendIov` against `sendInLoop` of the same bytes (src/net/TcpConnection.cc). Both make
-- one write attempt where nothing waits, and both leave the rest in the backlog. They
-- differ in the states that they refuse, in the slices behind the sixteenth, and in a
-- mark of 0.
import Mymuduo.TcpOutput

open List bytes

namespace mymuduo.tcp_connection

namespace TcpConnection

/-- What a send leaves: the bytes on the socket, the backlog, the write interest and the
queued callbacks. -/
structure Alike (a b : TcpConnection) : Prop where
  accepted : a.accepted = b.accepted
  outputBuffer_ : a.outputBuffer_ = b.outputBuffer_
  isWriting : a.isWriting = b.isWriting
  queued : a.queued = b.queued

theorem alike_refl (c : TcpConnection) : Alike c c := ⟨rfl, rfl, rfl, rfl⟩

/-- Nothing waits, so a send makes its write attempt. -/
def Idle (c : TcpConnection) : Prop := c.isWriting = false ∧ c.outputBuffer_ = []

instance (c : TcpConnection) : Decidable c.Idle := inferInstanceAs (Decidable (_ ∧ _))

def iovBytes (slices : List Bytes) : Bytes := (slices.take kMaxIov).flatten

/-- When `sendIov` does what `sendInLoop` does with the same bytes. In a state that only
`sendInLoop` accepts, it has to do nothing. -/
def SendsAlike (c : TcpConnection) (slices : List Bytes) (w : SysResult) : Prop :=
  match c.state_ with
  | .kDisconnected => True
  | .kConnected =>
    if c.Idle then
      -- a fault drops the data; else a mark of 0 is passed by every rest, and the slices
      -- that `writev` did not get are kept only with a rest of those that it got
      NoFault w →
        (w.taken (iovBytes slices).length < (iovBytes slices).length →
          0 < c.highWaterMark_ ∨ c.highWaterMarkCallback_ = false) ∧
        (w.taken (iovBytes slices).length = (iovBytes slices).length →
          (slices.drop kMaxIov).flatten = [])
    else slices.flatten ≠ [] ∨ c.isWriting = true
  | _ =>
    if c.Idle then
      NoFault w → slices.flatten = [] ∧ (c.writeCompleteCallback_ = true → ∃ e, w = .fail e)
    else slices.flatten = []

/-! ## The plain send -/

theorem idle_iff (c : TcpConnection) :
    (!c.isWriting && c.outputBuffer_.isEmpty) = true ↔ c.Idle := by
  simp [Idle]

variable {c : TcpConnection}

theorem sendInLoop_backlog (hs : c.state_ ≠ .kDisconnected) (h : ¬c.Idle) (data : Bytes)
    (w : SysResult) : c.sendInLoop data w = if data = [] then c else c.appendOutput data := by
  unfold sendInLoop
  rw [if_neg hs, if_neg (by rwa [idle_iff])]
  by_cases hdata : data = []
  · simp [hdata]
  · have hpos := length_pos_iff.mpr hdata
    simp [hdata, hpos]

theorem sendInLoop_fail (hs : c.state_ ≠ .kDisconnected) (h : c.Idle) (data : Bytes) (e : Errno) :
    c.sendInLoop data (.fail e) =
      if e.faultError = true ∨ data = [] then c else c.appendOutput data := by
  unfold sendInLoop writeDirect
  rw [if_neg hs, if_pos (by rwa [idle_iff])]
  by_cases hdata : data = []
  · simp [hdata]
  · have hpos := length_pos_iff.mpr hdata
    cases hfault : e.faultError <;> simp [hdata, hpos, hfault]

theorem writeDirect_ok (c : TcpConnection) {data : Bytes} {n : Nat} (hn : n ≤ data.length) :
    c.writeDirect data (.ok n) =
      if n < data.length then (c.accept (data.take n), n, false)
      else ((c.accept data).queueWriteComplete true, n, false) := by
  have htaken : (SysResult.ok n).taken data.length = n := min_eq_left hn
  dsimp only [writeDirect]
  rw [htaken]
  split
  · have hleft : ¬data.length - n = 0 := by omega
    simp [hleft, queueWriteComplete]
  · have hnone : data.length - n = 0 := by omega
    rw [take_of_length_le (by omega)]
    simp [hnone]

theorem sendInLoop_ok (hs : c.state_ ≠ .kDisconnected) (h : c.Idle) {data : Bytes} {n : Nat}
    (hn : n ≤ data.length) :
    c.sendInLoop data (.ok n) =
      if n < data.length then (c.accept (data.take n)).appendOutput (data.drop n)
      else (c.accept data).queueWriteComplete true := by
  unfold sendInLoop
  rw [if_neg hs, if_pos (by rwa [idle_iff]), writeDirect_ok c hn]
  by_cases hall : n < data.length
  · simp [hall]
  · simp [hall, Nat.sub_eq_zero_of_le (Nat.le_of_not_lt hall)]

/-! ## The scatter send -/

/-- What `sendIov` does with the bytes that are left behind its attempt: the callback is
queued for every backlog above the mark. -/
def leaveOutput (c : TcpConnection) (data : Bytes) : TcpConnection :=
  { c.queueHighWaterMark (data.length ≥ c.highWaterMark_) data.length with
    outputBuffer_ := data, isWriting := true }

theorem flatten_eq_iovBytes_append (slices : List Bytes) :
    slices.flatten = iovBytes slices ++ (slices.drop kMaxIov).flatten := by
  unfold iovBytes
  rw [← flatten_append, take_append_drop]

variable {slices : List Bytes}

theorem sendIov_backlog (hs : c.state_ = .kConnected) (h : ¬c.Idle) (hslices : slices ≠ [])
    (w : SysResult) : c.sendIov slices w = c.appendOutput slices.flatten := by
  have hback : (c.isWriting || !c.outputBuffer_.isEmpty) = true := by
    simp only [Idle, not_and] at h
    cases hw : c.isWriting
    · simpa using h hw
    · rfl
  unfold sendIov
  rw [if_neg (by simp [hslices, hs]), if_pos hback]

theorem sendIov_idle (hs : c.state_ = .kConnected) (h : c.Idle) (hslices : slices ≠ [])
    (w : SysResult) :
    c.sendIov slices w =
      let (d, nwrote, faultError) := c.writeDirect (iovBytes slices) w
      if !faultError && (iovBytes slices).length - nwrote > 0 then
        d.leaveOutput (slices.flatten.drop nwrote)
      else d := by
  unfold sendIov
  rw [if_neg (by simp [hslices, hs]), if_neg (by simp [h.1, h.2])]
  cases w with
  | ok n => simp [writeDirect, leaveOutput, unwritten_eq, iovBytes, accept, queueWriteComplete, h.2]
  | fail e => simp [writeDirect, leaveOutput, unwritten_eq, iovBytes, h.2]

theorem sendIov_fail (hs : c.state_ = .kConnected) (h : c.Idle) (hslices : slices ≠ [])
    (e : Errno) :
    c.sendIov slices (.fail e) =
      if e.faultError = true ∨ iovBytes slices = [] then c else c.leaveOutput slices.flatten := by
  rw [sendIov_idle hs h hslices]
  by_cases hiov : iovBytes slices = []
  · simp [writeDirect, hiov]
  · have hpos := length_pos_iff.mpr hiov
    cases hfault : e.faultError <;> simp [writeDirect, hfault, hiov, hpos]

theorem sendIov_ok (hs : c.state_ = .kConnected) (h : c.Idle) (hslices : slices ≠ []) {n : Nat}
    (hn : n ≤ (iovBytes slices).length) :
    c.sendIov slices (.ok n) =
      if n < (iovBytes slices).length then
        (c.accept (slices.flatten.take n)).leaveOutput (slices.flatten.drop n)
      else (c.accept (iovBytes slices)).queueWriteComplete true := by
  have htake : slices.flatten.take n = (iovBytes slices).take n := by
    rw [flatten_eq_iovBytes_append, take_append_of_le_length hn]
  rw [sendIov_idle hs h hslices, writeDirect_ok c hn, htake]
  by_cases hall : n < (iovBytes slices).length
  · simp [hall]
  · simp [hall, Nat.sub_eq_zero_of_le (Nat.le_of_not_lt hall)]

/-! ## The two sends -/

theorem alike_leaveOutput_iff (h : c.outputBuffer_ = []) (data : Bytes) :
    Alike (c.leaveOutput data) (c.appendOutput data) ↔
      0 < c.highWaterMark_ ∨ c.highWaterMarkCallback_ = false := by
  constructor
  · intro halike
    have hqueued := halike.queued
    simp only [leaveOutput, appendOutput, queueHighWaterMark, h, length_nil] at hqueued
    by_contra hnot
    rw [not_or, Bool.not_eq_false] at hnot
    simp [Nat.eq_zero_of_not_pos hnot.1, hnot.2] at hqueued
  · intro hmark
    refine ⟨rfl, by simp [leaveOutput, appendOutput, h], rfl, ?_⟩
    rcases hmark with hmark | hcallback
    · simp [leaveOutput, appendOutput, queueHighWaterMark, h, hmark]
    · simp [leaveOutput, appendOutput, queueHighWaterMark, hcallback]

theorem not_alike_appendOutput {d : TcpConnection} (h : d.isWriting = false) (data : Bytes) :
    ¬Alike d (c.appendOutput data) := by
  intro halike
  have hwriting := halike.isWriting
  rw [h] at hwriting
  cases hwriting

theorem alike_backlog_iff (hs : c.state_ = .kConnected) (h : ¬c.Idle) (hslices : slices ≠ [])
    (w : SysResult) :
    Alike (c.sendIov slices w) (c.sendInLoop slices.flatten w) ↔
      slices.flatten ≠ [] ∨ c.isWriting = true := by
  rw [sendIov_backlog hs h hslices, sendInLoop_backlog (by simp [hs]) h]
  by_cases hdata : slices.flatten = []
  · rw [if_pos hdata, hdata]
    constructor
    · intro halike
      exact Or.inr halike.isWriting.symm
    · intro hwriting
      have hw := hwriting.resolve_left (by simp)
      refine ⟨rfl, by simp [appendOutput], by simp [appendOutput, hw], ?_⟩
      simp only [appendOutput, queueHighWaterMark, length_nil, Nat.add_zero]
      by_cases hmark : c.outputBuffer_.length < c.highWaterMark_ <;> simp [hmark]
  · rw [if_neg hdata]
    exact iff_of_true (alike_refl _) (Or.inl hdata)

theorem alike_fail_iff (hs : c.state_ = .kConnected) (h : c.Idle) (hslices : slices ≠ [])
    {e : Errno} (hfault : e.faultError = false) :
    Alike (c.sendIov slices (.fail e)) (c.sendInLoop slices.flatten (.fail e)) ↔
      (iovBytes slices ≠ [] → 0 < c.highWaterMark_ ∨ c.highWaterMarkCallback_ = false) ∧
        (iovBytes slices = [] → (slices.drop kMaxIov).flatten = []) := by
  have hflat := flatten_eq_iovBytes_append slices
  rw [sendIov_fail hs h hslices, sendInLoop_fail (by simp [hs]) h]
  simp only [hfault, Bool.false_eq_true, false_or]
  by_cases hiov : iovBytes slices = []
  · rw [hiov, nil_append] at hflat
    rw [if_pos hiov, ← hflat]
    by_cases hdata : slices.flatten = []
    · rw [if_pos hdata]
      exact iff_of_true (alike_refl c) ⟨fun hne => absurd hiov hne, fun _ => hdata⟩
    · rw [if_neg hdata]
      exact iff_of_false (not_alike_appendOutput h.1 _) (fun hall => hdata (hall.2 hiov))
  · have hdata : slices.flatten ≠ [] := by
      rw [hflat]
      exact append_ne_nil_of_left_ne_nil hiov _
    rw [if_neg hiov, if_neg hdata, alike_leaveOutput_iff h.2]
    exact ⟨fun hmark => ⟨fun _ => hmark, fun hnil => absurd hnil hiov⟩, fun hall => hall.1 hiov⟩

theorem alike_ok_iff (hs : c.state_ = .kConnected) (h : c.Idle) (hslices : slices ≠ []) {n : Nat}
    (hn : n ≤ (iovBytes slices).length) :
    Alike (c.sendIov slices (.ok n)) (c.sendInLoop slices.flatten (.ok n)) ↔
      (n < (iovBytes slices).length → 0 < c.highWaterMark_ ∨ c.highWaterMarkCallback_ = false) ∧
        (n = (iovBytes slices).length → (slices.drop kMaxIov).flatten = []) := by
  have hflat := flatten_eq_iovBytes_append slices
  have hlength := congrArg List.length hflat
  rw [length_append] at hlength
  rw [sendIov_ok hs h hslices hn, sendInLoop_ok (by simp [hs]) h (by omega)]
  by_cases hall : n < (iovBytes slices).length
  · rw [if_pos hall, if_pos (by omega), alike_leaveOutput_iff (c := c.accept _) h.2]
    exact ⟨fun hmark => ⟨fun _ => hmark, fun heq => absurd heq (by omega)⟩,
      fun hboth => hboth.1 hall⟩
  · have heq : n = (iovBytes slices).length := by omega
    rw [if_neg hall]
    by_cases hrest : (slices.drop kMaxIov).flatten = []
    · rw [hrest, append_nil] at hflat
      rw [if_neg (by rw [hflat]; omega), hflat]
      exact iff_of_true (alike_refl _) ⟨fun hlt => absurd hlt hall, fun _ => hrest⟩
    · have hpos := length_pos_iff.mpr hrest
      have hwriting : ((c.accept (iovBytes slices)).queueWriteComplete true).isWriting = false :=
        h.1
      rw [if_pos (by omega)]
      exact iff_of_false (not_alike_appendOutput hwriting _) (fun hboth => hrest (hboth.2 heq))

/-- In a state that `sendIov` refuses and `sendInLoop` does not, the plain send has to do
nothing. -/
theorem alike_refused_iff (hs : c.state_ ≠ .kDisconnected) (data : Bytes) {w : SysResult}
    (hw : ∀ n, w = .ok n → n ≤ data.length) :
    Alike c (c.sendInLoop data w) ↔
      if c.Idle then NoFault w → data = [] ∧ (c.writeCompleteCallback_ = true → ∃ e, w = .fail e)
      else data = [] := by
  by_cases hidle : c.Idle
  · rw [if_pos hidle]
    cases w with
    | fail e =>
      rw [sendInLoop_fail hs hidle]
      cases hfault : e.faultError with
      | true =>
        have hno : ¬NoFault (.fail e) := fun hall => by simp [hall e rfl] at hfault
        simp [hno, alike_refl]
      | false =>
        have hno : NoFault (.fail e) := fun e' he => by cases he; exact hfault
        by_cases hdata : data = []
        · simp [hdata, alike_refl]
        · simp [hdata, hno, not_alike_appendOutput hidle.1]
    | ok n =>
      have hno : NoFault (.ok n) := fun e he => by cases he
      rw [sendInLoop_ok hs hidle (hw n rfl)]
      by_cases hall : n < data.length
      · have hdata : data ≠ [] := length_pos_iff.mp (by omega)
        rw [if_pos hall]
        simp [hno, hdata, not_alike_appendOutput hidle.1]
      · rw [if_neg hall]
        constructor
        · intro halike _
          have haccepted := halike.accepted
          have hqueued := halike.queued
          simp only [accept, queueWriteComplete, self_eq_append_right] at haccepted hqueued
          refine ⟨haccepted, fun hcallback => ?_⟩
          simp [hcallback] at hqueued
        · intro hcond
          obtain ⟨hdata, hcallback⟩ := hcond hno
          have hnone : c.writeCompleteCallback_ = false := by
            by_contra hsome
            obtain ⟨e, he⟩ := hcallback (by simpa using hsome)
            cases he
          refine ⟨by simp [hdata, accept, queueWriteComplete], rfl, rfl, ?_⟩
          simp [accept, queueWriteComplete, hnone]
  · rw [if_neg hidle, sendInLoop_backlog hs hidle]
    by_cases hdata : data = []
    · simp [hdata, alike_refl]
    · rw [if_neg hdata]
      refine iff_of_false (fun halike => hdata ?_) hdata
      have houtput := halike.outputBuffer_
      simpa [appendOutput] using houtput

/-- For every connection, every slices and every result of the one attempt, `sendIov` leaves
what `sendInLoop` of all the bytes leaves exactly under the condition. The attempt takes no
more than `writev` is offered. -/
theorem scatter_send_equals_plain_send_iff (c : TcpConnection) {slices : List Bytes}
    (hslices : slices ≠ []) {w : SysResult} (hw : ∀ n, w = .ok n → n ≤ (iovBytes slices).length) :
    Alike (c.sendIov slices w) (c.sendInLoop slices.flatten w) ↔ c.SendsAlike slices w := by
  have hflat := congrArg List.length (flatten_eq_iovBytes_append slices)
  rw [length_append] at hflat
  have hplain : ∀ n, w = .ok n → n ≤ slices.flatten.length := by
    intro n hn
    have := hw n hn
    omega
  unfold SendsAlike
  cases hs : c.state_ with
  | kDisconnected =>
    rw [sendIov_down (by simp [hs])]
    unfold sendInLoop
    rw [if_pos hs]
    exact iff_of_true (alike_refl c) trivial
  | kConnecting | kDisconnecting =>
    rw [sendIov_down (by simp [hs])]
    exact alike_refused_iff (by simp [hs]) slices.flatten hplain
  | kConnected =>
    by_cases hidle : c.Idle
    · rw [if_pos hidle]
      cases w with
      | ok n =>
        have hno : NoFault (.ok n) := fun e he => by cases he
        have htaken : (SysResult.ok n).taken (iovBytes slices).length = n := min_eq_left (hw n rfl)
        rw [alike_ok_iff hs hidle hslices (hw n rfl), htaken]
        exact ⟨fun hboth _ => hboth, fun hboth => hboth hno⟩
      | fail e =>
        cases hfault : e.faultError with
        | true =>
          have hno : ¬NoFault (.fail e) := fun hall => by simp [hall e rfl] at hfault
          rw [sendIov_fail hs hidle hslices, sendInLoop_fail (by simp [hs]) hidle,
            if_pos (Or.inl hfault), if_pos (Or.inl hfault)]
          exact iff_of_true (alike_refl c) (fun h => absurd h hno)
        | false =>
          have hno : NoFault (.fail e) := fun e' he => by cases he; exact hfault
          have htaken : (SysResult.fail e).taken (iovBytes slices).length = 0 := rfl
          rw [alike_fail_iff hs hidle hslices hfault, htaken, ← length_pos_iff,
            eq_comm (a := 0), length_eq_zero_iff]
          exact ⟨fun hboth _ => hboth, fun hboth => hboth hno⟩
    · rw [if_neg hidle]
      exact alike_backlog_iff hs hidle hslices w

/-- A header and a body, of which the socket takes the header and one byte more. -/
theorem scatter_send_equals_plain_send_iff_headerAndBody :
    let c := established 64 true true
    Alike (c.sendIov [text "HTTP", text "body"] (.ok 5))
      (c.sendInLoop (text "HTTPbody") (.ok 5)) := by
  intro c
  refine (scatter_send_equals_plain_send_iff c (by simp) ?_).mpr ?_
  · intro n hn
    cases hn
    decide
  · exact fun _ => ⟨fun _ => Or.inl (by decide), fun h => absurd h (by decide)⟩

/-- Seventeen slices of one byte, and a `writev` that takes all that it gets: the last byte is
neither sent nor kept. -/
theorem the_seventeenth_slice_is_lost :
    let c := established 64 true true
    let slices := List.replicate 17 [65]
    let scatter := c.sendIov slices (.ok 16)
    let plain := c.sendInLoop slices.flatten (.ok 16)
    scatter.accepted = plain.accepted ∧ scatter.outputBuffer_ = [] ∧ plain.outputBuffer_ = [65] ∧
      scatter.queued = [.writeComplete] ∧ plain.queued = [] ∧ ¬Alike scatter plain := by
  refine ⟨by decide, by decide, by decide, by decide, by decide, ?_⟩
  intro halike
  have houtput := halike.outputBuffer_
  revert houtput
  decide

end TcpConnection

end mymuduo.tcp_connection
