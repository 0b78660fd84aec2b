-- The logger with two buffers (src/asynclogger/AsyncLogger.h). Callers push into
-- one buffer under the lock, and the writer thread swaps the buffers and writes
-- the other one without it. The writer leaves when it finds `running_` false and
-- then the current buffer empty, both without the lock.
import Mymuduo.Bytes
import Mymuduo.Runs

open List runs bytes

namespace mymuduo.async_logger

/-! ## Entries -/

inductive LogLevel
  | debug
  | info
  | warn
  | error
  | fatal
  deriving DecidableEq

def LogLevel.toNat : LogLevel → Nat
  | .debug => 0
  | .info => 1
  | .warn => 2
  | .error => 3
  | .fatal => 4

def levelStr : LogLevel → Bytes
  | .debug => text "DEBUG"
  | .info => text "INFO"
  | .warn => text "WARN"
  | .error => text "ERROR"
  | .fatal => text "FATAL"

structure LogEntry where
  level : LogLevel
  timestamp : Bytes
  file : Bytes
  line : Int
  message : Bytes
  deriving DecidableEq

/-- The number as `<<` writes an `int`. -/
def signedDecimal (n : Int) : Bytes :=
  (if n < 0 then text "-" else []) ++ decimal n.natAbs

def formatEntry (entry : LogEntry) : Bytes :=
  text "[" ++ entry.timestamp ++ text "] [" ++ levelStr entry.level ++ text "] " ++ entry.file ++
    text ":" ++ signedDecimal entry.line ++ text " " ++ entry.message ++ text "\n"

/-- What `vsnprintf` leaves in the 4096 bytes of `buf`, up to its first zero. -/
def messageOf (formatted : Bytes) : Bytes := (formatted.take 4095).takeWhile (· ≠ 0)

/-! ## The logger -/

inductive Sink
  | file
  | cerr
  deriving DecidableEq

/-- Where the writer thread is in `writerLoop`. The condition of the loop is two steps. In
`writing`, the entries before `i` of the flush buffer are written. -/
inductive Writer
  | notStarted
  | testRunning
  | testEmpty
  | waiting
  | opening
  | writing (sink : Sink) (i : Nat)
  | exited
  deriving DecidableEq

/-- `calls` has the entries of calls of `log` that passed the level and have not pushed yet.
`written` says what was written, and where, in order. -/
structure AsyncLogger where
  level_ : LogLevel := .info
  running_ : Bool := false
  currentBuffer_ : List LogEntry := []
  flushBuffer_ : List LogEntry := []
  fileOpened : Bool := false
  writer : Writer := .notStarted
  calls : Nat → Option LogEntry := fun _ => none
  written : List (Sink × LogEntry) := []
  file : Bytes := []
  cerr : Bytes := []

/-- One step of a thread. `swap` is the end of the wait, by a timeout or by its predicate. -/
inductive Event
  | setLogLevel (level : LogLevel)
  | start
  | stop
  | log (call : Nat) (level : LogLevel) (timestamp file : Bytes) (line : Int) (formatted : Bytes)
  | push (call : Nat)
  | test
  | swap
  | openFile (isOpen : Bool)
  | write

namespace AsyncLogger

/-- `start` makes the one writer thread. -/
def start (l : AsyncLogger) : AsyncLogger :=
  if l.running_ ∨ l.writer ≠ .notStarted then l
  else { l with running_ := true, writer := .testRunning }

/-- The locked part of `stop`. The join waits for `exited`. -/
def stop (l : AsyncLogger) : AsyncLogger :=
  if l.running_ then { l with running_ := false } else l

/-- `log` up to its lock. -/
def log (l : AsyncLogger) (call : Nat) (level : LogLevel) (timestamp file : Bytes) (line : Int)
    (formatted : Bytes) : AsyncLogger :=
  if level.toNat < l.level_.toNat then l
  else if l.calls call = none then
    let entry : LogEntry := { level, timestamp, file, line, message := messageOf formatted }
    { l with calls := Function.update l.calls call (some entry) }
  else l

/-- `currentBuffer_->push_back(entry)` -/
def push (l : AsyncLogger) (call : Nat) : AsyncLogger :=
  match l.calls call with
  | some entry =>
    { l with
      currentBuffer_ := l.currentBuffer_ ++ [entry]
      calls := Function.update l.calls call none }
  | none => l

/-- One operand of `running_.load() || !currentBuffer_->empty()` -/
def test (l : AsyncLogger) : AsyncLogger :=
  match l.writer with
  | .testRunning => { l with writer := if l.running_ then .waiting else .testEmpty }
  | .testEmpty => { l with writer := if l.currentBuffer_ = [] then .exited else .waiting }
  | _ => l

/-- `std::swap(currentBuffer_, flushBuffer_)` -/
def swap (l : AsyncLogger) : AsyncLogger :=
  if l.writer = .waiting then
    { l with
      currentBuffer_ := l.flushBuffer_
      flushBuffer_ := l.currentBuffer_
      writer := if l.fileOpened then .writing .file 0 else .opening }
  else l

def openFile (l : AsyncLogger) (isOpen : Bool) : AsyncLogger :=
  if l.writer = .opening then
    { l with fileOpened := isOpen, writer := .writing (if isOpen then .file else .cerr) 0 }
  else l

/-- One turn of the loop over the flush buffer, or its end with `clear`. -/
def write (l : AsyncLogger) : AsyncLogger :=
  match l.writer with
  | .writing sink i =>
    match l.flushBuffer_[i]? with
    | some entry =>
      { l with
        written := l.written ++ [(sink, entry)]
        file := if sink = .file then l.file ++ formatEntry entry else l.file
        cerr := if sink = .cerr then l.cerr ++ formatEntry entry else l.cerr
        writer := .writing sink (i + 1) }
    | none => { l with flushBuffer_ := [], writer := .testRunning }
  | _ => l

def step (l : AsyncLogger) : Event → AsyncLogger
  | .setLogLevel level => { l with level_ := level }
  | .start => l.start
  | .stop => l.stop
  | .log call level timestamp file line formatted => l.log call level timestamp file line formatted
  | .push call => l.push call
  | .test => l.test
  | .swap => l.swap
  | .openFile isOpen => l.openFile isOpen
  | .write => l.write

/-! ## The property -/

/-- The part of the flush buffer that is still to be written. -/
def unwritten (l : AsyncLogger) : List LogEntry :=
  match l.writer with
  | .writing _ i => l.flushBuffer_.drop i
  | _ => l.flushBuffer_

def writtenEntries (l : AsyncLogger) : List LogEntry := l.written.map Prod.snd

/-- All entries that are in the logger, in order. -/
def held (l : AsyncLogger) : List LogEntry := l.writtenEntries ++ l.unwritten ++ l.currentBuffer_

def pushed (l : AsyncLogger) : Event → List LogEntry
  | .push call => (l.calls call).toList
  | _ => []

/-- The bytes that the entries for one sink make. -/
def output (sink : Sink) (written : List (Sink × LogEntry)) : Bytes :=
  (written.filter (fun w => w.1 = sink)).flatMap (fun w => formatEntry w.2)

/-- The flush buffer has entries only while the writer is between a swap and the `clear`
behind it, and the writer looks at the current buffer only when `running_` is false. -/
structure Sound (l : AsyncLogger) : Prop where
  flushed : l.writer ≠ .opening → (∀ sink i, l.writer ≠ .writing sink i) → l.flushBuffer_ = []
  running : l.running_ → l.writer ≠ .testEmpty ∧ l.writer ≠ .exited ∧ l.writer ≠ .notStarted
  file : l.file = output .file l.written
  cerr : l.cerr = output .cerr l.written

variable {l : AsyncLogger}

theorem output_append (sink : Sink) (written : List (Sink × LogEntry)) (w : Sink × LogEntry) :
    output sink (written ++ [w]) =
      if w.1 = sink then output sink written ++ formatEntry w.2 else output sink written := by
  by_cases h : w.1 = sink <;> simp [output, h]

/-! ## What a step does -/

/-- What one step can do, and what it pushes. -/
inductive Does (l : AsyncLogger) : List LogEntry → AsyncLogger → Prop
  | calls (level : LogLevel) (calls : Nat → Option LogEntry) :
      Does l [] { l with level_ := level, calls }
  | starts (hfirst : l.writer = .notStarted) :
      Does l [] { l with running_ := true, writer := .testRunning }
  | stops : Does l [] { l with running_ := false }
  | pushes (entry : LogEntry) (calls : Nat → Option LogEntry) :
      Does l [entry] { l with currentBuffer_ := l.currentBuffer_ ++ [entry], calls }
  | testsRunning (hwriter : l.writer = .testRunning) :
      Does l [] { l with writer := if l.running_ then .waiting else .testEmpty }
  | testsEmpty (hwriter : l.writer = .testEmpty) :
      Does l [] { l with writer := if l.currentBuffer_ = [] then .exited else .waiting }
  | swaps (hwriter : l.writer = .waiting) :
      Does l [] { l with
        currentBuffer_ := l.flushBuffer_
        flushBuffer_ := l.currentBuffer_
        writer := if l.fileOpened then .writing .file 0 else .opening }
  | opens (hwriter : l.writer = .opening) (isOpen : Bool) (sink : Sink) :
      Does l [] { l with fileOpened := isOpen, writer := .writing sink 0 }
  | writes {sink : Sink} {i : Nat} (hwriter : l.writer = .writing sink i) {entry : LogEntry}
      (hentry : l.flushBuffer_[i]? = some entry) :
      Does l [] { l with
        written := l.written ++ [(sink, entry)]
        file := if sink = .file then l.file ++ formatEntry entry else l.file
        cerr := if sink = .cerr then l.cerr ++ formatEntry entry else l.cerr
        writer := .writing sink (i + 1) }
  | clears {sink : Sink} {i : Nat} (hwriter : l.writer = .writing sink i)
      (hend : l.flushBuffer_[i]? = none) :
      Does l [] { l with flushBuffer_ := [], writer := .testRunning }

theorem Does.stays (l : AsyncLogger) : Does l [] l := .calls l.level_ l.calls

theorem step_does (l : AsyncLogger) (e : Event) : Does l (l.pushed e) (l.step e) := by
  cases e with
  | setLogLevel level => exact .calls level l.calls
  | start =>
    simp only [step, start, pushed]
    split
    case isTrue => exact .stays l
    case isFalse hfirst =>
      have hnot : l.writer = .notStarted := by
        by_contra hwriter
        exact hfirst (Or.inr hwriter)
      exact .starts hnot
  | stop =>
    simp only [step, stop, pushed]
    split
    · exact .stops
    · exact .stays l
  | log call level timestamp file line formatted =>
    simp only [step, log, pushed]
    split
    · exact .stays l
    · split
      · exact .calls l.level_ _
      · exact .stays l
  | push call =>
    simp only [step, push, pushed]
    cases l.calls call with
    | none => exact .stays l
    | some entry => exact .pushes entry _
  | test =>
    simp only [step, test, pushed]
    split
    case h_1 hwriter => exact .testsRunning hwriter
    case h_2 hwriter => exact .testsEmpty hwriter
    case h_3 => exact .stays l
  | swap =>
    simp only [step, swap, pushed]
    split
    case isTrue hwaiting => exact .swaps hwaiting
    case isFalse => exact .stays l
  | openFile isOpen =>
    simp only [step, openFile, pushed]
    split
    case isTrue hopening => exact .opens hopening isOpen _
    case isFalse => exact .stays l
  | write =>
    simp only [step, write, pushed]
    split
    case h_2 => exact .stays l
    case h_1 sink i hwriting =>
      split
      case h_1 entry hentry => exact .writes hwriting hentry
      case h_2 hend => exact .clears hwriting hend

variable {new : List LogEntry} {l' : AsyncLogger}

theorem Does.sound (hdoes : Does l new l') (h : l.Sound) : l'.Sound := by
  cases hdoes with
  | calls | pushes => exact { h with }
  | starts hfirst =>
    exact ⟨fun _ _ => h.flushed (by simp [hfirst]) (by simp [hfirst]), by simp, h.file, h.cerr⟩
  | stops => exact ⟨h.flushed, by simp, h.file, h.cerr⟩
  | testsRunning hwriter =>
    refine ⟨fun _ _ => h.flushed (by simp [hwriter]) (by simp [hwriter]), ?_, h.file, h.cerr⟩
    intro hrunning
    rw [if_pos hrunning]
    simp
  | testsEmpty hwriter =>
    refine ⟨fun _ _ => h.flushed (by simp [hwriter]) (by simp [hwriter]), ?_, h.file, h.cerr⟩
    intro hrunning
    exact absurd hwriter (h.running hrunning).1
  | swaps =>
    refine ⟨?_, ?_, h.file, h.cerr⟩
    · intro hopening hwriting
      cases hopened : l.fileOpened
      · simp [hopened] at hopening
      · simp [hopened] at hwriting
    · intro _
      cases l.fileOpened <;> simp
  | opens => exact ⟨fun _ hwriting => absurd rfl (hwriting _ _), by simp, h.file, h.cerr⟩
  | writes =>
    refine ⟨fun _ hno => absurd rfl (hno _ _), by simp, ?_, ?_⟩
    · rw [output_append, h.file]
    · rw [output_append, h.cerr]
  | clears => exact ⟨fun _ _ => rfl, by simp, h.file, h.cerr⟩

theorem sound_step (l : AsyncLogger) (e : Event) (h : l.Sound) : (l.step e).Sound :=
  (step_does l e).sound h

theorem Does.held (hdoes : Does l new l') (h : l.Sound) : l'.held = l.held ++ new := by
  cases hdoes with
  | calls | stops => exact (append_nil _).symm
  | starts hfirst => simp [AsyncLogger.held, unwritten, writtenEntries, hfirst]
  | pushes entry => exact (append_assoc _ _ _).symm
  | testsRunning hwriter =>
    cases hrunning : l.running_ <;> simp [AsyncLogger.held, unwritten, writtenEntries, hwriter]
  | testsEmpty hwriter =>
    by_cases hempty : l.currentBuffer_ = [] <;>
      simp [AsyncLogger.held, unwritten, writtenEntries, hwriter, hempty]
  | swaps hwaiting =>
    -- the flush buffer is empty here, so the swap moves the current one in front of nothing
    have hempty : l.flushBuffer_ = [] := h.flushed (by simp [hwaiting]) (by simp [hwaiting])
    cases hopened : l.fileOpened <;>
      simp [AsyncLogger.held, unwritten, writtenEntries, hwaiting, hempty]
  | opens hopening => simp [AsyncLogger.held, unwritten, writtenEntries, hopening]
  | @writes sink i hwriting entry hentry =>
    have hdrop : l.flushBuffer_.drop i = entry :: l.flushBuffer_.drop (i + 1) := by
      obtain ⟨hi, rfl⟩ := List.getElem?_eq_some_iff.mp hentry
      exact drop_eq_getElem_cons hi
    simp [AsyncLogger.held, unwritten, writtenEntries, hwriting, hdrop]
  | @clears sink i hwriting hend =>
    have hdrop : l.flushBuffer_.drop i = [] := by
      rw [drop_eq_nil_iff]
      exact List.getElem?_eq_none_iff.mp hend
    simp [AsyncLogger.held, unwritten, writtenEntries, hwriting, hdrop]

theorem held_step (l : AsyncLogger) (e : Event) (h : l.Sound) :
    (l.step e).held = l.held ++ l.pushed e :=
  (step_does l e).held h

/-- Behind the `stop` that found the entries `before` in the logger. -/
structure Stopped (before : List LogEntry) (l : AsyncLogger) : Prop where
  sound : l.Sound
  kept : before <+: l.held
  exited : l.writer = .exited → before <+: l.writtenEntries

/-- Only the test of the current buffer ends the writer, and it finds both buffers empty. -/
theorem Does.exited (hdoes : Does l new l') (h : l.Sound) (hexit : l'.writer = .exited) :
    l.writer = .exited ∨ l.held = l.writtenEntries := by
  cases hdoes with
  | calls | stops | pushes => exact Or.inl hexit
  | starts | opens | writes | clears => cases hexit
  | testsRunning => cases hrunning : l.running_ <;> simp [hrunning] at hexit
  | testsEmpty hwriter =>
    have hflush : l.flushBuffer_ = [] := h.flushed (by simp [hwriter]) (by simp [hwriter])
    have hcurrent : l.currentBuffer_ = [] := by
      by_contra hfull
      simp [hfull] at hexit
    exact Or.inr (by simp [AsyncLogger.held, unwritten, hwriter, hflush, hcurrent])
  | swaps => cases hopened : l.fileOpened <;> simp [hopened] at hexit

theorem Does.writtenEntries (hdoes : Does l new l') : l.writtenEntries <+: l'.writtenEntries := by
  cases hdoes with
  | writes => simp [AsyncLogger.writtenEntries]
  | calls | starts | stops | pushes | testsRunning | testsEmpty | swaps | opens | clears =>
    exact prefix_rfl

theorem stopped_step (before : List LogEntry) (l : AsyncLogger) (e : Event) (h : Stopped before l) :
    Stopped before (l.step e) := by
  refine ⟨sound_step l e h.sound, ?_, ?_⟩
  · rw [held_step l e h.sound]
    exact h.kept.trans (prefix_append _ _)
  · intro hexit
    have hwritten : before <+: l.writtenEntries := by
      rcases (step_does l e).exited h.sound hexit with hexited | hall
      · exact h.exited hexited
      · exact hall ▸ h.kept
    exact hwritten.trans (step_does l e).writtenEntries

theorem stopped_stop (h : l.Sound) (hrunning : l.running_ = true) :
    Stopped l.held (l.step .stop) := by
  have hstep : l.step .stop = { l with running_ := false } := by simp [step, stop, hrunning]
  refine ⟨sound_step l .stop h, ?_, ?_⟩
  · rw [held_step l .stop h]
    exact prefix_append _ _
  · intro hexit
    rw [hstep] at hexit
    exact absurd hexit (h.running hrunning).2.1

theorem sound_start : ({} : AsyncLogger).Sound :=
  ⟨fun _ _ => rfl, by simp, rfl, rfl⟩

theorem held_run (events : List Event) :
    (run step {} events).held = collect step pushed {} events := by
  exact conserved_run held pushed (fun l e _ => sound_step l e) (fun l e _ => held_step l e)
    (meets_true _ _ _) sound_start

/-- At every time, what was written, the unwritten rest of the flush buffer and the current
buffer are the entries in the order of their pushes; the file and the error stream have the
lines of what was written to them; and when the writer has exited, every entry that was pushed
before `stop` cleared `running_` has been written. -/
theorem log_entries_in_push_order (events : List Event) :
    (run step {} events).writtenEntries ++ (run step {} events).unwritten ++
        (run step {} events).currentBuffer_ = collect step pushed {} events ∧
    (run step {} events).file = output .file (run step {} events).written ∧
    (run step {} events).cerr = output .cerr (run step {} events).written ∧
    ∀ made later, events = made ++ .stop :: later → (run step {} made).running_ = true →
      (run step {} events).writer = .exited →
      collect step pushed {} made <+: (run step {} events).writtenEntries := by
  have hsound := fun made => invariant_always sound_step sound_start made
  refine ⟨held_run events, (hsound events).file, (hsound events).cerr, ?_⟩
  rintro made later rfl hrunning hexit
  have hrun : run step {} (made ++ .stop :: later) =
      run step ((run step {} made).step .stop) later := by simp [run]
  have hstopped : Stopped (run step {} made).held (run step {} (made ++ .stop :: later)) := by
    rw [hrun]
    exact invariant_always (stopped_step _) (stopped_stop (hsound made) hrunning) later
  rw [← held_run made]
  exact hstopped.exited hexit

/-- An entry that the writer finds only behind `stop`, with a file that does not open. -/
def lastEntry : List Event :=
  [.start, .test, .log 0 .warn (text "t") (text "f") 1 (text "m"), .push 0]

def drained : List Event := [.swap, .openFile false, .write, .write, .test, .test]

theorem log_entries_in_push_order_drained :
    (run step {} (lastEntry ++ .stop :: drained)).writer = .exited ∧
      collect step pushed {} lastEntry <+:
        (run step {} (lastEntry ++ .stop :: drained)).writtenEntries := by
  have hexit : (run step {} (lastEntry ++ .stop :: drained)).writer = .exited := by decide
  exact ⟨hexit, (log_entries_in_push_order (lastEntry ++ .stop :: drained)).2.2.2 lastEntry drained
    rfl (by decide) hexit⟩

end AsyncLogger

end mymuduo.async_logger
