-- The output side of `TcpConnection` (src/net/TcpConnection.cc): the two queues
-- `outputBuffer_` and `pendingFiles_`, the write interest of the channel, and the
-- half-close. A function gets the results of its system calls as arguments, so a law
-- for every result is a law for every kernel.
import Mathlib.Data.List.Range
import Mymuduo.Bytes

open bytes

namespace mymuduo.tcp_connection

/-! ## System calls -/

/-- The `errno` values that the output code tells apart. On Linux,
`EWOULDBLOCK` is `EAGAIN`. -/
inductive Errno
  | EAGAIN
  | EPIPE
  | ECONNRESET
  | other
  deriving DecidableEq, Repr

/-- What one call of `write`, `writev` or `sendfile` gives back. The kernel
takes no more than the call offers, so `ok n` with a larger `n` takes all. -/
inductive SysResult
  | ok (n : Nat)
  | fail (e : Errno)
  deriving DecidableEq, Repr

def SysResult.taken (r : SysResult) (len : Nat) : Nat :=
  match r with
  | .ok n => min n len
  | .fail _ => 0

def Errno.faultError (e : Errno) : Bool := e = .EPIPE || e = .ECONNRESET

/-! ## The state -/

inductive StateE
  | kDisconnected
  | kConnecting
  | kConnected
  | kDisconnecting
  deriving DecidableEq, Repr

/-- A file that waits for `sendfile`. `content` is the open file behind `fd`:
its byte at each offset. -/
structure PendingFile where
  fd : Int
  content : Nat → UInt8
  offset : Nat
  remaining : Nat

def PendingFile.bytes (pf : PendingFile) : Bytes :=
  (List.range' pf.offset pf.remaining).map pf.content

/-- The user callbacks that the output code puts in the loop with `queueInLoop`. -/
inductive Callback
  | writeComplete
  | highWaterMark (len : Nat)
  deriving DecidableEq, Repr

/-- `isWriting` is the write interest of the channel. The last four fields are
what the code does to its surroundings: the bytes that the socket accepted, the
bytes that it had accepted at each `shutdownWrite`, the descriptors that were
closed, and the callbacks that were queued. -/
structure TcpConnection where
  state_ : StateE
  isWriting : Bool
  outputBuffer_ : Bytes
  pendingFiles_ : List PendingFile
  highWaterMark_ : Nat
  writeCompleteCallback_ : Bool
  highWaterMarkCallback_ : Bool
  accepted : Bytes
  shutdownWrites : List Bytes
  closedFds : List Int
  queued : List Callback

namespace TcpConnection

def established (highWaterMark : Nat) (onComplete onHighWater : Bool) : TcpConnection where
  state_ := .kConnected
  isWriting := false
  outputBuffer_ := []
  pendingFiles_ := []
  highWaterMark_ := highWaterMark
  writeCompleteCallback_ := onComplete
  highWaterMarkCallback_ := onHighWater
  accepted := []
  shutdownWrites := []
  closedFds := []
  queued := []

def accept (c : TcpConnection) (bs : Bytes) : TcpConnection :=
  { c with accepted := c.accepted ++ bs }

/-- `if (done && writeCompleteCallback_) loop_->queueInLoop(...)` -/
def queueWriteComplete (c : TcpConnection) (done : Bool) : TcpConnection :=
  { c with
    queued := c.queued ++ if done && c.writeCompleteCallback_ then [.writeComplete] else [] }

/-- `if (passed && highWaterMarkCallback_) loop_->queueInLoop(...)` -/
def queueHighWaterMark (c : TcpConnection) (passed : Bool) (len : Nat) : TcpConnection :=
  { c with
    queued := c.queued ++ if passed && c.highWaterMarkCallback_ then [.highWaterMark len] else [] }

/-! ## Sends -/

/-- The one `write` or `writev` of a send that finds no backlog: the
connection, the bytes taken, and `faultError`. -/
def writeDirect (c : TcpConnection) (data : Bytes) (w : SysResult) :
    TcpConnection × Nat × Bool :=
  match w with
  | .ok _ =>
    let nwrote := w.taken data.length
    ((c.accept (data.take nwrote)).queueWriteComplete (data.length - nwrote = 0), nwrote, false)
  | .fail e => (c, 0, e.faultError)

/-- The bytes join the backlog, and the channel asks for write events. The
callback runs when the backlog passes the mark with these bytes. -/
def appendOutput (c : TcpConnection) (data : Bytes) : TcpConnection :=
  let oldLen := c.outputBuffer_.length
  let newLen := oldLen + data.length
  { c.queueHighWaterMark (newLen ≥ c.highWaterMark_ && oldLen < c.highWaterMark_) newLen with
    outputBuffer_ := c.outputBuffer_ ++ data, isWriting := true }

def sendInLoop (c : TcpConnection) (data : Bytes) (w : SysResult) : TcpConnection :=
  if c.state_ = .kDisconnected then c
  else
    let (c, nwrote, faultError) :=
      if !c.isWriting && c.outputBuffer_.isEmpty then c.writeDirect data w else (c, 0, false)
    let remaining := data.length - nwrote
    if !faultError && remaining > 0 then c.appendOutput (data.drop nwrote) else c

/-- `send` in the loop thread. -/
def send (c : TcpConnection) (data : Bytes) (w : SysResult) : TcpConnection :=
  if c.state_ = .kConnected then c.sendInLoop data w else c

def kMaxIov : Nat := 16

/-- The loop of `sendIov` over the slices that `writev` did not take: the
first `skip` bytes are left out, the rest is appended slice by slice. -/
def unwritten : Nat → List Bytes → Bytes
  | _, [] => []
  | skip, s :: slices =>
    if skip ≥ s.length then unwritten (skip - s.length) slices
    else s.drop skip ++ unwritten 0 slices

/-- `sendIov` in the loop thread. Only the first `kMaxIov` slices go to
`writev`, and only their bytes count as `remaining`. -/
def sendIov (c : TcpConnection) (slices : List Bytes) (w : SysResult) : TcpConnection :=
  if slices.length = 0 ∨ c.state_ ≠ .kConnected then c
  else if c.isWriting || !c.outputBuffer_.isEmpty then c.appendOutput slices.flatten
  else
    let iov := (slices.take kMaxIov).flatten
    let (c, nwrote, faultError) := c.writeDirect iov w
    let remaining := iov.length - nwrote
    if !faultError && remaining > 0 then
      let output := c.outputBuffer_ ++ unwritten nwrote slices
      { c.queueHighWaterMark (output.length ≥ c.highWaterMark_) output.length with
        outputBuffer_ := output, isWriting := true }
    else c

/-! ## Files -/

/-- The most bytes that one `sendfile` call offers. -/
def kBatch : Nat := 64 * 1024 * 1024

/-- What a drain of the file queue did: the bytes sent, the files left, the
descriptors closed, and the result of `drainPendingFiles`. -/
structure Drained where
  sent : Bytes
  files : List PendingFile
  closed : List Int
  stillNeed : Bool

/-- The loop of `drainPendingFiles`. Each `sendfile` call takes the next result
of `rs`, and `EAGAIN` when there is none. `sendfile` moves `offset` itself. -/
def drainFiles : List PendingFile → List SysResult → Drained
  | [], _ => ⟨[], [], [], false⟩
  | pf :: files, rs =>
    let toSend := if pf.remaining < kBatch then pf.remaining else kBatch
    match rs.headD (.fail .EAGAIN) with
    | .ok n =>
      let n := min n toSend
      if n > 0 then
        let pf' := { pf with offset := pf.offset + n, remaining := pf.remaining - n }
        if pf'.remaining = 0 then
          let d := drainFiles files rs.tail
          { d with sent := pf.bytes.take n ++ d.sent, closed := pf.fd :: d.closed }
        else ⟨pf.bytes.take n, pf' :: files, [], true⟩
      else
        let d := drainFiles files rs.tail
        { d with closed := pf.fd :: d.closed }
    | .fail .EAGAIN => ⟨[], pf :: files, [], true⟩
    -- any other error drops the file, and the loop ends
    | .fail _ => ⟨[], files, [pf.fd], !files.isEmpty⟩

def drainPendingFiles (c : TcpConnection) (rs : List SysResult) : TcpConnection × Bool :=
  let d := drainFiles c.pendingFiles_ rs
  ({ c.accept d.sent with
      pendingFiles_ := d.files, closedFds := c.closedFds ++ d.closed }, d.stillNeed)

/-- `sendFile` in the loop thread. -/
def sendFile (c : TcpConnection) (pf : PendingFile) (rs : List SysResult) : TcpConnection :=
  if c.state_ ≠ .kConnected ∨ pf.remaining = 0 then
    if pf.fd ≥ 0 then { c with closedFds := c.closedFds ++ [pf.fd] } else c
  else
    let c := { c with pendingFiles_ := c.pendingFiles_ ++ [pf] }
    if c.isWriting || !c.outputBuffer_.isEmpty then { c with isWriting := true }
    else
      let (c, stillNeed) := c.drainPendingFiles rs
      if stillNeed then { c with isWriting := true } else c.queueWriteComplete true

/-! ## Events and the half-close -/

def shutdownInLoop (c : TcpConnection) : TcpConnection :=
  if c.isWriting then c else { c with shutdownWrites := c.shutdownWrites ++ [c.accepted] }

/-- `shutdown` in the loop thread: `runInLoop` runs its functor at once. -/
def shutdown (c : TcpConnection) : TcpConnection :=
  if c.state_ = .kConnected then { c with state_ := .kDisconnecting }.shutdownInLoop else c

/-- Parts 2 and 3 of `handleWrite`, after `outputBuffer_` is empty. -/
def finishWrite (c : TcpConnection) (rs : List SysResult) : TcpConnection :=
  let (c, stillNeedWrite) := c.drainPendingFiles rs
  if stillNeedWrite then c
  else
    let c := { c with isWriting := false }.queueWriteComplete true
    if c.state_ = .kDisconnecting then c.shutdownInLoop else c

/-- `writeFd` took `n` bytes, and `retrieve(n)` drops them. -/
def writeOutput (c : TcpConnection) (n : Nat) : TcpConnection :=
  { c.accept (c.outputBuffer_.take n) with outputBuffer_ := c.outputBuffer_.drop n }

def handleWrite (c : TcpConnection) (w : SysResult) (rs : List SysResult) : TcpConnection :=
  if !c.isWriting then c
  else if c.outputBuffer_.length > 0 then
    let n := w.taken c.outputBuffer_.length
    if n > 0 then
      let c := c.writeOutput n
      if c.outputBuffer_.length > 0 then c else c.finishWrite rs
    else c
  else c.finishWrite rs

/-- `handleClose`: the channel loses all its events. The user callbacks it
then calls are not part of the output side. -/
def handleClose (c : TcpConnection) : TcpConnection :=
  { c with state_ := .kDisconnected, isWriting := false }

/-! ## One step -/

/-- What can happen to the output side in the loop thread, with the results of
the system calls it makes. -/
inductive Op
  | send (data : Bytes) (w : SysResult)
  | sendIov (slices : List Bytes) (w : SysResult)
  | sendFile (pf : PendingFile) (rs : List SysResult)
  | shutdown
  | handleWrite (w : SysResult) (rs : List SysResult)
  | handleClose

def step (c : TcpConnection) : Op → TcpConnection
  | .send data w => c.send data w
  | .sendIov slices w => c.sendIov slices w
  | .sendFile pf rs => c.sendFile pf rs
  | .shutdown => c.shutdown
  | .handleWrite w rs => c.handleWrite w rs
  | .handleClose => c.handleClose

/-- The bytes that a call hands to a connected connection: a `sendFile` call
hands over the file range it asks for. -/
def payload (c : TcpConnection) (op : Op) : Bytes :=
  if c.state_ = .kConnected then
    match op with
    | .send data _ => data
    | .sendIov slices _ => slices.flatten
    | .sendFile pf _ => pf.bytes
    | _ => []
  else []

/-- All that still waits to go out, in the order in which `handleWrite` sends it. -/
def waiting (c : TcpConnection) : Bytes :=
  c.outputBuffer_ ++ c.pendingFiles_.flatMap PendingFile.bytes

end TcpConnection

end mymuduo.tcp_connection
