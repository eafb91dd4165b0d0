import Tftp.Lib.Prog
import Tftp.Options
import Tftp.AdaptiveTimeout

/-!
# The state a session handler works on

`struct tftp_session` and the outside it touches. The outside is the list of
operations submitted to the dispatcher and not yet completed, the answers the
system gives to the calls of the handler being run, and a log of what the
handlers did: packets sent, descriptors opened, read, written and closed, and
the failures the session recorded.

A handler of the source returns `false` only to make its caller return
`TFTP_SESSION_STATE_ERROR`, so handlers are `Act` programs that stop with
`Abort.error`. They can also stop by never returning or by a trap.
-/

namespace Tftp.Server

/-! ## Session data -/

/-- The part of `struct tftp_server_info` a session reads. -/
structure ServerInfo where
  root : Option Bytes := none
  retries : UInt8
  timeout : UInt8
  isAdaptiveTimeoutEnabled : Bool := false
  isWriteRequestEnabled : Bool := true
  isListRequestEnabled : Bool := false
  hasStatsCallback : Bool := false

/-- `struct tftp_peer_message`; the buffer is zero past the bytes received. -/
structure PeerMessage where
  peerAddr : Address
  buffer : Bytes
deriving DecidableEq

inductive RequestType where
  | read
  | write
deriving DecidableEq, Repr

/-- `struct tftp_session_stats_error` -/
structure StatsError where
  errorOccurred : Bool := false
  errorNumber : UInt16 := 0
  errorMessage : Bytes := []
deriving DecidableEq, Repr

/-- The counters of `struct tftp_session_stats`. -/
structure SessionStats where
  error : StatsError := {}
  mode : Mode := .octet
  packetsSent : ℕ := 0
  packetsAcked : ℕ := 0
  bytesSent : UInt64 := 0
  retransmits : ℕ := 0
  blksize : UInt16 := defaultBlksize
  windowSize : UInt16 := defaultWindowSize
deriving DecidableEq, Repr

/-- `struct session_options`. The option string starts at `optionsStart` in
the storage; its size is zero when `options_str` is null. -/
structure SessionOptions where
  storage : Bytes := []
  optionsStart : ℕ := 0
  optionsSize : ℕ := 0
  recognized : OptionTable := {}
  validOptionsRequired : Bool := false
  optionsAcknowledged : Bool := false
deriving DecidableEq, Repr

/-- A slot of `data_packets`: the block number in its header and the bytes of
its payload area. Memory no packet was built in yet holds anything. -/
structure Slot where
  blockNumber : UInt16
  data : Bytes
deriving DecidableEq, Repr

structure Session where
  info : ServerInfo
  requestArgs : PeerMessage
  isTimerActive : Bool := false
  requestType : RequestType := .read
  fileDescriptor : ℤ := 0
  filename : Bytes := []
  mode : Mode := .octet
  retries : UInt8
  timeout : UInt8
  blockSize : UInt16 := defaultBlksize
  windowSize : UInt16 := 1
  isAdaptiveTimeoutActive : Bool := false
  currentRetransmission : UInt8 := 0
  totalRetransmissions : ℕ := 0
  windowBegin : UInt16 := 1
  nextDataPacketToSend : UInt16 := 1
  expectedSequenceNumber : UInt16 := 1
  netasciiBuffer : Option UInt8 := none
  lastPacket : Option UInt16 := none
  lastBlockSize : UInt16 := 0
  incompleteRead : Bool := false
  sockfd : ℤ := -1
  clientAddress : Address := .other 0
  recvBufferSize : ℕ := 0
  stats : SessionStats := {}
  options : SessionOptions := {}
  isFetchingData : Bool := false
  shouldClose : Bool := false
  pendingJobs : UInt8 := 0
  eventTimeout : ℚ := 0
  adaptiveTimeout : AdaptiveTimeout := {}
  errorPacket : Option Packet := none
  oackPacket : Option Packet := none
  dataPackets : Option (ℕ → Slot) := none

/-- `tftp_session_init`, followed by the request the main loop stores in the
session. The initializer of the source leaves `file_descriptor` out, so it
starts at zero. -/
def sessionInit (info : ServerInfo) (request : PeerMessage) : Session :=
  { info := info, requestArgs := request, retries := info.retries, timeout := info.timeout }

/-! ## Operations in flight -/

/-- Where a submitted timeout stands: `expired` and `removed` ones only wait
for their completion to be reaped. -/
inductive TimerState where
  | armed
  | expired
  | removed
deriving DecidableEq, Repr

/-- An operation submitted to the ring. A read goes to `slot` from `offset`
on; `filled` is what it has put there, if it already has. -/
inductive Op where
  | recv (cancelled : Bool)
  | read (slot offset length : ℕ) (filled : Option ℕ)
  | nop
  | timeout (state : TimerState)
  | timeoutRemove
  | cancel
deriving DecidableEq, Repr

def Op.isRecv : Op → Bool
  | .recv _ => true
  | _ => false

def Op.isFetch : Op → Bool
  | .read .. => true
  | .nop => true
  | _ => false

abbrev Errno := ℕ

def ENOENT : Errno := 2
def ETIME : Errno := 62
def EALREADY : Errno := 114
def ECANCELED : Errno := 125

/-- A completion: the error number or the result, as `dispatcher_wait_event`
splits them. -/
abbrev Completion (α : Type) := Except Errno α

/-- The events `tftp_session_handle_event` is called with. -/
inductive Event where
  | start
  | dataAvailable (c : Completion ℕ)
  | packetReceived (c : Completion Datagram)
  | packetReceivedRemoved (c : Completion ℕ)
  | timeout (c : Completion ℕ)
  | timeoutRemoved (c : Completion ℕ)

/-- The event that reports the completion of an operation. -/
def Op.Reports : Op → Event → Prop
  | .recv _, .packetReceived _ => True
  | .read .., .dataAvailable _ => True
  | .nop, .dataAvailable _ => True
  | .timeout _, .timeout _ => True
  | .timeoutRemove, .timeoutRemoved _ => True
  | .cancel, .packetReceivedRemoved _ => True
  | _, _ => False

/-- A timeout removal takes effect when it is submitted, on the oldest timeout
that has not expired. -/
def removeTimer : List Op → List Op
  | [] => []
  | .timeout .armed :: ops => .timeout .removed :: ops
  | op :: ops => op :: removeTimer ops

/-- A cancel makes the pending receive complete. -/
def cancelRecv : List Op → List Op
  | [] => []
  | .recv _ :: ops => .recv true :: ops
  | op :: ops => op :: cancelRecv ops

/-! ## System calls and their traces -/

/-- Why `open` failed; any other error number comes with its `strerror`. -/
inductive OpenError where
  | eacces
  | enoent
  | other (strerror : Bytes)
deriving DecidableEq, Repr

/-- The answers to the calls of `session_file_init`. -/
structure FileAnswers where
  pathAllocated : Bool := true
  openFile : Except OpenError ℕ := .error .enoent
  opendir : Option ℕ := none
  pipe : Option (ℕ × ℕ) := none
  setPipeSize : Bool := true
  pipeWrites : Bool := true

/-- What a one-byte `read` gives. -/
inductive ByteRead where
  | byte (b : UInt8)
  | endOfFile
  | failed
deriving DecidableEq, Repr

/-- The answers of the system to the calls of one handler. `calls` are those
of the calls that just succeed or fail (`sendto`, submissions, `malloc`), in
order; past its end they succeed. `write` is `none` for a failed `write`. -/
structure Sys where
  calls : List Bool := []
  socket : Option ℕ := none
  file : FileAnswers := {}
  fileSize : Option ℕ := none
  heap : ℕ → Slot := fun _ => ⟨0, []⟩
  byteReads : List ByteRead := []
  write : Option ℕ := none
  atEndOfFile : Bool := true
  clock : ℚ := 0

/-- What a handler did. `failed` marks the moments where the session records a
failure of its own in `stats.error`. -/
inductive Entry where
  | sent (dest : Address) (packet : Packet)
  | failed (error : StatsError)
  | opened (fd : ℕ)
  | read (fd : ℤ)
  /-- a `write`, with the bytes it stored -/
  | wrote (fd : ℤ) (bytes : Bytes)
  | closed (fd : ℤ)
  | reported (stats : SessionStats)

structure World where
  session : Session
  sys : Sys := {}
  inflight : List Op := []
  log : List Entry := []

/-- The ways a call of a handler ends badly: `TFTP_SESSION_STATE_ERROR`, a
trap (a division by zero, a null pointer), or no end at all. -/
inductive Abort where
  | error
  | crash
  | hang
deriving DecidableEq, Repr

abbrev Act := Prog World Abort

namespace Act

def session : Act Session := Prog.gets World.session

def sys : Act Sys := Prog.gets World.sys

def modify (f : Session → Session) : Act Unit :=
  Prog.update fun w => { w with session := f w.session }

def emit (e : Entry) : Act Unit := Prog.update fun w => { w with log := w.log ++ [e] }

/-- Make a call that can fail. -/
def attempt : Act Bool := fun w =>
  match w.sys.calls with
  | [] => (.ok true, w)
  | answer :: rest => (.ok answer, { w with sys := { w.sys with calls := rest } })

/-- A call whose failure makes the handler return `false`. -/
def require : Act Unit := do
  if ← attempt then pure () else Prog.stop .error

/-- Put an operation in the ring. -/
def submit (op : Op) : Act Unit := do
  require
  Prog.update fun w => { w with inflight := w.inflight ++ [op] }

/-- `sendto` of the session's socket. -/
def sendto (dest : Address) (packet : Packet) : Act Unit := do
  require
  emit (.sent dest packet)

/-- The one-byte `read` of the netascii encoder. -/
def readByte (fd : ℤ) : Act ByteRead := do
  emit (.read fd)
  let s ← sys
  Prog.update fun w => { w with sys := { w.sys with byteReads := w.sys.byteReads.tail } }
  pure (s.byteReads.headD .endOfFile)

/-- Record a failure of the session itself in `stats.error`. -/
def recordFailure (errorNumber : UInt16) (errorMessage : Bytes) : Act Unit := do
  let error : StatsError := ⟨true, errorNumber, errorMessage⟩
  modify fun s => { s with stats := { s.stats with error := error } }
  emit (.failed error)

end Act

end Tftp.Server
