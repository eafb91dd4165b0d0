import Tftp.Client.Request
import Tftp.AdaptiveTimeout
import Tftp.Lib.Serial

/-!
# send_file

The loop of a write request. A round fills the window and then waits once: for
an answer of the server, or for the rest of the timeout.
-/

namespace Tftp.Client

open Act

/-- `is_in_range` -/
def isInRange (n begin_ end_ : UInt16) : Bool :=
  if begin_ ≤ end_ then begin_ ≤ n && n ≤ end_ else begin_ ≤ n || n ≤ end_

theorem isInRange_iff (n b e : UInt16) : isInRange n b e = true ↔ Serial.OnArc n b e := by
  rw [← Serial.test_iff_onArc, isInRange]
  split <;> simp

/-- A window of one packet has room only for the block that opens it. -/
theorem isInRange_one {n b : UInt16} : isInRange n b (b + 1 - 1) = true ↔ n = b := by
  rw [isInRange_iff]
  unfold Serial.OnArc
  constructor
  · intro arc
    have none_ : n - b = 0 := by simpa using arc
    calc n = n - b + b := (UInt16.sub_add_cancel n b).symm
      _ = b := by rw [none_, UInt16.zero_add]
  · rintro rfl
    simp

/-- `timespec_to_double` of a clock reading. -/
def seconds (nanoseconds : ℕ) : ℚ := nanoseconds / 10 ^ 9

/-- A packet in `data_packets`: the block number in its header and the bytes of
its payload area. -/
structure DataPacket where
  blockNumber : UInt16
  data : Bytes
deriving DecidableEq, Repr

/-- The locals of `send_file`; `file` is what `fread` has not given out yet. -/
structure Sender where
  file : Bytes
  dataPackets : ℕ → DataPacket
  rto : ℚ
  adaptiveTimeout : AdaptiveTimeout := {}
  startTime : ℕ := 0
  lastPacketSize : ℕ := 0
  windowBegin : UInt16 := 1
  nextSequenceNumber : UInt16 := 1
  endOfFile : Bool := false
  retransmissions : UInt8 := 0

/-- What `send_file` does before its loop, once it has its memory. -/
def Sender.init (r : Request) (file heap : Bytes) : Sender where
  file := file
  dataPackets := fun _ => ⟨0, heap⟩
  rto := if r.options.useAdaptiveTimeout then AdaptiveTimeout.init.rto
    else (r.options.timeoutS.toNat : ℚ)
  adaptiveTimeout := if r.options.useAdaptiveTimeout then AdaptiveTimeout.init else {}

/-! ## The sending phase -/

/-- Put a block in its place in `data_packets`. -/
def Sender.store (l : Sender) (windowSize : UInt16) (block : Bytes) : Sender :=
  { l with dataPackets := fun i =>
      if i = (l.nextSequenceNumber - 1).toNat % windowSize.toNat then
        ⟨l.nextSequenceNumber, poke (l.dataPackets i).data 0 block⟩
      else l.dataPackets i }

/-- The packet that opens the window starts its clock, and is timed. -/
def startTimer : Act Sender Unit := do
  let r ← request
  let l ← locals
  if l.windowBegin = l.nextSequenceNumber then do
    let now ← clockGettime
    modifyLocals fun l => { l with startTime := now }
    if r.options.useAdaptiveTimeout then do
      let now ← clockGettime
      modifyLocals fun l => { l with adaptiveTimeout :=
        { l.adaptiveTimeout.startTimer (seconds now) with
          startingBlockNumber := l.nextSequenceNumber } }
    else pure ()
  else pure ()

/-- One round of the sending phase. A window of size zero divides by zero. -/
def sendNextPacket : Act Sender Unit := do
  let r ← request
  let l ← locals
  if r.options.windowSize = 0 then Prog.stop .crash
  else do
    let block := l.file.take r.options.blockSize.toNat
    -- an error of `fread` makes it short
    require
    modifyLocals fun l => { l.store r.options.windowSize block with
      file := l.file.drop block.length
      endOfFile := l.endOfFile || decide (block.length < r.options.blockSize.toNat)
      lastPacketSize := 4 + block.length }
    sendto r.serverAddr (.packet (.data l.nextSequenceNumber block))
    modify fun r => { r with fileBytesTransferred := r.fileBytesTransferred + block.length }
    startTimer
    modifyLocals fun l => { l with nextSequenceNumber := l.nextSequenceNumber + 1 }

/-- The sending phase. No more packets than sequence numbers are in a window. -/
def fillWindow : ℕ → Act Sender Unit
  | 0 => Prog.stop .hang
  | rounds + 1 => do
      let r ← request
      let l ← locals
      if l.endOfFile = false ∧ isInRange l.nextSequenceNumber l.windowBegin
          (l.windowBegin + r.options.windowSize - 1) then do
        sendNextPacket
        fillWindow rounds
      else pure ()

/-! ## The receiving phase -/

/-- The loop that sends the packets of the window again. The remainder is one of
`int`: that of block 0 is -1 when the window is larger than one, and as the
`packet_index` 65535 it lies far behind the array. -/
def retransmitFrom : ℕ → UInt16 → Act Sender Unit
  | 0, _ => Prog.stop .hang
  | rounds + 1, i => do
      let r ← request
      let l ← locals
      if isInRange i l.windowBegin (l.nextSequenceNumber - 1) then do
        let packetIndex := ((i.toNat : ℤ) - 1).tmod r.options.windowSize.toNat
        if r.options.windowSize = 0 ∨ packetIndex < 0 then Prog.stop .crash
        else do
          let packet := l.dataPackets packetIndex.toNat
          -- compared as `int`: no `i` is below number zero
          let packetSize := if i.toNat + 1 = l.nextSequenceNumber.toNat then l.lastPacketSize
            else 4 + r.options.blockSize.toNat
          sendto r.serverAddr
            (.packet (.data packet.blockNumber (packet.data.take (packetSize - 4))))
          retransmitFrom rounds (i + 1)
      else pure ()

/-- The loop has no end when it goes once around the sequence numbers with no
answer of the system left that could stop it. -/
def retransmitWindow : Act Sender Unit := do
  let s ← sys
  let l ← locals
  retransmitFrom (s.calls.length + 65537) l.windowBegin

/-- The time the window is open is counted from now on. -/
def restartClock : Act Sender Unit := do
  let now ← clockGettime
  modifyLocals fun l => { l with startTime := now }

/-- The adaptive timeout after a retransmission. -/
def backOff : Act Sender Unit := do
  let r ← request
  if r.options.useAdaptiveTimeout then
    modifyLocals fun l =>
      let adaptive := l.adaptiveTimeout.cancelTimer.backoff
      { l with adaptiveTimeout := adaptive, rto := adaptive.rto }
  else pure ()

/-- The timeout case of `send_file`. -/
def onTimeout : Act Sender Unit := do
  let r ← request
  let l ← locals
  if l.retransmissions > r.retries then fail
  else do
    modifyLocals fun l => { l with retransmissions := l.retransmissions + 1 }
    backOff
    restartClock
    retransmitWindow

/-- The window moves on; its clock starts again while packets are outstanding. -/
def advanceWindow (blockNumber : UInt16) : Act Sender Unit := do
  modifyLocals fun l => { l with windowBegin := blockNumber + 1 }
  let l ← locals
  if blockNumber + 1 ≠ l.nextSequenceNumber then restartClock else pure ()

/-- The adaptive timeout after an ACK that covers the packet that is timed. -/
def takeSample (blockNumber : UInt16) : Act Sender Unit := do
  let r ← request
  let l ← locals
  if r.options.useAdaptiveTimeout ∧ isInRange blockNumber
      l.adaptiveTimeout.startingBlockNumber (l.nextSequenceNumber - 1) then do
    let now ← clockGettime
    modifyLocals fun l =>
      let adaptive := l.adaptiveTimeout.stopTimer (seconds now)
      { l with adaptiveTimeout := adaptive, rto := adaptive.rto }
  else pure ()

/-- What `send_file` does with an ACK of some block. -/
def takeAck (blockNumber : UInt16) : Act Sender Unit := do
  let l ← locals
  if isInRange blockNumber l.windowBegin (l.nextSequenceNumber - 1) then do
    advanceWindow blockNumber
    modifyLocals fun l => { l with retransmissions := 0 }
    takeSample blockNumber
    if l.endOfFile ∧ blockNumber.toNat + 1 = l.nextSequenceNumber.toNat then
      Prog.stop (.returned true)
    else pure ()
  else pure ()

/-- The ACK case of `send_file`. -/
def onAck : Act Sender Unit := do
  let r ← request
  takeAck (readU16 r.recvBuffer 2)

/-- What `send_file` does with a datagram. -/
def answerDatagram (d : Datagram) : Act Sender Unit := do
  modify fun r => r.received d
  let r ← request
  if sockaddrEquals r.serverAddr d.sender = false then handleUnexpectedPeer d.sender
  else do
    let opcode := readU16 r.recvBuffer 0
    if opcode = Opcode.ack then onAck else fail

/-- The receiving phase; `recvfrom` is called while there is time left. -/
def awaitAnswer (a : Arrival) : Act Sender Unit := do
  let now ← clockGettime
  let l ← locals
  let remainingTime := l.rto - (seconds now - seconds l.startTime)
  if remainingTime ≤ 0 then onTimeout
  else do
    require
    match a with
    | .failed => fail
    | .timeout => onTimeout
    | .datagram d => answerDatagram d

/-- One round of the loop of `send_file`. -/
def sendRound (a : Arrival) : Act Sender Unit := do
  fillWindow 65537
  awaitAnswer a

end Tftp.Client
