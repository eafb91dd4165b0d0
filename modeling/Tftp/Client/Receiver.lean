import Tftp.Client.Request

/-!
# receive_file

The loop of a read request. A round is one `recvfrom` of `receive_packet` with
what the client does about it before the next one, so the loop of
`receive_packet` over its retransmissions is part of the loop of `receive_file`.
-/

namespace Tftp.Client

open Act

/-- The locals of `receive_file` and `receive_packet`, and what was written to
the file. -/
structure Receiver where
  isFirstReceive : Bool := true
  expectedSequenceNumber : UInt16 := 1
  retransmissions : UInt8 := 0
  written : Bytes := []
deriving DecidableEq, Repr

/-- `fwrite`: whether it stored all bytes. -/
def fwrite (bytes : Bytes) : Act Receiver Bool := do
  let s ← sys
  let stored := (s.fwrite.map Prod.fst).getD bytes.length
  modifyLocals fun l => { l with written := l.written ++ bytes.take stored }
  pure (decide (bytes.length ≤ stored))

/-- The OACK case of `receive_file`. -/
def receiveOack (bytesReceived : ℕ) : Act Receiver Unit := do
  let r ← request
  let l ← locals
  let isListRequest := r.options.active .readType
  if l.isFirstReceive = false then pure ()
  else do
    let accepted ← handleOackPacket bytesReceived
    let r ← request
    if accepted = false then fail
    else if isListRequest ∧ r.options.active .readType = false then do
      sendError invalidOptionsPacket
      fail
    else sendAck 0

/-- What the first DATA packet does to the options when no OACK came before. -/
def discardOptions : Act Receiver Unit := do
  let r ← request
  if r.useOptions then do
    modify fun r => { r with useOptions := false }
    if r.options.active .readType then do
      sendError invalidOptionsPacket
      modify fun r => { r with serverMayNotSupportOptions := true }
      fail
    else pure ()
  else pure ()
  modify fun r => { r with
    options := { r.options with
      windowSize := defaultWindowSize
      blockSize := defaultBlksize
      timeoutS := defaultTimeoutS
      useAdaptiveTimeout := false
      useTsize := false } }

/-- `bytes_received - sizeof *data_packet`, a `size_t` -/
def payloadSize (bytesReceived : ℕ) : ℕ := (bytesReceived + (2 ^ 64 - 4)) % 2 ^ 64

/-- Write the payload of a block, of `blockSize` bytes, and acknowledge it. -/
def keepBlock (r : Request) (blockNumber : UInt16) (blockSize : ℕ) (payload : Bytes) :
    Act Receiver Unit := do
  let stored ← fwrite payload
  if stored = false then do
    let s ← sys
    if (s.fwrite.map Prod.snd).getD false then sendError diskFullPacket else pure ()
    fail
  else do
    modify fun r => { r with fileBytesTransferred := r.fileBytesTransferred + blockSize }
    sendAck blockNumber
    if blockSize < r.options.blockSize.toNat then Prog.stop (.returned true) else pure ()

/-- Take the block that was expected. To write more bytes than the buffer has is
a crash. -/
def storeBlock (blockNumber : UInt16) (blockSize : ℕ) : Act Receiver Unit := do
  modifyLocals fun l => { l with expectedSequenceNumber := l.expectedSequenceNumber + 1 }
  let r ← request
  if r.recvBuffer.length < 4 + blockSize then Prog.stop .crash
  else keepBlock r blockNumber blockSize ((r.recvBuffer.drop 4).take blockSize)

/-- The DATA case of `receive_file`. -/
def receiveData (bytesReceived : ℕ) : Act Receiver Unit := do
  let l ← locals
  if l.isFirstReceive then discardOptions else pure ()
  let r ← request
  let blockNumber := readU16 r.recvBuffer 2
  if blockNumber ≠ l.expectedSequenceNumber then retransmitLastPacketSent
  else storeBlock blockNumber (payloadSize bytesReceived)

/-- The ERROR case of `receive_file`, and the other opcodes. -/
def refusePacket (opcode : UInt16) : Act Receiver Unit := do
  let l ← locals
  if opcode = Opcode.error then
    modify fun r => { r with serverMayNotSupportOptions := l.isFirstReceive && r.useOptions }
  else pure ()
  fail

/-- The switch of `receive_file`. -/
def switchOpcode (bytesReceived : ℕ) : Act Receiver Unit := do
  let r ← request
  let opcode := readU16 r.recvBuffer 0
  if opcode = Opcode.oack then receiveOack bytesReceived
  else if opcode = Opcode.data then receiveData bytesReceived
  else refusePacket opcode

/-- What `receive_file` does with a packet of some sender. -/
def receivePacket (sender : Address) (bytesReceived : ℕ) : Act Receiver Unit := do
  let r ← request
  if sockaddrEquals r.serverAddr sender = false then handleUnexpectedPeer sender
  else do
    switchOpcode bytesReceived
    modifyLocals fun l => { l with isFirstReceive := false }

/-- The body of `receive_file` after a datagram came in. -/
def receiveDatagram (d : Datagram) : Act Receiver Unit := do
  modify fun r => r.received d
  modifyLocals fun l => { l with retransmissions := 0 }
  let r ← request
  let l ← locals
  if r.bytesReceived d = 0 then fail
  else do
    if l.isFirstReceive then modify fun r => { r with serverAddr := d.sender } else pure ()
    receivePacket d.sender (r.bytesReceived d)

/-- One `recvfrom` of `receive_packet` and what follows from it. -/
def receiveRound : Arrival → Act Receiver Unit
  | .failed => fail
  | .timeout => do
      let r ← request
      let l ← locals
      if l.retransmissions = r.retries then do
        if l.isFirstReceive ∧ r.useOptions then
          modify fun r => { r with serverMayNotSupportOptions := true }
        else pure ()
        fail
      else do
        retransmitLastPacketSent
        modifyLocals fun l => { l with retransmissions := l.retransmissions + 1 }
  | .datagram d => receiveDatagram d

end Tftp.Client
