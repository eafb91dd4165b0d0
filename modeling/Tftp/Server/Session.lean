import Tftp.Lib.Serial
import Tftp.Server.World

/-!
# The session event handler

`session.c` and the functions it calls in `session_options.c` and
`session_file.c`, function by function. Log output is left out.
-/

namespace Tftp.Server

open Act

/-! ## Small helpers -/

/-- `is_in_range` -/
def isInRange (n begin_ end_ : UInt16) : Bool :=
  if begin_ ≤ end_ then begin_ ≤ n && n ≤ end_ else begin_ ≤ n || n ≤ end_

theorem isInRange_iff (n b e : UInt16) : isInRange n b e = true ↔ Serial.OnArc n b e := by
  rw [← Serial.test_iff_onArc, isInRange]
  split <;> simp

/-- `get_cumulative_ackd_payload_size`: the product is computed in `int`, the
sum converted to `size_t`. -/
def getCumulativeAckdPayloadSize (s : Session) (blockNumber : UInt16) : UInt64 :=
  let full := Int32.ofNat (s.blockSize.toNat * (blockNumber - s.windowBegin).toNat)
  let last := if s.lastPacket = some blockNumber then s.lastBlockSize else s.blockSize
  (full + Int32.ofNat last.toNat).toInt64.toUInt64

/-- The slot of `data_packets` that block number `i` uses. -/
def slotOf (s : Session) (i : UInt16) : ℕ := (i - 1).toNat % s.windowSize.toNat

/-- The number of payload bytes `get_data_packet_info` attributes to block
number `i`. -/
def payloadSize (s : Session) (i : UInt16) : UInt16 :=
  if s.lastPacket = some i then s.lastBlockSize else s.blockSize

/-- `get_data_packet_info`, as the packet that is sent for it. A window of
zero divides by zero; sending from unallocated memory fails. -/
def getDataPacketInfo (s : Session) (i : UInt16) (size : UInt16) : Act Packet :=
  if s.windowSize = 0 then Prog.stop .crash
  else
    match s.dataPackets with
    | none => Prog.stop .error
    | some slots =>
        let slot := slots (slotOf s i)
        pure (.data slot.blockNumber (slot.data.take size.toNat))

def updateSlot (slots : ℕ → Slot) (i : ℕ) (f : Slot → Slot) : ℕ → Slot :=
  fun j => if j = i then f (slots j) else slots j

/-! ## Submitting operations -/

/-- `recv_async` -/
def recvAsync : Act Unit := do
  submit (.recv false)
  modify fun s => { s with pendingJobs := s.pendingJobs + 1 }

/-- `recv_async_cancel` -/
def recvAsyncCancel : Act Unit := do
  require
  Prog.update fun w => { w with inflight := cancelRecv w.inflight ++ [.cancel] }
  modify fun s => { s with pendingJobs := s.pendingJobs + 1 }

/-- `submit_timeout` -/
def submitTimeout : Act Unit := do
  submit (.timeout .armed)
  modify fun s => { s with pendingJobs := s.pendingJobs + 1, isTimerActive := true }

/-- `submit_cancel_timeout` -/
def submitCancelTimeout : Act Unit := do
  require
  Prog.update fun w => { w with inflight := removeTimer w.inflight ++ [.timeoutRemove] }
  modify fun s => { s with pendingJobs := s.pendingJobs + 1, isTimerActive := false }

/-! ## Error reports -/

/-- `error_packet_init` -/
def errorPacketInit : Act Packet := do
  require
  let s ← session
  let packet := Packet.error s.stats.error.errorNumber s.stats.error.errorMessage
  modify fun s => { s with errorPacket := some packet }
  pure packet

/-- Build the ERROR packet of the recorded error and send it. -/
def sendErrorPacket (dest : Address) : Act Unit := do
  let packet ← errorPacketInit
  sendto dest packet

/-- `set_max_retransmissions_error` -/
def setMaxRetransmissionsError : Act Unit := do
  require
  let s ← session
  let text := ascii "timeout after " ++ formatNat s.currentRetransmission.toNat ++
    ascii " retransmits."
  recordFailure ErrorCode.notDefined
    (if s.lastPacket.isSome then text ++ ascii " Missed last ack." else text)

/-- `report_client_error`: the peer's own error is kept in the statistics. -/
def reportClientError (packet : Bytes) : Act Unit := do
  let message := packet.drop 4
  if message.contains 0 then require else pure ()
  let text :=
    if message.contains 0 then message.takeWhile (· != 0)
    else ascii "Error message received was invalid (not null terminated)."
  modify fun s => { s with stats := { s.stats with error := ⟨true, readU16 packet 2, text⟩ } }

/-! ## Producing DATA blocks -/

/-- `end_of_file`: the current offset is the end offset, or the source is not
seekable and gave nothing. The system answers for the offsets. -/
def endOfFile : Act Bool := do
  let a ← sys
  pure a.atEndOfFile

/-- `create_data_packets`: `false` while the block is still incomplete. -/
def createDataPackets (bytesRead : ℕ) : Act Bool := do
  modify fun s => { s with lastBlockSize := s.lastBlockSize + UInt16.ofNat bytesRead }
  let s ← session
  let atEnd ← endOfFile
  if bytesRead < s.blockSize.toNat ∧ atEnd = false then do
    modify fun s => { s with incompleteRead := true }
    pure false
  else
    if s.windowSize = 0 then Prog.stop .crash
    else
      match s.dataPackets with
      | none => Prog.stop .crash
      | some slots => do
          let slots' := updateSlot slots (slotOf s s.nextDataPacketToSend) fun slot =>
            { slot with blockNumber := s.nextDataPacketToSend }
          modify fun s => { s with dataPackets := some slots' }
          pure true

/-- `fetch_data_octet_async` -/
def fetchDataOctetAsync : Act Unit := do
  let s ← session
  if s.windowSize = 0 then Prog.stop .crash
  else do
    let done := if s.incompleteRead then s.lastBlockSize else 0
    modify fun s => { s with lastBlockSize := done, incompleteRead := false }
    submit (.read (slotOf s s.nextDataPacketToSend) done.toNat
      (s.blockSize.toNat - done.toNat) none)
    emit (.read s.fileDescriptor)
    modify fun s => { s with pendingJobs := s.pendingJobs + 1 }

/-- A failed read of the netascii encoder, in the two places of its loop. -/
def netasciiReadFailure : Act Bytes := do
  recordFailure ErrorCode.notDefined (ascii "Error while reading from source")
  Prog.stop .error

/-- The loop of `fetch_data_netascii_async`: `block` is what it has put in the
packet so far. Every round puts a byte there or ends the loop, so the block
size bounds the number of rounds. -/
def netasciiLoop (fd : ℤ) (blockSize : ℕ) : ℕ → Bytes → Act Bytes
  | 0, block => pure block
  | rounds + 1, block =>
      if block.length < blockSize then do
        let s ← session
        let block := block ++ s.netasciiBuffer.toList
        modify fun s => { s with netasciiBuffer := none }
        let answer ← readByte fd
        match answer with
        | .failed => netasciiReadFailure
        | .endOfFile => pure block
        | .byte c =>
            let block := block ++ [c]
            if c = 10 ∨ c = 13 then
              if block.length = blockSize then do
                modify fun s => { s with netasciiBuffer := some c }
                netasciiLoop fd blockSize rounds block
              else netasciiLoop fd blockSize rounds (block ++ [if c = 10 then 13 else 0])
            else netasciiLoop fd blockSize rounds block
      else pure block

/-- `fetch_data_netascii_async`. Without a packet buffer the first `read` has
nowhere to put its byte, and an end of file leads to a write through a null
pointer. -/
def fetchDataNetasciiAsync : Act Unit := do
  let s ← session
  if s.windowSize = 0 then Prog.stop .crash
  else
    match s.dataPackets with
    | none => do
        let answer ← readByte s.fileDescriptor
        if answer = .endOfFile then Prog.stop .crash
        else do
          let _ ← netasciiReadFailure
          pure ()
    | some slots => do
        let block ← netasciiLoop s.fileDescriptor s.blockSize.toNat s.blockSize.toNat []
        let slots' := updateSlot slots (slotOf s s.nextDataPacketToSend) fun slot =>
          { blockNumber := s.nextDataPacketToSend, data := poke slot.data 0 block }
        modify fun s =>
          { s with dataPackets := some slots', lastBlockSize := UInt16.ofNat block.length }
        submit .nop
        modify fun s => { s with pendingJobs := s.pendingJobs + 1 }

/-! ## Request parsing -/

/-- The token count of `is_request_valid`. At the start of a token the source
looks no further when a single byte is left; inside one, `memchr` looks for
the terminator up to the last byte. -/
def tokenLength : Bool → Bytes → ℕ
  | _, [] => 0
  | atStart, b :: rest =>
      if atStart ∧ rest = [] then 0
      else if b = 0 then tokenLength true rest + 1
      else tokenLength false rest

/-- `is_request_valid` -/
def isRequestValid (s : Session) : Bool :=
  let opcode := readU16 s.requestArgs.buffer 0
  let tokens := tokenLength true (s.requestArgs.buffer.drop 2)
  if opcode ≠ Opcode.rrq ∧ opcode ≠ Opcode.wrq then false
  else if opcode = Opcode.wrq ∧ s.info.isWriteRequestEnabled = false then false
  else if tokens < 2 ∨ tokens % 2 ≠ 0 then false
  else true

/-- `parse_mode` -/
def parseMode (modeStr : Bytes) : Mode :=
  if strcaseEq modeStr (ascii "octet") then .octet
  else if strcaseEq modeStr (ascii "netascii") then .netascii
  else .invalid

/-- The size of `options_storage`. -/
def optionsStorageSize : ℕ := requestPacketMaxSize - 2

/-- `session_options_init`: everything but its error report. -/
def sessionOptionsInit (s : Session) : Session :=
  let options := s.requestArgs.buffer.drop 2
  let n := options.length
  let storage := options ++ List.replicate (optionsStorageSize - n) 0
  let path := cstr storage 0
  let modeStr := cstr storage (path.length + 1)
  let size := n - (path.length + 1 + modeStr.length + 1)
  { s with
    options := { storage := storage, optionsStart := n - size, optionsSize := size }
    filename := path
    mode := parseMode modeStr }

/-- One round of the loop of `parse_options` over the recognized options. The
size of the file is printed into the option string itself. -/
def applyOption (fileSize : Option ℕ) (s : Session) (o : OptionKind) : Session :=
  match s.options.recognized.get o with
  | none => s
  | some v =>
      let s := { s with options := { s.options with validOptionsRequired := true } }
      let text := v.text s.options.storage
      match o with
      | .blksize => { s with blockSize := UInt16.ofNat (strtoul text).value }
      | .timeout =>
          if strcaseEq text (ascii "adaptive") then { s with isAdaptiveTimeoutActive := true }
          else { s with timeout := UInt8.ofNat (strtoul text).value }
      | .tsize =>
          match fileSize, v with
          | none, _ =>
              { s with options := { s.options with recognized := s.options.recognized.set o none } }
          | some size, .inPlace offset =>
              { s with options := { s.options with
                  storage := poke s.options.storage offset (formatNat size ++ [0]) } }
          | some size, .separate _ =>
              { s with options := { s.options with
                  recognized := s.options.recognized.set o (some (.separate (formatNat size))) } }
      | .windowsize => { s with windowSize := UInt16.ofNat (strtoul text).value }
      | .readType => s

/-- The recognized options of the request, before `parse_options` runs over
them. -/
def recognizedOptions (s : Session) : OptionTable :=
  let o := s.options
  let table := tftpParseOptions o.storage o.optionsStart o.optionsSize o.recognized
  if s.info.isListRequestEnabled then table else table.set .readType none

/-- The options `parse_options` goes through: a request for an adaptive
timeout takes the place of the timeout. -/
def acceptedOptions (s : Session) : OptionTable × Bool :=
  let adaptive := s.info.isAdaptiveTimeoutEnabled &&
    hasAdaptiveTimeout s.options.storage s.options.optionsStart s.options.optionsSize
  let table := recognizedOptions s
  (if adaptive then table.set .timeout (some (.separate (ascii "adaptive"))) else table, adaptive)

/-- `parse_options`, with the answer of `file_size_octet` or
`file_size_netascii`. -/
def parseOptions (fileSize : Option ℕ) (s : Session) : Session :=
  let accepted := acceptedOptions s
  OptionKind.all.foldl (applyOption fileSize)
    { s with
      isAdaptiveTimeoutActive := s.isAdaptiveTimeoutActive || accepted.2
      options := { s.options with recognized := accepted.1 } }

inductive ReadType where
  | file
  | directory
  | invalid
deriving DecidableEq, Repr

/-- `session_options_get_read_type`, with the table it leaves behind. -/
def getReadType (o : SessionOptions) : ReadType × OptionTable :=
  let table := tftpParseOptions o.storage o.optionsStart o.optionsSize o.recognized
  match table.readType with
  | none => (.file, table)
  | some v =>
      if strcaseEq (v.text o.storage) (ascii "directory") then (.directory, table)
      else (.invalid, table)

/-! ## Opening the file -/

/-- A failure of `session_file_init`, which returns -1 for it. -/
def fileFailure (errorNumber : UInt16) (message : Bytes) : Act ℤ := do
  recordFailure errorNumber message
  pure (-1)

/-- `open_directory_as_memfile` -/
def openDirectoryAsMemfile (a : FileAnswers) : Act ℤ :=
  if a.pathAllocated = false then
    fileFailure ErrorCode.notDefined
      (ascii "Could not allocate memory to calculate the directory path.")
  else
    match a.opendir with
    | none => fileFailure ErrorCode.fileNotFound (ascii "Could not open directory.")
    | some dir => do
        emit (.opened dir)
        match a.pipe with
        | none => fileFailure ErrorCode.notDefined (ascii "Could not create pipe.")
        | some (readEnd, writeEnd) => do
            emit (.opened readEnd)
            emit (.opened writeEnd)
            if a.setPipeSize = false then do
              emit (.closed readEnd)
              emit (.closed writeEnd)
              fileFailure ErrorCode.notDefined (ascii "Could not set pipe size.")
            else if a.pipeWrites = false then do
              emit (.closed dir)
              emit (.closed readEnd)
              emit (.closed writeEnd)
              fileFailure ErrorCode.notDefined (ascii "Could not write to pipe.")
            else do
              emit (.closed dir)
              emit (.closed writeEnd)
              pure readEnd

/-- `session_file_init`; only a read request lists a directory. -/
def sessionFileInit (requestType : RequestType) (readType : ReadType) (a : FileAnswers) : Act ℤ :=
  if requestType = .read ∧ readType = .directory then openDirectoryAsMemfile a
  else if a.pathAllocated = false then
    fileFailure ErrorCode.notDefined (ascii "Could not allocate memory to calculate the file path.")
  else
    match a.openFile with
    | .ok fd => do
        emit (.opened fd)
        pure fd
    | .error .eacces => fileFailure ErrorCode.accessViolation (ascii "Permission denied.")
    | .error .enoent => fileFailure ErrorCode.fileNotFound (ascii "No such file or directory.")
    | .error (.other strerror) => fileFailure ErrorCode.notDefined strerror

/-- The call of `file_size_octet` or `file_size_netascii` in `parse_options`;
the latter reads the file through. -/
def queryFileSize : Act (Option ℕ) := do
  let s ← session
  let a ← sys
  if (recognizedOptions s).isActive .tsize ∧ s.mode ≠ .octet then do
    emit (.read s.fileDescriptor)
    pure a.fileSize
  else pure a.fileSize

/-! ## Starting a session -/

/-- `session_connection_init`: the calls that set up the socket, as one. -/
def sessionConnectionInit : Act Unit := do
  let a ← sys
  match a.socket with
  | none => Prog.stop .error
  | some fd => do
      emit (.opened fd)
      modify fun s =>
        { s with
          sockfd := fd
          clientAddress := s.requestArgs.peerAddr
          recvBufferSize := defaultBlksize.toNat }

/-- The buffers `start` allocates once the options are known. -/
def allocateBuffers : Act Unit := do
  require
  let a ← sys
  modify fun s =>
    let size := s.blockSize.toNat
    { s with dataPackets := some fun i =>
        { a.heap i with data := ((a.heap i).data ++ List.replicate size 0).take size } }
  require
  modify fun s =>
    { s with
      recvBufferSize := 4 + max s.blockSize.toNat defaultBlksize.toNat
      eventTimeout := s.timeout.toNat }

/-- The part of `start` after the options are known. -/
def prepareTransfer : Act Unit := do
  modify fun s =>
    if s.isAdaptiveTimeoutActive then { s with adaptiveTimeout := AdaptiveTimeout.init } else s
  allocateBuffers
  let s ← session
  if s.stats.error.errorOccurred then do
    sendErrorPacket s.clientAddress
    modify fun s => { s with shouldClose := true }
  else pure ()

/-- The part of `start` after the file is open. -/
def startTransfer : Act Unit := do
  let s ← session
  if s.options.optionsSize = 0 then prepareTransfer
  else do
    let size ← queryFileSize
    modify (parseOptions size)
    modify fun s => { s with stats := { s.stats with
      blksize := s.blockSize
      windowSize := if s.requestType = .read then s.windowSize else s.stats.windowSize } }
    prepareTransfer

/-- The request type `start` reads off the opcode. -/
def Session.opcodeType (s : Session) : RequestType :=
  if readU16 s.requestArgs.buffer 0 = Opcode.wrq then .write else .read

/-- The part of `start` up to the check of the mode. -/
def readRequest : Act Unit := do
  modify fun s => { s with requestType := s.opcodeType }
  sessionConnectionInit
  modify fun s => { s with stats := {} }
  modify sessionOptionsInit
  modify fun s => { s with stats := { s.stats with mode := s.mode } }

/-- What a request wants to read, and the table of options this leaves. -/
def Session.readType (s : Session) : ReadType × OptionTable :=
  if s.options.optionsSize ≠ 0 ∧ s.info.isListRequestEnabled ∧ s.requestType = .read then
    getReadType s.options
  else (.file, s.options.recognized)

/-- The part of `start` that opens the file. A file that cannot be opened is
neither reported nor a reason to close. -/
def openFile : Act Unit := do
  let s ← session
  let a ← sys
  modify fun s => { s with options := { s.options with recognized := s.readType.2 } }
  let fd ← sessionFileInit s.requestType s.readType.1 a.file
  modify fun s => { s with fileDescriptor := fd }
  if fd = -1 then pure () else startTransfer

/-- `start`. An unknown mode is neither reported nor a reason to close. -/
def start : Act Unit := do
  let s ← session
  if isRequestValid s = false then modify fun s => { s with shouldClose := true }
  else do
    readRequest
    let s ← session
    if s.mode = .invalid then recordFailure ErrorCode.illegalOperation (ascii "Unknown mode.")
    else openFile

/-- `send_oack` -/
def sendOack : Act Unit := do
  require
  let a ← sys
  let s ← session
  let packet := Packet.oack (optionsValues s.options.storage s.options.recognized)
  modify fun s =>
    { s with
      oackPacket := some packet
      adaptiveTimeout :=
        if s.isAdaptiveTimeoutActive then
          { s.adaptiveTimeout.startTimer a.clock with startingBlockNumber := 0 }
        else s.adaptiveTimeout }
  submitTimeout
  sendto s.clientAddress packet

/-- The options are acknowledged, or there are none to acknowledge. -/
def Session.optionsSettled (s : Session) : Bool :=
  !s.options.validOptionsRequired || s.options.optionsAcknowledged

/-- `EVENT_START`. The ACK of a write request is sent with `!sendto(...)`, so
its failure goes unnoticed. -/
def onStart : Act Unit := do
  start
  let s ← session
  if s.shouldClose then pure ()
  else do
    if s.optionsSettled = false then sendOack
    else if s.requestType = .write then do
      if ← attempt then emit (.sent s.clientAddress (.ack 0)) else pure ()
    else pure ()
    recvAsync

/-! ## Event handlers -/

/-- The part of `on_data_available` that sends the block. -/
def sendNextBlock : Act Unit := do
  let a ← sys
  modify fun s =>
    if s.isAdaptiveTimeoutActive && !s.adaptiveTimeout.isTimerActive then
      { s with adaptiveTimeout :=
          { s.adaptiveTimeout.startTimer a.clock with
            startingBlockNumber := s.nextDataPacketToSend } }
    else s
  let s ← session
  let packet ← getDataPacketInfo s s.nextDataPacketToSend s.lastBlockSize
  sendto s.clientAddress packet
  modify fun s =>
    { s with
      stats := { s.stats with packetsSent := s.stats.packetsSent + 1 }
      lastPacket :=
        if s.lastBlockSize < s.blockSize then some s.nextDataPacketToSend else s.lastPacket }
  let s ← session
  if s.windowBegin = s.nextDataPacketToSend then submitTimeout else pure ()
  modify fun s => { s with nextDataPacketToSend := s.nextDataPacketToSend + 1 }

/-- The failure branch of `on_data_available`. -/
def readFailure : Act Unit := do
  modify fun s => { s with shouldClose := true }
  recordFailure ErrorCode.notDefined (ascii "Error while reading from source")
  let s ← session
  sendErrorPacket s.clientAddress

/-- `on_data_available` -/
def onDataAvailable (c : Completion ℕ) : Act Unit := do
  let s ← session
  if s.mode = .octet then
    match c with
    | .error _ => readFailure
    | .ok bytesRead => do
        if ← createDataPackets bytesRead then sendNextBlock else pure ()
  else sendNextBlock

/-- The retransmission loop of `on_timeout`, from block number `i` on. A loop
that has not ended after a full turn never ends. -/
def retransmitWindow : ℕ → UInt16 → Act Unit
  | 0, _ => Prog.stop .hang
  | rounds + 1, i => do
      let s ← session
      if isInRange i s.windowBegin (s.nextDataPacketToSend - 1) then do
        let packet ← getDataPacketInfo s i (payloadSize s i)
        sendto s.clientAddress packet
        retransmitWindow rounds (i + 1)
      else pure ()

/-- The full turn of a block number and the test that follows it. -/
def fullTurn : ℕ := 65537

/-- The branch of `on_timeout` for exhausted retries. -/
def giveUp : Act Unit := do
  modify fun s => { s with shouldClose := true }
  recvAsyncCancel
  setMaxRetransmissionsError
  let s ← session
  sendErrorPacket s.clientAddress

/-- What `on_timeout` retransmits once the timer is armed again. -/
def retransmit : Act Unit := do
  let s ← session
  if s.optionsSettled = false then
    match s.oackPacket with
    | none => Prog.stop .error
    | some packet => sendto s.clientAddress packet
  else if s.requestType = .write then
    sendto s.clientAddress (.ack (s.expectedSequenceNumber - 1))
  else retransmitWindow fullTurn s.windowBegin

/-- `on_timeout` -/
def onTimeout : Act Unit := do
  let s ← session
  if s.currentRetransmission ≥ s.retries then giveUp
  else do
    modify fun s =>
      { s with
        currentRetransmission := s.currentRetransmission + 1
        totalRetransmissions := s.totalRetransmissions + 1 }
    modify fun s =>
      if s.isAdaptiveTimeoutActive then
        let t := s.adaptiveTimeout.cancelTimer.backoff
        { s with adaptiveTimeout := t, eventTimeout := t.rto }
      else s
    submitTimeout
    retransmit

/-- The DATA case of `on_packet_received` for a block it accepts. -/
def acceptBlock (blockNumber : UInt16) (data : Bytes) : Act Unit := do
  let s ← session
  let a ← sys
  emit (.wrote s.fileDescriptor (data.take (a.write.getD 0)))
  match a.write with
  | none => do
      recordFailure ErrorCode.notDefined (ascii "Error writing to disk")
      Prog.stop .error
  | some written => do
      modify fun s => { s with stats := { s.stats with
        bytesSent := s.stats.bytesSent + UInt64.ofNat (min written data.length) } }
      sendto s.clientAddress (.ack blockNumber)
      modify fun s =>
        { s with
          expectedSequenceNumber := s.expectedSequenceNumber + 1
          stats := { s.stats with packetsAcked := s.stats.packetsAcked + 1 }
          currentRetransmission := 0
          shouldClose := decide (data.length < s.blockSize.toNat) }

/-- The DATA case of `on_packet_received`, in a write session. -/
def onData (packet : Bytes) : Act Unit := do
  let s ← session
  let blockNumber := readU16 packet 2
  if s.optionsSettled = false ∧ blockNumber = 1 then do
    modify fun s => { s with options := { s.options with optionsAcknowledged := true } }
    acceptBlock blockNumber (packet.drop 4)
  else if blockNumber ≠ s.expectedSequenceNumber then pure ()
  else acceptBlock blockNumber (packet.drop 4)

/-- What the ACK case of `on_packet_received` does with an ACK it takes. -/
def acceptAck (blockNumber : UInt16) : Act Unit := do
  modify fun s => { s with windowBegin := blockNumber + 1 }
  let a ← sys
  modify fun s =>
    if s.isAdaptiveTimeoutActive && s.adaptiveTimeout.isTimerActive &&
        isInRange blockNumber s.adaptiveTimeout.startingBlockNumber
          (s.nextDataPacketToSend - 1) then
      let t := s.adaptiveTimeout.stopTimer a.clock
      { s with adaptiveTimeout := t, eventTimeout := t.rto }
    else s
  submitCancelTimeout
  let s ← session
  -- packets to retransmit still exist
  if s.windowBegin ≠ s.nextDataPacketToSend then submitTimeout else pure ()
  modify fun s =>
    { s with
      stats := { s.stats with packetsAcked := s.stats.packetsAcked + 1 }
      currentRetransmission := 0
      shouldClose := s.lastPacket = some blockNumber }

/-- The ACK case of `on_packet_received`, in a read session. -/
def onAck (packet : Bytes) : Act Unit := do
  let s ← session
  let blockNumber := readU16 packet 2
  if s.optionsSettled = false ∧ blockNumber = 0 then do
    modify fun s => { s with options := { s.options with optionsAcknowledged := true } }
    acceptAck blockNumber
  else if isInRange blockNumber s.windowBegin (s.nextDataPacketToSend - 1) = false then pure ()
  else do
    modify fun s => { s with stats := { s.stats with
      bytesSent := s.stats.bytesSent + getCumulativeAckdPayloadSize s blockNumber } }
    acceptAck blockNumber

/-- The end of `on_packet_received`, for an opcode it does not expect. -/
def unexpectedOpcode : Act Unit := do
  modify fun s => { s with shouldClose := true }
  recordFailure ErrorCode.illegalOperation (ascii "Unexpected packet opcode.")
  let s ← session
  sendErrorPacket s.clientAddress

/-- The reply to a datagram of another sender; the error record is only lent
to it. -/
def unknownTransferId (sender : Address) : Act Unit := do
  modify fun s => { s with stats := { s.stats with
    error := ⟨true, ErrorCode.unknownTransferId, ascii "Unknown transfer ID."⟩ } }
  sendErrorPacket sender
  modify fun s => { s with stats := { s.stats with
    error := { s.stats.error with errorOccurred := false } } }

/-- `on_packet_received` -/
def onPacketReceived (c : Completion Datagram) : Act Unit :=
  match c with
  | .error _ => Prog.stop .error
  | .ok d => do
      let s ← session
      if d.bytes.length < 4 then pure ()
      else if d.sender.isInet = false then pure ()
      else if sockaddrEquals d.sender s.clientAddress = false then unknownTransferId d.sender
      else
        let opcode := readU16 d.bytes 0
        if opcode = Opcode.error then do
          modify fun s => { s with shouldClose := true }
          reportClientError d.bytes
        else if opcode = Opcode.data ∧ s.requestType = .write then onData d.bytes
        else if opcode = Opcode.ack ∧ s.requestType = .read then onAck d.bytes
        else unexpectedOpcode

/-! ## The event loop's entry point -/

/-- What `tftp_session_handle_event` returns when it does not return
`TFTP_SESSION_STATE_ERROR`. -/
inductive SessionState where
  | idle
  | closed
deriving DecidableEq, Repr

/-- `session->pending_jobs--` -/
def jobDone : Act Unit := modify fun s => { s with pendingJobs := s.pendingJobs - 1 }

/-- The `switch` of `tftp_session_handle_event`. -/
def dispatch : Event → Act Unit
  | .start => onStart
  | .timeout c => do
      jobDone
      let s ← session
      if c = .error ENOENT ∨ c = .error ECANCELED then pure ()
      else if s.shouldClose ∨ s.isTimerActive = false then pure ()
      else onTimeout
  | .timeoutRemoved c => do
      jobDone
      match c with
      | .ok _ => pure ()
      | .error e =>
          if e ≠ 0 ∧ e ≠ ENOENT ∧ e ≠ EALREADY then Prog.stop .error else pure ()
  | .packetReceived c => do
      jobDone
      let s ← session
      if s.shouldClose then pure ()
      else
        match c with
        | .error e => if e = ECANCELED then pure () else onPacketReceived (.error e)
        | .ok d => do
            onPacketReceived (.ok d)
            let s ← session
            if s.shouldClose then pure () else recvAsync
  | .packetReceivedRemoved c => do
      jobDone
      match c with
      | .ok _ => pure ()
      | .error e => if e ≠ 0 ∧ e ≠ ENOENT then Prog.stop .error else pure ()
  | .dataAvailable c => do
      jobDone
      modify fun s => { s with isFetchingData := false }
      onDataAvailable c

/-- `should_fetch_data` -/
def shouldFetchData (s : Session) : Bool :=
  s.requestType = .read && !s.isFetchingData && !s.shouldClose && s.optionsSettled &&
    s.lastPacket.isNone &&
    isInRange s.nextDataPacketToSend s.windowBegin (s.windowBegin + s.windowSize - 1)

/-- The read-ahead after the `switch`. -/
def fetchData : Act Unit := do
  let s ← session
  if shouldFetchData s then do
    modify fun s => { s with isFetchingData := true }
    if s.mode = .octet then fetchDataOctetAsync else fetchDataNetasciiAsync
  else pure ()

/-- `close_session` -/
def closeSession : Act Unit := do
  let s ← session
  if s.fileDescriptor ≠ -1 then emit (.closed s.fileDescriptor) else pure ()
  if s.sockfd ≠ -1 then emit (.closed s.sockfd) else pure ()

/-- The end of `tftp_session_handle_event`. -/
def finish : Act SessionState := do
  let s ← session
  if s.shouldClose ∧ s.pendingJobs = 0 then do
    modify fun s => { s with stats := { s.stats with retransmits := s.totalRetransmissions } }
    let s ← session
    if s.info.hasStatsCallback then emit (.reported s.stats) else pure ()
    closeSession
    pure .closed
  else pure .idle

/-- `tftp_session_handle_event` -/
def handleEvent (e : Event) : Act SessionState := do
  dispatch e
  fetchData
  finish

end Tftp.Server
