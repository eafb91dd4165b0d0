import Tftp.Lib.Prog
import Tftp.Options

/-!
# The request of a client

`struct request` and the functions of `client.c` that `receive_file` and
`send_file` share: what the client sends, how it sends its last packet again,
and how it takes an OACK. The two functions keep locals of their own, so the
state a program works on has a part `L` for them.
-/

namespace Tftp.Client

inductive RequestType where
  | get
  | put
deriving DecidableEq, Repr

/-- `struct options`: which options were requested, with the values the request
gives them, and the values in force. -/
structure Options where
  active : OptionKind → Bool := fun _ => false
  value : OptionKind → Bytes := fun _ => []
  timeoutS : UInt8 := 2
  blockSize : UInt16 := defaultBlksize
  windowSize : UInt16 := defaultWindowSize
  useTsize : Bool := false
  tsize : UInt64 := 0
  useAdaptiveTimeout : Bool := false

/-- `default_timeout_s` -/
def defaultTimeoutS : UInt8 := 2

/-- What a client sends: the request it started with, or a packet. -/
inductive Message where
  | request (bytes : Bytes)
  | packet (p : Packet)
deriving DecidableEq, Repr

/-- `last_packet_sent`; error packets are never stored there. -/
inductive LastPacket where
  | request (bytes : Bytes)
  | ack (blockNumber : UInt16)
deriving DecidableEq, Repr

def LastPacket.message : LastPacket → Message
  | .request bytes => .request bytes
  | .ack n => .packet (.ack n)

/-- `struct request`. The memory of the receive buffer holds what was received
last over what was there before. `recvTimeout` is `SO_RCVTIMEO` of the socket in
seconds, where zero waits forever, and `fileBytesTransferred` counts as a `size_t`
does below 2^64. -/
structure Request where
  requestType : RequestType
  filename : Bytes
  mode : Mode
  retries : UInt8
  useOptions : Bool
  options : Options
  serverAddr : Address
  recvTimeout : UInt8
  lastPacketSent : LastPacket
  recvBufferSize : ℕ
  recvBuffer : Bytes
  fileBytesTransferred : ℕ := 0
  serverMayNotSupportOptions : Bool := false

/-! ## Programs of the client -/

/-- The answers of the system to the calls of one round. `calls` are those that
just succeed or fail, in order; past its end they succeed. `fwrite` is how much
a failed `fwrite` stored, and whether the disk was full. `heap` is what memory
that `realloc` adds holds, and `ticks` how far the clock moves before each reading. -/
structure Sys where
  calls : List Bool := []
  fwrite : Option (ℕ × Bool) := none
  heap : Bytes := []
  ticks : List ℕ := []

/-- The state of a client: the request, the locals of the function it is in,
everything it sent, and the monotonic clock in nanoseconds. -/
structure World (L : Type) where
  request : Request
  locals : L
  sys : Sys := {}
  sent : List (Address × Message) := []
  clock : ℕ := 0

/-- How `receive_file` or `send_file` ends: with its result, with a trap, or
never. -/
inductive Outcome where
  | returned (success : Bool)
  | crash
  | hang
deriving DecidableEq, Repr

abbrev Act (L : Type) := Prog (World L) Outcome

namespace Act

variable {L : Type}

def request : Act L Request := Prog.gets World.request

def locals : Act L L := Prog.gets World.locals

def sys : Act L Sys := Prog.gets World.sys

def modify (f : Request → Request) : Act L Unit :=
  Prog.update fun w => { w with request := f w.request }

def modifyLocals (f : L → L) : Act L Unit :=
  Prog.update fun w => { w with locals := f w.locals }

/-- Make a call that can fail. -/
def attempt : Act L Bool := fun w =>
  match w.sys.calls with
  | [] => (.ok true, w)
  | answer :: rest => (.ok answer, { w with sys := { w.sys with calls := rest } })

/-- `clock_gettime(CLOCK_MONOTONIC, …)` -/
def clockGettime : Act L ℕ := fun w =>
  let now := w.clock + w.sys.ticks.headD 0
  (.ok now, { w with clock := now, sys := { w.sys with ticks := w.sys.ticks.tail } })

/-- `return false` from the function. -/
def fail {α : Type} : Act L α := Prog.stop (.returned false)

/-- A call whose failure makes the function return `false`. -/
def require : Act L Unit := do
  if ← attempt then pure () else fail

/-- A datagram leaves the client. -/
def emit (dest : Address) (message : Message) : Act L Unit :=
  Prog.update fun w => { w with sent := w.sent ++ [(dest, message)] }

/-- `sendto`, where its failure makes the function return `false`. -/
def sendto (dest : Address) (message : Message) : Act L Unit := do
  require
  emit dest message

/-- `sendto`, where its failure is only logged. -/
def trySendto (dest : Address) (message : Message) : Act L Unit := do
  if ← attempt then emit dest message else pure ()

end Act

open Act

variable {L : Type}

/-! ## Sending -/

/-- `send_ack` -/
def sendAck (blockNumber : UInt16) : Act L Unit := do
  let r ← request
  sendto r.serverAddr (.packet (.ack blockNumber))
  modify fun r => { r with lastPacketSent := .ack blockNumber }

/-- `retransmit_last_packet_sent` -/
def retransmitLastPacketSent : Act L Unit := do
  let r ← request
  sendto r.serverAddr r.lastPacketSent.message

/-- The entries of `tftp_error_packet_info` the client sends. -/
def diskFullPacket : Packet :=
  .error ErrorCode.diskFull (ascii "Disk full or allocation exceeded.")

def unknownTransferIdPacket : Packet :=
  .error ErrorCode.unknownTransferId (ascii "Unknown transfer ID.")

def invalidOptionsPacket : Packet :=
  .error ErrorCode.invalidOptions (ascii "Invalid options.")

/-- `send_error`, whose result nobody looks at. `TFTP_ERROR_NOT_DEFINED` has no
packet, so nothing is sent for it. -/
def sendError (packet : Packet) : Act L Unit := do
  let r ← request
  trySendto r.serverAddr (.packet packet)

/-- `handle_unexpected_peer` -/
def handleUnexpectedPeer (peer : Address) : Act L Unit :=
  trySendto peer (.packet unknownTransferIdPacket)

/-! ## Receiving -/

/-- `recvfrom` with a datagram: it is cut to the size of the buffer. -/
def Request.received (r : Request) (d : Datagram) : Request :=
  { r with recvBuffer := poke r.recvBuffer 0 (d.bytes.take r.recvBufferSize) }

def Request.bytesReceived (r : Request) (d : Datagram) : ℕ :=
  min d.bytes.length r.recvBufferSize

/-- The request once the first datagram has come in. -/
def Request.answeredBy (r : Request) (d : Datagram) : Request :=
  { r.received d with serverAddr := d.sender }

/-- What was received is read back as long as it lies in the buffer. -/
theorem Request.readU16_received {r : Request} {d : Datagram} {i : ℕ}
    (h : i + 2 ≤ r.bytesReceived d) :
    readU16 (r.received d).recvBuffer i = readU16 d.bytes i := by
  have byte (j : ℕ) (hj : j < r.bytesReceived d) :
      (r.received d).recvBuffer.getD j 0 = d.bytes.getD j 0 := by
    rw [bytesReceived, lt_min_iff] at hj
    have inside : j < (d.bytes.take r.recvBufferSize).length := by
      rw [List.length_take]
      omega
    rw [received, poke, List.take_zero, List.nil_append, List.getD_eq_getElem?_getD,
      List.getElem?_append_left inside, List.getElem?_take_of_lt hj.2,
      ← List.getD_eq_getElem?_getD]
  rw [readU16, readU16, byte i (by omega), byte (i + 1) (by omega)]

/-- What one call of `recvfrom` gives. -/
inductive Arrival where
  | datagram (d : Datagram)
  | timeout
  | failed

/-- `tftp_packet_buffer_size` -/
def packetBufferSize (blockSize : UInt16) : ℕ := max (4 + blockSize.toNat) 516

/-! ## Option acknowledgments -/

/-- The locals of `handle_oack_packet`, with the transfer size, which it writes
into the request at once. -/
structure Acknowledged where
  blockSize : UInt16
  timeout : UInt16
  windowSize : UInt16
  tsize : UInt64
  containsUnrequestedOptions : Bool := false

/-- One round of the loop of `handle_oack_packet` over the options; an option
that was not requested ends the loop. -/
def applyAcknowledged (memory : Bytes) (options : Options) (ackd : OptionTable) (a : Acknowledged)
    (o : OptionKind) : Acknowledged :=
  if a.containsUnrequestedOptions then a
  else
    match ackd.get o with
    | none => a
    | some v =>
        if options.active o = false then { a with containsUnrequestedOptions := true }
        else
          let value := (strtoul (v.text memory)).value
          match o with
          | .blksize => { a with blockSize := UInt16.ofNat value }
          | .timeout =>
              if options.useAdaptiveTimeout then a else { a with timeout := UInt16.ofNat value }
          | .tsize => { a with tsize := UInt64.ofNat value }
          | .windowsize => { a with windowSize := UInt16.ofNat value }
          | .readType => a

/-- The options an OACK of `packetSize` bytes acknowledges, and whether it
acknowledges an adaptive timeout that was asked for. -/
def acknowledgedOptions (r : Request) (packetSize : ℕ) : OptionTable × Bool :=
  let ackd := tftpParseOptions r.recvBuffer 2 (packetSize - 2) {}
  if r.options.useAdaptiveTimeout ∧ r.requestType = .get then
    if hasAdaptiveTimeout r.recvBuffer 2 (packetSize - 2) then
      (ackd.set .timeout (some (.separate (ascii "adaptive"))), true)
    else (ackd, false)
  else (ackd, r.options.useAdaptiveTimeout)

/-- The new sizes of blocks and of the window, where they change. In a write
request the receive buffer is an array on the stack, which `realloc` cannot
resize. -/
def takeSizes (a : Acknowledged) : Act L Bool := do
  let r ← request
  if a.blockSize ≠ r.options.blockSize ∨ a.windowSize ≠ r.options.windowSize then do
    modify fun r => { r with
      options := { r.options with blockSize := a.blockSize, windowSize := a.windowSize }
      recvBufferSize := packetBufferSize a.blockSize }
    if r.requestType = .put then Prog.stop .crash
    else do
      let moved ← attempt
      if moved = false then pure false
      else do
        let s ← sys
        modify fun r => { r with recvBuffer := r.recvBuffer ++ s.heap }
        pure true
  else pure true

/-- The new timeout, where it changes, is set for the socket too. -/
def takeTimeout (a : Acknowledged) : Act L Bool := do
  let r ← request
  if r.options.useAdaptiveTimeout = false ∧ a.timeout ≠ r.options.timeoutS.toUInt16 then do
    modify fun r => { r with options := { r.options with timeoutS := a.timeout.toUInt8 } }
    let set ← attempt
    if set = false then pure false
    else do
      modify fun r => { r with recvTimeout := r.options.timeoutS }
      pure true
  else pure true

/-- The part of `handle_oack_packet` after its loop. -/
def takeAcknowledged (options : Options) (ackd : OptionTable) (a : Acknowledged) : Act L Bool := do
  modify fun r => { r with options := { options with tsize := a.tsize } }
  if a.containsUnrequestedOptions then do
    sendError invalidOptionsPacket
    pure false
  else do
    let resized ← takeSizes a
    if resized = false then pure false
    else do
      let set ← takeTimeout a
      if set = false then pure false
      else do
        modify fun r => { r with options := { r.options with
          active := fun o =>
            if o = .readType ∧ ackd.isActive .readType = false then false
            else r.options.active o } }
        pure true

/-- The loop of `handle_oack_packet`, over an OACK in `memory`. -/
def acknowledged (memory : Bytes) (options : Options) (ackd : OptionTable) : Acknowledged :=
  OptionKind.all.foldl (applyAcknowledged memory options ackd)
    { blockSize := options.blockSize, timeout := options.timeoutS.toUInt16,
      windowSize := options.windowSize, tsize := options.tsize }

/-- `handle_oack_packet` -/
def handleOackPacket (packetSize : ℕ) : Act L Bool := do
  let r ← request
  let (ackd, adaptive) := acknowledgedOptions r packetSize
  let options := { r.options with useAdaptiveTimeout := adaptive }
  takeAcknowledged options ackd (acknowledged r.recvBuffer options ackd)

/-! ## Rules for the primitives -/

namespace World

variable {w : World L}

/-- The next answer of the system. -/
def answer (w : World L) : Bool := w.sys.calls.headD true

/-- The world after that answer. -/
def answered (w : World L) : World L := { w with sys := { w.sys with calls := w.sys.calls.tail } }

@[simp] theorem answered_request (w : World L) : w.answered.request = w.request := rfl
@[simp] theorem answered_locals (w : World L) : w.answered.locals = w.locals := rfl
@[simp] theorem answered_sent (w : World L) : w.answered.sent = w.sent := rfl
@[simp] theorem answered_fwrite (w : World L) : w.answered.sys.fwrite = w.sys.fwrite := rfl
@[simp] theorem answered_heap (w : World L) : w.answered.sys.heap = w.sys.heap := rfl
@[simp] theorem answered_clock (w : World L) : w.answered.clock = w.clock := rfl

/-- The world after a reading of the clock. -/
def ticked (w : World L) : World L :=
  { w with
    clock := w.clock + w.sys.ticks.headD 0
    sys := { w.sys with ticks := w.sys.ticks.tail } }

@[simp] theorem ticked_request (w : World L) : w.ticked.request = w.request := rfl
@[simp] theorem ticked_locals (w : World L) : w.ticked.locals = w.locals := rfl
@[simp] theorem ticked_sent (w : World L) : w.ticked.sent = w.sent := rfl

theorem clock_le_ticked (w : World L) : w.clock ≤ w.ticked.clock := Nat.le_add_right _ _

end World

namespace Act

open Prog

variable {α : Type} {E : Outcome → World L → Prop} {w : World L}

@[simp] theorem wp_request {Q : Request → World L → Prop} :
    wp request Q E w ↔ Q w.request w := Iff.rfl

@[simp] theorem wp_locals {Q : L → World L → Prop} : wp locals Q E w ↔ Q w.locals w := Iff.rfl

@[simp] theorem wp_sys {Q : Sys → World L → Prop} : wp sys Q E w ↔ Q w.sys w := Iff.rfl

@[simp] theorem wp_modify {f : Request → Request} {Q : Unit → World L → Prop} :
    wp (modify f) Q E w ↔ Q () { w with request := f w.request } := Iff.rfl

@[simp] theorem wp_modifyLocals {f : L → L} {Q : Unit → World L → Prop} :
    wp (modifyLocals f) Q E w ↔ Q () { w with locals := f w.locals } := Iff.rfl

@[simp] theorem wp_fail {Q : α → World L → Prop} :
    wp (fail : Act L α) Q E w ↔ E (.returned false) w := Iff.rfl

@[simp] theorem wp_attempt {Q : Bool → World L → Prop} :
    wp attempt Q E w ↔ Q w.answer w.answered := by
  rcases w with ⟨r, l, ⟨calls, _, _⟩, sent⟩
  cases calls <;> exact Iff.rfl

@[simp] theorem wp_clockGettime {Q : ℕ → World L → Prop} :
    wp clockGettime Q E w ↔ Q w.ticked.clock w.ticked := Iff.rfl

@[simp] theorem wp_require {Q : Unit → World L → Prop} :
    wp require Q E w ↔
      (w.answer = true → Q () w.answered) ∧
        (w.answer = false → E (.returned false) w.answered) := by
  simp [require]

@[simp] theorem wp_emit {dest : Address} {m : Message} {Q : Unit → World L → Prop} :
    wp (emit dest m) Q E w ↔ Q () { w with sent := w.sent ++ [(dest, m)] } := Iff.rfl

@[simp] theorem wp_sendto {dest : Address} {m : Message} {Q : Unit → World L → Prop} :
    wp (sendto dest m) Q E w ↔
      (w.answer = true → Q () { w.answered with sent := w.sent ++ [(dest, m)] }) ∧
        (w.answer = false → E (.returned false) w.answered) := by
  simp [sendto]

@[simp] theorem wp_trySendto {dest : Address} {m : Message} {Q : Unit → World L → Prop} :
    wp (trySendto dest m) Q E w ↔
      (w.answer = true → Q () { w.answered with sent := w.sent ++ [(dest, m)] }) ∧
        (w.answer = false → Q () w.answered) := by
  simp [trySendto]

@[simp] theorem wp_sendError {p : Packet} {Q : Unit → World L → Prop} :
    wp (sendError p) Q E w ↔
      (w.answer = true →
        Q () { w.answered with sent := w.sent ++ [(w.request.serverAddr, .packet p)] }) ∧
        (w.answer = false → Q () w.answered) := by
  simp [sendError]

theorem wp_sendAck {n : UInt16} {Q : Unit → World L → Prop} :
    wp (sendAck n) Q E w ↔
      (w.answer = true → Q ()
        { w.answered with
          request := { w.request with lastPacketSent := .ack n }
          sent := w.sent ++ [(w.request.serverAddr, .packet (.ack n))] }) ∧
        (w.answer = false → E (.returned false) w.answered) := by
  simp [sendAck]

theorem wp_retransmitLastPacketSent {Q : Unit → World L → Prop} :
    wp retransmitLastPacketSent Q E w ↔
      (w.answer = true → Q () { w.answered with
        sent := w.sent ++ [(w.request.serverAddr, w.request.lastPacketSent.message)] }) ∧
        (w.answer = false → E (.returned false) w.answered) := by
  simp [retransmitLastPacketSent]

end Act

end Tftp.Client
