import Tftp.Client.Process
import Tftp.Lib.Accesses
import Tftp.OptionReads
import Tftp.OptionValues
import Tftp.PacketCodec

/-!
# What a client reads of a datagram

The three receive loops of the client read opcode, block number, payload and
options at fixed places of a buffer that is used again for every datagram.
Only `receive_file` looks at the length first, and only for an empty one. Here
each of them has a twin that is given the received bytes and nothing else: what
lies behind them in the buffer is a fault, and so is a payload length that
underflows. A twin that meets no fault does what the loop does.
-/

namespace Tftp.Client

open Act Checked

/-- A listing ends with a first DATA packet, which is not read. -/
def EndsListing (w : World Receiver) : Prop :=
  w.locals.isFirstReceive = true ∧ w.request.useOptions = true ∧
    w.request.options.active .readType = true

instance (w : World Receiver) : Decidable (EndsListing w) := by unfold EndsListing; infer_instance

/-! ## The loops over the received bytes -/

namespace Scan

/-- A program that reads a packet. -/
abbrev Scanning (L : Type) := Accessing (World L) Outcome

variable {L : Type}

/-- `log_error_packet_received`: it reads the code and, up to the length it is
given, the message. -/
def logErrorPacketReceived (packet : Bytes) : Except Fault Unit := do
  if packet.length < 5 then return ()
  let _errorCode ← Codec.loadU16 (packet.drop 2)
  let _length ← strnlen (packet.drop 4) (packet.length - 4)
  return ()

/-- The options an OACK acknowledges; the two scans stay in it. -/
def acknowledgedOptions (r : Request) (packet : Bytes) : Except Fault (OptionTable × Bool) := do
  let ackd ← Scan.tftpParseOptions packet 2 (packet.length - 2) {}
  if r.options.useAdaptiveTimeout ∧ r.requestType = .get then
    if ← Scan.hasAdaptiveTimeout packet 2 (packet.length - 2) then
      return (ackd.set .timeout (some (.separate (ascii "adaptive"))), true)
    else return (ackd, false)
  else return (ackd, r.options.useAdaptiveTimeout)

/-- `handle_oack_packet` -/
def handleOackPacket (packet : Bytes) : Scanning L Bool := do
  let r ← lift request
  let (ackd, adaptive) ← access (acknowledgedOptions r packet)
  let options := { r.options with useAdaptiveTimeout := adaptive }
  lift <| takeAcknowledged options ackd (acknowledged packet options ackd)

/-- The OACK case of `receive_file`. -/
def receiveOack (packet : Bytes) : Scanning Receiver Unit := do
  let r ← lift request
  let l ← lift locals
  let isListRequest := r.options.active .readType
  if l.isFirstReceive = false then pure ()
  else do
    let accepted ← handleOackPacket packet
    let r ← lift request
    if accepted = false then lift fail
    else if isListRequest ∧ r.options.active .readType = false then lift do
      sendError invalidOptionsPacket
      fail
    else lift (sendAck 0)

/-- The payload of a DATA packet, of `blockSize` bytes. -/
def payload (packet : Bytes) (blockSize : ℕ) : Except Fault Bytes :=
  if 4 + blockSize ≤ packet.length then .ok ((packet.drop 4).take blockSize) else .error .read

/-- Take the block that was expected. -/
def storeBlock (blockNumber : UInt16) (blockSize : ℕ) (packet : Bytes) :
    Scanning Receiver Unit := do
  lift <| modifyLocals fun l => { l with expectedSequenceNumber := l.expectedSequenceNumber + 1 }
  let r ← lift request
  let bytes ← access (payload packet blockSize)
  lift <| keepBlock r blockNumber blockSize bytes

/-- The DATA case of `receive_file` once the options are settled. -/
def takeData (expected : UInt16) (packet : Bytes) : Scanning Receiver Unit := do
  let blockNumber ← access (Codec.loadU16 (packet.drop 2))
  if blockNumber ≠ expected then lift retransmitLastPacketSent
  else storeBlock blockNumber (payloadSize packet.length) packet

/-- The DATA case of `receive_file`. -/
def receiveData (packet : Bytes) : Scanning Receiver Unit := do
  let l ← lift locals
  if l.isFirstReceive then lift discardOptions else pure ()
  takeData l.expectedSequenceNumber packet

/-- The switch of `receive_file`. -/
def switchOpcode (packet : Bytes) : Scanning Receiver Unit := do
  let opcode ← access (Codec.loadU16 packet)
  if opcode = Opcode.oack then receiveOack packet
  else if opcode = Opcode.data then receiveData packet
  else do
    let _logged ← access (if opcode = Opcode.error then logErrorPacketReceived packet else .ok ())
    lift <| refusePacket opcode

/-- What `receive_file` does with a packet of some sender. -/
def receivePacket (sender : Address) (packet : Bytes) : Scanning Receiver Unit := do
  let r ← lift request
  if sockaddrEquals r.serverAddr sender = false then lift (handleUnexpectedPeer sender)
  else do
    switchOpcode packet
    lift <| modifyLocals fun l => { l with isFirstReceive := false }

/-- The body of `receive_file` after a datagram came in. -/
def receiveDatagram (d : Datagram) : Scanning Receiver Unit := do
  lift <| modify fun r => r.received d
  lift <| modifyLocals fun l => { l with retransmissions := 0 }
  let r ← lift request
  let l ← lift locals
  let packet := d.bytes.take (r.bytesReceived d)
  if packet.length = 0 then lift fail
  else do
    if l.isFirstReceive then lift <| modify fun r => { r with serverAddr := d.sender } else pure ()
    receivePacket d.sender packet

/-- What `handle_put_request` makes of the first datagram. -/
def handleFirstAnswer (packet : Bytes) : Scanning Requester Unit := do
  let r ← lift request
  let opcode ← access (Codec.loadU16 packet)
  if opcode = Opcode.oack then
    if r.useOptions = false then lift fail
    else do
      let _accepted ← handleOackPacket packet
      pure ()
  else if opcode = Opcode.ack then do
    let blockNumber ← access (Codec.loadU16 (packet.drop 2))
    lift <| takeFirstAck r blockNumber
  else do
    let _logged ← access (if opcode = Opcode.error then logErrorPacketReceived packet else .ok ())
    lift do
      if opcode = Opcode.error then
        modify fun r => { r with serverMayNotSupportOptions := r.useOptions }
      else pure ()
      fail

/-- What `send_file` does with a datagram. -/
def answerDatagram (d : Datagram) : Scanning Sender Unit := do
  lift <| modify fun r => r.received d
  let r ← lift request
  let packet := d.bytes.take (r.bytesReceived d)
  if sockaddrEquals r.serverAddr d.sender = false then lift (handleUnexpectedPeer d.sender)
  else do
    let opcode ← access (Codec.loadU16 packet)
    if opcode = Opcode.ack then do
      let blockNumber ← access (Codec.loadU16 (packet.drop 2))
      lift <| takeAck blockNumber
    else do
      let _logged ← access (if opcode = Opcode.error then logErrorPacketReceived packet else .ok ())
      lift fail

end Scan

namespace Process

/-- The datagram comes from the peer the client has accepted, or accepts with it. -/
def FromPeer (d : Datagram) : Process → Prop
  | .requesting _ _ => True
  | .receiving w => sockaddrEquals
      (if w.locals.isFirstReceive then d.sender else w.request.serverAddr) d.sender = true
  | .sending w => sockaddrEquals w.request.serverAddr d.sender = true
  | .ended _ _ _ => False

/-- How much of the datagram is received. -/
def bytesReceived (d : Datagram) : Process → ℕ
  | .requesting _ w => w.request.bytesReceived d
  | .receiving w => w.request.bytesReceived d
  | .sending w => w.request.bytesReceived d
  | .ended _ _ _ => 0

/-- What the client does with the datagram it does with the received bytes alone,
and no read of it goes beyond them. -/
def OnlyReceived (d : Datagram) : Process → Prop
  | .requesting _ w =>
      Scan.handleFirstAnswer (d.bytes.take (w.request.bytesReceived d)) (w.answeredBy d) =
        lift (handleFirstAnswer (w.request.bytesReceived d)) (w.answeredBy d)
  | .receiving w => Scan.receiveDatagram d w = lift (receiveDatagram d) w
  | .sending w => Scan.answerDatagram d w = lift (answerDatagram d) w
  | .ended _ _ _ => True

/-- The bytes of a datagram that are received. -/
def receivedBytes (d : Datagram) (p : Process) : Bytes := d.bytes.take (p.bytesReceived d)

/-- The datagram has an opcode, and what its opcode and the state of the client
call for: an OACK that is looked at consists of terminated strings, and an ACK
or DATA packet that is looked at has a block number. -/
def Whole (d : Datagram) : Process → Prop
  | .requesting file w =>
      let bytes := (Process.requesting file w).receivedBytes d
      2 ≤ bytes.length ∧
        (readU16 bytes 0 = Opcode.oack → w.request.useOptions = true → Terminated (bytes.drop 2)) ∧
        (readU16 bytes 0 = Opcode.ack → 4 ≤ bytes.length)
  | .receiving w =>
      let bytes := (Process.receiving w).receivedBytes d
      bytes = [] ∨ (2 ≤ bytes.length ∧
        (readU16 bytes 0 = Opcode.oack → w.locals.isFirstReceive = true →
          Terminated (bytes.drop 2)) ∧
        (readU16 bytes 0 = Opcode.data → ¬EndsListing w → 4 ≤ bytes.length))
  | .sending w =>
      let bytes := (Process.sending w).receivedBytes d
      2 ≤ bytes.length ∧ (readU16 bytes 0 = Opcode.ack → 4 ≤ bytes.length)
  | .ended _ _ _ => True

end Process

/-! ## The parts of a datagram -/

section

variable {r : Request} {d : Datagram} {n : ℕ}

theorem length_received : (d.bytes.take (r.bytesReceived d)).length = r.bytesReceived d := by
  rw [List.length_take, Request.bytesReceived]
  omega

theorem take_received : d.bytes.take (r.bytesReceived d) = d.bytes.take r.recvBufferSize := by
  rw [Request.bytesReceived, List.take_eq_take_iff]
  omega

/-- The buffer holds what was received, and then what was there before. -/
theorem prefix_received : d.bytes.take (r.bytesReceived d) <+: (r.received d).recvBuffer := by
  rw [take_received]
  exact List.prefix_append _ _

theorem readU16_append {front stale : Bytes} {i : ℕ} (h : i + 2 ≤ front.length) :
    readU16 (front ++ stale) i = readU16 front i := by
  have byte (j : ℕ) (hj : j < front.length) : (front ++ stale).getD j 0 = front.getD j 0 := by
    rw [List.getD_eq_getElem?_getD, List.getElem?_append_left hj, ← List.getD_eq_getElem?_getD]
  rw [readU16, readU16, byte i (by omega), byte (i + 1) (by omega)]

/-- A number is loaded where it lies in the packet. -/
theorem loadU16_drop {packet : Bytes} {i : ℕ} {n : UInt16} :
    Codec.loadU16 (packet.drop i) = .ok n ↔ i + 2 ≤ packet.length ∧ n = readU16 packet i := by
  have length := List.length_drop (i := i) (l := packet)
  by_cases h : 2 ≤ (packet.drop i).length
  · have place (j : ℕ) : (packet.drop i).getD j 0 = packet.getD (i + j) 0 := by
      rw [List.getD_eq_getElem?_getD, List.getElem?_drop, ← List.getD_eq_getElem?_getD]
    have same : readU16 (packet.drop i) 0 = readU16 packet i := by
      rw [readU16, readU16, place, place]
      rfl
    rw [Codec.loadU16_eq h, same]
    exact ⟨fun eq => ⟨by omega, (Except.ok.inj eq).symm⟩, fun eq => by rw [eq.2]⟩
  · rw [Codec.loadU16_short (by omega)]
    exact iff_of_false (fun eq => by cases eq) fun eq => h (by omega)

theorem loadU16_first {packet : Bytes} {n : UInt16} :
    Codec.loadU16 packet = .ok n ↔ 2 ≤ packet.length ∧ n = readU16 packet 0 := by
  have first := @loadU16_drop packet 0 n
  simpa using first

/-- To read a number is safe where it lies in the packet. -/
theorem safe_number {σ ε α : Type} {packet : Bytes} {i : ℕ} {f : UInt16 → Accessing σ ε α} {s : σ} :
    Safe (access (Codec.loadU16 (packet.drop i)) >>= f) s ↔
      i + 2 ≤ packet.length ∧ Safe (f (readU16 packet i)) s := by
  rw [safe_access_bind]
  constructor
  · rintro ⟨n, number, safe⟩
    obtain ⟨inside, rfl⟩ := loadU16_drop.mp number
    exact ⟨inside, safe⟩
  · exact fun ⟨inside, safe⟩ => ⟨_, loadU16_drop.mpr ⟨inside, rfl⟩, safe⟩

theorem safe_opcode {σ ε α : Type} {packet : Bytes} {f : UInt16 → Accessing σ ε α} {s : σ} :
    Safe (access (Codec.loadU16 packet) >>= f) s ↔
      2 ≤ packet.length ∧ Safe (f (readU16 packet 0)) s := by
  have first := @safe_number σ ε α packet 0 f s
  simpa using first

end

/-! ## The twins follow the loops -/

section

variable {L : Type} {packet : Bytes}

/-- The receive buffer starts with the packet. -/
def Holds (packet : Bytes) (w : World L) : Prop := packet <+: w.request.recvBuffer

theorem Holds.readU16 {w : World L} {i : ℕ} (h : Holds packet w) (inside : i + 2 ≤ packet.length) :
    readU16 w.request.recvBuffer i = readU16 packet i := by
  obtain ⟨stale, hs⟩ := h
  rw [← hs, readU16_append inside]

/-- The options of an OACK, when they are read without a fault. -/
theorem acknowledgedOptions_eq {r : Request} {b : OptionTable × Bool} (two : 2 ≤ packet.length)
    (h : packet <+: r.recvBuffer) (ok : Scan.acknowledgedOptions r packet = .ok b) :
    acknowledgedOptions r packet.length = b ∧ InMemory packet b.1 ∧ Terminated (packet.drop 2) := by
  obtain ⟨stale, hs⟩ := h
  have stop : 2 + (packet.length - 2) = packet.length := by omega
  rw [Scan.acknowledgedOptions] at ok
  obtain ⟨ackd, parsed, ok⟩ := bind_eq_ok ok
  rw [Tftp.Scan.tftpParseOptions, stop] at parsed
  have terminated := terminated_of_parse (by omega) parsed
  have inside : InMemory packet ackd := inMemory_of_parse .empty parsed
  have free : tftpParseOptions r.recvBuffer 2 (packet.length - 2) {} = ackd := by
    rw [tftpParseOptions, stop, ← hs]
    exact Except.ok.inj ((scan_parse terminated (by omega)
      (by rw [List.length_append]; omega)).symm.trans parsed)
  have adaptive : Tftp.Scan.hasAdaptiveTimeout packet 2 (packet.length - 2) =
      .ok (hasAdaptiveTimeout r.recvBuffer 2 (packet.length - 2)) := by
    rw [Tftp.Scan.hasAdaptiveTimeout, hasAdaptiveTimeout, stop, ← hs]
    exact scan_adaptive terminated (by omega) (by rw [List.length_append]; omega)
  rw [adaptive] at ok
  rw [acknowledgedOptions, free]
  split at ok
  next asked =>
    rw [if_pos asked]
    rw [ok_bind] at ok
    split at ok
    next found =>
      cases ok
      refine ⟨if_pos found, fun o v hv after => ?_, terminated⟩
      rw [OptionTable.get_set] at hv
      split at hv
      next =>
        cases hv
        rfl
      next => exact inside o v hv after
    next missing =>
      cases ok
      exact ⟨if_neg missing, inside, terminated⟩
  next other =>
    rw [if_neg other]
    cases ok
    exact ⟨rfl, inside, terminated⟩

/-- The values of an OACK are read in it. -/
theorem acknowledged_eq {memory : Bytes} {ackd : OptionTable} {options : Options}
    (h : packet <+: memory) (inside : InMemory packet ackd) :
    acknowledged memory options ackd = acknowledged packet options ackd := by
  obtain ⟨stale, rfl⟩ := h
  have round (a : Acknowledged) (o : OptionKind) :
      applyAcknowledged (packet ++ stale) options ackd a o =
        applyAcknowledged packet options ackd a o := by
    unfold applyAcknowledged
    cases hv : ackd.get o with
    | none => rfl
    | some v => simp only [inside o v hv stale]
  rw [acknowledged, acknowledged, funext₂ round]

theorem follows_handleOackPacket {w : World L} (h : Holds packet w) (two : 2 ≤ packet.length) :
    Follows (Scan.handleOackPacket packet) (handleOackPacket packet.length) w := by
  refine .bind (.lift _ _) fun r t same => ?_
  cases same
  refine .access fun b ok => ?_
  obtain ⟨free, inside, -⟩ := acknowledgedOptions_eq two h ok
  rw [free]
  dsimp only
  rw [acknowledged_eq h inside]
  exact .lift _ _

/-- An OACK is read without a fault when its options are terminated strings. -/
theorem safe_handleOackPacket {w : World L} (h : Holds packet w) (two : 2 ≤ packet.length) :
    Safe (Scan.handleOackPacket packet) w ↔ Terminated (packet.drop 2) := by
  rw [Scan.handleOackPacket, safe_lift_bind, wp_request, safe_access_bind]
  constructor
  · rintro ⟨b, ok, -⟩
    exact (acknowledgedOptions_eq two h ok).2.2
  · intro terminated
    have stop : 2 + (packet.length - 2) = packet.length := by omega
    have parsed : Tftp.Scan.parseOptionsFrom packet packet.length packet.length 2 {} =
        .ok (parseOptionsFrom (packet ++ []) packet.length packet.length 2 {}) :=
      scan_parse terminated (by omega) (by omega)
    have adaptive : Tftp.Scan.hasAdaptiveTimeoutFrom packet packet.length packet.length 2 =
        .ok (hasAdaptiveTimeoutFrom (packet ++ []) packet.length packet.length 2) :=
      scan_adaptive terminated (by omega) (by omega)
    have ok : ∃ b, Scan.acknowledgedOptions w.request packet = .ok b := by
      rw [Scan.acknowledgedOptions, Tftp.Scan.tftpParseOptions, Tftp.Scan.hasAdaptiveTimeout, stop,
        parsed, adaptive, ok_bind, ok_bind]
      split
      · split
        · exact ⟨_, rfl⟩
        · exact ⟨_, rfl⟩
      · exact ⟨_, rfl⟩
    obtain ⟨b, ok⟩ := ok
    exact ⟨b, ok, safe_lift⟩

/-! ### receive_file -/

theorem follows_receiveOack {w : World Receiver} (h : Holds packet w) (two : 2 ≤ packet.length) :
    Follows (Scan.receiveOack packet) (receiveOack packet.length) w := by
  refine .bind (.lift _ _) fun r t same => ?_
  cases same
  refine .bind (.lift _ _) fun l t same => ?_
  cases same
  refine .ite (fun _ => .pure _ _) fun _ => ?_
  refine .bind (follows_handleOackPacket h two) fun accepted t _ => ?_
  refine .bind (.lift _ _) fun r' t' _ => ?_
  exact .ite (fun _ => .lift _ _) fun _ => .ite (fun _ => .lift _ _) fun _ => .lift _ _

theorem safe_receiveOack {w : World Receiver} (h : Holds packet w) (two : 2 ≤ packet.length) :
    Safe (Scan.receiveOack packet) w ↔
      (w.locals.isFirstReceive = true → Terminated (packet.drop 2)) := by
  rw [Scan.receiveOack, safe_lift_bind, wp_request, safe_lift_bind, wp_locals]
  by_cases first : w.locals.isFirstReceive = false
  · rw [if_pos first]
    exact iff_of_true trivial fun other => absurd other (by rw [first]; decide)
  · rw [if_neg first, safe_bind_of_safe, safe_handleOackPacket h two]
    · exact ⟨fun terminated _ => terminated, fun terminated => terminated (by simpa using first)⟩
    · intro accepted t
      rw [safe_lift_bind, wp_request]
      split
      · exact safe_lift
      · split
        · exact safe_lift
        · exact safe_lift

/-- The length that is computed for a payload stays in a packet with a header. -/
theorem payloadSize_within {n : ℕ} (h : 4 ≤ n) : 4 + payloadSize n ≤ n := by
  have whole : n + (2 ^ 64 - 4) = (n - 4) + 2 ^ 64 := by omega
  have short := Nat.mod_le (n - 4) (2 ^ 64)
  rw [payloadSize, whole, Nat.add_mod_right]
  omega

theorem payload_eq_ok {blockSize : ℕ} {bytes : Bytes} :
    Scan.payload packet blockSize = .ok bytes ↔
      4 + blockSize ≤ packet.length ∧ bytes = (packet.drop 4).take blockSize := by
  by_cases inside : 4 + blockSize ≤ packet.length
  · rw [Scan.payload, if_pos inside]
    exact ⟨fun ok => ⟨inside, (Except.ok.inj ok).symm⟩, fun ok => by rw [ok.2]⟩
  · rw [Scan.payload, if_neg inside]
    exact iff_of_false (fun ok => by cases ok) fun ok => inside ok.1

theorem follows_storeBlock {w : World Receiver} (h : Holds packet w) (blockNumber : UInt16)
    (blockSize : ℕ) :
    Follows (Scan.storeBlock blockNumber blockSize packet) (storeBlock blockNumber blockSize) w := by
  refine .bind (.lift _ _) fun _ t same => ?_
  cases same
  refine .bind (.lift _ _) fun r t same => ?_
  cases same
  refine .access fun bytes ok => ?_
  obtain ⟨inside, rfl⟩ := payload_eq_ok.mp ok
  obtain ⟨stale, hs⟩ := h
  have longer : 4 + blockSize ≤ w.request.recvBuffer.length := by
    rw [← hs, List.length_append]
    omega
  have same : (w.request.recvBuffer.drop 4).take blockSize = (packet.drop 4).take blockSize := by
    rw [← hs, List.drop_append_of_le_length (by omega),
      List.take_append_of_le_length (by rw [List.length_drop]; omega)]
  dsimp only
  rw [if_neg (by omega), same]
  exact .lift _ _

/-- The first DATA packet leaves the receive buffer alone, and ends a listing. -/
theorem discardOptions_outcome (w : World Receiver) :
    Prog.wp discardOptions
      (fun _ t => t.request.recvBuffer = w.request.recvBuffer ∧
        ¬(w.request.useOptions = true ∧ w.request.options.active .readType = true))
      (fun _ _ => w.request.useOptions = true ∧ w.request.options.active .readType = true) w := by
  unfold discardOptions
  simp only [Prog.wp_bind, wp_request, Prog.wp_ite, wp_modify, wp_sendError, wp_fail]
  grind

theorem safe_storeBlock {t : World Receiver} {blockNumber : UInt16} {blockSize : ℕ}
    (inside : 4 + blockSize ≤ packet.length) :
    Safe (Scan.storeBlock blockNumber blockSize packet) t := by
  rw [Scan.storeBlock, safe_lift_bind, wp_modifyLocals, safe_lift_bind, wp_request,
    safe_access_bind]
  exact ⟨_, payload_eq_ok.mpr ⟨inside, rfl⟩, safe_lift⟩

/-- A packet with a header has a payload. -/
theorem safe_takeData {t : World Receiver} {expected : UInt16} :
    Safe (Scan.takeData expected packet) t ↔ 4 ≤ packet.length := by
  rw [Scan.takeData, safe_number, and_iff_left_of_imp]
  intro four
  have inside := payloadSize_within four
  generalize payloadSize packet.length = blockSize at inside ⊢
  split
  · exact safe_lift
  · exact safe_storeBlock inside

theorem follows_receiveData {w : World Receiver} (h : Holds packet w) :
    Follows (Scan.receiveData packet) (receiveData packet.length) w := by
  refine .bind (.lift _ _) fun l t same => ?_
  cases same
  have after (u : World Receiver) (hu : Holds packet u) :
      Follows (Scan.takeData w.locals.expectedSequenceNumber packet)
      (do
        let r ← request
        let blockNumber := readU16 r.recvBuffer 2
        if blockNumber ≠ w.locals.expectedSequenceNumber then retransmitLastPacketSent
        else storeBlock blockNumber (payloadSize packet.length)) u := by
    refine .access fun n number => .gets ?_
    obtain ⟨inside, rfl⟩ := loadU16_drop.mp number
    dsimp only
    rw [hu.readU16 inside]
    exact .ite (fun _ => .lift _ _) fun _ => follows_storeBlock hu _ _
  refine .ite (fun _ => ?_) fun _ => after w h
  refine .bind (.lift _ _) fun _ t run => after t ?_
  have outcome := discardOptions_outcome w
  unfold Prog.wp at outcome
  rw [run] at outcome
  rw [Holds, outcome.1]
  exact h

/-- After a first DATA packet that ends a listing nothing is read. -/
theorem safe_receiveData {w : World Receiver} :
    Safe (Scan.receiveData packet) w ↔ (¬EndsListing w → 4 ≤ packet.length) := by
  rw [Scan.receiveData, safe_lift_bind, wp_locals]
  dsimp only
  by_cases first : w.locals.isFirstReceive = true
  · rw [if_pos first, safe_lift_bind]
    have outcome := discardOptions_outcome w
    unfold Prog.wp at outcome ⊢
    generalize discardOptions w = result at outcome ⊢
    rcases result with ⟨o | _, t⟩
    · exact iff_of_true trivial fun other => absurd ⟨first, outcome⟩ other
    · dsimp only
      rw [safe_takeData]
      exact ⟨fun four _ => four, fun four => four fun listing => outcome.2 listing.2⟩
  · rw [if_neg first, safe_takeData]
    exact ⟨fun four _ => four, fun four => four fun listing => first listing.1⟩

/-- The message of an ERROR packet is looked for in the packet. -/
theorem logErrorPacketReceived_ok : Scan.logErrorPacketReceived packet = .ok () := by
  rw [Scan.logErrorPacketReceived]
  split
  · rfl
  · have code : Codec.loadU16 (packet.drop 2) = .ok (readU16 packet 2) :=
      loadU16_drop.mpr ⟨by omega, rfl⟩
    have length : packet.length - 4 = (packet.drop 4).length := (List.length_drop ..).symm
    rw [code, length, strnlen_length]
    rfl

theorem logged_ok (opcode : UInt16) :
    (if opcode = Opcode.error then Scan.logErrorPacketReceived packet else .ok ()) = .ok () := by
  rw [logErrorPacketReceived_ok, ite_self]

theorem follows_switchOpcode {w : World Receiver} (h : Holds packet w) :
    Follows (Scan.switchOpcode packet) (switchOpcode packet.length) w := by
  refine .access fun opcode number => .gets ?_
  obtain ⟨two, rfl⟩ := loadU16_first.mp number
  dsimp only
  rw [h.readU16 two]
  refine .ite (fun _ => follows_receiveOack h two) fun _ => ?_
  exact .ite (fun _ => follows_receiveData h) fun _ => .access fun _ _ => .lift _ _

theorem safe_switchOpcode {w : World Receiver} (h : Holds packet w) :
    Safe (Scan.switchOpcode packet) w ↔
      2 ≤ packet.length ∧
        (readU16 packet 0 = Opcode.oack → w.locals.isFirstReceive = true →
          Terminated (packet.drop 2)) ∧
        (readU16 packet 0 = Opcode.data → ¬EndsListing w → 4 ≤ packet.length) := by
  have distinct : Opcode.oack ≠ Opcode.data := by decide
  rw [Scan.switchOpcode, safe_opcode]
  refine and_congr_right fun two => ?_
  by_cases oack : readU16 packet 0 = Opcode.oack
  · rw [if_pos oack, safe_receiveOack h two]
    exact ⟨fun safe => ⟨fun _ => safe, fun data => absurd (oack.symm.trans data) distinct⟩,
      fun whole => whole.1 oack⟩
  · rw [if_neg oack]
    by_cases data : readU16 packet 0 = Opcode.data
    · rw [if_pos data, safe_receiveData]
      exact ⟨fun safe => ⟨fun other => absurd other oack, fun _ => safe⟩, fun whole => whole.2 data⟩
    · rw [if_neg data, logged_ok, safe_access_bind]
      exact iff_of_true ⟨(), rfl, safe_lift⟩
        ⟨fun other => absurd other oack, fun other => absurd other data⟩

/-- The packet of the accepted peer is looked at. -/
theorem safe_receivePacket {w : World Receiver} {sender : Address}
    (peer : sockaddrEquals w.request.serverAddr sender = true) :
    Safe (Scan.receivePacket sender packet) w ↔ Safe (Scan.switchOpcode packet) w := by
  rw [Scan.receivePacket, safe_lift_bind, wp_request, if_neg (by rw [peer]; decide),
    safe_bind_of_safe fun _ _ => safe_lift]

theorem follows_receivePacket {w : World Receiver} (h : Holds packet w) (sender : Address) :
    Follows (Scan.receivePacket sender packet) (receivePacket sender packet.length) w := by
  refine .bind (.lift _ _) fun r t same => ?_
  cases same
  exact .ite (fun _ => .lift _ _) fun _ => .bind (follows_switchOpcode h) fun _ _ _ => .lift _ _

end

section

variable {d : Datagram}

theorem follows_receiveDatagram (w : World Receiver) :
    Follows (Scan.receiveDatagram d) (receiveDatagram d) w := by
  refine .bind (.lift _ _) fun _ t same => ?_
  cases same
  refine .bind (.lift _ _) fun _ t same => ?_
  cases same
  refine .bind (.lift _ _) fun r t same => ?_
  cases same
  refine .bind (.lift _ _) fun l t same => ?_
  cases same
  dsimp only
  have peer (u : World Receiver) (hu : u.request.recvBuffer = (w.request.received d).recvBuffer) :
      Follows (Scan.receivePacket d.sender (d.bytes.take ((w.request.received d).bytesReceived d)))
        (receivePacket d.sender ((w.request.received d).bytesReceived d)) u := by
    have follows := follows_receivePacket (w := u) (hu ▸ prefix_received) d.sender
    rwa [length_received] at follows
  rw [length_received]
  refine .ite (fun _ => .lift _ _) fun _ => .ite (fun _ => ?_) fun _ => peer _ rfl
  refine .bind (.lift _ _) fun _ t same => ?_
  cases same
  exact peer _ rfl

/-- The datagram counts as one of the accepted peer. -/
theorem safe_receiveDatagram {w : World Receiver} (peer : (Process.receiving w).FromPeer d) :
    Safe (Scan.receiveDatagram d) w ↔ (Process.receiving w).Whole d := by
  have length := length_received (r := w.request) (d := d)
  have looked (u : World Receiver)
      (hu : u.request.recvBuffer = (w.request.received d).recvBuffer)
      (listing : EndsListing u ↔ EndsListing w)
      (first : u.locals.isFirstReceive = w.locals.isFirstReceive)
      (from_ : sockaddrEquals u.request.serverAddr d.sender = true) :
      Safe (Scan.receivePacket d.sender (d.bytes.take (w.request.bytesReceived d))) u ↔
        2 ≤ (d.bytes.take (w.request.bytesReceived d)).length ∧
          (readU16 (d.bytes.take (w.request.bytesReceived d)) 0 = Opcode.oack →
            w.locals.isFirstReceive = true →
              Terminated ((d.bytes.take (w.request.bytesReceived d)).drop 2)) ∧
          (readU16 (d.bytes.take (w.request.bytesReceived d)) 0 = Opcode.data →
            ¬EndsListing w → 4 ≤ (d.bytes.take (w.request.bytesReceived d)).length) := by
    have holds : Holds (d.bytes.take (w.request.bytesReceived d)) u := by
      rw [Holds, hu]
      exact prefix_received
    rw [safe_receivePacket from_, safe_switchOpcode holds, listing, first]
  rw [Scan.receiveDatagram, safe_lift_bind, wp_modify, safe_lift_bind, wp_modifyLocals,
    safe_lift_bind, wp_request, safe_lift_bind, wp_locals]
  dsimp only
  show Safe (if (d.bytes.take (w.request.bytesReceived d)).length = 0 then _ else _) _ ↔
    (d.bytes.take (w.request.bytesReceived d) = [] ∨ _)
  by_cases empty : (d.bytes.take (w.request.bytesReceived d)).length = 0
  · rw [if_pos empty]
    exact iff_of_true safe_lift (.inl (List.length_eq_zero_iff.mp empty))
  rw [if_neg empty, or_iff_right fun none_ => empty (by rw [none_]; rfl)]
  rw [Process.FromPeer] at peer
  by_cases first : w.locals.isFirstReceive = true
  · rw [if_pos first] at peer
    rw [if_pos first, safe_lift_bind, wp_modify]
    exact looked _ rfl Iff.rfl rfl peer
  · rw [if_neg first] at peer
    rw [if_neg first]
    exact looked _ rfl Iff.rfl rfl peer

/-! ### handle_put_request and send_file -/

theorem follows_handleFirstAnswer {packet : Bytes} {w : World Requester} (h : Holds packet w) :
    Follows (Scan.handleFirstAnswer packet) (handleFirstAnswer packet.length) w := by
  refine .bind (.lift _ _) fun r t same => ?_
  cases same
  refine .access fun opcode number => ?_
  obtain ⟨two, rfl⟩ := loadU16_first.mp number
  dsimp only
  rw [h.readU16 two]
  refine .ite (fun _ => ?_) fun _ => .ite (fun _ => ?_) fun _ => .access fun _ _ => .lift _ _
  · refine .ite (fun _ => .lift _ _) fun _ => ?_
    exact .bind (follows_handleOackPacket h two) fun _ t _ => .pure _ t
  · refine .access fun n number => ?_
    obtain ⟨four, rfl⟩ := loadU16_drop.mp number
    rw [h.readU16 four]
    exact .lift _ _

theorem safe_handleFirstAnswer {packet : Bytes} {w : World Requester} (h : Holds packet w) :
    Safe (Scan.handleFirstAnswer packet) w ↔
      2 ≤ packet.length ∧
        (readU16 packet 0 = Opcode.oack → w.request.useOptions = true →
          Terminated (packet.drop 2)) ∧
        (readU16 packet 0 = Opcode.ack → 4 ≤ packet.length) := by
  have distinct : Opcode.oack ≠ Opcode.ack := by decide
  rw [Scan.handleFirstAnswer, safe_lift_bind, wp_request, safe_opcode]
  refine and_congr_right fun two => ?_
  by_cases oack : readU16 packet 0 = Opcode.oack
  · rw [if_pos oack]
    have other : readU16 packet 0 = Opcode.ack → 4 ≤ packet.length :=
      fun ack => absurd (oack.symm.trans ack) distinct
    by_cases used : w.request.useOptions = false
    · rw [if_pos used]
      exact iff_of_true safe_lift ⟨fun _ asked => absurd asked (by rw [used]; decide), other⟩
    · rw [if_neg used, safe_bind_of_safe fun _ _ => safe_pure, safe_handleOackPacket h two]
      exact ⟨fun terminated => ⟨fun _ _ => terminated, other⟩,
        fun whole => whole.1 oack (by simpa using used)⟩
  · rw [if_neg oack]
    by_cases ack : readU16 packet 0 = Opcode.ack
    · rw [if_pos ack, safe_number, and_iff_left safe_lift]
      exact ⟨fun four => ⟨fun other => absurd other oack, fun _ => four⟩, fun whole => whole.2 ack⟩
    · rw [if_neg ack, logged_ok, safe_access_bind]
      exact iff_of_true ⟨(), rfl, safe_lift⟩
        ⟨fun other => absurd other oack, fun other => absurd other ack⟩

theorem follows_answerDatagram (w : World Sender) :
    Follows (Scan.answerDatagram d) (answerDatagram d) w := by
  refine .bind (.lift _ _) fun _ t same => ?_
  cases same
  refine .bind (.lift _ _) fun r t same => ?_
  cases same
  refine .ite (fun _ => .lift _ _) fun _ => .access fun opcode number => ?_
  obtain ⟨two, rfl⟩ := loadU16_first.mp number
  have holds : Holds (d.bytes.take (w.request.bytesReceived d))
    { w with request := w.request.received d } := prefix_received
  dsimp only
  rw [holds.readU16 two]
  refine .ite (fun _ => ?_) fun _ => .access fun _ _ => .lift _ _
  refine .access fun n number => .gets ?_
  obtain ⟨four, rfl⟩ := loadU16_drop.mp number
  rw [holds.readU16 four]
  exact .lift _ _

theorem safe_answerDatagram {w : World Sender} (peer : (Process.sending w).FromPeer d) :
    Safe (Scan.answerDatagram d) w ↔ (Process.sending w).Whole d := by
  rw [Process.FromPeer] at peer
  rw [Scan.answerDatagram, safe_lift_bind, wp_modify, safe_lift_bind, wp_request]
  dsimp only
  have same : sockaddrEquals (w.request.received d).serverAddr d.sender = true := peer
  rw [same, if_neg (by decide), safe_opcode]
  refine and_congr_right fun two => ?_
  by_cases ack : readU16 (d.bytes.take (w.request.bytesReceived d)) 0 = Opcode.ack
  · rw [if_pos (by exact ack), safe_number, and_iff_left safe_lift]
    exact ⟨fun four _ => four, fun four => four ack⟩
  · rw [if_neg (by exact ack), logged_ok, safe_access_bind]
    exact iff_of_true ⟨(), rfl, safe_lift⟩ fun other => absurd other ack

end

/-- The client reads only what it received exactly of a datagram that is whole. -/
theorem reads_received_iff {p : Process} {d : Datagram} (h : p.FromPeer d) :
    p.OnlyReceived d ↔ p.Whole d := by
  cases p with
  | requesting file w =>
      have holds : Holds (d.bytes.take (w.request.bytesReceived d)) (w.answeredBy d) :=
        prefix_received
      have follows := follows_handleFirstAnswer holds
      rw [length_received] at follows
      exact follows.eq_iff.trans (safe_handleFirstAnswer holds)
  | receiving w => exact (follows_receiveDatagram w).eq_iff.trans (safe_receiveDatagram h)
  | sending w => exact (follows_answerDatagram w).eq_iff.trans (safe_answerDatagram h)
  | ended _ _ _ => exact absurd h id

/-- A read without options, once it has sent the request. -/
def plainDownload : Call where
  requestType := .get
  retries := 0
  server := .inet 0 69
  filename := ascii "f"
  mode := .octet
  options := some {}

/-- A DATA packet of block 1 is read inside what came in. -/
theorem first_block_received :
    (plainDownload.run {} []).OnlyReceived ⟨.inet 0 1069, [0, 3, 0, 1, 65]⟩ := by
  refine (reads_received_iff (p := plainDownload.run {} []) (by rfl)).mpr (.inr ⟨?_, ?_, ?_⟩)
  · decide
  · exact fun h => absurd h (by decide)
  · exact fun _ _ => by decide

/-- The peer sends a block out of order, and a stranger leaves a block number
in the buffer. -/
def strangeNumber : List Event :=
  [⟨.datagram ⟨.inet 0 1069, [0, 3, 0, 5]⟩, {}⟩, ⟨.datagram ⟨.inet 9 1069, [0, 3, 0, 1]⟩, {}⟩]

/-- After that, two bytes of the peer count as block 1, with a payload that is
almost as long as the address space: the loop crashes where its twin faults at
the block number. -/
theorem stale_number_taken :
    ¬∀ (c : Call) (s : Sys) (events : List Event) (d : Datagram),
      (c.run s events).FromPeer d → (c.run s events).OnlyReceived d := by
  intro h
  have peer : (plainDownload.run {} strangeNumber).FromPeer ⟨.inet 0 1069, [0, 3]⟩ := by rfl
  have read := h plainDownload {} strangeNumber ⟨.inet 0 1069, [0, 3]⟩ peer
  rcases (safe_receiveDatagram peer).mp (safe_of_eq read) with none_ | ⟨-, -, four⟩
  · exact absurd none_ (by decide)
  · exact absurd (four rfl (by decide)) (by decide)

example : ∃ r sent, (plainDownload.run {} strangeNumber).step
    ⟨.datagram ⟨.inet 0 1069, [0, 3]⟩, {}⟩ = .ended .crash r sent :=
  ⟨_, _, rfl⟩

end Tftp.Client
