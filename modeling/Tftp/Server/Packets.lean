import Tftp.Server.Control

/-!
# The packets of a read session

`Buffer` is what a read session keeps of the file it serves: the slots in
which its DATA packets are built, and the fields that say which block is being
read into them. Only the start of the session, a completed read and the
read-ahead touch it. What the retransmission loop sends is read off it.
-/

namespace Tftp.Server

open Prog Act

structure Buffer where
  mode : Mode
  blockSize : UInt16
  windowSize : UInt16
  nextDataPacketToSend : UInt16
  lastPacket : Option UInt16
  lastBlockSize : UInt16
  incompleteRead : Bool
  dataPackets : Option (ℕ → Slot)

def World.buffer (w : World) : Buffer where
  mode := w.session.mode
  blockSize := w.session.blockSize
  windowSize := w.session.windowSize
  nextDataPacketToSend := w.session.nextDataPacketToSend
  lastPacket := w.session.lastPacket
  lastBlockSize := w.session.lastBlockSize
  incompleteRead := w.session.incompleteRead
  dataPackets := w.session.dataPackets

namespace Buffer

/-- The slot of block number `i`. -/
def slotOf (b : Buffer) (i : UInt16) : ℕ := (i - 1).toNat % b.windowSize.toNat

/-- The size `get_data_packet_info` gives to the payload of block number `i`. -/
def payloadSize (b : Buffer) (i : UInt16) : UInt16 :=
  if b.lastPacket = some i then b.lastBlockSize else b.blockSize

/-- The packet that stands for block number `i`. -/
def packet (b : Buffer) (slots : ℕ → Slot) (i : UInt16) : Packet :=
  .data (slots (b.slotOf i)).blockNumber
    ((slots (b.slotOf i)).data.take (b.payloadSize i).toNat)

/-- The packets of `m` blocks from position `k` on. -/
def packets (b : Buffer) (slots : ℕ → Slot) (k m : ℕ) : List Packet :=
  (List.range' k m).map fun j => b.packet slots (UInt16.ofNat j)

/-- A read of `k` bytes does not complete the block. -/
def Incomplete (b : Buffer) (k : ℕ) (atEndOfFile : Bool) : Prop :=
  k < b.blockSize.toNat ∧ atEndOfFile = false

instance (b : Buffer) (k : ℕ) (atEndOfFile : Bool) : Decidable (b.Incomplete k atEndOfFile) := by
  unfold Incomplete; infer_instance

/-- The read put `k` bytes in the block, and more are to come. -/
def gather (b : Buffer) (k : ℕ) : Buffer :=
  { b with lastBlockSize := b.lastBlockSize + UInt16.ofNat k, incompleteRead := true }

/-- The block is complete: its packet gets its number. -/
def complete (b : Buffer) (slots : ℕ → Slot) (k : ℕ) : Buffer :=
  { b with
    lastBlockSize := b.lastBlockSize + UInt16.ofNat k
    dataPackets := some (updateSlot slots (b.slotOf b.nextDataPacketToSend) fun slot =>
      { slot with blockNumber := b.nextDataPacketToSend }) }

/-- The packet `on_data_available` sends for the block that was read. -/
def nextPacket (b : Buffer) (slots : ℕ → Slot) : Packet :=
  .data (slots (b.slotOf b.nextDataPacketToSend)).blockNumber
    ((slots (b.slotOf b.nextDataPacketToSend)).data.take b.lastBlockSize.toNat)

/-- That packet, once a read of `k` bytes has completed the block. -/
def filledPacket (b : Buffer) (slots : ℕ → Slot) (k : ℕ) : Packet :=
  .data b.nextDataPacketToSend ((slots (b.slotOf b.nextDataPacketToSend)).data.take
    (b.lastBlockSize + UInt16.ofNat k).toNat)

@[simp] theorem nextPacket_complete (b : Buffer) (slots : ℕ → Slot) (k : ℕ) :
    (b.complete slots k).nextPacket (updateSlot slots (b.slotOf b.nextDataPacketToSend)
      fun slot => { slot with blockNumber := b.nextDataPacketToSend }) =
      b.filledPacket slots k := by
  simp [nextPacket, filledPacket, complete, slotOf, updateSlot]

/-- The block goes out; a short one is the last. -/
def sent (b : Buffer) : Buffer :=
  { b with
    lastPacket :=
      if b.lastBlockSize < b.blockSize then some b.nextDataPacketToSend else b.lastPacket
    nextDataPacketToSend := b.nextDataPacketToSend + 1 }

/-- The bytes of the block that the next read finds in place. -/
def done (b : Buffer) : UInt16 := if b.incompleteRead then b.lastBlockSize else 0

/-- The next read of the block is submitted. -/
def fetched (b : Buffer) : Buffer := { b with lastBlockSize := b.done, incompleteRead := false }

/-- That read. -/
def fetch (b : Buffer) : Op :=
  .read (b.slotOf b.nextDataPacketToSend) b.done.toNat (b.blockSize.toNat - b.done.toNat) none

end Buffer

/-! ## Programs that leave the buffer alone -/

/-- What feeds the buffer: the read in flight, the byte the netascii encoder
left over, and the bytes that encoder has yet to read. -/
structure Intake where
  isFetchingData : Bool
  fetches : List Op
  netasciiBuffer : Option UInt8
  byteReads : List ByteRead

def World.intake (w : World) : Intake where
  isFetchingData := w.session.isFetchingData
  fetches := w.inflight.filter Op.isFetch
  netasciiBuffer := w.session.netasciiBuffer
  byteReads := w.sys.byteReads

instance : Quiet World.intake := ⟨fun _ _ => rfl, fun _ _ _ => rfl, fun _ _ _ => rfl⟩

instance : Unlogged World.intake := ⟨fun _ _ => rfl⟩

/-- The program does not touch the intake. -/
abbrev KeepsIntake {α : Type} (x : Act α) : Prop := Fixes World.intake x

instance : Blind World.buffer := ⟨fun _ _ => rfl, fun _ _ _ => rfl, fun _ _ _ _ => rfl⟩

instance : Unlogged World.buffer := ⟨fun _ _ => rfl⟩

/-- The program does not touch the buffer. -/
abbrev KeepsBuffer {α : Type} (x : Act α) : Prop := Fixes World.buffer x

/-- What the blocks of a session are made from. -/
structure Source where
  buffer : Buffer
  intake : Intake

def World.source (w : World) : Source := ⟨w.buffer, w.intake⟩

instance : Quiet World.source := ⟨fun _ _ => rfl, fun _ _ _ => rfl, fun _ _ _ => rfl⟩

instance : Unlogged World.source := ⟨fun _ _ => rfl⟩

/-- The program touches neither. -/
abbrev KeepsSource {α : Type} (x : Act α) : Prop := Fixes World.source x

theorem Fixes.buffer {α : Type} {x : Act α} (h : KeepsSource x) : KeepsBuffer x :=
  h.comp Source.buffer

theorem Fixes.intake {α : Type} {x : Act α} (h : KeepsSource x) : KeepsIntake x :=
  h.comp Source.intake

theorem fetches_snoc {op : Op} (h : op.isFetch = false) (ops : List Op) :
    (ops ++ [op]).filter Op.isFetch = ops.filter Op.isFetch := by
  simp [h]

theorem fetches_removeTimer (ops : List Op) :
    (removeTimer ops).filter Op.isFetch = ops.filter Op.isFetch := by
  induction ops using removeTimer.induct with
  | case1 => rfl
  | case2 ops => rfl
  | case3 op ops hne ih =>
      rw [removeTimer]
      · simp [List.filter_cons, ih]
      · exact hne

theorem fetches_cancelRecv (ops : List Op) :
    (cancelRecv ops).filter Op.isFetch = ops.filter Op.isFetch := by
  induction ops using cancelRecv.induct with
  | case1 => rfl
  | case2 b ops => rfl
  | case3 op ops hne ih =>
      rw [cancelRecv]
      · simp [List.filter_cons, ih]
      · exact hne

/-- An operation that reads nothing changes nothing the source sees. -/
theorem ring_source {f : List Op → List Op}
    (h : ∀ ops, (f ops).filter Op.isFetch = ops.filter Op.isFetch) :
    KeepsSource (Prog.update fun w => { w with inflight := f w.inflight }) := by
  refine .update fun w => ?_
  simp only [World.source, World.intake, h]
  rfl

theorem recvAsync_source : KeepsSource recvAsync :=
  .bind (.bind .require fun _ => ring_source (fetches_snoc rfl)) fun _ => .modify fun _ => rfl

theorem submitTimeout_source : KeepsSource submitTimeout :=
  .bind (.bind .require fun _ => ring_source (fetches_snoc rfl)) fun _ => .modify fun _ => rfl

theorem submitCancelTimeout_source : KeepsSource submitCancelTimeout :=
  .bind .require fun _ => .bind (ring_source (f := fun ops => removeTimer ops ++ [.timeoutRemove])
    fun ops => (fetches_snoc rfl _).trans (fetches_removeTimer ops)) fun _ => .modify fun _ => rfl

theorem recvAsyncCancel_source : KeepsSource recvAsyncCancel :=
  .bind .require fun _ => .bind (ring_source (f := fun ops => cancelRecv ops ++ [.cancel])
    fun ops => (fetches_snoc rfl _).trans (fetches_cancelRecv ops)) fun _ => .modify fun _ => rfl

theorem giveUp_source : KeepsSource giveUp :=
  .bind (.modify fun _ => rfl) fun _ => .bind recvAsyncCancel_source fun _ =>
    .bind .setMaxRetransmissionsError fun _ => .bind .session fun _ => .sendErrorPacket _

theorem onTimeout_source : KeepsSource onTimeout := by
  refine .bind .session fun _ => .ite giveUp_source (.bind (.modify fun _ => rfl) fun _ =>
    .bind (.modify fun w => ?_) fun _ => .bind submitTimeout_source fun _ => .retransmit)
  split <;> rfl

theorem acceptBlock_source (n : UInt16) (data : Bytes) : KeepsSource (acceptBlock n data) := by
  refine .bind .session fun _ => .bind .sys fun a => .bind (.emit _) fun _ => ?_
  cases a.write with
  | none => exact .bind (.recordFailure _ _) fun _ => .stop _
  | some written =>
      exact .bind (.modify fun _ => rfl) fun _ => .bind (.sendto _ _) fun _ => .modify fun _ => rfl

theorem onData_source (packet : Bytes) : KeepsSource (onData packet) :=
  .bind .session fun _ => .ite (.bind (.modify fun _ => rfl) fun _ => acceptBlock_source _ _)
    (.ite (.pure _) (acceptBlock_source _ _))

theorem acceptAck_source (n : UInt16) : KeepsSource (acceptAck n) := by
  refine .bind (.modify fun _ => rfl) fun _ => .bind .sys fun _ => .bind (.modify fun w => ?_)
    fun _ => .bind submitCancelTimeout_source fun _ => .bind .session fun _ =>
      .ite (.bind submitTimeout_source fun _ => .modify fun _ => rfl) (.modify fun _ => rfl)
  dsimp only
  split <;> rfl

theorem onAck_source (packet : Bytes) : KeepsSource (onAck packet) :=
  .bind .session fun _ => .ite (.bind (.modify fun _ => rfl) fun _ => acceptAck_source _)
    (.ite (.pure _) (.bind (.modify fun _ => rfl) fun _ => acceptAck_source _))

theorem onPacketReceived_source (r : Completion Datagram) : KeepsSource (onPacketReceived r) := by
  cases r with
  | error e => exact .stop _
  | ok d =>
      exact .bind .session fun _ => .ite (.pure _) (.ite (.pure _) (.ite (.unknownTransferId _)
        (.ite (.bind (.modify fun _ => rfl) fun _ => .reportClientError _)
          (.ite (onData_source _) (.ite (onAck_source _) (.bind (.modify fun _ => rfl) fun _ =>
            .bind (.recordFailure _ _) fun _ => .bind .session fun _ => .sendErrorPacket _))))))

theorem readFailure_source : KeepsSource readFailure :=
  .bind (.modify fun _ => rfl) fun _ => .bind (.recordFailure _ _) fun _ =>
    .bind .session fun _ => .sendErrorPacket _

/-- Only the start and a completed read change the source. -/
theorem dispatch_source {e : Event} (hs : e ≠ .start) (hd : ∀ r, e ≠ .dataAvailable r) :
    KeepsSource (dispatch e) := by
  have reaped : KeepsSource jobDone := .modify fun _ => rfl
  cases e with
  | start => exact (hs rfl).elim
  | dataAvailable r => exact (hd r rfl).elim
  | timeout r =>
      exact .bind reaped fun _ => .bind .session fun _ =>
        .ite (.pure _) (.ite (.pure _) onTimeout_source)
  | timeoutRemoved r =>
      refine .bind reaped fun _ => ?_
      cases r with
      | ok n => exact .pure _
      | error e => exact .ite (.stop _) (.pure _)
  | packetReceivedRemoved r =>
      refine .bind reaped fun _ => ?_
      cases r with
      | ok n => exact .pure _
      | error e => exact .ite (.stop _) (.pure _)
  | packetReceived r =>
      refine .bind reaped fun _ => .bind .session fun _ => .ite (.pure _) ?_
      cases r with
      | error e => exact .ite (.pure _) (onPacketReceived_source _)
      | ok d =>
          exact .bind (onPacketReceived_source _) fun _ => .bind .session fun _ =>
            .ite (.pure _) recvAsync_source

/-! ## What is sent -/

section Sends

variable {w : World} {slots : ℕ → Slot}

theorem wp_getDataPacketInfo {Q : Packet → World → Prop} {E : Abort → World → Prop} {s : Session}
    (hw : s.windowSize ≠ 0) (hs : s.dataPackets = some slots) (i size : UInt16) :
    wp (getDataPacketInfo s i size) Q E w ↔
      Q (.data (slots (slotOf s i)).blockNumber ((slots (slotOf s i)).data.take size.toNat)) w := by
  rw [getDataPacketInfo, if_neg hw, hs]
  rfl

/-- The `m` packets from position `k` on were sent, and nothing else happened. -/
structure World.Resent (w : World) (slots : ℕ → Slot) (k m : ℕ) (w' : World) : Prop where
  session : w'.session = w.session
  inflight : w'.inflight = w.inflight
  log : w'.log = w.log ++ (w.buffer.packets slots k m).map (.sent w.session.clientAddress)

theorem World.Resent.control {k m : ℕ} {w' : World} (h : w.Resent slots k m w') :
    w'.control = w.control := by
  unfold World.control
  rw [h.session, h.inflight]

/-- From a position of a window that is not empty, the loop sends the packets
from there to the end of the window. -/
theorem retransmitWindow_spec {rounds b k n : ℕ} (hw : w.session.windowSize ≠ 0)
    (hs : w.session.dataPackets = some slots) (hb : UInt16.ofNat b = w.session.windowBegin)
    (hn : UInt16.ofNat n = w.session.nextDataPacketToSend) (hbn : b < n) (near : n - b < 65536)
    (hbk : b ≤ k) (hkn : k ≤ n) (hr : n - k < rounds) :
    wp (retransmitWindow rounds (UInt16.ofNat k)) (fun _ w' => w.Resent slots k (n - k) w')
      (fun e w' => e = .error ∧ false ∈ w.sys.calls ∧ ∃ m < n - k, w.Resent slots k m w') w := by
  induction rounds generalizing k w with
  | zero => omega
  | succ rounds ih =>
      have inWindow : isInRange (UInt16.ofNat k) w.session.windowBegin
          (w.session.nextDataPacketToSend - 1) ↔ k < n := by
        rw [isInRange_iff, ← hb, ← hn]
        exact Serial.onArc_before hbn near hbk hkn
      rw [retransmitWindow, wp_bind, wp_session, wp_ite, inWindow]
      refine ⟨fun hlt => ?_, fun hge => ?_⟩
      · rw [wp_bind, wp_getDataPacketInfo hw hs, wp_bind, wp_sendto]
        refine ⟨fun _ => ?_, fun hfail => ⟨rfl, ?_, 0, by omega, rfl, rfl, ?_⟩⟩
        · rw [← Serial.ofNat_succ]
          have first (m : ℕ) : w.buffer.packets slots k (m + 1) =
              w.buffer.packet slots (UInt16.ofNat k) :: w.buffer.packets slots (k + 1) m := by
            rw [Buffer.packets, List.range'_succ, List.map_cons]
            rfl
          refine wp_mono (ih (w := { w.answered with log := _ }) hw hs hb hn (by omega) (by omega)
            (by omega)) ?_ ?_
          · intro _ w' h
            refine ⟨h.session, h.inflight, h.log.trans ?_⟩
            rw [show n - k = (n - (k + 1)) + 1 by omega, first, List.map_cons, List.append_assoc]
            rfl
          · rintro e w' ⟨rfl, hfalse, m, hm, h⟩
            refine ⟨rfl, List.mem_of_mem_tail hfalse, m + 1, by omega, h.session, h.inflight,
              h.log.trans ?_⟩
            rw [first, List.map_cons, List.append_assoc]
            rfl
        · -- the failed call is one of the answers of the system
          cases hc : w.sys.calls with
          | nil => simp [World.answer, hc] at hfail
          | cons a rest => simp_all [World.answer]
        · simp [Buffer.packets]
      · obtain rfl : k = n := by omega
        refine ⟨rfl, rfl, ?_⟩
        simp [Buffer.packets]

/-- The block that was read goes out, if a packet can be found for it. -/
theorem sendNextBlock_spec :
    wp sendNextBlock (fun _ w' => ∃ slots, w.session.dataPackets = some slots ∧
        w'.buffer = w.buffer.sent ∧
        w'.log = w.log ++ [.sent w.session.clientAddress (w.buffer.nextPacket slots)])
      (fun _ w' => w'.log = w.log ∨ ∃ slots, w.session.dataPackets = some slots ∧
        w'.log = w.log ++ [.sent w.session.clientAddress (w.buffer.nextPacket slots)]) w := by
  -- measuring the round trip changes neither the buffer nor the log
  rw [sendNextBlock, wp_bind, wp_sys, wp_bind, wp_modify]
  generalize hv : ({ w with session := _ } : World) = v
  obtain ⟨buffer, client, packets, log, width⟩ : v.buffer = w.buffer ∧
      v.session.clientAddress = w.session.clientAddress ∧
      v.session.dataPackets = w.session.dataPackets ∧ v.log = w.log ∧
      v.session.windowSize = w.session.windowSize := by
    subst hv
    refine ⟨?_, ?_, ?_, rfl, ?_⟩ <;> dsimp only <;> split <;> rfl
  rw [← buffer, ← client, ← packets, ← log]
  rw [wp_bind, wp_session, wp_bind]
  by_cases hw : v.session.windowSize = 0
  · rw [getDataPacketInfo, if_pos hw]
    exact .inl rfl
  · cases hs : v.session.dataPackets with
    | none =>
        rw [getDataPacketInfo, if_neg hw, hs]
        exact .inl rfl
    | some slots =>
        rw [wp_getDataPacketInfo hw hs, wp_bind, wp_sendto]
        refine ⟨fun _ => ?_, fun _ => .inl rfl⟩
        rw [wp_bind, wp_modify, wp_bind, wp_session]
        refine wp_ite.mpr ⟨fun _ => ?_, fun _ => ⟨slots, rfl, rfl, rfl⟩⟩
        rw [submitTimeout, wp_bind, wp_bind, wp_submit]
        exact ⟨fun _ => ⟨slots, rfl, rfl, rfl⟩, fun _ => .inr ⟨slots, rfl, rfl⟩⟩

/-- A read that does not end the block leaves it for the next read; otherwise
its packet gets its number. -/
theorem createDataPackets_spec (k : ℕ) :
    wp (createDataPackets k) (fun complete w' =>
        w'.log = w.log ∧ w'.session.clientAddress = w.session.clientAddress ∧
          if complete then ¬w.buffer.Incomplete k w.sys.atEndOfFile ∧
            ∃ slots, w.session.dataPackets = some slots ∧ w'.buffer = w.buffer.complete slots k
          else w.buffer.Incomplete k w.sys.atEndOfFile ∧ w'.buffer = w.buffer.gather k)
      (fun _ w' => w'.log = w.log) w := by
  rw [createDataPackets, wp_bind, wp_modify, wp_bind, wp_session, wp_bind, endOfFile, wp_bind,
    wp_sys, wp_pure]
  refine wp_ite.mpr ⟨fun h => ⟨rfl, rfl, h, rfl⟩, fun h => wp_ite.mpr ⟨fun _ => rfl, fun _ => ?_⟩⟩
  dsimp only
  cases hs : w.session.dataPackets with
  | none => exact (rfl : w.log = w.log)
  | some slots =>
      refine ⟨rfl, rfl, h, slots, rfl, ?_⟩
      rfl

theorem createDataPackets_intake (k : ℕ) : KeepsIntake (createDataPackets k) := by
  refine .bind (.modify fun _ => rfl) fun _ => .bind .session fun s =>
    .bind (.bind .sys fun _ => .pure _) fun atEnd =>
      .ite (.bind (.modify fun _ => rfl) fun _ => .pure _) (.ite (.stop _) ?_)
  cases s.dataPackets with
  | none => exact .stop _
  | some slots => exact .bind (.modify fun _ => rfl) fun _ => .pure _

theorem sendNextBlock_intake : KeepsIntake sendNextBlock := by
  refine .bind .sys fun _ => .bind (.modify fun w => ?_) fun _ => .bind .session fun s =>
    .bind (.getDataPacketInfo _ _ _) fun packet => .bind (.sendto _ _) fun _ =>
      .bind (.modify fun _ => rfl) fun _ => .bind .session fun _ =>
        .ite (.bind submitTimeout_source.intake fun _ => .modify fun _ => rfl) (.modify fun _ => rfl)
  dsimp only
  split <;> rfl

/-- Sending a block leaves the read-ahead alone. -/
theorem onDataAvailable_intake (r : Completion ℕ) : KeepsIntake (onDataAvailable r) := by
  refine .bind .session fun s => .ite ?_ sendNextBlock_intake
  cases r with
  | error e => exact readFailure_source.intake
  | ok k => exact .bind (createDataPackets_intake k) fun _ => .ite sendNextBlock_intake (.pure _)

/-- What a completed read of an octet session does. -/
theorem onDataAvailable_spec (hmode : w.session.mode = .octet) (k : ℕ) :
    wp (onDataAvailable (.ok k)) (fun _ w' =>
        w.buffer.Incomplete k w.sys.atEndOfFile ∧ w'.buffer = w.buffer.gather k ∧ w'.log = w.log ∨
        ¬w.buffer.Incomplete k w.sys.atEndOfFile ∧ ∃ slots, w.session.dataPackets = some slots ∧
          w'.buffer = (w.buffer.complete slots k).sent ∧
          w'.log = w.log ++ [.sent w.session.clientAddress (w.buffer.filledPacket slots k)])
      (fun _ w' => w'.log = w.log ∨
        ¬w.buffer.Incomplete k w.sys.atEndOfFile ∧ ∃ slots, w.session.dataPackets = some slots ∧
          w'.log = w.log ++ [.sent w.session.clientAddress (w.buffer.filledPacket slots k)]) w := by
  rw [onDataAvailable, wp_bind, wp_session, if_pos hmode]
  refine wp_bind.mpr (wp_mono (createDataPackets_spec k) ?_ fun _ _ h => .inl h)
  rintro complete v ⟨log, client, hv⟩
  cases complete with
  | false => exact .inl ⟨hv.1, hv.2, log⟩
  | true =>
      obtain ⟨hcomplete, slots, hs, buffer⟩ := hv
      have found (slots' : ℕ → Slot) (hs' : v.session.dataPackets = some slots') :
          v.buffer.nextPacket slots' = w.buffer.filledPacket slots k := by
        have built : v.buffer.dataPackets = some slots' := hs'
        rw [buffer] at built ⊢
        rw [← Option.some.inj built, Buffer.nextPacket_complete]
      refine wp_mono sendNextBlock_spec ?_ ?_
      · rintro _ w' ⟨slots', hs', hb', hlog'⟩
        rw [found slots' hs', log, client] at hlog'
        exact .inr ⟨hcomplete, slots, hs, buffer ▸ hb', hlog'⟩
      · rintro _ w' (hlog' | ⟨slots', hs', hlog'⟩)
        · exact .inl (hlog'.trans log)
        · rw [found slots' hs', log, client] at hlog'
          exact .inr ⟨hcomplete, slots, hs, hlog'⟩

/-- The read-ahead of an octet session submits a read for the rest of the next
block. -/
theorem fetchData_spec (hmode : w.session.mode = .octet) :
    wp fetchData (fun _ w' =>
        if shouldFetchData w.session then w'.buffer = w.buffer.fetched ∧
          w'.inflight = w.inflight ++ [w.buffer.fetch] ∧
          w'.log = w.log ++ [.read w.session.fileDescriptor]
        else w'.buffer = w.buffer ∧ w'.inflight = w.inflight ∧ w'.log = w.log)
      (fun _ w' => w'.log = w.log) w := by
  rw [fetchData, wp_bind, wp_session, wp_ite]
  refine ⟨fun h => ?_, fun h => ?_⟩
  · rw [wp_bind, wp_modify, if_pos hmode, fetchDataOctetAsync, wp_bind, wp_session]
    refine wp_ite.mpr ⟨fun _ => rfl, fun _ => ?_⟩
    rw [wp_bind, wp_modify, wp_bind, wp_submit]
    refine ⟨fun _ => ?_, fun _ => rfl⟩
    rw [wp_bind, wp_emit, wp_modify, if_pos h]
    exact ⟨rfl, rfl, rfl⟩
  · rw [wp_pure, if_neg h]
    exact ⟨rfl, rfl, rfl⟩

end Sends

end Tftp.Server
