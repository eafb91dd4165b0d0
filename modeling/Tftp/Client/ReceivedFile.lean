import Tftp.Client.Duplicates
import Tftp.Client.Reads
import Tftp.Client.SendFile

/-!
# What receive_file writes

The payloads of the blocks that `receive_file` takes are recorded beside the
client. The file it writes is these, one after the other, at every state of every
run, and also when it returns.
-/

namespace Tftp.Client

open Prog Act

/-! ## What a round adds -/

/-- `receive_file` takes the datagram as the block it expects. -/
def World.TakesBlock (w : World Receiver) (d : Datagram) : Prop :=
  w.Accepts d ∧ readU16 d.bytes 0 = Opcode.data

instance (w : World Receiver) (d : Datagram) : Decidable (w.TakesBlock d) := by
  unfold World.TakesBlock; infer_instance

/-- The payload as it comes into the buffer. -/
def Request.payload (r : Request) (d : Datagram) : Bytes := (d.bytes.take r.recvBufferSize).drop 4

/-- The blocks a round takes. -/
def Process.blocks (e : Event) : Process → List Bytes
  | .receiving w =>
      match e.arrival with
      | .datagram d => if w.TakesBlock d then [w.request.payload d] else []
      | _ => []
  | _ => []

/-- What the file holds, which block is expected next, and how many bytes are
counted. -/
structure Output where
  written : Bytes
  expected : UInt16
  fileBytes : ℕ

namespace Output

def add (o : Output) (payload : Bytes) : Output where
  written := o.written ++ payload
  expected := o.expected + 1
  fileBytes := o.fileBytes + payload.length

end Output

def World.output (w : World Receiver) : Output :=
  ⟨w.locals.written, w.locals.expectedSequenceNumber, w.request.fileBytesTransferred⟩

instance : Blind World.output := ⟨fun _ _ _ _ => rfl⟩

section

variable {v w : World Receiver} {d : Datagram} {n : ℕ}

theorem output_handleOackPacket (n : ℕ) : Fixes World.output (handleOackPacket n) := by
  refine .handleOackPacket (fun w t rest => ?_) n
  obtain ⟨⟨_, _, _, _, request⟩, locals⟩ := rest
  rw [World.output, World.output, request, locals]

theorem output_sendAck (k : UInt16) : Fixes World.output (sendAck k) :=
  .bind .request fun _ => .bind (.sendto _ _) fun _ => .modify fun _ => rfl

/-- An OACK writes nothing. -/
theorem output_receiveOack (n : ℕ) : Fixes World.output (receiveOack n) :=
  .bind .request fun _ => .bind .locals fun _ => .ite (.pure _)
    (.bind (output_handleOackPacket n) fun _ => .bind .request fun _ => .ite (.stop _)
      (.ite (.bind (.sendError _) fun _ => .stop _) (output_sendAck _)))

/-- What a round leaves of the output; it returns `true` with a short block only. -/
def Ends (w : World Receiver) (blocks : List Bytes) (o : Outcome) (t : World Receiver) : Prop :=
  o = .returned true → ∃ payload, blocks = [payload] ∧ t.output = w.output.add payload ∧
    payload.length < t.request.options.blockSize.toNat

theorem Ends.of_ne {blocks : List Bytes} {o : Outcome} (h : o ≠ .returned true) :
    Ends w blocks o v := fun success => absurd success h

/-- A block is written whole, or the transfer fails. -/
theorem storeBlock_output {k : UInt16} {size : ℕ} :
    wp (storeBlock k size)
      (fun _ t => t.output = v.output.add ((v.request.recvBuffer.drop 4).take size))
      (Ends v [(v.request.recvBuffer.drop 4).take size]) v := by
  rw [storeBlock, wp_bind, wp_modifyLocals, wp_bind, wp_request]
  refine wp_ite.mpr ⟨fun _ => .of_ne (by decide), fun room => ?_⟩
  have length : ((v.request.recvBuffer.drop 4).take size).length = size := by
    have room : ¬v.request.recvBuffer.length < 4 + size := room
    rw [List.length_take, List.length_drop]
    omega
  rw [keepBlock, wp_bind, fwrite, wp_bind, wp_sys, wp_bind, wp_modifyLocals, wp_pure]
  refine wp_ite.mpr ⟨fun _ => ?_, fun stored => ?_⟩
  · rw [wp_bind, wp_sys]
    refine wp_ite.mpr ⟨fun _ => ?_, fun _ => .of_ne (by decide)⟩
    rw [wp_bind, wp_sendError]
    exact ⟨fun _ => .of_ne (by decide), fun _ => .of_ne (by decide)⟩
  · have all := of_decide_eq_true (eq_true_of_ne_false stored)
    rw [wp_bind, wp_modify, wp_bind, wp_sendAck]
    refine ⟨fun _ => ?_, fun _ => .of_ne (by decide)⟩
    generalize hp : (v.request.recvBuffer.drop 4).take size = payload at *
    have added (t : World Receiver)
        (ht : t.output = ⟨v.locals.written ++ payload.take
          ((v.sys.fwrite.map Prod.fst).getD payload.length), v.locals.expectedSequenceNumber + 1,
          v.request.fileBytesTransferred + size⟩) : t.output = v.output.add payload := by
      have all : payload.length ≤ (v.sys.fwrite.map Prod.fst).getD payload.length := all
      rw [ht, List.take_of_length_le all, ← length]
      rfl
    refine wp_ite.mpr ⟨fun short _ => ⟨payload, rfl, added _ rfl, ?_⟩, fun _ => added _ rfl⟩
    rw [length]
    exact short

/-! ## The rounds that bring no block -/

theorem stopsIn_sendError {L : Type} (packet : Packet) :
    StopsIn Unsuccessful (sendError packet : Act L Unit) :=
  .bind (.gets _) fun _ => stopsIn_trySendto _ _

theorem stopsIn_sendAck {L : Type} (k : UInt16) :
    StopsIn Unsuccessful (sendAck k : Act L Unit) :=
  .bind (.gets _) fun _ => .bind (stopsIn_sendto _ _) fun _ => .update _

theorem stopsIn_discardOptions : StopsIn Unsuccessful discardOptions :=
  .bind (.gets _) fun _ => .ite (.bind (.update _) fun _ => .ite
    (.bind (stopsIn_sendError _) fun _ => .bind (.update _) fun _ => .stop (by decide))
    (.update _)) (.update _)

theorem stopsIn_receiveOack (n : ℕ) : StopsIn Unsuccessful (receiveOack n) := by
  have oack : StopsIn Unsuccessful (handleOackPacket n : Act Receiver Bool) := fun w =>
    wp_mono (LeavesRest.handleOackPacket n w) (fun _ _ _ => trivial) fun o _ crashed => by
      rw [crashed.1]
      decide
  exact .bind (.gets _) fun _ => .bind (.gets _) fun _ => .ite (.pure _)
    (.bind oack fun _ => .bind (.gets _) fun _ => .ite (.stop (by decide))
      (.ite (.bind (stopsIn_sendError _) fun _ => .stop (by decide)) (stopsIn_sendAck _)))

/-- What such a program leaves. -/
theorem unchanged {x : Act Receiver Unit} (fixes : Fixes World.output x) (fails : StopsIn Unsuccessful x) :
    wp x (fun _ t => t.output = v.output) (Ends v []) v :=
  wp_mono (wp_and (fixes _ v rfl) (fails v)) (fun _ _ h => h.1) fun _ _ h => .of_ne h.2

/-! ## One round -/

/-- The block in the buffer, if it is the one expected. -/
def World.brings (w : World Receiver) (n : ℕ) : List Bytes :=
  if readU16 w.request.recvBuffer 0 = Opcode.data ∧
      readU16 w.request.recvBuffer 2 = w.locals.expectedSequenceNumber then
    [(w.request.recvBuffer.drop 4).take (payloadSize n)]
  else []

theorem receiveData_output (data : readU16 v.request.recvBuffer 0 = Opcode.data) :
    wp (receiveData n) (fun _ t => t.output = (v.brings n).foldl Output.add v.output)
      (Ends v (v.brings n)) v := by
  have block {u : World Receiver} (same : u.output = v.output)
      (buffer : u.request.recvBuffer = v.request.recvBuffer) :
      wp (do
          let r ← Act.request
          let blockNumber := readU16 r.recvBuffer 2
          if blockNumber ≠ v.locals.expectedSequenceNumber then retransmitLastPacketSent
          else storeBlock blockNumber (payloadSize n))
        (fun _ t => t.output = (v.brings n).foldl Output.add v.output) (Ends v (v.brings n)) u := by
    unfold World.brings
    generalize payloadSize n = size
    rw [wp_bind, wp_request, data, buffer]
    refine wp_ite.mpr ⟨fun other => ?_, fun expected => ?_⟩
    · rw [if_neg fun h => other h.2, wp_retransmitLastPacketSent]
      exact ⟨fun _ => same, fun _ => .of_ne (by decide)⟩
    · rw [if_pos ⟨rfl, not_not.mp expected⟩]
      refine wp_mono storeBlock_output (fun _ t written => ?_) fun o t ends success => ?_
      · rw [written, same, buffer]
        rfl
      · obtain ⟨payload, one, written, short⟩ := ends success
        rw [buffer] at one
        rw [same] at written
        exact ⟨payload, one, written, short⟩
  rw [receiveData, wp_bind, wp_locals]
  refine wp_ite.mpr ⟨fun _ => ?_, fun _ => block rfl rfl⟩
  have output : Fixes World.output discardOptions :=
    .bind .request fun _ => .ite (.bind (.modify fun _ => rfl) fun _ => .ite
      (.bind (.sendError _) fun _ => .bind (.modify fun _ => rfl) fun _ => .stop _)
      (.modify fun _ => rfl)) (.modify fun _ => rfl)
  have kept := wp_and (wp_and (output _ v rfl) (discardOptions_beyond _ v rfl))
    (stopsIn_discardOptions v)
  refine wp_bind.mpr (wp_mono kept ?_ fun _ _ h => .of_ne h.2)
  rintro _ t ⟨⟨same, beyond⟩, -⟩
  exact block same (congrArg (fun b => b.1.2.2) beyond)

theorem switchOpcode_output :
    wp (switchOpcode n) (fun _ t => t.output = (v.brings n).foldl Output.add v.output)
      (Ends v (v.brings n)) v := by
  have nothing (other : readU16 v.request.recvBuffer 0 ≠ Opcode.data) : v.brings n = [] :=
    if_neg fun h => other h.1
  rw [switchOpcode, wp_bind, wp_request]
  refine wp_ite.mpr ⟨fun oack => ?_, fun _ => wp_ite.mpr ⟨receiveData_output, fun other => ?_⟩⟩
  · rw [nothing (by rw [oack]; decide)]
    exact unchanged (output_receiveOack n) (stopsIn_receiveOack n)
  · rw [nothing other, refusePacket, wp_bind, wp_locals]
    exact wp_ite.mpr ⟨fun _ => .of_ne (by decide), fun _ => .of_ne (by decide)⟩

/-- A datagram with a block number that fits in one UDP packet. -/
def IsSized (d : Datagram) : Prop := 4 ≤ d.bytes.length ∧ d.bytes.length ≤ 65507

/-- What lies in the buffer after a datagram is the block it carries. -/
theorem brings_received {u : World Receiver} (sized : IsSized d)
    (room : 516 ≤ w.request.recvBufferSize)
    (buffer : u.request.recvBuffer = (w.request.received d).recvBuffer)
    (expected : u.locals.expectedSequenceNumber = w.locals.expectedSequenceNumber) :
    u.brings (w.request.bytesReceived d) =
      if readU16 d.bytes 0 = Opcode.data ∧ readU16 d.bytes 2 = w.locals.expectedSequenceNumber then
        [w.request.payload d]
      else [] := by
  have long : 4 ≤ w.request.bytesReceived d := le_min sized.1 (by omega)
  have short : w.request.bytesReceived d ≤ 65507 := (min_le_left _ _).trans sized.2
  have length : (d.bytes.take w.request.recvBufferSize).length = w.request.bytesReceived d := by
    rw [← take_received, length_received]
  have payload : (u.request.recvBuffer.drop 4).take (payloadSize (w.request.bytesReceived d)) =
      w.request.payload d := by
    obtain ⟨stale, hs⟩ := prefix_received (r := w.request) (d := d)
    have size : payloadSize (w.request.bytesReceived d) = w.request.bytesReceived d - 4 := by
      unfold payloadSize
      omega
    rw [buffer, ← hs, take_received, size, Request.payload,
      List.drop_append_of_le_length (by rw [length]; exact long),
      List.take_append_of_le_length (by rw [List.length_drop, length]),
      List.take_of_length_le (by rw [List.length_drop, length])]
  rw [World.brings, payload, expected, buffer, Request.readU16_received (by omega),
    Request.readU16_received long]

theorem takesBlock_iff (sized : IsSized d) :
    w.TakesBlock d ↔
      sockaddrEquals (if w.locals.isFirstReceive then d.sender else w.request.serverAddr) d.sender ∧
        readU16 d.bytes 0 = Opcode.data ∧ readU16 d.bytes 2 = w.locals.expectedSequenceNumber := by
  constructor
  · rintro ⟨⟨peer, kind⟩, data⟩
    rcases kind with ⟨-, oack, -⟩ | ⟨-, -, number⟩
    · exact absurd (oack.symm.trans data) (by decide)
    · exact ⟨peer, data, number⟩
  · rintro ⟨peer, data, number⟩
    exact ⟨⟨peer, .inr ⟨sized.1, data, number⟩⟩, data⟩

theorem receivePacket_output {sender : Address} :
    wp (receivePacket sender n)
      (fun _ t => t.output = (if sockaddrEquals v.request.serverAddr sender then v.brings n
        else []).foldl Output.add v.output)
      (Ends v (if sockaddrEquals v.request.serverAddr sender then v.brings n else [])) v := by
  rw [receivePacket, wp_bind, wp_request]
  refine wp_ite.mpr ⟨fun stranger => ?_, fun known => ?_⟩
  · rw [if_neg (by simp [stranger]), handleUnexpectedPeer, wp_trySendto]
    exact ⟨fun _ => rfl, fun _ => rfl⟩
  · rw [if_pos (eq_true_of_ne_false known)]
    exact wp_bind.mpr (wp_mono switchOpcode_output (fun _ _ output => output) fun _ _ ends => ends)

/-- A datagram adds the block it brings to the output, if that is the one expected. -/
theorem receiveDatagram_output (sized : IsSized d) (room : 516 ≤ w.request.recvBufferSize) :
    wp (receiveDatagram d)
      (fun _ t => t.output = (if w.TakesBlock d then [w.request.payload d] else []).foldl
        Output.add w.output)
      (Ends w (if w.TakesBlock d then [w.request.payload d] else [])) w := by
  have packet {u : World Receiver}
      (peer : u.request.serverAddr =
        if w.locals.isFirstReceive then d.sender else w.request.serverAddr)
      (buffer : u.request.recvBuffer = (w.request.received d).recvBuffer)
      (output : u.output = w.output) :
      wp (receivePacket d.sender (w.request.bytesReceived d))
        (fun _ t => t.output = (if w.TakesBlock d then [w.request.payload d] else []).foldl
          Output.add w.output)
        (Ends w (if w.TakesBlock d then [w.request.payload d] else [])) u := by
    have taken : (if sockaddrEquals u.request.serverAddr d.sender then
        u.brings (w.request.bytesReceived d) else []) =
          if w.TakesBlock d then [w.request.payload d] else [] := by
      rw [brings_received sized room buffer (congrArg Output.expected output), peer]
      by_cases own : sockaddrEquals
          (if w.locals.isFirstReceive then d.sender else w.request.serverAddr) d.sender = true
      · rw [if_pos own]
        exact if_congr ((takesBlock_iff sized).trans (and_iff_right own)).symm rfl rfl
      · rw [if_neg own, if_neg fun h => own ((takesBlock_iff sized).mp h).1]
    rw [← taken, ← output]
    refine wp_mono receivePacket_output (fun _ _ same => same) fun o t ends success => ?_
    obtain ⟨payload, one, written, short⟩ := ends success
    exact ⟨payload, one, output ▸ written, short⟩
  unfold receiveDatagram
  rw [wp_bind, wp_modify, wp_bind, wp_modifyLocals, wp_bind, wp_request, wp_bind, wp_locals]
  refine wp_ite.mpr ⟨fun _ => .of_ne (by decide), fun _ => wp_ite.mpr ⟨fun first => ?_,
    fun later => ?_⟩⟩
  · rw [wp_bind, wp_modify]
    exact packet (if_pos first).symm rfl rfl
  · exact packet (if_neg later).symm rfl rfl

theorem receiveRound_output (e : Event) (sized : ∀ d, e.arrival = .datagram d → IsSized d)
    (room : 516 ≤ w.request.recvBufferSize) :
    wp (receiveRound e.arrival)
      (fun _ t => t.output = ((Process.receiving w).blocks e).foldl Output.add w.output)
      (Ends w ((Process.receiving w).blocks e)) (w.on e.sys) := by
  obtain ⟨arrival, sys⟩ := e
  cases arrival with
  | failed => exact .of_ne (by decide)
  | timeout =>
      rw [receiveRound, wp_bind, wp_request, wp_bind, wp_locals]
      refine wp_ite.mpr ⟨fun _ => ?_, fun _ => ?_⟩
      · exact wp_ite.mpr ⟨fun _ => .of_ne (by decide), fun _ => .of_ne (by decide)⟩
      · rw [wp_bind, wp_retransmitLastPacketSent]
        exact ⟨fun _ => rfl, fun _ => .of_ne (by decide)⟩
  | datagram d => exact receiveDatagram_output (w := w.on sys) (sized d rfl) room

end

/-! ## Runs -/

/-- A client with the blocks that `receive_file` has taken, and what its file holds. -/
structure Reception where
  process : Process
  blocks : List Bytes
  written : Bytes

namespace Output

/-- The output of some blocks. -/
def ofBlocks (blocks : List Bytes) : Output where
  written := blocks.flatten
  expected := UInt16.ofNat (blocks.length + 1)
  fileBytes := blocks.flatten.length

theorem foldl_ofBlocks (blocks new : List Bytes) :
    new.foldl add (ofBlocks blocks) = ofBlocks (blocks ++ new) := by
  induction new generalizing blocks with
  | nil => rw [List.append_nil, List.foldl_nil]
  | cons payload new ih =>
      have one : (ofBlocks blocks).add payload = ofBlocks (blocks ++ [payload]) := by
        unfold add ofBlocks
        rw [List.flatten_append, List.length_append, List.length_append, List.flatten_singleton,
          List.length_singleton, Serial.ofNat_succ (blocks.length + 1)]
      rw [List.foldl_cons, one, ih, List.append_assoc]
      rfl

end Output

namespace Reception

/-- What the file holds after a round, however the round ends. -/
def file (x : Reception) (e : Event) : Bytes :=
  match x.process with
  | .receiving w => (receiveRound e.arrival (w.on e.sys)).2.locals.written
  | _ => x.written

def step (x : Reception) (e : Event) : Reception :=
  ⟨x.process.step e, x.blocks ++ x.process.blocks e, x.file e⟩

def start (c : Call) (s : Sys) : Reception := ⟨c.start s, [], []⟩

def run (c : Call) (s : Sys) (events : List Event) : Reception :=
  events.foldl step (start c s)

/-- A successful read: the last block is short, and the size is the one announced. -/
structure Complete (blocks : List Bytes) (written : Bytes) (r : Request) : Prop where
  content : written = blocks.flatten
  counted : r.fileBytesTransferred = written.length
  short : ∃ front last, blocks = front ++ [last] ∧ last.length < r.options.blockSize.toNat
  announced : r.options.useTsize = true → written.length = r.options.tsize.toNat

end Reception

/-- The file holds the blocks while they come in and after a success. -/
def Process.Holds (blocks : List Bytes) (written : Bytes) : Process → Prop
  | .receiving w =>
      516 ≤ w.request.recvBufferSize ∧
        (w.locals.isFirstReceive = true → w.locals.expectedSequenceNumber = 1) ∧
        w.output = Output.ofBlocks blocks ∧ written = w.locals.written
  | .ended (.returned true) r _ => Reception.Complete blocks written r
  | .ended _ _ _ => True
  | _ => False

namespace Reception

theorem holds_start {c : Call} (get : c.requestType = .get) (s : Sys) :
    (c.start s).Holds [] [] := by
  apply Call.start_spec
  rw [begin, wp_bind, wp_require]
  refine ⟨fun _ => ?_, fun _ => trivial⟩
  rw [get]
  refine wp_bind.mpr (wp_mono (sendRequest_spec _) (fun _ t asked => ?_) ?_)
  · obtain ⟨packet, request, -⟩ := asked.request
    rw [wp_require]
    refine ⟨fun _ => ⟨?_, fun _ => rfl, ?_, rfl⟩, fun _ => trivial⟩
    · show 516 ≤ t.request.recvBufferSize
      have size : t.request.recvBufferSize = c.request.recvBufferSize :=
        (congrArg Request.recvBufferSize request).trans rfl
      rw [size, Call.request, get]
      exact le_max_right _ _
    · have bytes : t.request.fileBytesTransferred = 0 :=
        (congrArg Request.fileBytesTransferred request).trans rfl
      show (⟨[], 1, t.request.fileBytesTransferred⟩ : Output) = _
      rw [bytes]
      rfl
  · rintro o t ⟨rfl, -⟩
    exact trivial

theorem holds_step {x : Reception} {e : Event} (h : x.process.Holds x.blocks x.written)
    (sized : ∀ d, e.arrival = .datagram d → IsSized d) :
    (x.step e).process.Holds (x.step e).blocks (x.step e).written := by
  obtain ⟨p, blocks, written⟩ := x
  cases p with
  | requesting file w => exact h.elim
  | sending w => exact h.elim
  | ended o r sent =>
      show (Process.ended o r sent).Holds (blocks ++ []) written
      rw [List.append_nil]
      exact h
  | receiving w =>
      obtain ⟨room, first, output, -⟩ := h
      have round := wp_and (receiveRound_output e sized room)
        (receiveRound_proceeds e room first)
      show ((Process.receiving w).step e).Holds (blocks ++ (Process.receiving w).blocks e)
        (receiveRound e.arrival (w.on e.sys)).2.locals.written
      rw [Process.step]
      unfold wp at round
      generalize receiveRound e.arrival (w.on e.sys) = result at round ⊢
      rcases result with ⟨o | _, t⟩
      · obtain ⟨ends, -⟩ := round
        cases o with
        | crash => exact trivial
        | hang => exact trivial
        | returned success =>
            cases success with
            | false => exact trivial
            | true =>
                obtain ⟨payload, one, stored, short⟩ := ends rfl
                have total : t.output = Output.ofBlocks (blocks ++ [payload]) := by
                  rw [stored, output]
                  exact Output.foldl_ofBlocks blocks [payload]
                have complete (announced : t.request.options.useTsize = true →
                    t.locals.written.length = t.request.options.tsize.toNat) :
                    Complete (blocks ++ (Process.receiving w).blocks e) t.locals.written
                      t.request := by
                  rw [one]
                  have content : t.locals.written = (blocks ++ [payload]).flatten :=
                    congrArg Output.written total
                  refine ⟨content, ?_, ⟨blocks, payload, rfl, short⟩, announced⟩
                  rw [content]
                  exact congrArg Output.fileBytes total
                have counted : t.request.fileBytesTransferred = t.locals.written.length :=
                  (congrArg Output.fileBytes total).trans
                    (congrArg (fun o => o.written.length) total).symm
                show (Process.ended (.returned (true && !_)) _ _).Holds _ _
                cases short' : (t.request.options.useTsize &&
                    decide (t.request.fileBytesTransferred ≠ t.request.options.tsize.toNat)) with
                | true => exact trivial
                | false =>
                    refine complete fun asked => ?_
                    rw [asked, Bool.true_and] at short'
                    exact counted.symm.trans (not_not.mp (of_decide_eq_false short'))
      · obtain ⟨grown, proceeds⟩ := round
        refine ⟨proceeds.answers.room, fun isFirst => (proceeds.first isFirst).2, ?_, rfl⟩
        rw [grown, output, Output.foldl_ofBlocks]

/-- So it is in every state of a run. -/
theorem holds_run {c : Call} (get : c.requestType = .get) (s : Sys) (events : List Event)
    (sized : ∀ e ∈ events, ∀ d, e.arrival = .datagram d → IsSized d) :
    (run c s events).process.Holds (run c s events).blocks (run c s events).written := by
  have begins : (start c s).process.Holds (start c s).blocks (start c s).written :=
    holds_start get s
  unfold run
  generalize start c s = x at begins
  induction events generalizing x with
  | nil => exact begins
  | cons e events ih =>
      refine ih (fun e' mem => sized e' (List.mem_cons_of_mem _ mem)) (x.step e) ?_
      exact holds_step begins (sized e List.mem_cons_self)

/-- Over every sequence of arrivals, the file of a read holds the payloads of the blocks
that were taken, each once and in order; when the read succeeds, the last block was
short, and the size is the one that was announced. -/
theorem received_file {c : Call} {s : Sys} {events : List Event} (get : c.requestType = .get)
    (sized : ∀ e ∈ events, ∀ d, e.arrival = .datagram d → IsSized d) :
    (∀ w, (run c s events).process = .receiving w →
      (run c s events).written = w.locals.written ∧
        w.output = Output.ofBlocks (run c s events).blocks) ∧
    ∀ r sent, (run c s events).process = .ended (.returned true) r sent →
      Complete (run c s events).blocks (run c s events).written r := by
  have holds := holds_run get s events sized
  constructor
  · intro w receiving
    rw [receiving] at holds
    exact ⟨holds.2.2.2, holds.2.2.1⟩
  · intro r sent ended
    rw [ended] at holds
    exact holds

/-- A read of two blocks: the first comes twice, and a timeout passes before the
second. -/
def twoBlocks : List Event :=
  let first : Event :=
    ⟨.datagram ⟨.inet 0 1069, (Packet.data 1 (List.replicate 512 65)).bytes⟩, {}⟩
  [first, first, ⟨.timeout, {}⟩, ⟨.datagram ⟨.inet 0 1069, (Packet.data 2 [66]).bytes⟩, {}⟩]

def HasSucceeded : Process → Bool
  | .ended (.returned true) _ _ => true
  | _ => false

theorem ended_of_hasSucceeded {p : Process} (h : HasSucceeded p) :
    ∃ r sent, p = .ended (.returned true) r sent := by
  unfold HasSucceeded at h
  split at h
  · exact ⟨_, _, rfl⟩
  · cases h

/-- It is received as a whole. -/
theorem two_blocks_received :
    (run { plainDownload with retries := 1 } {} twoBlocks).written =
        List.replicate 512 65 ++ [66] ∧
      ∃ r, Complete (run { plainDownload with retries := 1 } {} twoBlocks).blocks
        (run { plainDownload with retries := 1 } {} twoBlocks).written r := by
  have sized : ∀ e ∈ twoBlocks, ∀ d, e.arrival = .datagram d → IsSized d := by
    have first : IsSized ⟨.inet 0 1069, (Packet.data 1 (List.replicate 512 65)).bytes⟩ :=
      ⟨by decide +kernel, by decide +kernel⟩
    have second : IsSized ⟨.inet 0 1069, (Packet.data 2 [66]).bytes⟩ := ⟨by decide, by decide⟩
    intro e mem d arrival
    simp only [twoBlocks, List.mem_cons, List.not_mem_nil, or_false] at mem
    rcases mem with rfl | rfl | rfl | rfl
    · exact Arrival.datagram.inj arrival ▸ first
    · exact Arrival.datagram.inj arrival ▸ first
    · cases arrival
    · exact Arrival.datagram.inj arrival ▸ second
  have succeeds : HasSucceeded (run { plainDownload with retries := 1 } {} twoBlocks).process := by
    decide +kernel
  obtain ⟨r, sent, ended⟩ := ended_of_hasSucceeded succeeds
  exact ⟨by decide +kernel, r, (received_file rfl sized).2 r sent ended⟩

end Reception

end Tftp.Client
