import Tftp.Client.OptionAck
import Tftp.Client.Settings
import Tftp.Client.Process

/-!
# Packets that come in twice

What `receive_file` has accepted is recorded beside the client. Once it has
accepted a packet, what it sent last is the ACK of its last block: a block that
comes in again makes it send that ACK once more. An OACK that comes in again does
not.
-/

namespace Tftp.Client

open Prog Act

/-! ## What has been accepted -/

/-- `receive_file` accepts the datagram: its first OACK, or the block it expects. -/
def World.Accepts (w : World Receiver) (d : Datagram) : Prop :=
  sockaddrEquals (if w.locals.isFirstReceive then d.sender else w.request.serverAddr) d.sender ∧
    (2 ≤ d.bytes.length ∧ readU16 d.bytes 0 = Opcode.oack ∧ w.locals.isFirstReceive ∨
      4 ≤ d.bytes.length ∧ readU16 d.bytes 0 = Opcode.data ∧
        readU16 d.bytes 2 = w.locals.expectedSequenceNumber)

instance (w : World Receiver) (d : Datagram) : Decidable (w.Accepts d) := by
  unfold World.Accepts; infer_instance

/-- What a round accepts. -/
def Process.takes (e : Event) : Process → List Bytes
  | .receiving w =>
      match e.arrival with
      | .datagram d => if w.Accepts d then [d.bytes] else []
      | _ => []
  | _ => []

/-- A client with the packets that `receive_file` has accepted. -/
structure Download where
  process : Process
  accepted : List Bytes

namespace Download

def step (x : Download) (e : Event) : Download :=
  ⟨x.process.step e, x.accepted ++ x.process.takes e⟩

def start (c : Call) (s : Sys) : Download := ⟨c.start s, []⟩

def run (c : Call) (s : Sys) (events : List Event) : Download :=
  events.foldl step (start c s)

end Download

/-! ## What was sent last -/

/-- What was sent last is the ACK of the last block. -/
def World.HasAcked (w : World Receiver) : Prop :=
  w.request.lastPacketSent = .ack (w.locals.expectedSequenceNumber - 1)

/-- What was sent last is as it was, or the last block has been acknowledged since. -/
structure World.Answers (w t : World Receiver) : Prop where
  room : 516 ≤ t.request.recvBufferSize
  kept : t.request.lastPacketSent = w.request.lastPacketSent ∧
    t.locals.expectedSequenceNumber = w.locals.expectedSequenceNumber ∨ t.HasAcked

/-- What the options of a request do not touch. -/
def World.beyondOptions (w : World Receiver) : (LastPacket × ℕ × Bytes) × Receiver :=
  ((w.request.lastPacketSent, w.request.recvBufferSize, w.request.recvBuffer), w.locals)

instance : Blind World.beyondOptions := ⟨fun _ _ _ _ => rfl⟩

section

variable {v w : World Receiver} {d : Datagram} {n : ℕ}

theorem discardOptions_beyond : Fixes World.beyondOptions discardOptions :=
  .bind .request fun _ => .ite (.bind (.modify fun _ => rfl) fun _ => .ite
    (.bind (.sendError _) fun _ => .bind (.modify fun _ => rfl) fun _ => .stop _)
    (.modify fun _ => rfl)) (.modify fun _ => rfl)

/-- A block that is taken is acknowledged. -/
theorem storeBlock_acks {k : UInt16} {size : ℕ} (room : 516 ≤ v.request.recvBufferSize)
    (expected : k = v.locals.expectedSequenceNumber) :
    wp (storeBlock k size)
      (fun _ t => v.Answers t ∧ t.HasAcked ∧
        t.locals.expectedSequenceNumber = v.locals.expectedSequenceNumber + 1)
      (fun _ _ => True) v := by
  rw [storeBlock, wp_bind, wp_modifyLocals, wp_bind, wp_request]
  refine wp_ite.mpr ⟨fun _ => trivial, fun _ => ?_⟩
  rw [keepBlock, wp_bind, fwrite, wp_bind, wp_sys, wp_bind, wp_modifyLocals, wp_pure]
  refine wp_ite.mpr ⟨fun _ => ?_, fun _ => ?_⟩
  · rw [wp_bind, wp_sys]
    refine wp_ite.mpr ⟨fun _ => ?_, fun _ => trivial⟩
    rw [wp_bind, wp_sendError]
    exact ⟨fun _ => trivial, fun _ => trivial⟩
  · rw [wp_bind, wp_modify, wp_bind, wp_sendAck]
    refine ⟨fun _ => ?_, fun _ => trivial⟩
    refine wp_ite.mpr ⟨fun _ => trivial, fun _ => ?_⟩
    have acked : k = v.locals.expectedSequenceNumber + 1 - 1 := by
      rw [UInt16.add_sub_cancel]
      exact expected
    have last : LastPacket.ack k = .ack (v.locals.expectedSequenceNumber + 1 - 1) :=
      congrArg _ acked
    exact ⟨⟨room, .inr last⟩, last, rfl⟩

theorem receiveData_answers (room : 516 ≤ v.request.recvBufferSize) :
    wp (receiveData n)
      (fun _ t => v.Answers t ∧
        (readU16 v.request.recvBuffer 2 = v.locals.expectedSequenceNumber → t.HasAcked))
      (fun _ _ => True) v := by
  have answered (size : ℕ) {u : World Receiver} (same : u.beyondOptions = v.beyondOptions) :
      wp (do
          let r ← Act.request
          let blockNumber := readU16 r.recvBuffer 2
          if blockNumber ≠ v.locals.expectedSequenceNumber then retransmitLastPacketSent
          else storeBlock blockNumber size)
        (fun _ t => v.Answers t ∧
          (readU16 v.request.recvBuffer 2 = v.locals.expectedSequenceNumber → t.HasAcked))
        (fun _ _ => True) u := by
    obtain ⟨request, locals⟩ := Prod.mk.inj same
    obtain ⟨last, rest⟩ := Prod.mk.inj request
    obtain ⟨room', buffer⟩ := Prod.mk.inj rest
    replace room' : 516 ≤ u.request.recvBufferSize := room' ▸ room
    rw [wp_bind, wp_request]
    refine wp_ite.mpr ⟨fun other => ?_, fun expected => ?_⟩
    · rw [wp_retransmitLastPacketSent]
      refine ⟨fun _ => ⟨⟨room', .inl ⟨last, ?_⟩⟩, fun same => ?_⟩, fun _ => trivial⟩
      · exact congrArg Receiver.expectedSequenceNumber locals
      · rw [buffer] at other
        exact absurd same other
    · have number : readU16 u.request.recvBuffer 2 = u.locals.expectedSequenceNumber := by
        rw [locals]
        exact not_not.mp expected
      refine wp_mono (storeBlock_acks room' number) ?_ fun _ _ _ => trivial
      rintro _ t ⟨answers, acked, -⟩
      exact ⟨⟨answers.room, .inr acked⟩, fun _ => acked⟩
  rw [receiveData, wp_bind, wp_locals]
  refine wp_ite.mpr ⟨fun _ => ?_, fun _ => answered _ rfl⟩
  refine wp_bind.mpr (discardOptions_beyond.wp (fun _ t same => ?_) fun _ _ _ => trivial)
  exact answered _ same

theorem receiveOack_answers (room : 516 ≤ v.request.recvBufferSize)
    (first : v.locals.isFirstReceive = true → v.locals.expectedSequenceNumber = 1) :
    wp (receiveOack n)
      (fun _ t => v.Answers t ∧ (v.locals.isFirstReceive = true → t.HasAcked))
      (fun _ _ => True) v := by
  rw [receiveOack, wp_bind, wp_request, wp_bind, wp_locals]
  refine wp_ite.mpr ⟨fun later => ?_, fun isFirst => ?_⟩
  · exact ⟨⟨room, .inl ⟨rfl, rfl⟩⟩, fun isFirst => absurd (later.symm.trans isFirst) (by decide)⟩
  · refine wp_bind.mpr (wp_mono (handleOackPacket_outcome _ v) ?_ fun _ _ _ => trivial)
    rintro accepted t outcome
    rw [wp_bind, wp_request]
    refine wp_ite.mpr ⟨fun _ => trivial, fun accepted' => wp_ite.mpr ⟨fun _ => ?_, fun _ => ?_⟩⟩
    · rw [wp_bind, wp_sendError]
      exact ⟨fun _ => trivial, fun _ => trivial⟩
    · obtain rfl : accepted = true := eq_true_of_ne_false accepted'
      rw [wp_sendAck]
      refine ⟨fun _ => ?_, fun _ => trivial⟩
      cases outcome with
      | accepted _ _ _ request _ locals =>
          have size : 516 ≤ t.request.recvBufferSize := by
            rw [request]
            show 516 ≤ if v.request.Resizes n then packetBufferSize _ else v.request.recvBufferSize
            split
            · exact le_max_right _ _
            · exact room
          have expected : t.locals.expectedSequenceNumber = 1 := by
            rw [locals]
            exact first (eq_true_of_ne_false isFirst)
          have last : LastPacket.ack 0 = .ack (t.locals.expectedSequenceNumber - 1) := by
            rw [expected]
            rfl
          exact ⟨⟨size, .inr last⟩, fun _ => last⟩

/-- The packet in the buffer is one to accept. -/
def World.Holds (w : World Receiver) : Prop :=
  readU16 w.request.recvBuffer 0 = Opcode.oack ∧ w.locals.isFirstReceive = true ∨
    readU16 w.request.recvBuffer 0 = Opcode.data ∧
      readU16 w.request.recvBuffer 2 = w.locals.expectedSequenceNumber

theorem switchOpcode_answers (room : 516 ≤ v.request.recvBufferSize)
    (first : v.locals.isFirstReceive = true → v.locals.expectedSequenceNumber = 1) :
    wp (switchOpcode n) (fun _ t => v.Answers t ∧ (v.Holds → t.HasAcked)) (fun _ _ => True) v := by
  rw [switchOpcode, wp_bind, wp_request]
  refine wp_ite.mpr ⟨fun oack => ?_, fun notOack => wp_ite.mpr ⟨fun data => ?_, fun _ => ?_⟩⟩
  · refine wp_mono (receiveOack_answers room first) ?_ fun _ _ _ => trivial
    rintro _ t ⟨answers, acked⟩
    refine ⟨answers, fun holds => ?_⟩
    rcases holds with ⟨-, isFirst⟩ | ⟨data, -⟩
    · exact acked isFirst
    · exact absurd (oack.symm.trans data) (by decide)
  · refine wp_mono (receiveData_answers room) ?_ fun _ _ _ => trivial
    rintro _ t ⟨answers, acked⟩
    refine ⟨answers, fun holds => ?_⟩
    rcases holds with ⟨oack, -⟩ | ⟨-, number⟩
    · exact absurd oack notOack
    · exact acked number
  · rw [refusePacket, wp_bind, wp_locals]
    exact wp_ite.mpr ⟨fun _ => trivial, fun _ => trivial⟩

/-- How a round leaves a client that goes on; `taken` is whether it accepts a packet. -/
structure World.Proceeds (w : World Receiver) (taken : Prop) (t : World Receiver) : Prop where
  answers : w.Answers t
  first : t.locals.isFirstReceive = true →
    w.locals.isFirstReceive = true ∧ t.locals.expectedSequenceNumber = 1
  acks : taken → t.locals.isFirstReceive = false ∧ t.HasAcked

theorem receivePacket_proceeds {sender : Address} (room : 516 ≤ v.request.recvBufferSize)
    (first : v.locals.isFirstReceive = true → v.locals.expectedSequenceNumber = 1) :
    wp (receivePacket sender n)
      (fun _ t => v.Proceeds (sockaddrEquals v.request.serverAddr sender ∧ v.Holds) t)
      (fun _ _ => True) v := by
  rw [receivePacket, wp_bind, wp_request]
  refine wp_ite.mpr ⟨fun stranger => ?_, fun _ => ?_⟩
  · have kept : v.Answers v := ⟨room, .inl ⟨rfl, rfl⟩⟩
    have other : ¬(sockaddrEquals v.request.serverAddr sender = true ∧ v.Holds) := by
      rintro ⟨peer, -⟩
      exact absurd (stranger.symm.trans peer) (by decide)
    rw [handleUnexpectedPeer, wp_trySendto]
    constructor
    · exact fun _ => ⟨⟨kept.room, kept.kept⟩, fun isFirst => ⟨isFirst, first isFirst⟩,
        fun taken => absurd taken other⟩
    · exact fun _ => ⟨⟨kept.room, kept.kept⟩, fun isFirst => ⟨isFirst, first isFirst⟩,
        fun taken => absurd taken other⟩
  · refine wp_bind.mpr (wp_mono (switchOpcode_answers room first) ?_ fun _ _ _ => trivial)
    rintro _ t ⟨answers, acked⟩
    rw [wp_modifyLocals]
    exact ⟨⟨answers.room, answers.kept⟩, fun isFirst => absurd isFirst Bool.false_ne_true,
      fun taken => ⟨rfl, acked taken.2⟩⟩

/-- A datagram that is accepted is read back from the buffer as it came. -/
theorem World.Accepts.holds (accepts : w.Accepts d) (room : 516 ≤ w.request.recvBufferSize) :
    readU16 (w.request.received d).recvBuffer 0 = Opcode.oack ∧ w.locals.isFirstReceive = true ∨
      readU16 (w.request.received d).recvBuffer 0 = Opcode.data ∧
        readU16 (w.request.received d).recvBuffer 2 = w.locals.expectedSequenceNumber := by
  have fits {k : ℕ} (hk : k ≤ d.bytes.length) (small : k ≤ 4) : k ≤ w.request.bytesReceived d :=
    le_min hk (by omega)
  rcases accepts.2 with ⟨long, oack, isFirst⟩ | ⟨long, data, number⟩
  · refine .inl ⟨?_, isFirst⟩
    rw [Request.readU16_received (fits long (by omega))]
    exact oack
  · refine .inr ⟨?_, ?_⟩
    · rw [Request.readU16_received (fits (by omega) (by omega))]
      exact data
    · rw [Request.readU16_received (fits long (by omega))]
      exact number

theorem receiveDatagram_proceeds (room : 516 ≤ w.request.recvBufferSize)
    (first : w.locals.isFirstReceive = true → w.locals.expectedSequenceNumber = 1) :
    wp (receiveDatagram d) (fun _ t => w.Proceeds (w.Accepts d) t) (fun _ _ => True) w := by
  unfold receiveDatagram
  rw [wp_bind, wp_modify, wp_bind, wp_modifyLocals, wp_bind, wp_request, wp_bind, wp_locals]
  refine wp_ite.mpr ⟨fun _ => trivial, fun _ => wp_ite.mpr ⟨fun isFirst => ?_, fun later => ?_⟩⟩
  · rw [wp_bind, wp_modify]
    refine wp_mono (receivePacket_proceeds room first) ?_ fun _ _ _ => trivial
    rintro _ t ⟨answers, isFirst', acks⟩
    refine ⟨⟨answers.room, answers.kept⟩, isFirst', fun accepts => acks ⟨?_, accepts.holds room⟩⟩
    have peer := accepts.1
    rwa [if_pos isFirst] at peer
  · refine wp_mono (receivePacket_proceeds room first) ?_ fun _ _ _ => trivial
    rintro _ t ⟨answers, isFirst', acks⟩
    refine ⟨⟨answers.room, answers.kept⟩, isFirst', fun accepts => acks ⟨?_, accepts.holds room⟩⟩
    have peer := accepts.1
    rwa [if_neg later] at peer

theorem receiveRound_proceeds (e : Event) (room : 516 ≤ w.request.recvBufferSize)
    (first : w.locals.isFirstReceive = true → w.locals.expectedSequenceNumber = 1) :
    wp (receiveRound e.arrival)
      (fun _ t => w.Proceeds ((Process.receiving w).takes e ≠ []) t) (fun _ _ => True)
      (w.on e.sys) := by
  obtain ⟨arrival, sys⟩ := e
  cases arrival with
  | failed => exact trivial
  | timeout =>
      rw [receiveRound, wp_bind, wp_request, wp_bind, wp_locals]
      refine wp_ite.mpr ⟨fun _ => ?_, fun _ => ?_⟩
      · exact wp_ite.mpr ⟨fun _ => trivial, fun _ => trivial⟩
      · rw [wp_bind, wp_retransmitLastPacketSent]
        refine ⟨fun _ => ?_, fun _ => trivial⟩
        exact ⟨⟨room, .inl ⟨rfl, rfl⟩⟩, fun isFirst => ⟨isFirst, first isFirst⟩,
          fun taken => absurd rfl taken⟩
  | datagram d =>
      refine wp_mono (receiveDatagram_proceeds (w := w.on sys) room first) ?_ fun _ _ _ => trivial
      rintro _ t ⟨answers, isFirst, acks⟩
      refine ⟨⟨answers.room, answers.kept⟩, isFirst, fun taken => acks ?_⟩
      by_contra refused
      exact taken (if_neg refused)

end

/-! ## Runs -/

/-- A client that has accepted a packet has acknowledged its last block. -/
structure World.Stands (w : World Receiver) (accepted : List Bytes) : Prop where
  room : 516 ≤ w.request.recvBufferSize
  first : w.locals.isFirstReceive = true → w.locals.expectedSequenceNumber = 1
  acked : accepted ≠ [] → w.locals.isFirstReceive = false ∧ w.HasAcked

def Process.Stands (accepted : List Bytes) : Process → Prop
  | .receiving w => w.Stands accepted
  | _ => True

/-- An OACK, or a DATA packet with a block number. -/
def IsWhole (packet : Bytes) : Prop :=
  2 ≤ packet.length ∧ readU16 packet 0 = Opcode.oack ∨
    4 ≤ packet.length ∧ readU16 packet 0 = Opcode.data

namespace Download

/-- What holds in every state of a run. -/
structure Sound (x : Download) : Prop where
  stands : x.process.Stands x.accepted
  whole : ∀ packet ∈ x.accepted, IsWhole packet

theorem stands_start (c : Call) (s : Sys) : (c.start s).Stands [] := by
  apply Call.start_spec
  rw [begin, wp_bind, wp_require]
  refine ⟨fun _ => ?_, fun _ => trivial⟩
  cases hty : c.requestType with
  | put => exact trivial
  | get =>
      rw [wp_bind]
      refine wp_mono (sendRequest_spec _) (fun _ t asked => ?_) fun _ _ _ => trivial
      obtain ⟨packet, request, -⟩ := asked.request
      rw [wp_require]
      refine ⟨fun _ => ⟨?_, fun _ => rfl, fun some_ => absurd rfl some_⟩, fun _ => trivial⟩
      show 516 ≤ t.request.recvBufferSize
      have size : t.request.recvBufferSize = c.request.recvBufferSize :=
        (congrArg Request.recvBufferSize request).trans rfl
      rw [size, Call.request, hty]
      exact le_max_right _ _

theorem Sound.step {x : Download} (h : x.Sound) (e : Event) : (x.step e).Sound := by
  obtain ⟨p, accepted⟩ := x
  constructor
  · show (p.step e).Stands (accepted ++ p.takes e)
    cases p with
    | requesting file w =>
        refine Process.step_requesting (wp_of_both (fun go t => ?_) fun _ _ => trivial)
        cases go with
        | false => exact trivial
        | true =>
            show (enterSendFile file t).Stands _
            unfold enterSendFile
            split
            · exact trivial
            · exact trivial
    | receiving w =>
        have stands : w.Stands accepted := h.stands
        apply Process.step_receiving
        refine wp_mono (receiveRound_proceeds e stands.room stands.first) ?_ fun _ _ _ => trivial
        rintro _ t ⟨answers, isFirst, acks⟩
        refine ⟨answers.room, fun first => (isFirst first).2, fun some_ => ?_⟩
        by_cases taken : (Process.receiving w).takes e = []
        · rw [taken, List.append_nil] at some_
          obtain ⟨later, acked⟩ := stands.acked some_
          have later' : t.locals.isFirstReceive = false := by
            by_contra first
            have first' := (isFirst (eq_true_of_ne_false first)).1
            exact absurd (later.symm.trans first') (by decide)
          rcases answers.kept with ⟨last, expected⟩ | acked'
          · refine ⟨later', last.trans ?_⟩
            rw [expected]
            exact acked
          · exact ⟨later', acked'⟩
        · exact acks taken
    | sending w => exact Process.step_sending (wp_of_both (fun _ _ => trivial) fun _ _ => trivial)
    | ended o r sent => exact trivial
  · intro packet mem
    rcases List.mem_append.mp mem with old | new
    · exact h.whole packet old
    · cases p with
      | receiving w =>
          obtain ⟨arrival, sys⟩ := e
          cases arrival with
          | datagram d =>
              change packet ∈ (if w.Accepts d then [d.bytes] else []) at new
              split at new
              · rename_i accepts
                obtain rfl := List.mem_singleton.mp new
                rcases accepts.2 with ⟨long, oack, -⟩ | ⟨long, data, -⟩
                · exact .inl ⟨long, oack⟩
                · exact .inr ⟨long, data⟩
              · cases new
          | timeout => cases new
          | failed => cases new
      | requesting file w => cases new
      | sending w => cases new
      | ended o r sent => cases new

theorem sound_run (c : Call) (s : Sys) (events : List Event) : (run c s events).Sound := by
  have begins : (start c s).Sound := ⟨stands_start c s, fun _ mem => absurd mem List.not_mem_nil⟩
  unfold run
  generalize start c s = x at begins
  induction events generalizing x with
  | nil => exact begins
  | cons e events ih => exact ih (x.step e) (begins.step e)

end Download

/-! ## A packet that comes in again -/

/-- The ACK it asks for: that of the last block, and ACK 0 for an OACK. -/
def World.ackAgain (w : World Receiver) (packet : Bytes) : UInt16 :=
  if readU16 packet 0 = Opcode.oack then 0 else w.locals.expectedSequenceNumber - 1

/-- The client goes on and has sent that ACK again; nothing is written. -/
def Process.AcksAgain (w : World Receiver) (packet : Bytes) (p : Process) : Prop :=
  ∃ t, p = .receiving t ∧
    t.sent = w.sent ++ [(w.request.serverAddr, .packet (.ack (w.ackAgain packet)))] ∧
    t.locals.expectedSequenceNumber = w.locals.expectedSequenceNumber ∧
    t.locals.written = w.locals.written

section

variable {w : World Receiver} {d : Datagram}

/-- The client of a datagram that is not its first one. -/
def World.before (w : World Receiver) (d : Datagram) : World Receiver :=
  { w with request := w.request.received d, locals := { w.locals with retransmissions := 0 } }

theorem wp_receiveDatagram_later {Q : Unit → World Receiver → Prop}
    {E : Outcome → World Receiver → Prop} (later : w.locals.isFirstReceive = false)
    (some_ : w.request.bytesReceived d ≠ 0) (peer : sockaddrEquals w.request.serverAddr d.sender) :
    wp (receiveDatagram d) Q E w ↔
      wp (do
        switchOpcode (w.request.bytesReceived d)
        modifyLocals fun l => { l with isFirstReceive := false }) Q E (w.before d) := by
  have later' : ¬w.locals.isFirstReceive = true := by simp [later]
  have known : ¬sockaddrEquals w.request.serverAddr d.sender = false := by simp [peer]
  unfold receiveDatagram
  rw [wp_bind, wp_modify, wp_bind, wp_modifyLocals, wp_bind, wp_request, wp_bind, wp_locals,
    if_neg (by exact some_), if_neg (by exact later'), receivePacket, wp_bind, wp_request,
    if_neg (by exact known)]
  rfl

variable {accepted : List Bytes} {sys : Sys}

/-- A client that has accepted a packet answers it again if it is a DATA packet, unless
its number has come round to the one that is expected. -/
theorem World.Stands.again_iff (stands : w.Stands accepted) (some_ : accepted ≠ [])
    (whole : IsWhole d.bytes) (peer : sockaddrEquals w.request.serverAddr d.sender)
    (granted : sys.calls.headD true = true) :
    ((Process.receiving w).step ⟨.datagram d, sys⟩).AcksAgain w d.bytes ↔
      readU16 d.bytes 0 = Opcode.data ∧
        readU16 d.bytes 2 ≠ w.locals.expectedSequenceNumber := by
  obtain ⟨later, acked⟩ := stands.acked some_
  have fits {k : ℕ} (hk : k ≤ d.bytes.length) (small : k ≤ 4) : k ≤ w.request.bytesReceived d :=
    le_min hk (stands.room.trans' (by omega))
  have long : 2 ≤ d.bytes.length := by
    rcases whole with ⟨long, -⟩ | ⟨long, -⟩
    · exact long
    · omega
  have nonempty : w.request.bytesReceived d ≠ 0 := by
    have := fits long (by omega)
    omega
  have opcode : readU16 (w.request.received d).recvBuffer 0 = readU16 d.bytes 0 :=
    Request.readU16_received (fits long (by omega))
  have arrives (Q : Unit → World Receiver → Prop) (E : Outcome → World Receiver → Prop)
      (h : wp (switchOpcode (w.request.bytesReceived d)) (fun _ t =>
        Q () { t with locals := { t.locals with isFirstReceive := false } }) E
        ((w.on sys).before d)) :
      wp (receiveRound (.datagram d)) Q E (w.on sys) := by
    refine (wp_receiveDatagram_later (w := w.on sys) later nonempty peer).mpr ?_
    exact wp_bind.mpr h
  rcases whole with ⟨-, oack⟩ | ⟨long, data⟩
  · have silent : wp (receiveRound (.datagram d)) (fun _ t => t.sent = w.sent) (fun _ _ => True)
        (w.on sys) := by
      apply arrives
      rw [switchOpcode, wp_bind, wp_request, if_pos (by exact opcode.trans oack), receiveOack,
        wp_bind, wp_request, wp_bind, wp_locals, if_pos (by exact later)]
      rfl
    refine iff_of_false ?_ fun h => absurd (oack.symm.trans h.1) (by decide)
    apply Process.step_receiving (I := fun p => ¬p.AcksAgain w d.bytes)
    refine wp_mono silent (fun _ t same => ?_) fun o t _ => ?_
    · rintro ⟨t', going, sent, -⟩
      cases going
      simp [same] at sent
    · rintro ⟨t', ended, -⟩
      cases ended
  · have number : readU16 (w.request.received d).recvBuffer 2 = readU16 d.bytes 2 :=
      Request.readU16_received (fits long (by omega))
    have notOack : ¬readU16 (w.request.received d).recvBuffer 0 = Opcode.oack := by
      rw [opcode, data]
      decide
    have later' : ¬w.locals.isFirstReceive = true := by simp [later]
    by_cases expected : readU16 d.bytes 2 = w.locals.expectedSequenceNumber
    · have taken : wp (receiveRound (.datagram d)) (fun _ t =>
          t.locals.expectedSequenceNumber = w.locals.expectedSequenceNumber + 1) (fun _ _ => True)
          (w.on sys) := by
        apply arrives
        rw [switchOpcode, wp_bind, wp_request, if_neg (by exact notOack),
          if_pos (by exact opcode.trans data), receiveData, wp_bind, wp_locals,
          if_neg (by exact later'), wp_bind, wp_request,
          if_neg (by exact not_not.mpr (number.trans expected))]
        generalize payloadSize _ = size
        refine wp_mono (storeBlock_acks (v := (w.on sys).before d) stands.room
          (number.trans expected)) ?_ fun _ _ _ => trivial
        rintro _ t ⟨-, -, next⟩
        exact next
      refine iff_of_false ?_ fun h => h.2 expected
      apply Process.step_receiving (I := fun p => ¬p.AcksAgain w d.bytes)
      refine wp_mono taken (fun _ t next => ?_) fun o t _ => ?_
      · rintro ⟨t', going, -, same, -⟩
        cases going
        have moved : w.locals.expectedSequenceNumber + 1 = w.locals.expectedSequenceNumber :=
          next.symm.trans same
        simp at moved
      · rintro ⟨t', ended, -⟩
        cases ended
    · refine iff_of_true ?_ ⟨data, expected⟩
      apply Process.step_receiving
      apply arrives
      rw [switchOpcode, wp_bind, wp_request, if_neg (by exact notOack),
        if_pos (by exact opcode.trans data), receiveData, wp_bind, wp_locals,
        if_neg (by exact later'), wp_bind, wp_request,
        if_pos (by rw [World.before]; exact fun same => expected (number.symm.trans same)),
        wp_retransmitLastPacketSent]
      have answer : ((w.on sys).before d).answer = true := granted
      refine ⟨fun _ => ⟨_, rfl, ?_, rfl, rfl⟩, fun refused => ?_⟩
      · have isData : ¬readU16 d.bytes 0 = Opcode.oack := by
          rw [data]
          decide
        rw [World.ackAgain, if_neg isData]
        show w.sent ++ [(w.request.serverAddr, w.request.lastPacketSent.message)] = _
        rw [acked]
        rfl
      · exact absurd (refused.symm.trans answer) (by decide)

end

end Tftp.Client
