import Tftp.Client.RoundTrips
import Tftp.Lib.Blocks

/-!
# What send_file sends

The window of an upload is one packet, so a block goes out for the first time
once the block before it is acknowledged. Here the blocks are counted by natural
numbers, of which the client has the last sixteen bits. It compares some of these
as `int`, which goes wrong where the number after that of the last block is zero.
-/

namespace Tftp.Client

open Prog Act

/-- A DATA packet that was sent. -/
def dataSent : Address × Message → Option DataPacket
  | (_, .packet (.data n payload)) => some ⟨n, payload⟩
  | _ => none

/-- The DATA packets that were sent, in order. -/
def World.packets {L : Type} (w : World L) : List DataPacket := w.sent.filterMap dataSent

/-- The packet of the `k`-th block of a file. -/
def numbered (size : ℕ) (file : Bytes) (k : ℕ) : DataPacket :=
  ⟨UInt16.ofNat k, Blocks.block size file k⟩

/-- Where `send_file` stands in its file: so many blocks were sent, and so many of
them acknowledged. -/
structure Sender.Holds (size : ℕ) (file : Bytes) (blocks acked : ℕ) (l : Sender) : Prop where
  unread : l.file = file.drop (blocks * size)
  next : l.nextSequenceNumber = UInt16.ofNat (blocks + 1)
  begins : l.windowBegin = UInt16.ofNat (acked + 1)
  ended : l.endOfFile = true ↔ blocks = Blocks.last size file
  within : blocks ≤ Blocks.last size file
  acked_le : acked ≤ blocks
  window : blocks ≤ acked + 1
  packet : 0 < blocks → (l.dataPackets 0).blockNumber = UInt16.ofNat blocks ∧
    (l.dataPackets 0).data.take (Blocks.block size file blocks).length =
      Blocks.block size file blocks ∧
    l.lastPacketSize = 4 + (Blocks.block size file blocks).length

/-- What `send_file` keeps but its clocks and its count of retransmissions. -/
def Sender.untimed (l : Sender) : Sender :=
  { l with rto := 0, adaptiveTimeout := {}, startTime := 0, retransmissions := 0 }

/-- The whole file was sent, and the number after that of its last block is zero. -/
def Sender.Stuck (l : Sender) : Prop := l.endOfFile = true ∧ l.nextSequenceNumber = 0

theorem Sender.Holds.congr {l t : Sender} {size : ℕ} {file : Bytes} {k b : ℕ}
    (h : l.Holds size file k b) (same : t.untimed = l.untimed) : t.Holds size file k b := by
  have packets : t.dataPackets = l.dataPackets := (congrArg Sender.dataPackets same :)
  have atEnd : t.endOfFile = l.endOfFile := (congrArg Sender.endOfFile same :)
  constructor
  case unread => exact (congrArg Sender.file same).trans h.unread
  case next => exact (congrArg Sender.nextSequenceNumber same).trans h.next
  case begins => exact (congrArg Sender.windowBegin same).trans h.begins
  case ended =>
    rw [atEnd]
    exact h.ended
  case within => exact h.within
  case acked_le => exact h.acked_le
  case window => exact h.window
  case packet =>
    intro sent
    obtain ⟨number, data, lastSize⟩ := h.packet sent
    rw [packets]
    exact ⟨number, data, (congrArg Sender.lastPacketSize same).trans lastSize⟩

theorem Sender.holds_init (r : Request) (size : ℕ) (file heap : Bytes) :
    (Sender.init r file heap).Holds size file 0 0 where
  unread := by
    rw [Nat.zero_mul]
    rfl
  next := rfl
  begins := rfl
  ended := iff_of_false Bool.false_ne_true (Nat.succ_ne_zero _).symm
  within := Nat.zero_le _
  acked_le := le_rfl
  window := Nat.zero_le _
  packet h := (Nat.lt_irrefl 0 h).elim

/-- The part of the request that `send_file` leaves alone. -/
def Request.base (r : Request) : Request := { r with recvBuffer := [], fileBytesTransferred := 0 }

def World.base (w : World Sender) : Request := w.request.base

instance : Blind World.base := ⟨fun _ _ _ _ => rfl⟩

theorem sendNextPacket_base : Fixes World.base sendNextPacket := by
  have timer : Fixes World.base startTimer :=
    .bind .request fun _ => .bind .locals fun _ => .ite
      (.bind .clockGettime fun _ => .bind (.modifyLocals fun _ => rfl) fun _ =>
        .ite (.bind .clockGettime fun _ => .modifyLocals fun _ => rfl) (.pure _)) (.pure _)
  exact .bind .request fun _ => .bind .locals fun _ => .ite (.stop _) (.bind .require fun _ =>
    .bind (.modifyLocals fun _ => rfl) fun _ => .bind (.sendto _ _) fun _ =>
      .bind (.modify fun _ => rfl) fun _ => .bind timer fun _ => .modifyLocals fun _ => rfl)

theorem fillWindow_base (rounds : ℕ) : Fixes World.base (fillWindow rounds) := by
  induction rounds with
  | zero => exact .stop _
  | succ rounds ih =>
      exact .bind .request fun _ => .bind .locals fun _ =>
        .ite (.bind sendNextPacket_base fun _ => ih) (.pure _)

/-- The receiving phase moves the window and its clocks, and nothing else. -/
theorem awaitAnswer_fixes {γ : Type} {π : World Sender → γ} [Blind π]
    (received : ∀ (w : World Sender) (d : Datagram),
      π { w with request := w.request.received d } = π w)
    (locals : ∀ (w : World Sender) (l : Sender), l.endOfFile = w.locals.endOfFile →
      l.nextSequenceNumber = w.locals.nextSequenceNumber → π { w with locals := l } = π w)
    (a : Arrival) : Fixes π (awaitAnswer a) := by
  have moves (f : Sender → Sender) (h : ∀ l, (f l).endOfFile = l.endOfFile ∧
      (f l).nextSequenceNumber = l.nextSequenceNumber) : Fixes π (modifyLocals f) :=
    .modifyLocals fun w => locals w _ (h _).1 (h _).2
  have again (rounds : ℕ) (i : UInt16) : Fixes π (retransmitFrom rounds i) := by
    induction rounds generalizing i with
    | zero => exact .stop _
    | succ rounds ih =>
        exact .bind .request fun _ => .bind .locals fun _ => .ite
          (.ite (.stop _) (.bind (.sendto _ _) fun _ => ih _)) (.pure _)
  have clock : Fixes π restartClock :=
    .bind .clockGettime fun _ => moves _ fun _ => ⟨rfl, rfl⟩
  have backOff : Fixes π backOff :=
    .bind .request fun _ => .ite (moves _ fun _ => ⟨rfl, rfl⟩) (.pure _)
  have timeout : Fixes π onTimeout :=
    .bind .request fun _ => .bind .locals fun _ => .ite (.stop _)
      (.bind (moves _ fun _ => ⟨rfl, rfl⟩) fun _ => .bind backOff fun _ => .bind clock fun _ =>
        .bind .sys fun _ => .bind .locals fun _ => again _ _)
  have advance (n : UInt16) : Fixes π (advanceWindow n) :=
    .bind (moves _ fun _ => ⟨rfl, rfl⟩) fun _ => .bind .locals fun _ => .ite clock (.pure _)
  have sample (n : UInt16) : Fixes π (takeSample n) :=
    .bind .request fun _ => .bind .locals fun _ =>
      .ite (.bind .clockGettime fun _ => moves _ fun _ => ⟨rfl, rfl⟩) (.pure _)
  have ack : Fixes π onAck :=
    .bind .request fun _ => .bind .locals fun _ => .ite
      (.bind (advance _) fun _ => .bind (moves _ fun _ => ⟨rfl, rfl⟩) fun _ =>
        .bind (sample _) fun _ => .ite (.stop _) (.pure _)) (.pure _)
  refine .bind .clockGettime fun _ => .bind .locals fun _ => .ite timeout
    (.bind .require fun _ => ?_)
  cases a with
  | failed => exact .stop _
  | timeout => exact timeout
  | datagram d =>
      exact .bind (.modify fun w => received w d) fun _ => .bind .request fun _ =>
        .ite (.trySendto _ _) (.ite ack (.stop _))

theorem awaitAnswer_base (a : Arrival) : Fixes World.base (awaitAnswer a) :=
  awaitAnswer_fixes (fun _ _ => rfl) (fun _ _ _ _ => rfl) a

/-! ## The sending phase -/

section Sending

variable {w : World Sender} {size : ℕ} {file : Bytes} {k : ℕ}

theorem World.packets_snoc {L : Type} {w : World L} (dest : Address) (n : UInt16) (payload : Bytes) :
    (w.sent ++ [(dest, Message.packet (.data n payload))]).filterMap dataSent =
      w.packets ++ [⟨n, payload⟩] := by
  rw [List.filterMap_append]
  rfl

/-- The next block is put in the only place of the window. -/
theorem Sender.Holds.store {l : Sender} (h : l.Holds size file k k)
    (more : k < Blocks.last size file) (hs : 0 < size) {t : Sender}
    (file' : t.file = l.file.drop (l.file.take size).length)
    (packets : t.dataPackets 0 = ⟨l.nextSequenceNumber, poke (l.dataPackets 0).data 0 (l.file.take size)⟩)
    (lastSize : t.lastPacketSize = 4 + (l.file.take size).length)
    (ended : t.endOfFile = (l.endOfFile || decide ((l.file.take size).length < size)))
    (begins : t.windowBegin = l.windowBegin)
    (next : t.nextSequenceNumber = l.nextSequenceNumber + 1) :
    t.Holds size file (k + 1) k := by
  have taken : l.file.take size = Blocks.block size file (k + 1) := by
    rw [h.unread, Blocks.block_succ]
  rw [taken] at file' packets lastSize ended
  have opened : l.endOfFile = false := by
    apply eq_false_of_ne_true
    intro atEnd
    exact more.ne (h.ended.mp atEnd)
  constructor
  case unread => rw [file', h.unread, Blocks.drop_block]
  case next => rw [next, h.next, Serial.ofNat_succ (k + 1)]
  case begins => rw [begins, h.begins]
  case ended =>
    rw [ended, opened, Bool.false_or, decide_eq_true_iff]
    exact Blocks.length_block_lt_iff hs more
  case within => exact more
  case acked_le => exact Nat.le_succ k
  case window => exact le_rfl
  case packet =>
    intro _
    refine ⟨?_, ?_, lastSize⟩
    · rw [packets, h.next]
    · rw [packets, poke, List.take_zero, List.nil_append, List.take_left]

theorem Sender.store_one {n : UInt16} (one : n = 1) (l : Sender) (block : Bytes) :
    (l.store n block).dataPackets 0 =
      ⟨l.nextSequenceNumber, poke (l.dataPackets 0).data 0 block⟩ := by
  subst one
  exact if_pos (Nat.mod_one _).symm

/-- The world once the clock of a block has started. -/
structure World.Sends (size : ℕ) (file : Bytes) (k : ℕ) (w t : World Sender) : Prop where
  holds : t.locals.Holds size file (k + 1) k
  packets : t.packets = w.packets ++ [numbered size file (k + 1)]
  prompt : w.sys = {} → t.sys = {} ∧ t.locals.startTime = t.clock

theorem sendNextPacket_sends (one : w.request.options.windowSize = 1)
    (hsize : w.request.options.blockSize.toNat = size) (hs : 0 < size)
    (h : w.locals.Holds size file k k) (more : k < Blocks.last size file) :
    wp sendNextPacket (fun _ t => w.Sends size file k t)
      (fun o t => o = .returned false ∧ t.packets = w.packets ∧
        t.locals.windowBegin = w.locals.windowBegin ∧ w.sys ≠ {}) w := by
  have opens : w.locals.windowBegin = w.locals.nextSequenceNumber := h.begins.trans h.next.symm
  have fails {v : World Sender} (answer : v.answer = false) (calls : w.sys = {} → v.sys = {}) :
      w.sys ≠ {} := by
    intro idle
    have yes : v.answer = true := by
      unfold World.answer
      rw [calls idle]
      rfl
    exact absurd (yes.symm.trans answer) (by decide)
  have answered (idle : w.sys = {}) : w.answered.sys = {} := by
    show ({ w.sys with calls := w.sys.calls.tail } : Sys) = {}
    rw [idle]
    rfl
  unfold sendNextPacket
  rw [wp_bind, wp_request, wp_bind, wp_locals]
  refine wp_ite.mpr ⟨fun zero => absurd (one.symm.trans zero) (by decide), fun _ => ?_⟩
  rw [wp_bind, wp_require]
  refine ⟨fun _ => ?_, fun no => ⟨rfl, rfl, rfl, fails no id⟩⟩
  rw [wp_bind, wp_modifyLocals, wp_bind, wp_sendto]
  refine ⟨fun _ => ?_, fun no => ⟨rfl, rfl, rfl, fails no answered⟩⟩
  rw [wp_bind, wp_modify, wp_bind]
  unfold startTimer
  rw [wp_bind, wp_request, wp_bind, wp_locals]
  refine wp_ite.mpr ⟨fun _ => ?_, fun closed => (closed opens).elim⟩
  rw [wp_bind, wp_clockGettime, wp_bind, wp_modifyLocals]
  have stored := Sender.store_one one w.locals (w.locals.file.take size)
  have sent : (w.sent ++ [(w.request.serverAddr, Message.packet
      (.data w.locals.nextSequenceNumber (w.locals.file.take size)))]).filterMap dataSent =
      w.packets ++ [numbered size file (k + 1)] := by
    rw [World.packets_snoc, h.next, h.unread]
    rfl
  have still (idle : w.sys = {}) : w.answered.answered.ticked.sys = {} ∧
      w.answered.answered.ticked.ticked.sys = {} ∧
      w.answered.answered.ticked.clock = w.answered.answered.ticked.ticked.clock := by
    have idle : w.answered.answered.sys = {} := by
      show ({ w.answered.sys with calls := w.answered.sys.calls.tail } : Sys) = {}
      rw [answered idle]
      rfl
    unfold World.ticked
    rw [idle]
    exact ⟨rfl, rfl, rfl⟩
  rw [hsize]
  refine wp_ite.mpr ⟨fun _ => ?_, fun _ => ?_⟩
  · rw [wp_bind, wp_clockGettime]
    refine ⟨h.store more hs rfl stored rfl rfl rfl rfl, sent, fun idle => ?_⟩
    exact ⟨(still idle).2.1, (still idle).2.2⟩
  · refine ⟨h.store more hs rfl stored rfl rfl rfl rfl, sent, fun idle => ?_⟩
    exact ⟨(still idle).1, rfl⟩

/-- A window of one packet that holds a block is full. -/
theorem fillWindow_full (one : w.request.options.windowSize = 1)
    (full : w.locals.windowBegin ≠ w.locals.nextSequenceNumber) (rounds : ℕ)
    {Q : Unit → World Sender → Prop} {E : Outcome → World Sender → Prop} (hQ : Q () w) :
    wp (fillWindow (rounds + 1)) Q E w := by
  unfold fillWindow
  rw [wp_bind, wp_request, wp_bind, wp_locals]
  refine wp_ite.mpr ⟨fun inside => ?_, fun _ => hQ⟩
  rw [one, isInRange_one] at inside
  exact absurd inside.2.symm full

theorem Sender.Holds.full {l : Sender} {b : ℕ} (h : l.Holds size file (b + 1) b) :
    l.windowBegin ≠ l.nextSequenceNumber := by
  rw [h.next, h.begins]
  intro same
  have same := (Serial.ofNat_inj_near (Nat.le_succ (b + 1)) (by omega)).mp same
  exact absurd same (by omega)

/-- The sending phase sends the block that the window is opened for. -/
theorem fillWindow_sends (one : w.request.options.windowSize = 1)
    (hsize : w.request.options.blockSize.toNat = size) (hs : 0 < size) {b : ℕ}
    (h : w.locals.Holds size file k b) (more : b < Blocks.last size file) :
    wp (fillWindow 65537)
      (fun _ v => v.locals.Holds size file (b + 1) b ∧
        v.packets = w.packets ++ (List.range' (k + 1) (b + 1 - k)).map (numbered size file) ∧
        (k = b → w.sys = {} → v.sys = {} ∧ v.locals.startTime = v.clock))
      (fun o v => o = .returned false ∧ v.packets = w.packets ∧
        v.locals.windowBegin = w.locals.windowBegin ∧ w.sys ≠ {}) w := by
  rcases Nat.lt_or_ge b k with sent | unsent
  · obtain rfl : k = b + 1 := le_antisymm h.window sent
    refine fillWindow_full one h.full 65536 ⟨h, ?_, fun opens => absurd opens (by omega)⟩
    rw [Nat.sub_self, List.range'_zero, List.map_nil, List.append_nil]
  · obtain rfl : k = b := le_antisymm unsent h.acked_le
    have single : List.range' (k + 1) (k + 1 - k) = [k + 1] := by
      rw [Nat.add_sub_cancel_left]
      rfl
    unfold fillWindow
    rw [wp_bind, wp_request, wp_bind, wp_locals]
    refine wp_ite.mpr ⟨fun _ => ?_, fun closed => ?_⟩
    · rw [wp_bind]
      refine wp_mono (wp_and (sendNextPacket_sends one hsize hs h more)
        (sendNextPacket_base _ w rfl)) ?_ fun _ _ failed => failed.1
      rintro _ t ⟨sends, base⟩
      have one' : t.request.options.windowSize = 1 :=
        (congrArg (fun r => r.options.windowSize) base).trans one
      refine fillWindow_full one' sends.holds.full 65535 ⟨sends.holds, ?_, fun _ => sends.prompt⟩
      rw [single]
      exact sends.packets
    · refine (closed ⟨?_, ?_⟩).elim
      · apply eq_false_of_ne_true
        intro atEnd
        exact more.ne (h.ended.mp atEnd)
      · rw [one, isInRange_one, h.next, h.begins]

end Sending

/-! ## The receiving phase -/

section Receiving

variable {v : World Sender} {size : ℕ} {file : Bytes} {b : ℕ}

theorem backOff_quiet :
    wp backOff (fun _ t => t.locals.untimed = v.locals.untimed ∧ t.request = v.request ∧
      t.sent = v.sent) (fun _ _ => False) v := by
  unfold backOff
  rw [wp_bind, wp_request]
  exact wp_ite.mpr ⟨fun _ => ⟨rfl, rfl, rfl⟩, fun _ => ⟨rfl, rfl, rfl⟩⟩

theorem advanceWindow_quiet (n : UInt16) :
    wp (advanceWindow n)
      (fun _ t => t.locals.untimed = { v.locals.untimed with windowBegin := n + 1 } ∧
        t.sent = v.sent) (fun _ _ => False) v := by
  unfold advanceWindow
  rw [wp_bind, wp_modifyLocals, wp_bind, wp_locals]
  refine wp_ite.mpr ⟨fun _ => ?_, fun _ => ⟨rfl, rfl⟩⟩
  unfold restartClock
  rw [wp_bind, wp_clockGettime]
  exact ⟨rfl, rfl⟩

theorem takeSample_quiet (n : UInt16) :
    wp (takeSample n) (fun _ t => t.locals.untimed = v.locals.untimed ∧ t.sent = v.sent)
      (fun _ _ => False) v := by
  unfold takeSample
  rw [wp_bind, wp_request, wp_bind, wp_locals]
  refine wp_ite.mpr ⟨fun _ => ?_, fun _ => ⟨rfl, rfl⟩⟩
  rw [wp_bind, wp_clockGettime]
  exact ⟨rfl, rfl⟩

/-- Its one outstanding block is what the window holds. -/
theorem Sender.Holds.next_eq {l : Sender} (h : l.Holds size file (b + 1) b) :
    l.nextSequenceNumber = l.windowBegin + 1 := by
  rw [h.next, h.begins, Serial.ofNat_succ (b + 1)]

/-- Where the next number is zero behind the last block. -/
theorem Sender.Holds.stuck_iff {l : Sender} (h : l.Holds size file (b + 1) b) :
    l.Stuck ↔ b + 1 = Blocks.last size file ∧ Blocks.last size file % 65536 = 65535 := by
  unfold Sender.Stuck
  rw [h.ended, h.next, ← UInt16.toNat_inj, Serial.toNat_ofNat]
  refine and_congr_right fun atEnd => ?_
  rw [← atEnd]
  show (b + 1 + 1) % 65536 = 0 ↔ _
  omega

/-- A block that is sent again is what was sent first, unless the size of its
packet is compared with the number zero. -/
theorem Sender.Holds.resent {l : Sender} (h : l.Holds size file (b + 1) b) (hs : 0 < size)
    (free : ¬l.Stuck) (packetSize : ℕ)
    (hp : packetSize = if l.windowBegin.toNat + 1 = l.nextSequenceNumber.toNat
      then l.lastPacketSize else 4 + size) :
    (⟨(l.dataPackets 0).blockNumber, (l.dataPackets 0).data.take (packetSize - 4)⟩ : DataPacket) =
      numbered size file (b + 1) := by
  obtain ⟨number, data, lastSize⟩ := h.packet (Nat.succ_pos b)
  have payload : packetSize - 4 = (Blocks.block size file (b + 1)).length := by
    rw [hp]
    split
    · rw [lastSize, Nat.add_sub_cancel_left]
    · rename_i wraps
      have zero : l.nextSequenceNumber = 0 := by
        rw [← UInt16.toNat_inj, h.next, Serial.toNat_ofNat]
        rw [h.next, h.begins, Serial.toNat_ofNat, Serial.toNat_ofNat] at wraps
        show (b + 1 + 1) % 65536 = 0
        omega
      have more : ¬b + 1 = Blocks.last size file := by
        intro atEnd
        exact free ⟨h.ended.mpr atEnd, zero⟩
      have full : ¬(Blocks.block size file (b + 1)).length < size := by
        rw [Blocks.length_block_lt_iff hs h.within]
        exact more
      have most : (Blocks.block size file (b + 1)).length ≤ size := by
        rw [Blocks.block_succ]
        exact List.length_take_le _ _
      omega
  rw [payload, number, data]
  rfl

theorem retransmitFrom_sends (one : v.request.options.windowSize = 1)
    (hsize : v.request.options.blockSize.toNat = size) (hs : 0 < size)
    (h : v.locals.Holds size file (b + 1) b) (free : ¬v.locals.Stuck) (rounds : ℕ) :
    wp (retransmitFrom (rounds + 2) v.locals.windowBegin)
      (fun _ t => t.locals = v.locals ∧ t.packets = v.packets ++ [numbered size file (b + 1)])
      (fun o t => o = .returned false ∧ t.locals = v.locals ∧ t.packets = v.packets) v := by
  have inside {i : UInt16} : isInRange i v.locals.windowBegin (v.locals.nextSequenceNumber - 1) =
      true ↔ i = v.locals.windowBegin := by
    rw [h.next_eq]
    exact isInRange_one
  unfold retransmitFrom
  rw [wp_bind, wp_request, wp_bind, wp_locals]
  refine wp_ite.mpr ⟨fun _ => ?_, fun outside => (outside (inside.mpr rfl)).elim⟩
  have index : ((v.locals.windowBegin.toNat : ℤ) - 1).tmod v.request.options.windowSize.toNat = 0 := by
    rw [one]
    exact Int.tmod_one _
  dsimp only
  rw [index]
  refine wp_ite.mpr ⟨fun crash => ?_, fun _ => ?_⟩
  · rcases crash with zero | negative
    · exact absurd (one.symm.trans zero) (by decide)
    · exact absurd negative (lt_irrefl _)
  · rw [wp_bind, wp_sendto]
    refine ⟨fun _ => ?_, fun _ => ⟨rfl, rfl, rfl⟩⟩
    have packet := h.resent hs free _ rfl
    rw [hsize]
    unfold retransmitFrom
    rw [wp_bind, wp_request, wp_bind, wp_locals]
    refine wp_ite.mpr ⟨fun again => ?_, fun _ => ⟨rfl, ?_⟩⟩
    · exact absurd (inside.mp again) (by simp)
    · rw [← packet]
      exact World.packets_snoc _ _ _

/-- A timeout sends the outstanding block again. -/
theorem onTimeout_sends (one : v.request.options.windowSize = 1)
    (hsize : v.request.options.blockSize.toNat = size) (hs : 0 < size)
    (h : v.locals.Holds size file (b + 1) b) (free : ¬v.locals.Stuck) :
    wp onTimeout
      (fun _ t => t.locals.untimed = v.locals.untimed ∧
        t.packets = v.packets ++ [numbered size file (b + 1)])
      (fun o t => o = .returned false ∧ t.locals.untimed = v.locals.untimed ∧
        t.packets = v.packets) v := by
  unfold onTimeout
  rw [wp_bind, wp_request, wp_bind, wp_locals]
  refine wp_ite.mpr ⟨fun _ => ⟨rfl, rfl, rfl⟩, fun _ => ?_⟩
  rw [wp_bind, wp_modifyLocals, wp_bind]
  refine wp_mono backOff_quiet (fun _ u quiet => ?_) fun _ _ never => never.elim
  obtain ⟨untimed, request, sent⟩ := quiet
  unfold restartClock retransmitWindow
  rw [wp_bind, wp_bind, wp_clockGettime, wp_modifyLocals, wp_bind, wp_sys, wp_bind, wp_locals]
  generalize hw : ({ request := _, locals := _, sys := _, sent := _, clock := _ } : World Sender) = w
  have same : w.locals.untimed = v.locals.untimed := by
    subst hw
    exact untimed
  have asked : w.request = v.request := by
    subst hw
    exact request
  have packets : w.packets = v.packets := by
    subst hw
    exact congrArg (List.filterMap dataSent) sent
  have free' : ¬w.locals.Stuck := by
    intro stuck
    have atEnd : w.locals.endOfFile = v.locals.endOfFile := (congrArg Sender.endOfFile same :)
    have next : w.locals.nextSequenceNumber = v.locals.nextSequenceNumber :=
      (congrArg Sender.nextSequenceNumber same :)
    exact free ⟨atEnd.symm.trans stuck.1, next.symm.trans stuck.2⟩
  have sends := retransmitFrom_sends (asked ▸ one) (asked ▸ hsize) hs (h.congr same) free'
    (w.sys.calls.length + 65535)
  rw [packets] at sends
  subst hw
  refine wp_mono sends ?_ ?_
  · rintro _ t ⟨locals, sent⟩
    exact ⟨(congrArg Sender.untimed locals).trans untimed, sent⟩
  · rintro o t ⟨rfl, locals, sent⟩
    exact ⟨rfl, (congrArg Sender.untimed locals).trans untimed, sent⟩

/-- The window has moved past its one block. -/
theorem Sender.Holds.acknowledge {l t : Sender} (h : l.Holds size file (b + 1) b)
    (same : t.untimed = { l.untimed with windowBegin := UInt16.ofNat (b + 1) + 1 }) :
    t.Holds size file (b + 1) (b + 1) := by
  have moved : ({ l with windowBegin := UInt16.ofNat (b + 1) + 1 } : Sender).Holds size file (b + 1)
      (b + 1) := by
    constructor
    case begins => exact (Serial.ofNat_succ (b + 1)).symm
    case acked_le => exact le_rfl
    case window => exact Nat.le_succ _
    case unread => exact h.unread
    case next => exact h.next
    case ended => exact h.ended
    case within => exact h.within
    case packet => exact h.packet
  exact moved.congr same

/-- What an ACK does: that of the outstanding block moves the window, and ends the
transfer behind the last block. -/
theorem onAck_moves (h : v.locals.Holds size file (b + 1) b) (free : ¬v.locals.Stuck) :
    wp onAck
      (fun _ t => t.packets = v.packets ∧
        (readU16 v.request.recvBuffer 2 ≠ UInt16.ofNat (b + 1) ∧
            t.locals.Holds size file (b + 1) b ∨
          readU16 v.request.recvBuffer 2 = UInt16.ofNat (b + 1) ∧
            t.locals.Holds size file (b + 1) (b + 1) ∧ b + 1 ≠ Blocks.last size file))
      (fun o t => o = .returned true ∧ t.packets = v.packets ∧
        readU16 v.request.recvBuffer 2 = UInt16.ofNat (b + 1) ∧
        t.locals.Holds size file (b + 1) (b + 1) ∧ b + 1 = Blocks.last size file) v := by
  unfold onAck takeAck
  rw [wp_bind, wp_request, wp_bind, wp_locals]
  rw [h.next_eq]
  refine wp_ite.mpr ⟨fun inside => ?_, fun outside => ?_⟩
  · rw [isInRange_one, h.begins] at inside
    rw [wp_bind, inside]
    refine wp_mono (advanceWindow_quiet _) ?_ fun _ _ never => never.elim
    rintro _ u ⟨moved, sent⟩
    rw [wp_bind, wp_modifyLocals, wp_bind]
    refine wp_mono (takeSample_quiet _) ?_ fun _ _ never => never.elim
    rintro _ t ⟨quiet, still⟩
    have holds := h.acknowledge (quiet.trans moved)
    have packets : t.packets = v.packets := congrArg (List.filterMap dataSent) (still.trans sent)
    refine wp_ite.mpr ⟨fun ended => ?_, fun unended => ?_⟩
    · exact ⟨rfl, packets, rfl, holds, h.ended.mp ended.1⟩
    · refine ⟨packets, .inr ⟨rfl, holds, fun atEnd => ?_⟩⟩
      -- the test fails behind the last block only if the next number is zero
      refine unended ⟨h.ended.mpr atEnd, ?_⟩
      have next : v.locals.nextSequenceNumber ≠ 0 := fun zero => free ⟨h.ended.mpr atEnd, zero⟩
      rw [h.next, Ne, ← UInt16.toNat_inj, Serial.toNat_ofNat] at next
      rw [h.begins, ← Serial.ofNat_succ, Serial.toNat_ofNat, Serial.toNat_ofNat]
      have next : ¬(b + 1 + 1) % 65536 = 0 := next
      omega
  · rw [isInRange_one, h.begins] at outside
    exact ⟨rfl, .inl ⟨outside, h⟩⟩

/-- An ACK is processed: that of the block with this number. -/
def World.Hears (v : World Sender) (a : Arrival) (n : UInt16) : Prop :=
  ∃ d, a = .datagram d ∧ 0 < v.remainingTime ∧ v.answer = true ∧
    sockaddrEquals v.request.serverAddr d.sender = true ∧
    readU16 (v.request.received d).recvBuffer 0 = Opcode.ack ∧ v.acknowledgedNumber d = n

/-- A round that goes on: nothing happened, or the outstanding block was sent again,
or it was acknowledged and is not the last one. -/
inductive World.Continues (size : ℕ) (file : Bytes) (b : ℕ) (v : World Sender) (a : Arrival)
    (t : World Sender) : Prop where
  | waits : ¬v.Hears a (UInt16.ofNat (b + 1)) → t.locals.Holds size file (b + 1) b →
      t.packets = v.packets → Continues size file b v a t
  | again : ¬v.Hears a (UInt16.ofNat (b + 1)) → t.locals.Holds size file (b + 1) b →
      t.packets = v.packets ++ [numbered size file (b + 1)] → Continues size file b v a t
  | moves : v.Hears a (UInt16.ofNat (b + 1)) → t.locals.Holds size file (b + 1) (b + 1) →
      b + 1 ≠ Blocks.last size file → t.packets = v.packets → Continues size file b v a t

/-- A round that ends `send_file`: something failed, or the last block was
acknowledged. -/
inductive World.Finishes (size : ℕ) (file : Bytes) (b : ℕ) (v : World Sender) (a : Arrival)
    (t : World Sender) : Outcome → Prop where
  | fails : ¬v.Hears a (UInt16.ofNat (b + 1)) → t.locals.Holds size file (b + 1) b →
      t.packets = v.packets → Finishes size file b v a t (.returned false)
  | completes : v.Hears a (UInt16.ofNat (b + 1)) → t.locals.Holds size file (b + 1) (b + 1) →
      b + 1 = Blocks.last size file → t.packets = v.packets →
      Finishes size file b v a t (.returned true)

theorem awaitAnswer_moves (one : v.request.options.windowSize = 1)
    (hsize : v.request.options.blockSize.toNat = size) (hs : 0 < size)
    (h : v.locals.Holds size file (b + 1) b) (free : ¬v.locals.Stuck) (a : Arrival) :
    wp (awaitAnswer a) (fun _ t => v.Continues size file b a t)
      (fun o t => v.Finishes size file b a t o) v := by
  have timeout {u : World Sender} (deaf : ¬v.Hears a (UInt16.ofNat (b + 1)))
      (request : u.request = v.request) (locals : u.locals = v.locals) (sent : u.sent = v.sent) :
      wp onTimeout (fun _ t => v.Continues size file b a t)
        (fun o t => v.Finishes size file b a t o) u := by
    have packets : u.packets = v.packets := congrArg (List.filterMap dataSent) sent
    refine wp_mono (onTimeout_sends (request ▸ one) (request ▸ hsize) hs (locals ▸ h)
      (locals ▸ free)) ?_ ?_
    · rintro _ t ⟨untimed, again⟩
      rw [packets] at again
      rw [locals] at untimed
      exact .again deaf (h.congr untimed) again
    · rintro o t ⟨rfl, untimed, none_⟩
      rw [locals] at untimed
      exact .fails deaf (h.congr untimed) (none_.trans packets)
  unfold awaitAnswer
  rw [wp_bind, wp_clockGettime, wp_bind, wp_locals]
  refine wp_ite.mpr ⟨fun elapsed => ?_, fun left => ?_⟩
  · refine timeout ?_ rfl rfl rfl
    rintro ⟨d, -, left, -⟩
    exact absurd left (not_lt.mpr elapsed)
  rw [wp_bind, wp_require]
  refine ⟨fun yes => ?_, fun no => ?_⟩
  · cases a with
    | failed =>
        refine .fails ?_ h rfl
        rintro ⟨d, arrived, -⟩
        cases arrived
    | timeout =>
        refine timeout ?_ rfl rfl rfl
        rintro ⟨d, arrived, -⟩
        cases arrived
    | datagram d =>
        unfold answerDatagram
        rw [wp_bind, wp_modify, wp_bind, wp_request]
        refine wp_ite.mpr ⟨fun foreign => ?_, fun own => wp_ite.mpr ⟨fun ack => ?_, fun other => ?_⟩⟩
        · have deaf : ¬v.Hears (.datagram d) (UInt16.ofNat (b + 1)) := by
            rintro ⟨d', arrived, -, -, own, -⟩
            cases arrived
            exact absurd (own.symm.trans foreign) (by decide)
          rw [handleUnexpectedPeer, wp_trySendto]
          refine ⟨fun _ => .waits deaf h ?_, fun _ => .waits deaf h rfl⟩
          show (v.sent ++ [_]).filterMap dataSent = _
          rw [List.filterMap_append]
          exact List.append_nil _
        · have hears (n : UInt16) : v.Hears (.datagram d) n ↔ v.acknowledgedNumber d = n := by
            constructor
            · rintro ⟨d', arrived, -, -, -, -, number⟩
              cases arrived
              exact number
            · intro number
              exact ⟨d, rfl, not_le.mp left, yes, eq_true_of_ne_false own, ack, number⟩
          refine wp_mono (onAck_moves (by exact h) (by exact free)) ?_ ?_
          · rintro _ t ⟨packets, ⟨other, holds⟩ | ⟨number, holds, more⟩⟩
            · exact .waits (fun heard => other ((hears _).mp heard)) holds packets
            · exact .moves ((hears _).mpr number) holds more packets
          · rintro o t ⟨rfl, packets, number, holds, atEnd⟩
            exact .completes ((hears _).mpr number) holds atEnd packets
        · refine .fails ?_ h rfl
          rintro ⟨d', arrived, -, -, -, ack, -⟩
          cases arrived
          exact other ack
  · refine .fails ?_ h rfl
    rintro ⟨d, -, -, yes, -⟩
    exact absurd (yes.symm.trans no) (by decide)

/-- The outcome is not success. -/
abbrev Unsuccessful (o : Outcome) : Prop := o ≠ .returned true

theorem unsuccessful_failed : Unsuccessful (.returned false) := by decide

theorem stopsIn_attempt {L : Type} : StopsIn Unsuccessful (attempt : Act L Bool) :=
  fun _ => wp_attempt.mpr trivial

theorem stopsIn_require {L : Type} : StopsIn Unsuccessful (require : Act L Unit) :=
  .bind stopsIn_attempt fun _ => .ite (.pure _) (.stop (by decide))

theorem stopsIn_sendto {L : Type} (dest : Address) (m : Message) :
    StopsIn Unsuccessful (sendto dest m : Act L Unit) := .bind stopsIn_require fun _ => .update _

theorem stopsIn_trySendto {L : Type} (dest : Address) (m : Message) :
    StopsIn Unsuccessful (trySendto dest m : Act L Unit) :=
  .bind stopsIn_attempt fun _ => .ite (.update _) (.pure _)

theorem stopsIn_fillWindow (rounds : ℕ) : StopsIn Unsuccessful (fillWindow rounds) := by
  have clock : StopsIn Unsuccessful (clockGettime : Act Sender ℕ) := fun _ => trivial
  have timer : StopsIn Unsuccessful startTimer :=
    .bind (.gets _) fun _ => .bind (.gets _) fun _ => .ite (.bind clock fun _ =>
      .bind (.update _) fun _ => .ite (.bind clock fun _ => .update _) (.pure _)) (.pure _)
  induction rounds with
  | zero => exact .stop (by decide)
  | succ rounds ih =>
      exact .bind (.gets _) fun _ => .bind (.gets _) fun _ => .ite (.bind (.bind (.gets _) fun _ =>
        .bind (.gets _) fun _ => .ite (.stop (by decide)) (.bind stopsIn_require fun _ =>
          .bind (.update _) fun _ => .bind (stopsIn_sendto _ _) fun _ => .bind (.update _) fun _ =>
            .bind timer fun _ => .update _)) fun _ => ih) (.pure _)

theorem stopsIn_retransmitFrom (rounds : ℕ) (i : UInt16) :
    StopsIn Unsuccessful (retransmitFrom rounds i) := by
  induction rounds generalizing i with
  | zero => exact .stop (by decide)
  | succ rounds ih =>
      exact .bind (.gets _) fun _ => .bind (.gets _) fun _ => .ite (.ite (.stop (by decide))
        (.bind (stopsIn_sendto _ _) fun _ => ih _)) (.pure _)

theorem stopsIn_onTimeout : StopsIn Unsuccessful onTimeout := by
  have clock : StopsIn Unsuccessful (clockGettime : Act Sender ℕ) := fun _ => trivial
  exact .bind (.gets _) fun _ => .bind (.gets _) fun _ => .ite (.stop (by decide))
    (.bind (.update _) fun _ => .bind (.bind (.gets _) fun _ => .ite (.update _) (.pure _)) fun _ =>
      .bind (.bind clock fun _ => .update _) fun _ => .bind (.gets _) fun _ => .bind (.gets _) fun _ =>
        stopsIn_retransmitFrom _ _)

/-- What the end of the file is read off. -/
def World.atEnd (w : World Sender) : Bool × UInt16 :=
  (w.locals.endOfFile, w.locals.nextSequenceNumber)

instance : Blind World.atEnd := ⟨fun _ _ _ _ => rfl⟩

/-- Behind a last block whose next number is zero no ACK completes the transfer. -/
theorem awaitAnswer_stuck (h : v.locals.Stuck) (a : Arrival) :
    wp (awaitAnswer a) (fun _ t => t.locals.Stuck) (fun o _ => Unsuccessful o) v := by
  have kept := awaitAnswer_fixes (π := World.atEnd) (fun _ _ => rfl)
    (fun _ _ atEnd next => Prod.ext atEnd next) a _ v rfl
  have outcome : wp (awaitAnswer a) (fun _ _ => True) (fun o _ => Unsuccessful o) v := by
    unfold awaitAnswer
    rw [wp_bind, wp_clockGettime, wp_bind, wp_locals]
    refine wp_ite.mpr ⟨fun _ => stopsIn_onTimeout _, fun _ => ?_⟩
    rw [wp_bind, wp_require]
    refine ⟨fun _ => ?_, fun _ => by decide⟩
    cases a with
    | failed => exact wp_fail.mpr (by decide)
    | timeout => exact stopsIn_onTimeout _
    | datagram d =>
        unfold answerDatagram
        rw [wp_bind, wp_modify, wp_bind, wp_request]
        refine wp_ite.mpr ⟨fun _ => stopsIn_trySendto _ _ _, fun _ => wp_ite.mpr ⟨fun _ => ?_, fun _ =>
          wp_fail.mpr (by decide)⟩⟩
        unfold onAck takeAck
        rw [wp_bind, wp_request, wp_bind, wp_locals]
        refine wp_ite.mpr ⟨fun _ => ?_, fun _ => trivial⟩
        rw [wp_bind]
        refine wp_mono (advanceWindow_quiet _) (fun _ _ _ => ?_) fun _ _ never => never.elim
        rw [wp_bind, wp_modifyLocals, wp_bind]
        refine wp_mono (takeSample_quiet _) (fun _ _ _ => ?_) fun _ _ never => never.elim
        refine wp_ite.mpr ⟨fun ended => ?_, fun _ => trivial⟩
        have last : _ + 1 = v.locals.nextSequenceNumber.toNat := ended.2
        rw [h.2] at last
        exact absurd last (Nat.succ_ne_zero _)
  refine wp_mono (wp_and kept outcome) (fun _ t ht => ?_) fun _ _ ho => ho.2
  exact ⟨(congrArg Prod.fst ht.1).trans h.1, (congrArg Prod.snd ht.1).trans h.2⟩

end Receiving

end Tftp.Client
