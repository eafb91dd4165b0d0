import Tftp.Server.Slots

/-!
# A file with more blocks than numbers

A window of 65535 slots does not divide the 65536 numbers of the blocks. Block 65537
goes to the slot of block 65536, and while that one is outstanding the timer sends its
number with bytes of the next.
-/

namespace Tftp.Server

open Prog Act Blocks

/-! ## Along the file -/

/-- A session with a window of 65535 blocks of 8 bytes that begins at block 3. -/
structure Session.Cruises (s : Session) (n : UInt16) : Prop where
  mode : s.mode = .octet
  requestType : s.requestType = .read
  isOpen : s.shouldClose = false
  settled : s.optionsSettled = true
  active : s.isTimerActive = true
  retries : s.currentRetransmission < s.retries
  plain : s.isAdaptiveTimeoutActive = false
  begins : s.windowBegin = 3
  next : s.nextDataPacketToSend = n
  last : s.lastPacket = none
  width : s.windowSize = 65535
  size : s.blockSize = 8
  whole : s.incompleteRead = false
  unread : s.lastBlockSize = 0
  allocated : s.dataPackets.isSome

instance (s : Session) (n : UInt16) : Decidable (s.Cruises n) :=
  decidable_of_iff (s.mode = .octet ∧ s.requestType = .read ∧ s.shouldClose = false ∧
    s.optionsSettled = true ∧ s.isTimerActive = true ∧ s.currentRetransmission < s.retries ∧
    s.isAdaptiveTimeoutActive = false ∧ s.windowBegin = 3 ∧ s.nextDataPacketToSend = n ∧
    s.lastPacket = none ∧ s.windowSize = 65535 ∧ s.blockSize = 8 ∧ s.incompleteRead = false ∧
    s.lastBlockSize = 0 ∧ s.dataPackets.isSome)
    ⟨fun ⟨h₁, h₂, h₃, h₄, h₅, h₆, h₇, h₈, h₉, h₁₀, h₁₁, h₁₂, h₁₃, h₁₄, h₁₅⟩ =>
      ⟨h₁, h₂, h₃, h₄, h₅, h₆, h₇, h₈, h₉, h₁₀, h₁₁, h₁₂, h₁₃, h₁₄, h₁₅⟩,
    fun h => ⟨h.1, h.2, h.3, h.4, h.5, h.6, h.7, h.8, h.9, h.10, h.11, h.12, h.13, h.14, h.15⟩⟩

variable {w : World} {Q : Unit → World → Prop} {E : Abort → World → Prop} {slots : ℕ → Slot}

/-- A read that completes its block. -/
theorem wp_createDataPackets_complete {Q : Bool → World → Prop} {k : ℕ}
    (complete : ¬w.buffer.Incomplete k w.sys.atEndOfFile) (width : w.session.windowSize ≠ 0)
    (hs : w.session.dataPackets = some slots) :
    wp (createDataPackets k) Q E w ↔ Q true { w with session := { w.session with
      lastBlockSize := w.session.lastBlockSize + UInt16.ofNat k
      dataPackets := (w.buffer.complete slots k).dataPackets } } := by
  have complete : ¬(k < w.session.blockSize.toNat ∧ w.sys.atEndOfFile = false) := complete
  rw [createDataPackets, wp_bind, wp_modify, wp_bind, wp_session, wp_bind, endOfFile, wp_bind,
    wp_sys, wp_pure]
  dsimp only
  rw [if_neg complete, if_neg width, hs]
  exact Iff.rfl

theorem wp_sendto_granted {dest : Address} {packet : Packet} (calls : w.sys.calls = []) :
    wp (sendto dest packet) Q E w ↔ Q () { w with log := w.log ++ [.sent dest packet] } := by
  have same : w.answered = w := by
    unfold World.answered
    rw [calls, List.tail_nil, ← calls]
  have granted : w.answer = true := by
    unfold World.answer
    rw [calls]
    rfl
  rw [wp_sendto, same]
  refine ⟨fun h => h.1 granted, fun h => ⟨fun _ => h, fun refused => ?_⟩⟩
  exact absurd (granted.symm.trans refused) (by decide)

/-- A block that is not the first of the window goes out without a timer. -/
theorem wp_sendNextBlock_behind (plain : w.session.isAdaptiveTimeoutActive = false)
    (width : w.session.windowSize ≠ 0) (hs : w.session.dataPackets = some slots)
    (calls : w.sys.calls = []) (behind : w.session.windowBegin ≠ w.session.nextDataPacketToSend) :
    wp sendNextBlock Q E w ↔ Q () { w with
      session := { w.session with
        stats := { w.session.stats with packetsSent := w.session.stats.packetsSent + 1 }
        lastPacket := w.buffer.sent.lastPacket
        nextDataPacketToSend := w.session.nextDataPacketToSend + 1 }
      log := w.log ++ [.sent w.session.clientAddress (w.buffer.nextPacket slots)] } := by
  rw [sendNextBlock, wp_bind, wp_sys, wp_bind, wp_modify]
  dsimp only
  rw [if_neg (by simp [plain]), wp_bind, wp_session, wp_bind, wp_getDataPacketInfo width hs, wp_bind,
    wp_sendto_granted (by exact calls), wp_bind, wp_modify, wp_bind, wp_session]
  dsimp only
  rw [if_neg behind]
  exact Iff.rfl

/-- The session reads and sends the next block of the file. -/
theorem Session.Cruises.on {n : ℕ} {ops : List Op} (h : w.session.Cruises (UInt16.ofNat n))
    (low : 3 < n) (high : n < 65537) :
    let l' := deliver { atEndOfFile := false } (.dataAvailable (.ok 8)) { w with inflight := ops }
    l'.status = .idle ∧ l'.world.session.Cruises (UInt16.ofNat (n + 1)) ∧
      l'.world.inflight = ops ++ [.read (n % 65536 % 65535) 0 8 none] := by
  intro l'
  refine deliver_spec (P := fun l => l.status = .idle ∧
    l.world.session.Cruises (UInt16.ofNat (n + 1)) ∧
    l.world.inflight = ops ++ [.read (n % 65536 % 65535) 0 8 none]) ?_
  rw [wp_handleEvent, wp_bind, dispatch, wp_bind, wp_jobDone, wp_bind, wp_modify]
  generalize hv : ({ session := _, sys := _, inflight := _, log := _ } : World) = v
  obtain ⟨cruises, sys, inflight, idle⟩ : v.session.Cruises (UInt16.ofNat n) ∧
      v.sys = { atEndOfFile := false } ∧ v.inflight = ops ∧ v.session.isFetchingData = false := by
    subst hv
    exact ⟨⟨h.1, h.2, h.3, h.4, h.5, h.6, h.7, h.8, h.9, h.10, h.11, h.12, h.13, h.14, h.15⟩, rfl,
      rfl, rfl⟩
  obtain ⟨slots, hs⟩ := Option.isSome_iff_exists.mp cruises.allocated
  have calls : v.sys.calls = [] := by rw [sys]
  have width : v.session.windowSize ≠ 0 := by
    rw [cruises.width]
    decide
  have complete : ¬v.buffer.Incomplete 8 v.sys.atEndOfFile := by
    rintro ⟨short, -⟩
    rw [show v.buffer.blockSize = 8 from cruises.size] at short
    exact absurd short (by decide)
  have behind : v.session.windowBegin ≠ v.session.nextDataPacketToSend := by
    rw [cruises.begins, cruises.next, show (3 : UInt16) = UInt16.ofNat 3 from rfl]
    intro same
    have equal := (Serial.ofNat_inj_near low.le (by omega)).mp same
    omega
  rw [onDataAvailable, wp_bind, wp_session, if_pos cruises.mode, wp_bind,
    wp_createDataPackets_complete complete width hs, if_pos rfl,
    wp_sendNextBlock_behind (by exact cruises.plain) (by exact width) (by exact rfl)
      (by exact calls) (by exact behind)]
  have unread : v.session.lastBlockSize + UInt16.ofNat 8 = 8 := by
    rw [cruises.unread]
    rfl
  have next : v.session.nextDataPacketToSend + 1 = UInt16.ofNat (n + 1) := by
    rw [cruises.next, Serial.ofNat_succ]
  have last : ((v.buffer.complete slots 8).sent).lastPacket = none := by
    refine (if_neg ?_).trans cruises.last
    show ¬v.session.lastBlockSize + UInt16.ofNat 8 < v.session.blockSize
    rw [unread, cruises.size]
    decide
  have range : isInRange (UInt16.ofNat (n + 1)) 3 (3 + 65535 - 1) = true := by
    have arc := Serial.onArc_window (n := n + 1) (b := 3) (w := 65535) (by omega) (by omega)
      (by decide) (by decide)
    exact (isInRange_iff _ _ _).mpr (arc.mpr (by omega))
  have done : (if v.session.incompleteRead then v.session.lastBlockSize + UInt16.ofNat 8 else 0) =
      (0 : UInt16) := if_neg (by simp [cruises.whole])
  refine (Transfer.wp_fetchData_octet ?_ ?_ ?_ ?_).mpr (wp_finish.mpr ⟨fun closing => ?_, fun _ => ⟨rfl, ?_, ?_⟩⟩)
  · exact cruises.mode
  · show (decide (v.session.requestType = .read) && !v.session.isFetchingData &&
      !v.session.shouldClose && v.session.optionsSettled &&
      (v.buffer.complete slots 8).sent.lastPacket.isNone &&
      isInRange (v.session.nextDataPacketToSend + 1) v.session.windowBegin
        (v.session.windowBegin + v.session.windowSize - 1)) = true
    rw [cruises.requestType, idle, cruises.isOpen, cruises.settled, last, next, cruises.begins,
      cruises.width, range]
    rfl
  · exact width
  · exact calls
  · have closing' : v.session.shouldClose = true := closing.1
    rw [cruises.isOpen] at closing'
    simp at closing'
  · exact ⟨cruises.mode, cruises.requestType, cruises.isOpen, cruises.settled, cruises.active,
      cruises.retries, cruises.plain, cruises.begins, next, last, cruises.width, cruises.size, rfl,
      done, rfl⟩
  · show v.inflight ++ [.read ((v.session.nextDataPacketToSend + 1 - 1).toNat %
      v.session.windowSize.toNat)
      (if v.session.incompleteRead then v.session.lastBlockSize + UInt16.ofNat 8 else 0).toNat
      (v.session.blockSize.toNat - (if v.session.incompleteRead then
        v.session.lastBlockSize + UInt16.ofNat 8 else 0).toNat) none] = _
    rw [done, inflight, next, cruises.width, cruises.size, Serial.toNat_ofNat_succ_sub]
    rfl

namespace Transfer

/-- 65536 full blocks of zeros, and a last one with another byte. -/
def longFile : Bytes := List.replicate (8 * 65536) 0 ++ [1]

/-- A read request that asks for blocks of 8 bytes and a window of 65535. -/
def wideRequest : PeerMessage where
  peerAddr := someClient
  buffer := bytes16 Opcode.rrq ++ ascii "f" ++ [0] ++ ascii "octet" ++ [0] ++ ascii "blksize" ++
    [0] ++ ascii "8" ++ [0] ++ ascii "windowsize" ++ [0] ++ ascii "65535" ++ [0]

/-- A read brings a block of zeros. -/
def readsZeros (slot : ℕ) : List Label :=
  [.fill (List.replicate 8 0),
    .complete (.read slot 0 8 (some 8)) { atEndOfFile := false } (.dataAvailable (.ok 8))]

/-- The first three blocks go out, and the first two are acknowledged. -/
def setsOut : List Label :=
  [.start fileOpens, arrival (.ack 0)] ++ readsZeros 0 ++ [arrival (.ack 1)] ++ readsZeros 1 ++
    [arrival (.ack 2)] ++ readsZeros 2

/-- What is in flight then, but for the read of the next block. -/
def waiting : List Op :=
  [.timeout .removed, .timeoutRemove, .timeout .removed, .timeoutRemove, .timeout .removed,
    .timeoutRemove, .recv false, .timeout .armed]

/-- The session is about to read the block at position `n`. -/
structure Cruises (x : Transfer) (n : ℕ) : Prop where
  idle : x.live.status = .idle
  session : x.live.world.session.Cruises (UInt16.ofNat n)
  inflight : x.live.world.inflight = waiting ++ [.read ((n - 1) % 65536 % 65535) 0 8 none]
  stream : x.stream = List.replicate (8 * (n - 1)) 0
  windowBegin : x.windowBegin = 3
  next : x.nextDataPacketToSend = n

theorem sets_out : ∃ x, Runs (AcksAndReads longFile) (boot plainInfo wideRequest) x ∧ x.Cruises 4 := by
  have h : ((replayWhile (fun x label => decide (AcksAndReads longFile x label)) setsOut
      (boot plainInfo wideRequest)).map fun x =>
        decide (x.live.status = .idle ∧ x.live.world.session.Cruises 4 ∧ x.live.world.inflight = waiting ++ [.read 3 0 8 none] ∧
          x.stream = List.replicate 24 0 ∧ x.windowBegin = 3 ∧ x.nextDataPacketToSend = 4)) =
      some true := by
    decide +kernel
  obtain ⟨x, hx, he⟩ := Option.map_eq_some_iff.mp h
  obtain ⟨idle, session, inflight, stream, begins, next⟩ := of_decide_eq_true he
  exact ⟨x, replayWhile_runs hx fun _ _ _ hc => of_decide_eq_true hc,
    ⟨idle, session, inflight, stream, begins, next⟩⟩

variable {x : Transfer} {n : ℕ}

/-- A beginning of the file. -/
theorem zeros_prefix {m : ℕ} (h : m ≤ 8 * 65536) : List.replicate m 0 <+: longFile := by
  refine List.IsPrefix.trans ?_ (List.prefix_append _ _)
  exact ⟨List.replicate (8 * 65536 - m) 0, by rw [List.replicate_append_replicate]; congr 1; omega⟩

/-- The read of the next block brings `bytes`. -/
theorem Cruises.fills (h : x.Cruises n) {bytes : Bytes} (short : bytes.length ≤ 8) :
    ∃ l', Step x.live (.fill bytes) l' ∧ l'.status = .idle ∧
      l'.world.session.Cruises (UInt16.ofNat n) ∧
      l'.world.inflight = waiting ++ [.read ((n - 1) % 65536 % 65535) 0 8 (some bytes.length)] ∧
      (x.follow (.fill bytes) l').stream = List.replicate (8 * (n - 1)) 0 ∧
      (x.follow (.fill bytes) l').windowBegin = 3 ∧
      (x.follow (.fill bytes) l').nextDataPacketToSend = n := by
  have s := h.session
  refine ⟨_, .fill bytes (.inl h.idle) h.inflight short, h.idle, ?_, rfl, ?_, ?_, ?_⟩
  · refine ⟨s.1, s.2, s.3, s.4, s.5, s.6, s.7, s.8, s.9, s.10, s.11, s.12, s.13, s.14, ?_⟩
    rw [fillSlot, Option.isSome_map]
    exact s.allocated
  · show x.stream ++ _ = _
    rw [Label.taken, if_pos (by exact s.mode), h.stream]
    exact List.append_nil _
  · exact (Serial.advance_self _ _).trans h.windowBegin
  · exact (Serial.advance_self _ _).trans h.next

theorem Cruises.onward (h : x.Cruises n) (low : 3 < n) (high : n < 65537)
    (runs : Runs (AcksAndReads longFile) (boot plainInfo wideRequest) x) :
    ∃ y, Runs (AcksAndReads longFile) (boot plainInfo wideRequest) y ∧ y.Cruises (n + 1) := by
  obtain ⟨l, filled, idle, session, inflight, stream, begins, next⟩ :=
    h.fills (List.length_replicate.le : (List.replicate 8 (0 : UInt8)).length ≤ 8)
  obtain ⟨idle', session', inflight'⟩ := Session.Cruises.on session low high
  have hs := Step.complete (.read ((n - 1) % 65536 % 65535) 0 8 (some 8)) { atEndOfFile := false }
    (.dataAvailable (.ok 8)) (.inl idle) inflight trivial
  rw [List.append_nil] at hs
  have arrived : List.replicate (8 * (n - 1)) 0 ++ List.replicate 8 (0 : UInt8) =
      List.replicate (8 * n) 0 := by
    rw [List.replicate_append_replicate]
    congr 1
    omega
  have reads : AcksAndReads longFile (x.follow (.fill (List.replicate 8 0)) l)
      (.complete (.read ((n - 1) % 65536 % 65535) 0 8 (some 8)) { atEndOfFile := false }
        (.dataAvailable (.ok 8))) := by
    refine ⟨trivial, rfl, ?_, ?_⟩
    · rw [stream]
      show List.replicate (8 * (n - 1)) 0 ++ List.replicate 8 0 <+: longFile
      rw [arrived]
      exact zeros_prefix (by omega)
    · refine iff_of_false (by decide) fun whole => ?_
      rw [stream] at whole
      have length := congrArg List.length (arrived.symm.trans whole)
      rw [longFile, List.length_append, List.length_replicate, List.length_replicate,
        List.length_singleton] at length
      omega
  refine ⟨_, (runs.tail ⟨_, _, filled, ⟨trivial, trivial⟩, rfl⟩).tail ⟨_, _, hs, reads, rfl⟩,
    idle', session', inflight', ?_, ?_, ?_⟩
  · show (x.follow (.fill (List.replicate 8 0)) l).stream ++ _ = _
    rw [Label.taken, if_pos (by exact session'.mode), stream]
    exact arrived
  · show Serial.advance _ l.world.session.windowBegin _ = 3
    rw [session.begins, session'.begins, begins, Serial.advance_self]
  · show Serial.advance _ l.world.session.nextDataPacketToSend _ = n + 1
    rw [session.next, session'.next, next, Serial.ofNat_succ, Serial.advance_succ]

/-- It gets to every block up to 65537. -/
theorem exists_cruise (low : 3 < n) (high : n ≤ 65537) :
    ∃ x, Runs (AcksAndReads longFile) (boot plainInfo wideRequest) x ∧ x.Cruises n := by
  induction n with
  | zero => omega
  | succ n ih =>
      by_cases first : n = 3
      · subst first
        exact sets_out
      · obtain ⟨x, runs, h⟩ := ih (by omega) (by omega)
        exact h.onward (by omega) (by omega) runs

/-- The packet of block 65536 begins with a byte of block 65537 once that was read. -/
theorem overwritten (runs : Runs (AcksAndReads longFile) (boot plainInfo wideRequest) x)
    (hl : x.live.listening) (session : x.live.world.session.Cruises (UInt16.ofNat 65537))
    {pre post : List Op}
    (inflight : x.live.world.inflight = pre ++ .read 0 0 8 (some 1) :: post)
    (arriving : x.arriving = [1]) (hs : x.live.world.session.dataPackets = some slots) :
    ∃ rest, x.live.world.buffer.packet slots (UInt16.ofNat 65536) =
      .data (slots 0).blockNumber (1 :: rest) := by
  have served : Served plainInfo wideRequest x := served_of_runs (fun _ _ h => h.2.truthful) runs
  obtain ⟨-, -, part, loads, -⟩ :=
    (served.serving hl session.mode).reading (served.settled.tidy hl) inflight rfl
  rw [arriving] at loads
  have next : x.live.world.buffer.nextDataPacketToSend = 1 := session.next
  have width : x.live.world.buffer.windowSize = 65535 := session.width
  obtain ⟨hold, empty⟩ : x.live.world.buffer.Holds (part ++ [1]) ∧ part = [] := by
    have awaits := loads.awaits
    generalize hop : Op.read 0 0 8 (some 1) = op at awaits
    cases awaits with
    | reading filled _ _ _ hold =>
        injection hop with _ offset
        exact ⟨hold, List.eq_nil_of_length_eq_zero offset.symm⟩
  subst empty
  have bytes := hold.bytes slots hs
  have slot : x.live.world.buffer.slotOf (UInt16.ofNat 65536) = 0 ∧
      x.live.world.buffer.slotOf x.live.world.buffer.nextDataPacketToSend = 0 := by
    unfold Buffer.slotOf
    rw [next, width]
    exact ⟨by decide, by decide⟩
  have size : x.live.world.buffer.payloadSize (UInt16.ofNat 65536) = 8 := by
    unfold Buffer.payloadSize
    rw [if_neg (by simp [World.buffer, session.last])]
    exact session.size
  rw [slot.2] at bytes
  have first : (slots 0).data = 1 :: (slots 0).data.tail := by
    cases data : (slots 0).data with
    | nil => simp [data] at bytes
    | cons b rest =>
        rw [data] at bytes
        have same : b = 1 := by simpa using bytes
        rw [same]
        rfl
  refine ⟨(slots 0).data.tail.take 7, ?_⟩
  rw [Buffer.packet, slot.1, size, first]
  rfl

/-- The timer expires while block 65536 is outstanding and block 65537 has been read. -/
theorem exists_overwritten : ∃ (x : Transfer) (pre post : List Op),
    Runs (AcksAndReads longFile) (boot plainInfo wideRequest) x ∧ x.live.listening ∧
      x.live.world.session.Cruises (UInt16.ofNat 65537) ∧
      x.live.world.inflight = pre ++ .timeout .expired :: post ∧
      x.live.world.inflight = (pre ++ [.timeout .expired]) ++ .read 0 0 8 (some 1) :: [] ∧
      x.arriving = [1] ∧ x.windowBegin = 3 ∧ x.nextDataPacketToSend = 65537 := by
  obtain ⟨x, runs, h⟩ := exists_cruise (n := 65537) (by decide) le_rfl
  have one : [(1 : UInt8)].length ≤ 8 := by decide
  obtain ⟨l, filled, idle, session, inflight, -, begins, next⟩ := h.fills one
  have runs' := runs.tail ⟨_, _, filled, ⟨trivial, trivial⟩, rfl⟩
  have split : l.world.inflight = waiting.take 7 ++ .timeout .armed :: [.read 0 0 8 (some 1)] :=
    inflight
  have hs := Step.expire (.inl idle) split
  refine ⟨_, _, _, runs'.tail ⟨_, _, hs, ⟨trivial, trivial⟩, rfl⟩, .inl idle, session, rfl, rfl, rfl,
    ?_, ?_⟩
  · exact (Serial.advance_self _ _).trans begins
  · exact (Serial.advance_self _ _).trans next

theorem block_of_zeros : block 8 longFile 65536 = List.replicate 8 0 := by
  unfold block longFile
  rw [List.drop_append_of_le_length (by rw [List.length_replicate]; decide),
    List.drop_replicate, List.take_append_of_le_length (by rw [List.length_replicate]), List.take_replicate]
  congr 1

/-- What the timer sends again then for block 65536 begins with the byte of the other. -/
theorem wrong_block_sent_again :
    ¬∀ (info : ServerInfo) (request : PeerMessage) (content : Bytes) (x : Transfer),
      Runs (AcksAndReads content) (boot info request) x → x.live.listening →
        x.live.world.session.mode = .octet → x.Recovers content := by
  intro all
  obtain ⟨x, pre, post, runs, hl, session, expired, reading, arriving, begins, next⟩ :=
    exists_overwritten
  obtain ⟨slots, hs⟩ := Option.isSome_iff_exists.mp session.allocated
  obtain ⟨rest, wrong⟩ := overwritten runs hl session reading arriving hs
  have loop : x.live.world.session.ReachesLoop {} (.error ETIME) :=
    ⟨by decide, session.isOpen, session.active, session.retries, rfl, session.settled,
      session.requestType⟩
  have served : Served plainInfo wideRequest x := served_of_runs (fun _ _ h => h.2.truthful) runs
  have step := Step.complete (.timeout .expired) {} (.timeout (.error ETIME)) hl expired trivial
  obtain ⟨m, log, ended⟩ := (all _ _ _ x runs hl session.mode).again _ _ _ _ step loop
  have sent : (deliver {} (.timeout (.error ETIME))
      { x.live.world with inflight := pre ++ post }).world.log = x.live.world.log ++
        (x.live.world.buffer.packets slots 3 65534).map (.sent x.live.world.session.clientAddress) := by
    have width : x.live.world.session.windowSize ≠ 0 := by
      rw [session.width]
      decide
    have call := handleEvent_loop (b := 3) (n := 65537)
      (w := { x.live.world with inflight := pre ++ post, sys := {} }) loop width hs
      session.begins.symm session.next.symm (by decide) (by decide) (served.settled.fetched hl)
    refine deliver_spec (P := fun l => l.world.log = _) (wp_mono call ?_ ?_)
    · rintro state w' ⟨-, log⟩
      exact log
    · rintro e w' ⟨-, failed, -⟩
      simp at failed
  rcases ended with ⟨-, rfl⟩ | ⟨-, failed, -⟩
  · rw [begins, next] at log
    have same := List.append_cancel_left (sent.symm.trans log)
    rw [Buffer.packets, List.map_map] at same
    have last : Entry.sent x.live.world.session.clientAddress
        (x.live.world.buffer.packet slots (UInt16.ofNat 65536)) = .sent _ _ :=
      List.map_inj_left.mp same 65536 (List.mem_range'_1.mpr ⟨by decide, by decide⟩)
    have size : x.live.world.session.blockSize.toNat = 8 := by
      rw [session.size]
      rfl
    rw [wrong, size, block_of_zeros] at last
    injection last with _ packet
    injection packet with _ bytes
    exact absurd (List.cons.inj bytes).1 (by decide)
  · simp at failed

end Transfer

end Tftp.Server
