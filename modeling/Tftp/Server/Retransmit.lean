import Tftp.Server.Packets
import Tftp.Server.Start
import Tftp.Server.Window

/-!
# The retransmission loop

The guard of the loop in `on_timeout` is a range test on a circle: for an
empty window it holds of every block number. That the loop ends is therefore
a fact about reachable states: an active timer of a read session either waits
for the acknowledgment of its options or guards a window that is not empty.
-/

namespace Tftp.Server

open Prog Act

namespace Control

/-- An active timer of a read session has something to retransmit. -/
def TimerNeeded (c : Control) : Prop :=
  c.isTimerActive → c.requestType = .read →
    c.optionsPending ∨ c.windowBegin ≠ c.nextDataPacketToSend

namespace TimerNeeded

variable {c c' : Control}

/-- An accepted ACK arms the timer again only for a window that is not empty. -/
theorem acceptAck (c : Control) (n : UInt16) : (c.acceptAck n).TimerNeeded := by
  unfold Control.acceptAck ackMoved
  dsimp only
  split
  · rename_i hne
    intro _ _
    exact .inr hne
  · intro hactive
    simp [disarm] at hactive

theorem listen (h : c.TimerNeeded) : c.listen.TimerNeeded := by
  unfold Control.listen
  split
  · exact h
  · exact h

theorem receives {d : Datagram} (h : c.TimerNeeded) (hr : c.Receives d c') :
    c'.TimerNeeded := by
  cases hr with
  | ignored => exact h
  | closed => exact h
  | optionsAck => exact acceptAck _ _
  | ack => exact acceptAck _ _
  | data p closing hwrite =>
      intro _ hread
      exact absurd (hread.symm.trans hwrite) (by decide)

/-- A block that goes out leaves a window that is not empty, unless the window
was found to begin behind that block. -/
theorem sendNext (hroom : c.windowBegin ≠ c.nextDataPacketToSend + 1) (short : Bool) :
    (c.sendNext short).TimerNeeded := by
  intro _ _
  refine .inr ?_
  unfold Control.sendNext
  dsimp only
  split
  · exact hroom
  · exact hroom

theorem takes {pre post : List Op} {op : Op} {e : Event} (h : c.TimerNeeded) (ht : c.Tidy)
    (hroom : c.isFetchingData → c.windowBegin ≠ c.nextDataPacketToSend + 1)
    (hops : c.inflight = pre ++ op :: post) (hrep : op.Reports e)
    (htakes : { c with inflight := pre ++ post }.Takes e c') : c'.TimerNeeded := by
  cases e with
  | start => exact (Op.not_reports_start hrep).elim
  | timeout r =>
      rcases htakes with ⟨-, rfl⟩ | ⟨hn, rfl | rfl⟩
      · exact h
      · exact h
      · intro _ hread
        refine h ?_ hread
        simpa using fun hidle => hn (.inr (.inr hidle))
  | timeoutRemoved r => exact htakes ▸ h
  | packetReceivedRemoved r => exact htakes ▸ h
  | packetReceived r =>
      rcases htakes with ⟨-, rfl⟩ | ⟨-, d, c₁, -, hrec, rfl⟩
      · exact h
      · have reaped : { c with inflight := pre ++ post }.reap.TimerNeeded := h
        exact (reaped.receives hrec).listen
  | dataAvailable r =>
      obtain ⟨-, fetching⟩ := ht.removeFetch hops (by cases op <;> first | rfl | exact hrep.elim)
      rcases htakes with ⟨e, -, rfl⟩ | rfl | ⟨short, rfl⟩
      · exact h
      · exact h
      · exact sendNext (c := { { c with inflight := pre ++ post }.reap with isFetchingData := false })
          (hroom fetching) short

theorem started (h : c.Untouched) : c.started.TimerNeeded := by
  unfold Control.started
  split
  · intro hactive
    simp [h.isTimerActive] at hactive
  · split
    · rename_i pending
      intro _ _
      exact .inl pending
    · intro hactive
      simp [Control.submit, h.isTimerActive] at hactive

theorem fetchesTo (h : c.TimerNeeded) (hf : c.FetchesTo c') : c'.TimerNeeded := by
  obtain ⟨-, op, -, rfl⟩ := hf
  unfold Control.fetch
  split
  · exact h
  · exact h

end TimerNeeded

/-- The number of blocks in the window. -/
def size (c : Control) : ℕ := (c.nextDataPacketToSend - c.windowBegin).toNat

/-- The window of a session that sends blocks holds at most `window_size` of
them, with room for the block that is being read. -/
structure Bounded (c : Control) : Prop where
  size : c.requestType = .read → c.optionsPending = false → c.size ≤ c.windowSize.toNat
  room : c.isFetchingData → c.size < c.windowSize.toNat

/-- An ACK that is accepted because the window is empty, and that puts the begin
of the window further back than `window_size` allows. -/
def Overreaches (c : Control) (d : Datagram) : Prop :=
  c.AcksNothing d ∧ c.optionsPending = false ∧
    c.windowSize.toNat < (c.nextDataPacketToSend - (readU16 d.bytes 2 + 1)).toNat +
      if c.isFetchingData then 1 else 0

namespace Bounded

variable {c c' : Control}

/-- The window does not begin behind the block that is being read. -/
theorem ne_succ (h : c.Bounded) (hf : c.isFetchingData) :
    c.windowBegin ≠ c.nextDataPacketToSend + 1 :=
  Serial.ne_succ_of_distance_lt (h.room hf)

theorem listen (h : c.Bounded) : c.listen.Bounded := by
  unfold Control.listen
  split
  · exact h
  · exact ⟨h.size, h.room⟩

theorem fetchesTo (h : c.Bounded) (hf : c.FetchesTo c') : c'.Bounded := by
  obtain ⟨hsize, op, -, rfl⟩ := hf
  unfold Control.fetch
  split
  · rename_i fetches
    refine ⟨h.size, fun _ => Serial.distance_lt_of_onArc (hsize fetches) ?_⟩
    simp only [shouldFetch, Bool.and_eq_true] at fetches
    exact (isInRange_iff _ _ _).mp fetches.2
  · exact h

/-- The window that an accepted ACK leaves. -/
theorem size_acceptAck (c : Control) (n : UInt16) :
    (c.acceptAck n).size = (c.nextDataPacketToSend - (n + 1)).toNat := by
  simp [Control.size, Control.acceptAck]

theorem acceptAck {n : UInt16} (hle : c.optionsPending = false →
      (c.nextDataPacketToSend - (n + 1)).toNat ≤ c.windowSize.toNat)
    (hroom : c.isFetchingData →
      (c.nextDataPacketToSend - (n + 1)).toNat < c.windowSize.toNat) :
    (c.acceptAck n).Bounded := by
  refine ⟨fun _ hp => ?_, fun hf => ?_⟩
  · rw [size_acceptAck]
    simpa [Control.acceptAck] using hle (by simpa [Control.acceptAck] using hp)
  · rw [size_acceptAck]
    simpa [Control.acceptAck] using hroom (by simpa [Control.acceptAck] using hf)

/-- A datagram leaves the window within its bound, unless it overreaches. -/
theorem receives {d : Datagram} (h : c.Bounded) (ht : c.Tidy) (hc : ¬c.Overreaches d)
    (hopen : c.shouldClose = false) (hr : c.Receives d c') : c'.Bounded := by
  cases hr with
  | ignored => exact h
  | closed => exact ⟨h.size, h.room⟩
  | data p closing hwrite =>
      refine ⟨fun hread => ?_, h.room⟩
      exact absurd (hread.symm.trans hwrite) (by decide)
  | optionsAck hread _ hp h0 =>
      -- nothing was sent, so the window begins where it did at the start
      have empty : (c.nextDataPacketToSend - (0 + 1)).toNat = 0 := by
        rw [(ht.pending hp hread).1]
        rfl
      refine acceptAck (fun _ => ?_) fun hf => ?_
      · rw [empty]
        exact Nat.zero_le _
      · rw [empty]
        exact (Nat.zero_le _).trans_lt (h.room hf)
  | ack hread hack hn hrange =>
      by_cases he : c.windowBegin = c.nextDataPacketToSend
      · have reach : c.optionsPending = false →
            (c.nextDataPacketToSend - (readU16 d.bytes 2 + 1)).toNat +
              (if c.isFetchingData then 1 else 0) ≤ c.windowSize.toNat := by
          intro hp
          by_contra hover
          exact hc ⟨⟨hread, hopen, hack, hn, he⟩, hp, not_le.mp hover⟩
        refine acceptAck (fun hp => (Nat.le_add_right _ _).trans (reach hp)) fun hf => ?_
        have room := reach (ht.fetching hf).2.1
        rw [if_pos hf] at room
        exact room
      · have less := Serial.distance_lt he ((isInRange_iff _ _ _).mp hrange)
        refine acceptAck (fun hp => ?_) fun hf => ?_
        · exact less.le.trans (h.size hread hp)
        · exact less.trans (h.room hf)

/-- A block goes out only when there was room for it. -/
theorem sendNext (h : c.Bounded) (hf : c.isFetchingData) (short : Bool) :
    ({ c with isFetchingData := false }.sendNext short).Bounded := by
  have room := h.room hf
  have hlt := c.windowSize.toNat_lt
  have grown : (c.nextDataPacketToSend + 1 - c.windowBegin).toNat ≤ c.windowSize.toNat := by
    rw [Serial.distance_succ]
    · exact room
    · exact room.trans_le (by omega)
  unfold Control.sendNext
  dsimp only
  split
  · exact ⟨fun _ _ => grown, fun hf' => by simp [arm, submit] at hf'⟩
  · exact ⟨fun _ _ => grown, fun hf' => by simp at hf'⟩

theorem takes {pre post : List Op} {op : Op} {e : Event} (h : c.Bounded) (ht : c.Tidy)
    (hops : c.inflight = pre ++ op :: post) (hrep : op.Reports e)
    (hc : ∀ d, e = .packetReceived (.ok d) → ¬c.Overreaches d)
    (htakes : { c with inflight := pre ++ post }.Takes e c') : c'.Bounded := by
  cases e with
  | start => exact (Op.not_reports_start hrep).elim
  | timeout r =>
      rcases htakes with ⟨-, rfl⟩ | ⟨-, rfl | rfl⟩ <;> exact ⟨h.size, h.room⟩
  | timeoutRemoved r => exact htakes ▸ ⟨h.size, h.room⟩
  | packetReceivedRemoved r => exact htakes ▸ ⟨h.size, h.room⟩
  | packetReceived r =>
      rcases htakes with ⟨-, rfl⟩ | ⟨hopen, d, c₁, rfl, hrec, rfl⟩
      · exact ⟨h.size, h.room⟩
      · have tidy := ht.remove hops (by cases op <;> first | rfl | exact hrep.elim)
        have bounded : { c with inflight := pre ++ post }.reap.Bounded := ⟨h.size, h.room⟩
        exact (bounded.receives tidy (hc d rfl) hopen hrec).listen
  | dataAvailable r =>
      obtain ⟨-, fetching⟩ := ht.removeFetch hops (by cases op <;> first | rfl | exact hrep.elim)
      rcases htakes with ⟨e, -, rfl⟩ | rfl | ⟨short, rfl⟩
      · exact ⟨h.size, fun hf => by simp [close] at hf⟩
      · exact ⟨h.size, fun hf => by simp at hf⟩
      · have bounded : { c with inflight := pre ++ post }.reap.Bounded := ⟨h.size, h.room⟩
        exact bounded.sendNext fetching short

theorem started (h : c.Untouched) : c.started.Bounded := by
  have empty : c.size = 0 := by
    unfold Control.size
    rw [h.windowBegin, h.nextDataPacketToSend]
    rfl
  have bounded : c.Bounded :=
    ⟨fun _ _ => empty ▸ Nat.zero_le _, fun hf => by simp [h.isFetchingData] at hf⟩
  unfold Control.started
  split
  · exact bounded
  · split
    · exact ⟨bounded.size, bounded.room⟩
    · exact ⟨bounded.size, bounded.room⟩

end Bounded

end Control

/-! ## Sessions without buffers -/

namespace Control

/-- A read session whose buffers were never allocated: no option was looked at,
and nothing was sent. -/
structure Unprepared (c : Control) : Prop where
  windowSize : c.windowSize = 1
  settled : c.optionsPending = false
  last : c.lastPacket = none
  empty : c.windowBegin = c.nextDataPacketToSend

namespace Unprepared

variable {c c' : Control}

/-- Until it closes, such a session is reading the first block. -/
theorem fetching (h : c.Unprepared) (hread : c.requestType = .read)
    (hopen : c.shouldClose = false) (hf : c.shouldFetch = false) : c.isFetchingData := by
  by_contra hidle
  have idle : c.isFetchingData = false := by simpa using hidle
  have room : isInRange c.nextDataPacketToSend c.windowBegin c.windowBegin := by
    rw [isInRange_iff, h.empty]
    exact UInt16.le_refl _
  have full : isInRange c.nextDataPacketToSend c.windowBegin c.windowBegin = false := by
    simpa [shouldFetch, hread, hopen, idle, h.settled, h.last, h.windowSize] using hf
  exact absurd (room.symm.trans full) (by decide)

theorem listen (h : c.Unprepared) : c.listen.Unprepared := by
  unfold Control.listen
  split
  · exact h
  · exact ⟨h.windowSize, h.settled, h.last, h.empty⟩

/-- No ACK within reach moves its window. -/
theorem receives {d : Datagram} (h : c.Unprepared) (hread : c.requestType = .read)
    (hf : c.shouldFetch = false) (hc : ¬c.Overreaches d) (hopen : c.shouldClose = false)
    (hr : c.Receives d c') : c'.Unprepared := by
  cases hr with
  | ignored => exact h
  | closed => exact ⟨h.windowSize, h.settled, h.last, h.empty⟩
  | data p closing hwrite => exact absurd (hread.symm.trans hwrite) (by decide)
  | optionsAck _ _ hp => exact absurd (h.settled.symm.trans hp) (by decide)
  | ack _ hack hn hrange =>
      have stays : c.nextDataPacketToSend - (readU16 d.bytes 2 + 1) = 0 := by
        by_contra hne
        refine hc ⟨⟨hread, hopen, hack, hn, h.empty⟩, h.settled, ?_⟩
        rw [if_pos (h.fetching hread hopen hf), h.windowSize]
        have positive := Nat.pos_of_ne_zero fun h0 => hne (UInt16.toNat_inj.mp h0)
        exact Nat.lt_add_of_pos_left positive
      refine ⟨?_, ?_, ?_, ?_⟩
      · simpa [Control.acceptAck] using h.windowSize
      · simpa [Control.acceptAck] using h.settled
      · have last : (c.acceptAck (readU16 d.bytes 2)).lastPacket = c.lastPacket := by
          unfold Control.acceptAck ackMoved
          dsimp only
          split <;> rfl
        exact last.trans h.last
      · have begins : c.nextDataPacketToSend = readU16 d.bytes 2 + 1 := by
          rw [← UInt16.sub_add_cancel c.nextDataPacketToSend (readU16 d.bytes 2 + 1), stays]
          simp
        simp [Control.acceptAck, begins]

/-- It stays as it is until a block goes out. -/
theorem takes {pre post : List Op} {op : Op} {e : Event} (h : c.Unprepared)
    (hread : c.requestType = .read) (hf : c.shouldFetch = false) (hrep : op.Reports e)
    (hc : ∀ d, e = .packetReceived (.ok d) → ¬c.Overreaches d)
    (htakes : { c with inflight := pre ++ post }.Takes e c')
    (hnext : c'.nextDataPacketToSend = c.nextDataPacketToSend) : c'.Unprepared := by
  have same (c₁ : Control) (hw : c₁.windowSize = c.windowSize)
      (hp : c₁.optionsPending = c.optionsPending) (hl : c₁.lastPacket = c.lastPacket)
      (hb : c₁.windowBegin = c.windowBegin)
      (hn : c₁.nextDataPacketToSend = c.nextDataPacketToSend) : c₁.Unprepared :=
    ⟨hw.trans h.windowSize, hp.trans h.settled, hl.trans h.last,
      hb.trans (h.empty.trans hn.symm)⟩
  cases e with
  | start => exact (Op.not_reports_start hrep).elim
  | timeout r =>
      rcases htakes with ⟨-, rfl⟩ | ⟨-, rfl | rfl⟩ <;> exact same _ rfl rfl rfl rfl rfl
  | timeoutRemoved r => exact htakes ▸ same _ rfl rfl rfl rfl rfl
  | packetReceivedRemoved r => exact htakes ▸ same _ rfl rfl rfl rfl rfl
  | packetReceived r =>
      rcases htakes with ⟨-, rfl⟩ | ⟨hopen, d, c₁, rfl, hrec, rfl⟩
      · exact same _ rfl rfl rfl rfl rfl
      · have reaped : { c with inflight := pre ++ post }.reap.Unprepared :=
          same _ rfl rfl rfl rfl rfl
        exact (reaped.receives hread hf (hc d rfl) hopen hrec).listen
  | dataAvailable r =>
      rcases htakes with ⟨e, -, rfl⟩ | rfl | ⟨short, rfl⟩
      · exact same _ rfl rfl rfl rfl rfl
      · exact same _ rfl rfl rfl rfl rfl
      · -- a block went out
        exfalso
        have moved : ({ { c with inflight := pre ++ post }.reap with
            isFetchingData := false }.sendNext short).nextDataPacketToSend =
            c.nextDataPacketToSend + 1 := by
          unfold Control.sendNext
          dsimp only
          split <;> rfl
        rw [moved] at hnext
        simp at hnext

theorem fetchesTo (h : c.Unprepared) (hf : c.FetchesTo c') : c'.Unprepared := by
  obtain ⟨-, op, -, rfl⟩ := hf
  unfold Control.fetch
  split
  · exact ⟨h.windowSize, h.settled, h.last, h.empty⟩
  · exact h

end Unprepared

end Control

/-! ## Blocks go out of allocated buffers -/

/-- Buffers stay allocated, and the next block changes only once they are. -/
def Buffer.Advances (b b' : Buffer) : Prop :=
  (b.dataPackets.isSome → b'.dataPackets.isSome) ∧
    (b'.nextDataPacketToSend = b.nextDataPacketToSend ∨ b'.dataPackets.isSome)

namespace Buffer.Advances

variable {b b' : Buffer}

theorem refl (b : Buffer) : b.Advances b := ⟨id, .inl rfl⟩

theorem of_isSome (h : b'.dataPackets.isSome) : b.Advances b' := ⟨fun _ => h, .inr h⟩

end Buffer.Advances

section Allocated

variable {w : World}

theorem advances_of_keeps {α : Type} {x : Act α} (h : KeepsBuffer x) :
    wp x (fun _ w' => w.buffer.Advances w'.buffer) (fun _ _ => True) w :=
  h.wp fun _ _ hb => hb ▸ .refl _

theorem sendNextBlock_advances :
    wp sendNextBlock (fun _ w' => w.buffer.Advances w'.buffer) (fun _ _ => True) w := by
  refine wp_mono sendNextBlock_spec ?_ fun _ _ _ => trivial
  rintro _ w' ⟨slots, hs, hb, -⟩
  have allocated : w.buffer.dataPackets = some slots := hs
  refine .of_isSome ?_
  simp [hb, Buffer.sent, allocated]

theorem onDataAvailable_advances (r : Completion ℕ) :
    wp (onDataAvailable r) (fun _ w' => w.buffer.Advances w'.buffer) (fun _ _ => True) w := by
  by_cases hmode : w.session.mode = .octet
  · cases r with
    | error e =>
        unfold onDataAvailable
        rw [wp_bind, wp_session, if_pos hmode]
        exact advances_of_keeps readFailure_source.buffer
    | ok k =>
        refine wp_mono (onDataAvailable_spec hmode k) ?_ fun _ _ _ => trivial
        rintro _ w' (⟨-, hb, -⟩ | ⟨-, slots, -, hb, -⟩)
        · rw [hb]
          exact ⟨id, .inl rfl⟩
        · rw [hb]
          exact .of_isSome rfl
  · unfold onDataAvailable
    rw [wp_bind, wp_session, if_neg hmode]
    exact sendNextBlock_advances

theorem dispatch_advances {e : Event} (he : e ≠ .start) :
    wp (dispatch e) (fun _ w' => w.buffer.Advances w'.buffer) (fun _ _ => True) w := by
  by_cases hd : ∃ r, e = .dataAvailable r
  · obtain ⟨r, rfl⟩ := hd
    exact wp_bind.mpr (wp_jobDone.mpr (wp_bind.mpr (onDataAvailable_advances r)))
  · exact advances_of_keeps (dispatch_source he fun r hr => hd ⟨r, hr⟩).buffer

theorem fetchData_advances :
    wp fetchData (fun _ w' => w.buffer.Advances w'.buffer) (fun _ _ => True) w := by
  by_cases hmode : w.session.mode = .octet
  · refine wp_mono (fetchData_spec hmode) ?_ fun _ _ _ => trivial
    intro _ w' h
    split at h
    · rw [h.1]
      exact ⟨id, .inl rfl⟩
    · rw [h.1]
      exact .refl _
  · rw [fetchData, wp_bind, wp_session, wp_ite]
    refine ⟨fun _ => ?_, fun _ => .refl _⟩
    rw [wp_bind, wp_modify, if_neg hmode, fetchDataNetasciiAsync, wp_bind, wp_session]
    refine wp_ite.mpr ⟨fun _ => trivial, fun _ => ?_⟩
    dsimp only
    cases hs : w.session.dataPackets with
    | none =>
        have untouched : KeepsBuffer (do
            let answer ← readByte w.session.fileDescriptor
            if answer = .endOfFile then Prog.stop .crash
            else do
              let _ ← netasciiReadFailure
              pure ()) :=
          .bind (.readByte _) fun _ => .ite (.stop _)
            (.bind (.bind (.recordFailure _ _) fun _ => .stop _) fun _ => .pure _)
        refine untouched.wp fun _ t ht => ?_
        rw [ht]
        refine ⟨fun h => ?_, .inl rfl⟩
        simp [World.buffer, hs] at h
    | some slots =>
        refine wp_bind.mpr ((Fixes.netasciiLoop _ _ _ _ : KeepsBuffer _).wp fun block t _ => ?_)
        rw [wp_bind, wp_modify, wp_bind, wp_submit]
        exact ⟨fun _ => .of_isSome rfl, fun _ => trivial⟩

end Allocated

/-! ## The start -/

section Start

variable {w : World}

/-- The buffers are allocated, or no option was looked at. -/
def World.prepared (w : World) : Bool :=
  w.session.dataPackets.isSome || (w.session.windowSize == 1 && w.session.optionsSettled)

instance : Blind World.prepared := ⟨fun _ _ => rfl, fun _ _ _ => rfl, fun _ _ _ _ => rfl⟩

instance : Unlogged World.prepared := ⟨fun _ _ => rfl⟩

theorem prepared_of_allocated (h : w.session.dataPackets.isSome) : w.prepared := by
  simp [World.prepared, h]

theorem prepared_of_plain (hw : w.session.windowSize = 1)
    (ho : w.session.options.validOptionsRequired = false) : w.prepared := by
  simp [World.prepared, Session.optionsSettled, hw, ho]

theorem prepareTransfer_allocates :
    wp prepareTransfer (fun _ t => t.prepared) (fun _ _ => True) w := by
  have fixed : Fixes World.prepared (do
      let s ← session
      if s.stats.error.errorOccurred then do
        sendErrorPacket s.clientAddress
        modify fun s => { s with shouldClose := true }
      else pure ()) :=
    .bind .session fun s => .ite (.bind (.sendErrorPacket _) fun _ => .modify fun _ => rfl)
      (.pure _)
  rw [prepareTransfer, wp_bind, wp_modify, wp_bind, allocateBuffers, wp_bind, wp_require]
  refine ⟨fun _ => ?_, fun _ => trivial⟩
  rw [wp_bind, wp_sys, wp_bind, wp_modify, wp_bind, wp_require]
  refine ⟨fun _ => ?_, fun _ => trivial⟩
  exact fixed.wp fun _ t ht => ht.trans (prepared_of_allocated rfl)

theorem startTransfer_allocates :
    wp startTransfer (fun _ t => t.prepared) (fun _ _ => True) w := by
  rw [startTransfer, wp_bind, wp_session, wp_ite]
  refine ⟨fun _ => prepareTransfer_allocates, fun _ => ?_⟩
  refine wp_bind.mpr (wp_queryFileSize fun _ _ _ => ?_)
  exact wp_bind.mpr (wp_bind.mpr prepareTransfer_allocates)

/-- A session starts with its buffers allocated, or with none of its options
looked at. -/
theorem start_prepared (hw : w.session.windowSize = 1)
    (ho : w.session.options.validOptionsRequired = false) :
    wp start (fun _ t => t.prepared) (fun _ _ => True) w := by
  rw [start, wp_bind, wp_session, wp_ite]
  refine ⟨fun _ => prepared_of_plain hw ho, fun _ => ?_⟩
  refine wp_bind.mpr (wp_mono (readRequest_spec w) ?_ fun _ _ _ => trivial)
  rintro _ _ ⟨fd, -, rfl⟩
  rw [wp_bind, wp_session, wp_ite]
  refine ⟨fun _ => ?_, fun _ => ?_⟩
  · exact (Fixes.recordFailure _ _ : Fixes World.prepared _).wp fun _ t ht =>
      ht.trans (prepared_of_plain hw rfl)
  · rw [openFile, wp_bind, wp_session, wp_bind, wp_sys, wp_bind, wp_modify, wp_bind]
    refine (Fixes.sessionFileInit _ _ _ : Fixes World.prepared _).wp fun fd t ht => ?_
    rw [wp_bind, wp_modify, wp_ite]
    exact ⟨fun _ => ht.trans (prepared_of_plain hw rfl), fun _ => startTransfer_allocates⟩

/-- What follows the start within the first call. -/
theorem onStart_prepared (hw : w.session.windowSize = 1)
    (ho : w.session.options.validOptionsRequired = false) :
    wp onStart (fun _ t => t.prepared) (fun _ _ => True) w := by
  have recv : Fixes World.prepared recvAsync :=
    .bind (.bind .require fun _ => .update fun _ => rfl) fun _ => .modify fun _ => rfl
  have timeout : Fixes World.prepared submitTimeout :=
    .bind (.bind .require fun _ => .update fun _ => rfl) fun _ => .modify fun _ => rfl
  have oack : Fixes World.prepared sendOack :=
    .bind .require fun _ => .bind .sys fun _ => .bind .session fun _ =>
      .bind (.modify fun _ => rfl) fun _ => .bind timeout fun _ => .sendto _ _
  refine wp_bind.mpr (wp_mono (start_prepared hw ho) ?_ fun _ _ _ => trivial)
  intro _ t ht
  have rest : Fixes World.prepared (do
      let s ← session
      if s.shouldClose then pure ()
      else do
        if s.optionsSettled = false then sendOack
        else if s.requestType = .write then do
          if ← Act.attempt then emit (.sent s.clientAddress (.ack 0)) else pure ()
        else pure ()
        recvAsync) :=
    .bind .session fun s => .ite (.pure _) (.ite (.bind oack fun _ => recv)
      (.ite (.bind .attempt fun _ => .ite (.bind (.emit _) fun _ => recv) recv) recv))
  exact rest.wp fun _ t' ht' => ht'.trans ht

end Start

/-! ## Runs -/

/-- No ACK puts the begin of an empty window out of reach. -/
def AcksWithinReach : Condition := fun l label =>
  match label with
  | .complete _ _ (.packetReceived (.ok d)) => ¬l.world.control.Overreaches d
  | _ => True

/-- The buffers are allocated, or the session never had use for them. -/
def World.Ready (w : World) : Prop :=
  w.control.requestType = .read → w.session.dataPackets.isSome ∨ w.control.Unprepared

/-- What `dispatch` leaves ready is ready at the end of the call. -/
theorem deliver_ready {sys : Sys} {e : Event} {w : World}
    (h : wp (dispatch e) (fun _ t => t.Ready) (fun _ _ => True) { w with sys := sys })
    (hl : (deliver sys e w).listening) : (deliver sys e w).world.Ready := by
  refine deliver_returns ?_ hl
  refine wp_bind.mpr (wp_mono h ?_ fun _ _ _ => trivial)
  intro _ t ht
  refine wp_bind.mpr (wp_mono (wp_and (fetchData_moves t) fetchData_advances) ?_
    fun _ _ _ => trivial)
  rintro _ t' ⟨fetches, kept, -⟩
  refine wp_mono (wp_and (finish_spec t') ((Fixes.finish : KeepsBuffer finish).wp fun _ _ h => h)) ?_ fun _ _ _ => trivial
  rintro _ t'' ⟨⟨control, -⟩, buffer⟩ hread
  rw [control] at hread ⊢
  have same : t''.session.dataPackets = t'.session.dataPackets :=
    congrArg Buffer.dataPackets buffer
  rw [same]
  have hread' : t.control.requestType = .read := by
    obtain ⟨-, op, -, he⟩ := fetches
    rw [he, Control.fetch] at hread
    split at hread <;> exact hread
  rcases ht hread' with some_ | plain
  · exact .inl (kept some_)
  · exact .inr (plain.fetchesTo fetches)

/-- The window of a session between two calls, with its timer and its buffers. -/
structure Retransmits (l : Live) : Prop where
  settled : Settled l
  fresh : l.status = .fresh →
    l.world.session.windowSize = 1 ∧ l.world.session.options.validOptionsRequired = false
  bounded : l.listening → l.world.control.Bounded
  needed : l.listening → l.world.control.TimerNeeded
  ready : l.listening → l.world.Ready

namespace Retransmits

theorem boot (info : ServerInfo) (request : PeerMessage) : Retransmits (Live.boot info request) where
  settled := .boot _ _
  fresh _ := ⟨rfl, rfl⟩
  bounded h := by simp [Live.listening, Live.boot] at h
  needed h := by simp [Live.listening, Live.boot] at h
  ready h := by simp [Live.listening, Live.boot] at h

theorem started {w : World} (h : w.control.Untouched) (hw : w.session.windowSize = 1)
    (ho : w.session.options.validOptionsRequired = false) :
    wp (dispatch .start) (fun _ t => t.Ready) (fun _ _ => True) w := by
  refine wp_mono (wp_and (dispatch_moves .start w) (onStart_prepared hw ho)) ?_
    fun _ _ _ => trivial
  rintro _ t ⟨moves, prepared⟩ _
  obtain ⟨c, untouched, hc⟩ := moves h
  simp only [World.prepared, Bool.or_eq_true, Bool.and_eq_true, beq_iff_eq] at prepared
  rcases prepared with some_ | ⟨width, settled⟩
  · exact .inl some_
  · have same : t.control.lastPacket = c.lastPacket ∧ t.control.windowBegin = c.windowBegin ∧
        t.control.nextDataPacketToSend = c.nextDataPacketToSend := by
      rw [hc, Control.started]
      split
      · exact ⟨rfl, rfl, rfl⟩
      · split <;> exact ⟨rfl, rfl, rfl⟩
    obtain ⟨last, begins, next⟩ := same
    refine .inr ⟨width, by simp [World.control, settled], last.trans untouched.lastPacket, ?_⟩
    rw [begins, next, untouched.windowBegin, untouched.nextDataPacketToSend]

/-- A completion leaves a session ready. -/
theorem completed {w : World} {c : Control} {pre post : List Op} {op : Op} {e : Event}
    (hw : w.control = { c with inflight := pre ++ post }) (hf : c.shouldFetch = false)
    (hr : op.Reports e) (hc : ∀ d, e = .packetReceived (.ok d) → ¬c.Overreaches d)
    (h : c.requestType = .read → w.session.dataPackets.isSome ∨ c.Unprepared) :
    wp (dispatch e) (fun _ t => t.Ready) (fun _ _ => True) w := by
  have notStart : e ≠ .start := by
    rintro rfl
    exact Op.not_reports_start hr
  refine wp_mono (wp_and (dispatch_moves e w) (dispatch_advances notStart)) ?_ fun _ _ _ => trivial
  rintro _ t ⟨moves, kept, next⟩ hread
  rw [hw] at moves
  have isRead : c.requestType = .read := (Control.SameSession.takes notStart moves).1.symm.trans hread
  rcases h isRead with some_ | plain
  · exact .inl (kept some_)
  · rcases next with same | some_
    · have same' : t.control.nextDataPacketToSend = c.nextDataPacketToSend :=
        Eq.trans (b := w.control.nextDataPacketToSend) same (by rw [hw])
      exact .inr (plain.takes isRead hf hr hc moves same')
    · exact .inl some_

theorem step {l l' : Live} {label : Label} (h : Retransmits l) (hs : Step l label l')
    (hC : AcksWithinReach l label) : Retransmits l' := by
  have settled := h.settled.step hs
  cases hs with
  | start sys hf =>
      have untouched := h.settled.fresh hf
      obtain ⟨hw, ho⟩ := h.fresh hf
      have ends := deliver_control sys .start l.world
      refine ⟨settled, fun hf' => (deliver_ne_fresh _ _ _ hf').elim, fun hl => ?_, fun hl => ?_,
        fun hl => deliver_ready (started untouched hw ho) hl⟩
      · obtain ⟨c₁, hc, hfetch⟩ := (ends hl).1
        obtain ⟨c₂, h₂, rfl⟩ := hc untouched
        exact (Control.Bounded.started h₂).fetchesTo hfetch
      · obtain ⟨c₁, hc, hfetch⟩ := (ends hl).1
        obtain ⟨c₂, h₂, rfl⟩ := hc untouched
        exact (Control.TimerNeeded.started h₂).fetchesTo hfetch
  | @complete pre post op sys e hl hops hr =>
      have tidy := h.settled.tidy hl
      have reach : ∀ d, e = .packetReceived (.ok d) → ¬l.world.control.Overreaches d := by
        rintro d rfl
        exact hC
      have ends := deliver_control sys e { l.world with inflight := pre ++ post }
      refine ⟨settled, fun hf' => (deliver_ne_fresh _ _ _ hf').elim, fun hl' => ?_, fun hl' => ?_,
        fun hl' => deliver_ready ?_ hl'⟩
      · obtain ⟨c₁, hc, hfetch⟩ := (ends hl').1
        exact ((h.bounded hl).takes tidy hops hr reach hc).fetchesTo hfetch
      · obtain ⟨c₁, hc, hfetch⟩ := (ends hl').1
        exact ((h.needed hl).takes tidy (h.bounded hl).ne_succ hops hr hc).fetchesTo hfetch
      · exact completed (c := l.world.control) rfl (h.settled.fetched hl) hr reach (h.ready hl)
  | expire hl hops =>
      refine ⟨settled, fun hf => (hl.ne_fresh hf).elim, fun _ => ⟨(h.bounded hl).1, (h.bounded hl).2⟩,
        fun _ => h.needed hl, fun _ hread => ?_⟩
      rcases h.ready hl hread with some_ | plain
      · exact .inl some_
      · exact .inr ⟨plain.1, plain.2, plain.3, plain.4⟩
  | fill bytes hl hops _ =>
      refine ⟨settled, fun hf => (hl.ne_fresh hf).elim, fun _ => ⟨(h.bounded hl).1, (h.bounded hl).2⟩,
        fun _ => h.needed hl, fun _ hread => ?_⟩
      rcases h.ready hl hread with some_ | plain
      · refine .inl ?_
        simpa [fillSlot] using some_
      · exact .inr ⟨plain.1, plain.2, plain.3, plain.4⟩

end Retransmits

theorem retransmits_of_runs {info : ServerInfo} {request : PeerMessage} {l : Live}
    (h : Runs AcksWithinReach (Live.boot info request) l) : Retransmits l :=
  h.invariant (fun _ _ _ h hs hC => h.step hs hC) (.boot _ _)

/-! ## The loop -/

/-- On this completion `on_timeout` runs and gets to its retransmission loop:
retries are left, the timeout can be submitted again, and the session sends
blocks. -/
structure Session.ReachesLoop (s : Session) (sys : Sys) (r : Completion ℕ) : Prop where
  expired : ¬(r = .error ENOENT ∨ r = .error ECANCELED)
  isOpen : s.shouldClose = false
  active : s.isTimerActive
  retries : s.currentRetransmission < s.retries
  rearmed : sys.calls.headD true = true
  settled : s.optionsSettled
  isRead : s.requestType = .read

/-- Then the loop is all that is left of the call. -/
theorem wp_dispatch_loop {w : World} {r : Completion ℕ} {Q : Unit → World → Prop}
    {E : Abort → World → Prop} (h : w.session.ReachesLoop w.sys r)
    (loop : ∀ v : World, v.control = w.control.reap.arm → v.buffer = w.buffer → v.log = w.log →
      v.sys.calls = w.sys.calls.tail →
      wp (retransmitWindow fullTurn v.session.windowBegin) Q E v) :
    wp (dispatch (.timeout r)) Q E w := by
  rw [dispatch, wp_bind, wp_jobDone, wp_bind, wp_session, if_neg h.expired,
    if_neg (by simp [World.reaped, h.isOpen, h.active]), onTimeout, wp_bind, wp_session,
    if_neg (by simpa [World.reaped] using UInt8.not_le.mpr h.retries), wp_bind, wp_modify, wp_bind,
    wp_modify]
  -- the back-off of an adaptive timeout touches neither the window nor the buffer
  generalize hv : ({ w.reaped with session := _ } : World) = v
  obtain ⟨control, buffer, sys, log⟩ : v.control = w.control.reap ∧ v.buffer = w.buffer ∧
      v.sys = w.sys ∧ v.log = w.log := by
    subst hv
    refine ⟨?_, ?_, rfl, rfl⟩ <;> dsimp only <;> split <;> rfl
  have settled : v.session.optionsSettled := by
    have pending : v.control.optionsPending = false :=
      (congrArg Control.optionsPending control).trans (by simp [Control.reap, World.control, h.settled])
    simpa [World.control] using pending
  have isRead : v.session.requestType = .read :=
    (congrArg Control.requestType control).trans h.isRead
  have armed : v.answer = true := by
    unfold World.answer
    rw [sys]
    exact h.rearmed
  rw [submitTimeout, wp_bind, wp_bind, wp_submit]
  refine ⟨fun _ => ?_, fun hfail => absurd (armed.symm.trans hfail) (by decide)⟩
  rw [wp_modify, retransmit, wp_bind, wp_session]
  refine wp_ite.mpr ⟨fun hp => absurd (settled.symm.trans hp) (by decide), fun _ =>
    wp_ite.mpr ⟨fun hw => absurd (isRead.symm.trans hw) (by decide), fun _ => ?_⟩⟩
  refine loop _ ?_ buffer log ?_
  · rw [← control]
    rfl
  · rw [← sys]
    rfl

/-- The call then sends the packets of the window, or those before a call that
fails. -/
theorem handleEvent_loop {w : World} {r : Completion ℕ} {slots : ℕ → Slot} {b n : ℕ}
    (h : w.session.ReachesLoop w.sys r) (hw : w.session.windowSize ≠ 0)
    (hs : w.session.dataPackets = some slots) (hb : UInt16.ofNat b = w.session.windowBegin)
    (hn : UInt16.ofNat n = w.session.nextDataPacketToSend) (hbn : b < n) (near : n - b < 65536)
    (idle : w.control.shouldFetch = false) :
    wp (handleEvent (.timeout r))
      (fun state w' => state = .idle ∧
        w'.log = w.log ++ (w.buffer.packets slots b (n - b)).map (.sent w.session.clientAddress))
      (fun e w' => e = .error ∧ false ∈ w.sys.calls ∧ ∃ m < n - b,
        w'.log = w.log ++ (w.buffer.packets slots b m).map (.sent w.session.clientAddress)) w := by
  refine wp_handleEvent.mpr (wp_bind.mpr (wp_dispatch_loop h ?_))
  intro v control buffer log calls
  have client : v.session.clientAddress = w.session.clientAddress :=
    congrArg Control.clientAddress control
  have width : v.session.windowSize = w.session.windowSize := congrArg Control.windowSize control
  have packets : v.session.dataPackets = some slots := (congrArg Buffer.dataPackets buffer).trans hs
  have begins : UInt16.ofNat b = v.session.windowBegin :=
    hb.trans (congrArg Control.windowBegin control).symm
  have next : UInt16.ofNat n = v.session.nextDataPacketToSend :=
    hn.trans (congrArg Control.nextDataPacketToSend control).symm
  rw [← begins]
  refine wp_mono (retransmitWindow_spec (width ▸ hw) packets begins next hbn near le_rfl hbn.le
    (by unfold fullTurn; omega)) ?_ ?_
  · intro _ v' resent
    have stays : v'.control = w.control.reap.arm := resent.control.trans control
    have idle' : v'.control.shouldFetch = false := stays ▸ idle
    refine (wp_fetchData_idle idle').mpr (wp_finish.mpr ⟨?_, fun _ => ⟨rfl, ?_⟩⟩)
    · rintro ⟨closing, -⟩
      have open_ : v'.session.shouldClose = false :=
        (congrArg Control.shouldClose stays).trans h.isOpen
      exact absurd (open_.symm.trans closing) (by decide)
    · rw [resent.log, log, buffer, client]
  · rintro e v' ⟨rfl, hfail, m, hm, resent⟩
    refine ⟨rfl, List.mem_of_mem_tail (calls ▸ hfail), m, hm, ?_⟩
    rw [resent.log, log, buffer, client]

/-- The call sent `size` DATA packets to the client and returned, or fewer,
when a call of the system failed. -/
def EndsAfter (size : ℕ) (sys : Sys) (l l' : Live) : Prop :=
  ∃ packets : List Packet, (∀ p ∈ packets, ∃ n data, p = .data n data) ∧
    l'.world.log = l.world.log ++ packets.map (.sent l.world.session.clientAddress) ∧
    (l'.status = .idle ∧ packets.length = size ∨
      l'.status = .error ∧ false ∈ sys.calls ∧ packets.length < size)

/-- Which it does for every window that holds a block. -/
theorem endsAfter_size {l : Live} {pre post : List Op} {sys : Sys} {r : Completion ℕ}
    (hr : l.world.session.ReachesLoop sys r) (hw : l.world.session.windowSize ≠ 0)
    (hs : l.world.session.dataPackets.isSome) (hne : 0 < l.world.control.size)
    (idle : l.world.control.shouldFetch = false) :
    EndsAfter l.world.control.size sys l
      (deliver sys (.timeout r) { l.world with inflight := pre ++ post }) := by
  obtain ⟨slots, hslots⟩ := Option.isSome_iff_exists.mp hs
  -- positions that stand for the two ends of the window
  have begins : UInt16.ofNat l.world.session.windowBegin.toNat = l.world.session.windowBegin :=
    UInt16.ofNat_toNat
  have next := Serial.ofNat_advance begins l.world.session.nextDataPacketToSend
  have hlt : l.world.control.size < 65536 := UInt16.toNat_lt _
  have far : Serial.advance l.world.session.windowBegin.toNat l.world.session.windowBegin
      l.world.session.nextDataPacketToSend =
      l.world.session.windowBegin.toNat + l.world.control.size := rfl
  rw [far] at next
  have call := handleEvent_loop
    (w := { l.world with inflight := pre ++ post, sys := sys }) hr hw hslots begins next
    (by omega) (by omega) idle
  rw [Nat.add_sub_cancel_left] at call
  have data (m : ℕ) : ∀ p ∈ l.world.buffer.packets slots l.world.session.windowBegin.toNat m,
      ∃ n data, p = .data n data := by
    intro p hp
    obtain ⟨j, -, rfl⟩ := List.mem_map.mp hp
    exact ⟨_, _, rfl⟩
  have length (m : ℕ) :
      (l.world.buffer.packets slots l.world.session.windowBegin.toNat m).length = m := by
    simp [Buffer.packets]
  refine deliver_spec (P := EndsAfter l.world.control.size sys l) (Prog.wp_mono call ?_ ?_)
  · rintro state w' ⟨rfl, log⟩
    exact ⟨_, data _, log, .inl ⟨rfl, length _⟩⟩
  · rintro e w' ⟨rfl, hfail, m, hm, log⟩
    exact ⟨_, data _, log, .inr ⟨rfl, hfail, (length _).trans_lt hm⟩⟩

/-- Where the loop is reached, the window holds at least one block and at most
`window_size`, and the loop sends one packet for each: it ends the call after
exactly these, or earlier with the error of a call that failed. -/
theorem retransmission_terminates {info : ServerInfo} {request : PeerMessage} {l l' : Live}
    (h : Runs AcksWithinReach (Live.boot info request) l) {op : Op} {sys : Sys}
    {r : Completion ℕ} (hs : Step l (.complete op sys (.timeout r)) l')
    (hr : l.world.session.ReachesLoop sys r) :
    let s := l.world.session
    let size := (s.nextDataPacketToSend - s.windowBegin).toNat
    s.windowBegin ≠ s.nextDataPacketToSend ∧ 1 ≤ size ∧ size ≤ s.windowSize.toNat ∧
      EndsAfter size sys l l' := by
  intro s size
  have inv := retransmits_of_runs h
  cases hs with
  | complete _ _ _ hl hops hrep =>
      have isRead : l.world.control.requestType = .read := hr.isRead
      have settled : l.world.control.optionsPending = false := by
        simp [World.control, hr.settled]
      have nonempty : s.windowBegin ≠ s.nextDataPacketToSend := by
        rcases inv.needed hl hr.active isRead with hp | hne
        · exact absurd (settled.symm.trans hp) (by decide)
        · exact hne
      have some_ : 0 < size := by
        refine Nat.pos_of_ne_zero fun h0 => nonempty ?_
        have zero : s.nextDataPacketToSend - s.windowBegin = 0 := UInt16.toNat_inj.mp h0
        rw [← UInt16.sub_add_cancel s.nextDataPacketToSend s.windowBegin, zero, UInt16.zero_add]
      have bound : size ≤ s.windowSize.toNat := (inv.bounded hl).size isRead settled
      have width : s.windowSize ≠ 0 := by
        intro h0
        rw [h0, UInt16.toNat_zero] at bound
        omega
      have allocated : s.dataPackets.isSome := by
        rcases inv.ready hl isRead with allocated | plain
        · exact allocated
        · exact (nonempty plain.empty).elim
      exact ⟨nonempty, some_, bound,
        endsAfter_size hr width allocated some_ (inv.settled.fetched hl)⟩

/-- The read of the first block is in flight, nothing was sent, and an ACK of
block 5 has put the window at 65531 blocks. The loop sends a packet for each,
though `window_size` is one. -/
theorem loop_sends_unsent_blocks :
    ∃ l l', Runs anySteps (Live.boot plainInfo (plainRequest Opcode.rrq "octet")) l ∧
      Step l (.complete (.timeout .expired) {} (.timeout (.error ETIME))) l' ∧
      l.world.session.ReachesLoop {} (.error ETIME) ∧
      l.world.session.windowSize = 1 ∧ l.world.session.stats.packetsSent = 0 ∧
      EndsAfter 65531 {} l l' := by
  have h : ((replay [.start fileOpens, arrival (.ack 5), .expire]
      (Live.boot plainInfo (plainRequest Opcode.rrq "octet"))).map fun l =>
        decide (l.status = .idle ∧ .timeout .expired ∈ l.world.inflight ∧
          l.world.session.shouldClose = false ∧ l.world.session.isTimerActive ∧
          l.world.session.currentRetransmission < l.world.session.retries ∧
          l.world.session.optionsSettled ∧ l.world.session.requestType = .read ∧
          l.world.session.windowSize = 1 ∧ l.world.session.stats.packetsSent = 0 ∧
          l.world.session.dataPackets.isSome ∧ l.world.control.size = 65531 ∧
          l.world.control.shouldFetch = false)) = some true := by
    decide +kernel
  obtain ⟨l, hl, he⟩ := Option.map_eq_some_iff.mp h
  obtain ⟨hs, hop, hopen, hactive, hretries, hsettled, hread, width, hsent, hslots, size, idle⟩ :=
    of_decide_eq_true he
  have reaches : l.world.session.ReachesLoop {} (.error ETIME) :=
    ⟨by decide, hopen, hactive, hretries, rfl, hsettled, hread⟩
  obtain ⟨pre, post, hops⟩ := List.append_of_mem hop
  refine ⟨l, _, replay_runs hl fun _ _ _ => trivial, .complete _ _ _ (.inl hs) hops trivial,
    reaches, width, hsent, ?_⟩
  rw [← size]
  exact endsAfter_size reaches (by rw [width]; decide) hslots (by omega) idle

/-- Once block 1 is sent the loop sends it again, and nothing else. -/
theorem loop_sends_one_block :
    ∃ l l', Runs AcksWithinReach (Live.boot plainInfo (plainRequest Opcode.rrq "octet")) l ∧
      Step l (.complete (.timeout .expired) {} (.timeout (.error ETIME))) l' ∧
      EndsAfter 1 {} l l' := by
  have h : ((replay [.start fileOpens,
      .complete (.read 0 0 512 none) {} (.dataAvailable (.ok 3)), .expire]
      (Live.boot plainInfo (plainRequest Opcode.rrq "octet"))).map fun l =>
        decide (l.status = .idle ∧ .timeout .expired ∈ l.world.inflight ∧
          l.world.session.shouldClose = false ∧ l.world.session.isTimerActive ∧
          l.world.session.currentRetransmission < l.world.session.retries ∧
          l.world.session.optionsSettled ∧ l.world.session.requestType = .read ∧
          l.world.session.windowBegin = 1 ∧
          l.world.session.nextDataPacketToSend = 2)) = some true := by
    decide +kernel
  obtain ⟨l, hl, he⟩ := Option.map_eq_some_iff.mp h
  obtain ⟨hs, hop, hopen, hactive, hretries, hsettled, hread, hb, hn⟩ := of_decide_eq_true he
  have hrun : Runs AcksWithinReach (Live.boot plainInfo (plainRequest Opcode.rrq "octet")) l :=
    replay_runs hl fun l label hm => by
      simp only [List.mem_cons, List.not_mem_nil, or_false] at hm
      rcases hm with rfl | rfl | rfl <;> trivial
  obtain ⟨pre, post, hops⟩ := List.append_of_mem hop
  have hstep : Step l (.complete (.timeout .expired) {} (.timeout (.error ETIME))) _ :=
    .complete _ _ _ (.inl hs) hops trivial
  have ends := (retransmission_terminates hrun hstep
    ⟨by decide, hopen, hactive, hretries, rfl, hsettled, hread⟩).2.2.2
  rw [hb, hn] at ends
  exact ⟨l, _, hrun, hstep, ends⟩

end Tftp.Server
