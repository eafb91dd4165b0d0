import Tftp.Server.Start

/-!
# The count of the bytes sent

`stats.bytes_sent` is raised by the ACKs a read session takes and by nothing else
such a session does. The begin of its window moves with it.
-/

namespace Tftp.Server

open Prog Act

/-- The begin of the window and the bytes counted as sent. -/
structure Tally where
  windowBegin : UInt16
  bytesSent : UInt64

def World.tally (w : World) : Tally := ⟨w.session.windowBegin, w.session.stats.bytesSent⟩

/-- The program touches neither. -/
abbrev KeepsTally {α : Type} (x : Act α) : Prop := Fixes World.tally x

/-! ## Programs that leave the count alone -/

theorem emit_tally (e : Entry) : KeepsTally (emit e) := .update fun _ => rfl

theorem attempt_tally : KeepsTally attempt := fun _ _ h => wp_attempt.mpr h

theorem require_tally : KeepsTally require := fun _ _ h => wp_require.mpr ⟨fun _ => h, fun _ => h⟩

theorem submit_tally (op : Op) : KeepsTally (submit op) :=
  .bind require_tally fun _ => .update fun _ => rfl

theorem sendto_tally (dest : Address) (packet : Packet) : KeepsTally (sendto dest packet) :=
  .bind require_tally fun _ => emit_tally _

theorem recordFailure_tally (n : UInt16) (m : Bytes) : KeepsTally (recordFailure n m) :=
  .bind (.modify fun _ => rfl) fun _ => emit_tally _

theorem sendErrorPacket_tally (dest : Address) : KeepsTally (sendErrorPacket dest) :=
  .bind (.bind require_tally fun _ => .bind .session fun _ => .bind (.modify fun _ => rfl) fun _ =>
    .pure _) fun _ => sendto_tally _ _

theorem recvAsync_tally : KeepsTally recvAsync :=
  .bind (submit_tally _) fun _ => .modify fun _ => rfl

theorem submitTimeout_tally : KeepsTally submitTimeout :=
  .bind (submit_tally _) fun _ => .modify fun _ => rfl

theorem submitCancelTimeout_tally : KeepsTally submitCancelTimeout :=
  .bind require_tally fun _ => .bind (.update fun _ => rfl) fun _ => .modify fun _ => rfl

theorem readFailure_tally : KeepsTally readFailure :=
  .bind (.modify fun _ => rfl) fun _ => .bind (recordFailure_tally _ _) fun _ =>
    .bind .session fun _ => sendErrorPacket_tally _

theorem sendNextBlock_tally : KeepsTally sendNextBlock := by
  refine .bind .sys fun _ => .bind (.modify fun w => ?_) fun _ => .bind .session fun s =>
    .bind (.getDataPacketInfo _ _ _) fun packet => .bind (sendto_tally _ _) fun _ =>
      .bind (.modify fun _ => rfl) fun _ => .bind .session fun _ =>
        .ite (.bind submitTimeout_tally fun _ => .modify fun _ => rfl) (.modify fun _ => rfl)
  unfold World.tally
  dsimp only
  split <;> rfl

theorem onDataAvailable_tally (r : Completion ℕ) : KeepsTally (onDataAvailable r) := by
  refine .bind .session fun s => .ite ?_ sendNextBlock_tally
  cases r with
  | error e => exact readFailure_tally
  | ok k =>
      refine .bind (.bind (.modify fun _ => rfl) fun _ => .bind .session fun s =>
        .bind (.bind .sys fun _ => .pure _) fun atEnd =>
          .ite (.bind (.modify fun _ => rfl) fun _ => .pure _) (.ite (.stop _) ?_))
        fun _ => .ite sendNextBlock_tally (.pure _)
      cases s.dataPackets with
      | none => exact .stop _
      | some slots => exact .bind (.modify fun _ => rfl) fun _ => .pure _

theorem retransmit_tally : KeepsTally retransmit := by
  have window (rounds : ℕ) (i : UInt16) : KeepsTally (retransmitWindow rounds i) := by
    induction rounds generalizing i with
    | zero => exact .stop _
    | succ rounds ih =>
        exact .bind .session fun s => .ite (.bind (.getDataPacketInfo _ _ _) fun _ =>
          .bind (sendto_tally _ _) fun _ => ih _) (.pure _)
  refine .bind .session fun s => .ite ?_ (.ite (sendto_tally _ _) (window _ _))
  cases s.oackPacket with
  | none => exact .stop _
  | some packet => exact sendto_tally _ _

theorem onTimeout_tally : KeepsTally onTimeout := by
  have cancel : KeepsTally recvAsyncCancel :=
    .bind require_tally fun _ => .bind (.update fun _ => rfl) fun _ => .modify fun _ => rfl
  have giveUp : KeepsTally giveUp :=
    .bind (.modify fun _ => rfl) fun _ => .bind cancel fun _ =>
      .bind (.bind require_tally fun _ => .bind .session fun _ => recordFailure_tally _ _) fun _ =>
        .bind .session fun _ => sendErrorPacket_tally _
  refine .bind .session fun _ => .ite giveUp (.bind (.modify fun _ => rfl) fun _ =>
    .bind (.modify fun w => ?_) fun _ => .bind submitTimeout_tally fun _ => retransmit_tally)
  unfold World.tally
  dsimp only
  split <;> rfl

theorem fetchData_tally : KeepsTally fetchData := by
  have readByte (fd : ℤ) : KeepsTally (readByte fd) :=
    .bind (emit_tally _) fun _ => .bind .sys fun _ => .bind (.update fun _ => rfl) fun _ => .pure _
  have failure : KeepsTally netasciiReadFailure :=
    .bind (recordFailure_tally _ _) fun _ => .stop _
  have loop (fd : ℤ) (size rounds : ℕ) (block : Bytes) :
      KeepsTally (netasciiLoop fd size rounds block) := by
    induction rounds generalizing block with
    | zero => exact .pure _
    | succ rounds ih =>
        unfold netasciiLoop
        refine .ite (.bind .session fun s => .bind (.modify fun _ => rfl) fun _ =>
          .bind (readByte _) fun answer => ?_) (.pure _)
        cases answer with
        | byte c => exact .ite (.ite (.bind (.modify fun _ => rfl) fun _ => ih _) (ih _)) (ih _)
        | endOfFile => exact .pure _
        | failed => exact failure
  have octet : KeepsTally fetchDataOctetAsync :=
    .bind .session fun _ => .ite (.stop _) (.bind (.modify fun _ => rfl) fun _ =>
      .bind (submit_tally _) fun _ => .bind (emit_tally _) fun _ => .modify fun _ => rfl)
  have netascii : KeepsTally fetchDataNetasciiAsync := by
    refine .bind .session fun s => .ite (.stop _) ?_
    cases s.dataPackets with
    | none =>
        exact .bind (readByte _) fun _ => .ite (.stop _) (.bind failure fun _ => .pure _)
    | some slots =>
        exact .bind (loop _ _ _ _) fun _ => .bind (.modify fun _ => rfl) fun _ =>
          .bind (submit_tally _) fun _ => .modify fun _ => rfl
  exact .bind .session fun _ => .ite (.bind (.modify fun _ => rfl) fun _ => .ite octet netascii)
    (.pure _)

theorem finish_tally : KeepsTally finish :=
  have closes : KeepsTally closeSession :=
    .bind .session fun _ => .ite (.bind (emit_tally _) fun _ => .ite (emit_tally _) (.pure _))
      (.ite (emit_tally _) (.pure _))
  .bind .session fun _ => .ite (.bind (.modify fun _ => rfl) fun _ => .bind .session fun _ =>
    .ite (.bind (emit_tally _) fun _ => .bind closes fun _ => .pure _)
      (.bind closes fun _ => .pure _)) (.pure _)

/-- Only datagrams and the start change the count. -/
theorem dispatch_tally {e : Event} (he : e ≠ .start) (hd : ∀ r, e ≠ .packetReceived r) :
    KeepsTally (dispatch e) := by
  have reaped : KeepsTally jobDone := .modify fun _ => rfl
  cases e with
  | start => exact (he rfl).elim
  | packetReceived r => exact (hd r rfl).elim
  | dataAvailable r =>
      exact .bind reaped fun _ => .bind (.modify fun _ => rfl) fun _ => onDataAvailable_tally r
  | timeout r =>
      exact .bind reaped fun _ => .bind .session fun _ =>
        .ite (.pure _) (.ite (.pure _) onTimeout_tally)
  | timeoutRemoved r =>
      refine .bind reaped fun _ => ?_
      cases r with
      | ok n => exact .pure _
      | error e => exact .ite (.stop _) (.pure _)
  | packetReceivedRemoved r =>
      refine .bind reaped fun _ => ?_
      cases r with
      | ok n => exact .pure _
      | error e => exact .ite (.stop _) (.pure _)

/-! ## The start -/

theorem sessionFileInit_tally (ty : RequestType) (rt : ReadType) (a : FileAnswers) :
    KeepsTally (sessionFileInit ty rt a) := by
  have failure (n : UInt16) (m : Bytes) : KeepsTally (fileFailure n m) :=
    .bind (recordFailure_tally _ _) fun _ => .pure _
  refine .ite (.ite (failure _ _) ?_) (.ite (failure _ _) ?_)
  · cases a.opendir with
    | none => exact failure _ _
    | some dir =>
        refine .bind (emit_tally _) fun _ => ?_
        cases a.pipe with
        | none => exact failure _ _
        | some ends =>
            refine .bind (emit_tally _) fun _ => .bind (emit_tally _) fun _ => .ite ?_ (.ite ?_ ?_)
            · exact .bind (emit_tally _) fun _ => .bind (emit_tally _) fun _ => failure _ _
            · exact .bind (emit_tally _) fun _ => .bind (emit_tally _) fun _ =>
                .bind (emit_tally _) fun _ => failure _ _
            · exact .bind (emit_tally _) fun _ => .bind (emit_tally _) fun _ => .pure _
  · cases a.openFile with
    | ok fd => exact .bind (emit_tally _) fun _ => .pure _
    | error e =>
        cases e with
        | eacces => exact failure _ _
        | enoent => exact failure _ _
        | other m => exact failure _ _

theorem startTransfer_tally : KeepsTally startTransfer := by
  have prepare : KeepsTally prepareTransfer := by
    refine .bind (.modify fun w => ?_) fun _ => .bind (.bind require_tally fun _ => .bind .sys
      fun _ => .bind (.modify fun _ => rfl) fun _ => .bind require_tally fun _ =>
        .modify fun _ => rfl) fun _ => .bind .session fun _ =>
          .ite (.bind (sendErrorPacket_tally _) fun _ => .modify fun _ => rfl) (.pure _)
    unfold World.tally
    dsimp only
    split <;> rfl
  have query : KeepsTally queryFileSize :=
    .bind .session fun _ => .bind .sys fun _ => .ite (.bind (emit_tally _) fun _ => .pure _) (.pure _)
  refine .bind .session fun _ => .ite prepare (.bind query fun size => .bind (.modify fun w => ?_)
    fun _ => .bind (.modify fun _ => rfl) fun _ => prepare)
  obtain ⟨_, _, _, _, _, parsed⟩ := parseOptions_sets size w.session
  unfold World.tally
  rw [parsed]

section Calls

variable {w : World} {d : Datagram}

/-- The start resets the statistics, which are those of a new session. -/
theorem onStart_tally (h : w.tally = ⟨1, 0⟩) :
    wp onStart (fun _ t => t.tally = ⟨1, 0⟩) (fun _ _ => True) w := by
  have oack : KeepsTally sendOack :=
    .bind require_tally fun _ => .bind .sys fun _ => .bind .session fun _ =>
      .bind (.modify fun _ => rfl) fun _ => .bind submitTimeout_tally fun _ => sendto_tally _ _
  have greets : KeepsTally (do
      let s ← session
      if s.shouldClose then pure ()
      else do
        if s.optionsSettled = false then sendOack
        else if s.requestType = .write then do
          if ← Act.attempt then emit (.sent s.clientAddress (.ack 0)) else pure ()
        else pure ()
        recvAsync) :=
    .bind .session fun _ => .ite (.pure _) (.ite (.bind oack fun _ => recvAsync_tally)
      (.ite (.bind attempt_tally fun _ => .ite (.bind (emit_tally _) fun _ => recvAsync_tally)
        recvAsync_tally) recvAsync_tally))
  have begins : wp start (fun _ t => t.tally = ⟨1, 0⟩) (fun _ _ => True) w := by
    rw [start, wp_bind, wp_session, wp_ite]
    refine ⟨fun _ => h, fun _ => ?_⟩
    refine wp_bind.mpr (wp_mono (readRequest_spec w) ?_ fun _ _ _ => trivial)
    rintro _ _ ⟨fd, -, rfl⟩
    have reset : World.tally { w with session := w.session.requested fd, log := w.log ++ [.opened fd] } =
        ⟨1, 0⟩ := by
      have same : w.session.windowBegin = 1 := congrArg Tally.windowBegin h
      exact congrArg (fun n => (⟨n, 0⟩ : Tally)) same
    have opens : KeepsTally openFile :=
      .bind .session fun _ => .bind .sys fun _ => .bind (.modify fun _ => rfl) fun _ =>
        .bind (sessionFileInit_tally _ _ _) fun _ => .bind (.modify fun _ => rfl) fun _ =>
          .ite (.pure _) startTransfer_tally
    have goes_on : KeepsTally (do
        let s ← session
        if s.mode = .invalid then
          recordFailure ErrorCode.illegalOperation (ascii "Unknown mode.")
        else openFile) :=
      .bind .session fun _ => .ite (recordFailure_tally _ _) opens
    exact goes_on.wp fun _ t ht => ht.trans reset
  refine wp_bind.mpr (wp_mono begins ?_ fun _ _ _ => trivial)
  intro _ t ht
  exact greets.wp fun _ t' ht' => ht'.trans ht

/-! ## Datagrams -/

theorem acceptAck_tally (n : UInt16) :
    wp (acceptAck n) (fun _ t => t.tally = ⟨n + 1, w.session.stats.bytesSent⟩)
      (fun _ _ => True) w := by
  rw [acceptAck, wp_bind, wp_modify]
  have rest : KeepsTally (do
      let a ← sys
      modify fun s =>
        if s.isAdaptiveTimeoutActive && s.adaptiveTimeout.isTimerActive &&
            isInRange n s.adaptiveTimeout.startingBlockNumber (s.nextDataPacketToSend - 1) then
          let t := s.adaptiveTimeout.stopTimer a.clock
          { s with adaptiveTimeout := t, eventTimeout := t.rto }
        else s
      submitCancelTimeout
      let s ← session
      if s.windowBegin ≠ s.nextDataPacketToSend then submitTimeout else pure ()
      modify fun s =>
        { s with
          stats := { s.stats with packetsAcked := s.stats.packetsAcked + 1 }
          currentRetransmission := 0
          shouldClose := s.lastPacket = some n }) := by
    refine .bind .sys fun _ => .bind (.modify fun w => ?_) fun _ => .bind submitCancelTimeout_tally
      fun _ => .bind .session fun _ =>
        .ite (.bind submitTimeout_tally fun _ => .modify fun _ => rfl) (.modify fun _ => rfl)
    unfold World.tally
    dsimp only
    split <;> rfl
  exact rest.wp fun _ t ht => ht

/-- The bytes an ACK of block number `n` acknowledges. -/
def Session.ackd (s : Session) (n : UInt16) : ℕ :=
  s.blockSize.toNat * (n - s.windowBegin).toNat +
    (if s.lastPacket = some n then s.lastBlockSize else s.blockSize).toNat

/-- What a datagram makes of the count of a read session. -/
inductive World.Recounts (w : World) (d : Datagram) : Tally → Prop where
  | same : w.Recounts d w.tally
  | options : w.session.optionsSettled = false → readU16 d.bytes 2 = 0 →
      w.Recounts d ⟨1, w.session.stats.bytesSent⟩
  | blocks : w.control.IsAck d → ¬(w.session.optionsSettled = false ∧ readU16 d.bytes 2 = 0) →
      isInRange (readU16 d.bytes 2) w.session.windowBegin (w.session.nextDataPacketToSend - 1) →
      w.Recounts d ⟨readU16 d.bytes 2 + 1, w.session.stats.bytesSent +
        getCumulativeAckdPayloadSize w.session (readU16 d.bytes 2)⟩

theorem World.Recounts.congr {w' : World} {c : Tally} (hs : w'.session = w.session)
    (h : w.Recounts d c) : w'.Recounts d c := by
  obtain ⟨s, _, _, _⟩ := w
  obtain ⟨s', _, _, _⟩ := w'
  obtain rfl : s' = s := hs
  cases h with
  | same => exact .same
  | options pending hn => exact .options pending hn
  | blocks hack hn hrange => exact .blocks hack hn hrange

theorem onAck_tally (hack : w.control.IsAck d) :
    wp (onAck d.bytes) (fun _ t => w.Recounts d t.tally) (fun _ _ => True) w := by
  rw [onAck, wp_bind, wp_session]
  dsimp only
  rw [wp_ite]
  refine ⟨fun hn => ?_, fun hn => wp_ite.mpr ⟨fun _ => .same, fun hrange => ?_⟩⟩
  · rw [wp_bind, wp_modify]
    refine wp_mono (acceptAck_tally _) ?_ fun _ _ _ => trivial
    intro _ t ht
    rw [ht, hn.2]
    exact .options hn.1 hn.2
  · rw [wp_bind, wp_modify]
    refine wp_mono (acceptAck_tally _) ?_ fun _ _ _ => trivial
    intro _ t ht
    rw [ht]
    exact .blocks hack hn (eq_true_of_ne_false hrange)

/-- A datagram reaches the count only as an ACK. -/
theorem onPacketReceived_tally (hread : w.session.requestType = .read) :
    wp (onPacketReceived (.ok d)) (fun _ t => w.Recounts d t.tally) (fun _ _ => True) w := by
  by_cases hack : w.control.IsAck d
  · exact (wp_onPacketReceived_ack hread hack).mpr (onAck_tally hack)
  · have kept {x : Act Unit} (hx : KeepsTally x) :
        wp x (fun _ t => w.Recounts d t.tally) (fun _ _ => True) w :=
      hx.wp fun _ t ht => ht ▸ .same
    have notWrite : ¬(readU16 d.bytes 0 = Opcode.data ∧ w.session.requestType = .write) := by
      simp [hread]
    rw [onPacketReceived, wp_bind, wp_session]
    refine wp_ite.mpr ⟨fun _ => .same, fun hlen => wp_ite.mpr ⟨fun _ => .same, fun _ =>
      wp_ite.mpr ⟨fun _ => ?_, fun hown => ?_⟩⟩⟩
    · exact kept (.bind (.modify fun _ => rfl) fun _ => .bind (sendErrorPacket_tally _) fun _ =>
        .modify fun _ => rfl)
    · dsimp only
      refine wp_ite.mpr ⟨fun _ => ?_, fun _ => ?_⟩
      · exact kept (.bind (.modify fun _ => rfl) fun _ =>
          .ite (.bind require_tally fun _ => .modify fun _ => rfl) (.modify fun _ => rfl))
      · rw [if_neg notWrite, wp_ite]
        refine ⟨fun isAck => (hack ⟨not_lt.mp hlen, eq_true_of_ne_false hown, isAck.1⟩).elim,
          fun _ => ?_⟩
        exact kept (.bind (.modify fun _ => rfl) fun _ => .bind (recordFailure_tally _ _) fun _ =>
          .bind .session fun _ => sendErrorPacket_tally _)

/-- A session that is closing does not look at datagrams. -/
theorem dispatch_recounts {r : Completion Datagram} (hread : w.session.requestType = .read) :
    wp (dispatch (.packetReceived r)) (fun _ t => t.tally = w.tally ∨
      w.session.shouldClose = false ∧ ∃ d, r = .ok d ∧ w.Recounts d t.tally)
      (fun _ _ => True) w := by
  cases r with
  | error e =>
      rw [dispatch, wp_bind, wp_jobDone, wp_bind, wp_session, wp_ite]
      refine ⟨fun _ => .inl rfl, fun _ => wp_ite.mpr ⟨fun _ => .inl rfl, fun _ => ?_⟩⟩
      rw [onPacketReceived]
      trivial
  | ok d =>
      rw [dispatch, wp_bind, wp_jobDone, wp_bind, wp_session, wp_ite]
      refine ⟨fun _ => .inl rfl, fun hopen => ?_⟩
      have isOpen : w.session.shouldClose = false := eq_false_of_ne_true hopen
      refine wp_bind.mpr (wp_mono (onPacketReceived_tally (w := w.reaped) hread) ?_
        fun _ _ _ => trivial)
      intro _ t ht
      have counted : w.Recounts d t.tally := by
        generalize t.tally = c at ht
        cases ht with
        | same => exact .same
        | options hs hn => exact .options hs hn
        | blocks hack hn hrange => exact .blocks hack hn hrange
      have listens : KeepsTally (do
          let s ← session
          if s.shouldClose then pure () else recvAsync) :=
        .bind .session fun _ => .ite (.pure _) recvAsync_tally
      refine listens.wp fun _ t' ht' => .inr ⟨isOpen, d, rfl, ?_⟩
      rw [ht']
      exact counted

end Calls

end Tftp.Server
