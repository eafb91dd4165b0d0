import Tftp.Server.Control

/-!
# What the handlers log

Once a session is started its descriptors stay what they are. A handler then
logs packets it sends, reads and writes on the file of the session, failures
it records, and at the end the close. `Grows` says so for a set of allowed
entries; which handler needs which of them is what the lemmas below record.
-/

namespace Tftp.Server

open Prog Act

/-- The log has grown by allowed entries only, and the descriptors are those
given. Where recording a failure is not allowed, the packet buffers are there
and no answer of the system makes a one-byte read fail. -/
structure Grows (fd sk : ℤ) (A : Entry → Prop) (log : List Entry) (w : World) : Prop where
  fileDescriptor : w.session.fileDescriptor = fd
  sockfd : w.session.sockfd = sk
  log : ∃ extra, w.log = log ++ extra ∧ ∀ e ∈ extra, A e
  reads : (∀ r, A (.failed r)) ∨
    w.session.dataPackets.isSome ∧ .failed ∉ w.sys.byteReads

namespace Grows

variable {fd sk : ℤ} {A : Entry → Prop} {log : List Entry} {w : World}

theorem refl (h : (∀ r, A (.failed r)) ∨
      w.session.dataPackets.isSome ∧ .failed ∉ w.sys.byteReads) :
    Grows w.session.fileDescriptor w.session.sockfd A w.log w :=
  ⟨rfl, rfl, ⟨[], by simp, by simp⟩, h⟩

theorem add {e : Entry} (h : Grows fd sk A log w) (he : A e) :
    Grows fd sk A log { w with log := w.log ++ [e] } := by
  obtain ⟨extra, hlog, hextra⟩ := h.log
  refine ⟨h.fileDescriptor, h.sockfd, ⟨extra ++ [e], ?_, ?_⟩, h.reads⟩
  · simp [hlog]
  · intro e' he'
    rcases List.mem_append.mp he' with he' | he'
    · exact hextra e' he'
    · exact List.mem_singleton.mp he' ▸ he

theorem answered (h : Grows fd sk A log w) : Grows fd sk A log w.answered :=
  ⟨h.fileDescriptor, h.sockfd, h.log, h.reads⟩

end Grows

/-! ## Primitives -/

/-- The session still holds its descriptors and its buffers. -/
def Holds (s s' : Session) : Prop :=
  s'.fileDescriptor = s.fileDescriptor ∧ s'.sockfd = s.sockfd ∧
    (s.dataPackets.isSome → s'.dataPackets.isSome)

/-- The program logs allowed entries only. -/
def Logs {α : Type} (fd sk : ℤ) (A : Entry → Prop) (x : Act α) : Prop :=
  ∀ log, Keeps (Grows fd sk A log) x

namespace Logs

variable {α β : Type} {fd sk : ℤ} {A : Entry → Prop}

theorem pure (a : α) : Logs fd sk A (Pure.pure a) := fun _ => Keeps.pure a

theorem stop (e : Abort) : Logs fd sk A (Prog.stop e : Act α) := fun _ => Keeps.stop e

theorem session : Logs fd sk A session := fun _ => Keeps.gets _

theorem sys : Logs fd sk A sys := fun _ => Keeps.gets _

theorem bind {x : Act α} {f : α → Act β} (hx : Logs fd sk A x) (hf : ∀ a, Logs fd sk A (f a)) :
    Logs fd sk A (x >>= f) := fun log => Keeps.bind (hx log) fun a => hf a log

theorem ite {p : Prop} [Decidable p] {x y : Act α} (hx : Logs fd sk A x) (hy : Logs fd sk A y) :
    Logs fd sk A (if p then x else y) := fun log => Keeps.ite (hx log) (hy log)

theorem modify {f : Session → Session}
    (h : ∀ s, Holds s (f s)) : Logs fd sk A (modify f) := by
  intro log w hw
  obtain ⟨hfd, hsk, hbuf⟩ := h w.session
  exact ⟨hfd.trans hw.fileDescriptor, hsk.trans hw.sockfd, hw.log,
    hw.reads.imp_right fun ⟨some_, clean⟩ => ⟨hbuf some_, clean⟩⟩

theorem emit {e : Entry} (he : A e) : Logs fd sk A (emit e) := fun _ _ hw => hw.add he

theorem attempt : Logs fd sk A attempt := fun _ _ hw => wp_attempt.mpr hw.answered

theorem require : Logs fd sk A require := fun _ _ hw =>
  wp_require.mpr ⟨fun _ => hw.answered, fun _ => hw.answered⟩

/-- The ring is not part of the log. -/
theorem inflight {f : List Op → List Op} :
    Logs fd sk A (Prog.update fun w => { w with inflight := f w.inflight }) := fun _ _ hw =>
  ⟨hw.fileDescriptor, hw.sockfd, hw.log, hw.reads⟩

theorem submit (op : Op) : Logs fd sk A (submit op) :=
  bind require fun _ => inflight (f := fun ops => ops ++ [op])

theorem sendto (sent : ∀ d p, A (.sent d p)) (dest : Address) (packet : Packet) :
    Logs fd sk A (sendto dest packet) := bind require fun _ => emit (sent _ _)

theorem recordFailure (failed : ∀ r, A (.failed r)) (n : UInt16) (m : Bytes) :
    Logs fd sk A (recordFailure n m) := bind (modify fun _ => ⟨rfl, rfl, id⟩) fun _ => emit (failed _)

theorem wp {x : Act α} {Q : α → World → Prop} {E : Abort → World → Prop} {w : World}
    {log : List Entry} (hx : Logs fd sk A x) (hw : Grows fd sk A log w)
    (hQ : ∀ a t, Grows fd sk A log t → Q a t) (hE : ∀ e t, Grows fd sk A log t → E e t) :
    Prog.wp x Q E w := wp_mono (hx log w hw) hQ hE

end Logs

/-! ## Handlers -/

section Handlers

variable {fd sk : ℤ} {A : Entry → Prop}

theorem recvAsync_logs : Logs fd sk A recvAsync :=
  .bind (.submit _) fun _ => .modify fun _ => ⟨rfl, rfl, id⟩

theorem recvAsyncCancel_logs : Logs fd sk A recvAsyncCancel :=
  .bind .require fun _ => .bind (.inflight (f := fun ops => cancelRecv ops ++ [.cancel])) fun _ =>
    .modify fun _ => ⟨rfl, rfl, id⟩

theorem submitTimeout_logs : Logs fd sk A submitTimeout :=
  .bind (.submit _) fun _ => .modify fun _ => ⟨rfl, rfl, id⟩

theorem submitCancelTimeout_logs : Logs fd sk A submitCancelTimeout :=
  .bind .require fun _ =>
    .bind (.inflight (f := fun ops => removeTimer ops ++ [.timeoutRemove])) fun _ =>
      .modify fun _ => ⟨rfl, rfl, id⟩

theorem errorPacketInit_logs : Logs fd sk A errorPacketInit :=
  .bind .require fun _ => .bind .session fun _ => .bind (.modify fun _ => ⟨rfl, rfl, id⟩) fun _ =>
    .pure _

theorem getDataPacketInfo_logs (s : Session) (i size : UInt16) :
    Logs fd sk A (getDataPacketInfo s i size) := by
  unfold getDataPacketInfo
  split
  · exact .stop _
  · split
    · exact .stop _
    · exact .pure _

theorem createDataPackets_logs (n : ℕ) : Logs fd sk A (createDataPackets n) := by
  refine .bind (.modify fun _ => ⟨rfl, rfl, id⟩) fun _ => .bind .session fun s =>
    .bind (.bind .sys fun _ => .pure _) fun atEnd =>
      .ite (.bind (.modify fun _ => ⟨rfl, rfl, id⟩) fun _ => .pure _) (.ite (.stop _) ?_)
  cases s.dataPackets with
  | none => exact .stop _
  | some slots => exact .bind (.modify fun _ => ⟨rfl, rfl, fun _ => rfl⟩) fun _ => .pure _

theorem reportClientError_logs (packet : Bytes) : Logs fd sk A (reportClientError packet) :=
  .ite (.bind .require fun _ => .modify fun _ => ⟨rfl, rfl, id⟩) (.modify fun _ => ⟨rfl, rfl, id⟩)

theorem acceptAck_logs (n : UInt16) : Logs fd sk A (acceptAck n) := by
  refine .bind (.modify fun _ => ⟨rfl, rfl, id⟩) fun _ => .bind .sys fun a =>
    .bind (.modify fun s => ?_) fun _ => .bind submitCancelTimeout_logs fun _ =>
      .bind .session fun s => .ite (.bind submitTimeout_logs fun _ => .modify fun _ => ⟨rfl, rfl, id⟩)
        (.modify fun _ => ⟨rfl, rfl, id⟩)
  dsimp only
  split <;> exact ⟨rfl, rfl, id⟩

theorem onAck_logs (packet : Bytes) : Logs fd sk A (onAck packet) :=
  .bind .session fun _ => .ite (.bind (.modify fun _ => ⟨rfl, rfl, id⟩) fun _ => acceptAck_logs _)
    (.ite (.pure _) (.bind (.modify fun _ => ⟨rfl, rfl, id⟩) fun _ => acceptAck_logs _))

section Sent

variable (sent : ∀ d p, A (.sent d p))

include sent

theorem sendErrorPacket_logs (dest : Address) : Logs fd sk A (sendErrorPacket dest) :=
  .bind errorPacketInit_logs fun _ => .sendto sent _ _

theorem unknownTransferId_logs (sender : Address) : Logs fd sk A (unknownTransferId sender) :=
  .bind (.modify fun _ => ⟨rfl, rfl, id⟩) fun _ => .bind (sendErrorPacket_logs sent _) fun _ =>
    .modify fun _ => ⟨rfl, rfl, id⟩

theorem retransmitWindow_logs (rounds : ℕ) (i : UInt16) :
    Logs fd sk A (retransmitWindow rounds i) := by
  induction rounds generalizing i with
  | zero => exact .stop _
  | succ rounds ih =>
      exact .bind .session fun s => .ite (.bind (getDataPacketInfo_logs _ _ _) fun _ =>
        .bind (.sendto sent _ _) fun _ => ih _) (.pure _)

theorem retransmit_logs : Logs fd sk A retransmit := by
  refine .bind .session fun s =>
    .ite ?_ (.ite (.sendto sent _ _) (retransmitWindow_logs sent _ _))
  cases s.oackPacket with
  | none => exact .stop _
  | some packet => exact .sendto sent _ _

theorem sendNextBlock_logs : Logs fd sk A sendNextBlock := by
  refine .bind .sys fun a => .bind (.modify fun s => ?_) fun _ => .bind .session fun s =>
    .bind (getDataPacketInfo_logs _ _ _) fun packet => .bind (.sendto sent _ _) fun _ =>
      .bind (.modify fun _ => ⟨rfl, rfl, id⟩) fun _ => .bind .session fun s =>
        .ite (.bind submitTimeout_logs fun _ => .modify fun _ => ⟨rfl, rfl, id⟩)
          (.modify fun _ => ⟨rfl, rfl, id⟩)
  dsimp only
  split <;> exact ⟨rfl, rfl, id⟩

theorem sendOack_logs : Logs fd sk A sendOack :=
  .bind .require fun _ => .bind .sys fun _ => .bind .session fun _ =>
    .bind (.modify fun _ => ⟨rfl, rfl, id⟩) fun _ => .bind submitTimeout_logs fun _ =>
      .sendto sent _ _

/-- What `EVENT_START` does once the session is ready. -/
theorem greet_logs (s : Session) : Logs fd sk A (
    if s.optionsSettled = false then do
      sendOack
      recvAsync
    else if s.requestType = .write then do
      if ← Act.attempt then emit (.sent s.clientAddress (.ack 0)) else pure ()
      recvAsync
    else recvAsync) :=
  .ite (.bind (sendOack_logs sent) fun _ => recvAsync_logs)
    (.ite (.bind .attempt fun _ => .ite (.bind (.emit (sent _ _)) fun _ => recvAsync_logs)
      recvAsync_logs) recvAsync_logs)

/-- A block that is accepted is written; a failed write is recorded. -/
theorem acceptBlock_logs (wrote : ∀ bytes, A (.wrote fd bytes)) (n : UInt16) (data : Bytes)
    {w : World} {log : List Entry} (hw : Grows fd sk A log w)
    (hwrite : (∀ r, A (.failed r)) ∨ w.sys.write ≠ none) :
    wp (acceptBlock n data) (fun _ t => Grows fd sk A log t) (fun _ t => Grows fd sk A log t) w := by
  rw [acceptBlock, wp_bind, wp_session, wp_bind, wp_sys, wp_bind, wp_emit]
  have written : Grows fd sk A log { w with log :=
      w.log ++ [.wrote w.session.fileDescriptor (data.take (w.sys.write.getD 0))] } :=
    hw.add (hw.fileDescriptor ▸ wrote _)
  cases hr : w.sys.write with
  | none =>
      rw [hr] at written
      rcases hwrite with failed | some_
      · refine (?_ : Logs fd sk A _) log _ written
        exact .bind (.recordFailure failed _ _) fun _ => .stop _
      · exact (some_ hr).elim
  | some k =>
      rw [hr] at written
      refine (?_ : Logs fd sk A _) log _ written
      exact .bind (.modify fun _ => ⟨rfl, rfl, id⟩) fun _ => .bind (.sendto sent _ _) fun _ =>
        .modify fun _ => ⟨rfl, rfl, id⟩

end Sent

section Read

variable (read : A (.read fd))

include read

theorem readByte_logs : Logs fd sk A (readByte fd) := by
  refine .bind (.emit read) fun _ => .bind .sys fun s => .bind (fun log w hw => ?_) fun _ => .pure _
  exact ⟨hw.fileDescriptor, hw.sockfd, hw.log,
    hw.reads.imp_right fun ⟨some_, clean⟩ => ⟨some_, fun hm => clean (List.mem_of_mem_tail hm)⟩⟩

/-- The answer of a one-byte read fails only where that may be logged. -/
theorem readByte_spec {log : List Entry} {w : World} (hw : Grows fd sk A log w) :
    wp (readByte fd) (fun a t => Grows fd sk A log t ∧ ((∀ r, A (.failed r)) ∨ a ≠ .failed))
      (fun _ t => Grows fd sk A log t) w := by
  have kept := readByte_logs read log w hw
  have answers : wp (readByte fd) (fun a _ => (∀ r, A (.failed r)) ∨ a ≠ .failed)
      (fun _ _ => True) w := by
    refine wp_mono (Q := fun a _ => a = w.sys.byteReads.headD .endOfFile) (E := fun _ _ => True) rfl
      (fun a _ ha => ?_) fun _ _ h => h
    rcases hw.reads with failed | ⟨-, clean⟩
    · exact .inl failed
    · refine .inr ?_
      rw [ha]
      cases hb : w.sys.byteReads with
      | nil => simp
      | cons b bs =>
          intro he
          refine clean ?_
          rw [hb]
          exact he ▸ List.mem_cons_self
  exact wp_mono (wp_and kept answers) (fun _ _ h => h) fun _ _ h => h.1

theorem netasciiLoop_logs (size rounds : ℕ) (block : Bytes) :
    Logs fd sk A (netasciiLoop fd size rounds block) := by
  induction rounds generalizing block with
  | zero => exact .pure _
  | succ rounds ih =>
      unfold netasciiLoop
      refine .ite (.bind .session fun s => .bind (.modify fun _ => ⟨rfl, rfl, id⟩) fun _ =>
        fun log w hw => ?_) (.pure _)
      refine wp_bind.mpr (wp_mono (readByte_spec read hw) ?_ fun _ _ h => h)
      rintro answer t ⟨ht, hanswer⟩
      have goes {x : Act Bytes} (hx : Logs fd sk A x) := hx log t ht
      cases answer with
      | byte c =>
          exact goes (.ite (.ite (.bind (.modify fun _ => ⟨rfl, rfl, id⟩) fun _ => ih _) (ih _)) (ih _))
      | endOfFile => exact goes (.pure _)
      | failed =>
          rcases hanswer with failed | hne
          · exact goes (.bind (.recordFailure failed _ _) fun _ => .stop _)
          · exact (hne rfl).elim

end Read

end Handlers

/-! ## Failures of the session itself -/

namespace World

/-- The datagram is one of the session's own client, and is looked at. -/
def IsOwn (w : World) (d : Datagram) : Prop :=
  w.session.shouldClose = false ∧ 4 ≤ d.bytes.length ∧
    sockaddrEquals d.sender w.session.clientAddress

/-- The opcode is not one the session expects. -/
def IsUnexpected (w : World) (d : Datagram) : Prop :=
  readU16 d.bytes 0 ≠ Opcode.error ∧
    ¬(readU16 d.bytes 0 = Opcode.data ∧ w.session.requestType = .write) ∧
    ¬(readU16 d.bytes 0 = Opcode.ack ∧ w.session.requestType = .read)

/-- A DATA packet whose block is written. -/
def Accepts (w : World) (d : Datagram) : Prop :=
  readU16 d.bytes 0 = Opcode.data ∧ w.session.requestType = .write ∧
    (w.session.optionsSettled = false ∧ readU16 d.bytes 2 = 1 ∨
      readU16 d.bytes 2 = w.session.expectedSequenceNumber)

instance (w : World) (d : Datagram) : Decidable (w.IsOwn d) := by unfold IsOwn; infer_instance

instance (w : World) (d : Datagram) : Decidable (w.Accepts d) := by unfold Accepts; infer_instance

/-- A timeout that finds the retries exhausted. -/
def GivesUp (w : World) (c : Completion ℕ) : Prop :=
  ¬w.control.IgnoresTimeout c ∧ w.session.retries ≤ w.session.currentRetransmission

/-- The event makes the session record a failure of its own, apart from the
one-byte reads of the read-ahead. -/
def Fails (w : World) : Event → Prop
  | .dataAvailable (.error _) => w.session.mode = .octet
  | .timeout c => w.GivesUp c
  | .packetReceived (.ok d) => w.IsOwn d ∧ (w.IsUnexpected d ∨ w.Accepts d ∧ w.sys.write = none)
  | _ => False

end World

section Events

variable {fd sk : ℤ} {A : Entry → Prop} {log : List Entry} {w : World}

theorem fetchData_logs (read : A (.read fd)) : Logs fd sk A fetchData := by
  have octet : Logs fd sk A fetchDataOctetAsync := by
    intro log w hw
    rw [fetchDataOctetAsync, wp_bind, wp_session, hw.fileDescriptor]
    refine (?_ : Logs fd sk A _) log w hw
    exact .ite (.stop _) (.bind (.modify fun _ => ⟨rfl, rfl, id⟩) fun _ => .bind (.submit _) fun _ =>
      .bind (.emit read) fun _ => .modify fun _ => ⟨rfl, rfl, id⟩)
  have netascii : Logs fd sk A fetchDataNetasciiAsync := by
    intro log w hw
    rw [fetchDataNetasciiAsync, wp_bind, wp_session, hw.fileDescriptor]
    cases hs : w.session.dataPackets with
    | none =>
        have failed : ∀ r, A (.failed r) := by
          rcases hw.reads with failed | ⟨some_, -⟩
          · exact failed
          · simp [hs] at some_
        refine (?_ : Logs fd sk A _) log w hw
        exact .ite (.stop _) (.bind (readByte_logs read) fun _ => .ite (.stop _)
          (.bind (.bind (.recordFailure failed _ _) fun _ => .stop _) fun _ => .pure _))
    | some slots =>
        refine (?_ : Logs fd sk A _) log w hw
        exact .ite (.stop _) (.bind (netasciiLoop_logs read _ _ _) fun _ =>
          .bind (.modify fun _ => ⟨rfl, rfl, fun _ => rfl⟩) fun _ => .bind (.submit _) fun _ =>
            .modify fun _ => ⟨rfl, rfl, id⟩)
  exact .bind .session fun _ => .ite (.bind (.modify fun _ => ⟨rfl, rfl, id⟩) fun _ =>
    .ite octet netascii) (.pure _)

variable (sent : ∀ d p, A (.sent d p))

include sent

theorem onDataAvailable_logs (c : Completion ℕ) (hw : Grows fd sk A log w)
    (hfail : (∀ r, A (.failed r)) ∨ ¬w.Fails (.dataAvailable c)) :
    wp (onDataAvailable c) (fun _ t => Grows fd sk A log t) (fun _ t => Grows fd sk A log t) w := by
  refine wp_bind.mpr (wp_ite.mpr ⟨fun hm => ?_, fun _ => sendNextBlock_logs sent log w hw⟩)
  cases c with
  | error e =>
      rcases hfail with failed | hnot
      · refine (?_ : Logs fd sk A readFailure) log w hw
        exact .bind (.modify fun _ => ⟨rfl, rfl, id⟩) fun _ => .bind (.recordFailure failed _ _)
          fun _ => .bind .session fun _ => sendErrorPacket_logs sent _
      · exact (hnot hm).elim
  | ok n =>
      refine (?_ : Logs fd sk A _) log w hw
      exact .bind (createDataPackets_logs n) fun _ => .ite (sendNextBlock_logs sent) (.pure _)

theorem onTimeout_logs (hw : Grows fd sk A log w)
    (hfail : (∀ r, A (.failed r)) ∨ ¬w.session.retries ≤ w.session.currentRetransmission) :
    wp onTimeout (fun _ t => Grows fd sk A log t) (fun _ t => Grows fd sk A log t) w := by
  rw [onTimeout, wp_bind, wp_session, wp_ite]
  refine ⟨fun hr => ?_, fun _ => ?_⟩
  · rcases hfail with failed | hnot
    · refine (?_ : Logs fd sk A giveUp) log w hw
      exact .bind (.modify fun _ => ⟨rfl, rfl, id⟩) fun _ => .bind recvAsyncCancel_logs fun _ =>
        .bind (.bind .require fun _ => .bind .session fun _ => .recordFailure failed _ _) fun _ =>
          .bind .session fun _ => sendErrorPacket_logs sent _
    · exact (hnot hr).elim
  · refine (?_ : Logs fd sk A _) log w hw
    refine .bind (.modify fun _ => ⟨rfl, rfl, id⟩) fun _ => .bind (.modify fun s => ?_) fun _ =>
      .bind submitTimeout_logs fun _ => retransmit_logs sent
    dsimp only
    split <;> exact ⟨rfl, rfl, id⟩

theorem onData_logs (wrote : ∀ bytes, A (.wrote fd bytes)) {d : Datagram}
    (hw : Grows fd sk A log w)
    (hfail : (w.session.optionsSettled = false ∧ readU16 d.bytes 2 = 1 ∨
      readU16 d.bytes 2 = w.session.expectedSequenceNumber) →
      (∀ r, A (.failed r)) ∨ w.sys.write ≠ none) :
    wp (onData d.bytes) (fun _ t => Grows fd sk A log t) (fun _ t => Grows fd sk A log t) w := by
  rw [onData, wp_bind, wp_session, wp_ite]
  refine ⟨fun h => ?_, fun _ => wp_ite.mpr ⟨fun _ => hw, fun hn => ?_⟩⟩
  · rw [wp_bind, wp_modify]
    exact acceptBlock_logs sent wrote _ _ ⟨hw.fileDescriptor, hw.sockfd, hw.log, hw.reads⟩
      (hfail (.inl h))
  · exact acceptBlock_logs sent wrote _ _ hw (hfail (.inr (not_not.mp hn)))

theorem onPacketReceived_logs (wrote : ∀ bytes, A (.wrote fd bytes)) {d : Datagram}
    (hw : Grows fd sk A log w) (hopen : w.session.shouldClose = false)
    (hfail : (∀ r, A (.failed r)) ∨ ¬w.Fails (.packetReceived (.ok d))) :
    wp (onPacketReceived (.ok d)) (fun _ t => Grows fd sk A log t)
      (fun _ t => Grows fd sk A log t) w := by
  simp only [onPacketReceived, wp_bind, wp_session, wp_ite]
  refine ⟨fun _ => hw, fun hlen => ⟨fun _ => hw, fun _ => ⟨fun _ =>
    unknownTransferId_logs sent _ log w hw, fun hown => ?_⟩⟩⟩
  have own : w.IsOwn d := ⟨hopen, by omega, by simpa using hown⟩
  refine ⟨fun _ => ?_, fun he => ⟨fun hdata => ?_, fun hd => ⟨fun _ => onAck_logs _ log w hw,
    fun ha => ?_⟩⟩⟩
  · rw [wp_modify]
    exact reportClientError_logs _ log _ ⟨hw.fileDescriptor, hw.sockfd, hw.log, hw.reads⟩
  · refine onData_logs sent wrote hw fun haccept => ?_
    rcases hfail with failed | hnot
    · exact .inl failed
    · exact .inr fun hnone => hnot ⟨own, .inr ⟨⟨hdata.1, hdata.2, haccept⟩, hnone⟩⟩
  · rcases hfail with failed | hnot
    · refine (?_ : Logs fd sk A unexpectedOpcode) log w hw
      exact .bind (.modify fun _ => ⟨rfl, rfl, id⟩) fun _ => .bind (.recordFailure failed _ _)
        fun _ => .bind .session fun _ => sendErrorPacket_logs sent _
    · exact (hnot ⟨own, .inl ⟨he, hd, ha⟩⟩).elim

/-- Every event but the start logs packets, reads and writes on the session's
own file, and a failure only where `Fails` says so. -/
theorem dispatch_logs (wrote : ∀ bytes, A (.wrote fd bytes)) {e : Event}
    (he : e ≠ .start) (hw : Grows fd sk A log w)
    (hfail : (∀ r, A (.failed r)) ∨ ¬w.Fails e) :
    wp (dispatch e) (fun _ t => Grows fd sk A log t) (fun _ t => Grows fd sk A log t) w := by
  have reaped : Grows fd sk A log w.reaped := ⟨hw.fileDescriptor, hw.sockfd, hw.log, hw.reads⟩
  cases e with
  | start => exact (he rfl).elim
  | timeout c =>
      simp only [dispatch, wp_bind, wp_jobDone, wp_session, wp_ite, wp_pure]
      refine ⟨fun _ => reaped, fun hc => ⟨fun _ => reaped, fun hi => ?_⟩⟩
      refine onTimeout_logs sent reaped ?_
      exact hfail.imp_right fun hnot hr => hnot ⟨not_or.mpr ⟨hc, hi⟩, hr⟩
  | timeoutRemoved c =>
      refine wp_bind.mpr (wp_jobDone.mpr ?_)
      refine (?_ : Logs fd sk A _) log _ reaped
      cases c with
      | ok n => exact .pure _
      | error e => exact .ite (.stop _) (.pure _)
  | packetReceived c =>
      simp only [dispatch, wp_bind, wp_jobDone, wp_session, wp_ite, wp_pure]
      refine ⟨fun _ => reaped, fun hc => ?_⟩
      cases c with
      | error e => exact Logs.ite (.pure ()) (.stop _) log _ reaped
      | ok d =>
          refine wp_bind.mpr (wp_mono (onPacketReceived_logs sent wrote reaped (by simpa using hc)
            hfail) (fun _ t ht => ?_) fun _ _ ht => ht)
          refine (?_ : Logs fd sk A _) log t ht
          exact .bind .session fun _ => .ite (.pure _) recvAsync_logs
  | packetReceivedRemoved c =>
      refine wp_bind.mpr (wp_jobDone.mpr ?_)
      refine (?_ : Logs fd sk A _) log _ reaped
      cases c with
      | ok n => exact .pure _
      | error e => exact .ite (.stop _) (.pure _)
  | dataAvailable c =>
      simp only [dispatch, wp_bind, wp_jobDone, wp_modify]
      exact onDataAvailable_logs sent c ⟨hw.fileDescriptor, hw.sockfd, hw.log, hw.reads⟩ hfail

/-- A call that is not the start, up to the close of the session. -/
theorem handled_logs (read : A (.read fd)) (wrote : ∀ bytes, A (.wrote fd bytes)) {e : Event}
    (he : e ≠ .start) (hw : Grows fd sk A log w)
    (hfail : (∀ r, A (.failed r)) ∨ ¬w.Fails e) :
    wp (do
      dispatch e
      fetchData) (fun _ t => Grows fd sk A log t) (fun _ t => Grows fd sk A log t) w :=
  wp_bind.mpr (wp_mono (dispatch_logs sent wrote he hw hfail)
    (fun _ t ht => fetchData_logs read log t ht) fun _ _ ht => ht)

end Events

end Tftp.Server
