import Tftp.Server.Progress
import Tftp.Server.Trace

/-!
# Failures are reported and contained

When a session records a failure of its own, the client is to be told with one
ERROR packet and nothing more, and the session is to close. `Contained` is what
holds from such a moment on. Six kinds of failures reach it; the conditions
below leave out the moments at which the source loses the failure, or goes on
sending after it.
-/

namespace Tftp.Server

open Prog Act

/-! ## The log -/

/-- The failures the session recorded. -/
def failures (log : List Entry) : List StatsError :=
  log.filterMap fun e =>
    match e with
    | .failed r => some r
    | _ => none

/-- The packets the session sent. -/
def sentPackets (log : List Entry) : List (Address × Packet) :=
  log.filterMap fun e =>
    match e with
    | .sent dest packet => some (dest, packet)
    | _ => none

@[simp] theorem failures_append (a b : List Entry) : failures (a ++ b) = failures a ++ failures b :=
  List.filterMap_append

@[simp] theorem sentPackets_append (a b : List Entry) :
    sentPackets (a ++ b) = sentPackets a ++ sentPackets b := List.filterMap_append

@[simp] theorem failures_closingEntries (s : Session) : failures s.closingEntries = [] := by
  unfold Session.closingEntries
  split <;> split <;> split <;> rfl

@[simp] theorem sentPackets_closingEntries (s : Session) : sentPackets s.closingEntries = [] := by
  unfold Session.closingEntries
  split <;> split <;> split <;> rfl

/-- The entries that record no failure. -/
def NoFailure (e : Entry) : Prop := ∀ r, e ≠ .failed r

theorem noFailure_sent (dest : Address) (packet : Packet) : NoFailure (.sent dest packet) :=
  fun _ => by simp

theorem noFailure_read (fd : ℤ) : NoFailure (.read fd) := fun _ => by simp

theorem noFailure_wrote (fd : ℤ) (bytes : Bytes) : NoFailure (.wrote fd bytes) := fun _ => by simp

theorem failures_of_grows {fd sk : ℤ} {log : List Entry} {w : World}
    (h : Grows fd sk NoFailure log w) (hlog : failures log = []) : failures w.log = [] := by
  obtain ⟨extra, hw, hextra⟩ := h.log
  rw [hw, failures_append, hlog, List.nil_append]
  refine List.filterMap_eq_nil_iff.mpr fun e he => ?_
  cases e with
  | failed r => exact (hextra _ he r rfl).elim
  | _ => rfl

/-- Where failures are not allowed, the buffers are there. -/
theorem buffers_of_grows {fd sk : ℤ} {log : List Entry} {w : World}
    (h : Grows fd sk NoFailure log w) :
    w.session.dataPackets.isSome ∧ .failed ∉ w.sys.byteReads := by
  rcases h.reads with failed | kept
  · exact (failed {} {} rfl).elim
  · exact kept

/-! ## Reports -/

/-- Every call of the handler that can fail succeeds. -/
def Sys.Answers (s : Sys) : Prop := ∀ b ∈ s.calls, b = true

theorem Sys.Answers.answer {w : World} (h : w.sys.Answers) :
    w.answer = true ∧ w.answered.sys.Answers := by
  unfold World.answer World.answered
  cases hc : w.sys.calls with
  | nil => exact ⟨rfl, fun b hb => by simp at hb⟩
  | cons b bs =>
      rw [Sys.Answers, hc] at h
      exact ⟨h b List.mem_cons_self, fun b' hb' => h b' (List.mem_cons_of_mem b hb')⟩

/-- A failure is recorded, and the client is told. -/
structure Reported (w : World) (r : StatsError) (w' : World) : Prop where
  log : w'.log = w.log ++
    [.failed r, .sent w.session.clientAddress (.error r.errorNumber r.errorMessage)]
  recorded : w'.session.stats.error = r
  client : w'.session.clientAddress = w.session.clientAddress

section Report

variable {w : World}

/-- The ERROR packet of the recorded error. -/
def Session.errorReport (s : Session) : Packet :=
  .error s.stats.error.errorNumber s.stats.error.errorMessage

theorem sendErrorPacket_spec (h : w.sys.Answers) (dest : Address) :
    wp (sendErrorPacket dest) (fun _ t => t.log = w.log ++ [.sent dest w.session.errorReport] ∧
      t.session = { w.session with errorPacket := some w.session.errorReport })
      (fun _ _ => False) w := by
  obtain ⟨first, second⟩ := h.answer
  have next : w.answered.answer = true := second.answer.1
  simp only [sendErrorPacket, errorPacketInit, wp_bind, wp_require, wp_session, wp_modify, wp_pure,
    wp_sendto, first]
  have same : ({ w.answered with session := { w.session with
      errorPacket := some w.session.errorReport } } : World).answer = true := next
  refine ⟨fun _ => ⟨fun _ => ⟨rfl, rfl⟩, fun hf => ?_⟩, fun hf => by simp at hf⟩
  exact absurd (same.symm.trans hf) (by decide)

/-- The end of each branch that reports a failure. -/
theorem report_spec (h : w.sys.Answers) (n : UInt16) (m : Bytes) :
    wp (do
      recordFailure n m
      let s ← session
      sendErrorPacket s.clientAddress) (fun _ t => Reported w ⟨true, n, m⟩ t)
      (fun _ _ => False) w := by
  rw [wp_bind, wp_recordFailure, wp_bind, wp_session]
  refine wp_mono (sendErrorPacket_spec (by exact h) _) ?_ fun _ _ hf => hf
  rintro _ t ⟨hlog, hsession⟩
  refine ⟨?_, ?_, ?_⟩
  · rw [hlog, List.append_assoc]
    rfl
  · rw [hsession]
  · rw [hsession]

theorem Reported.of_eq {w₁ w' : World} {r : StatsError} (h : Reported w₁ r w')
    (hlog : w₁.log = w.log) (hc : w₁.session.clientAddress = w.session.clientAddress) :
    Reported w r w' :=
  ⟨by rw [h.log, hlog, hc], h.recorded, h.client.trans hc⟩

/-- A branch that closes the session and reports a failure. -/
theorem closeAndReport_spec (h : w.sys.Answers) (n : UInt16) (m : Bytes) :
    wp (do
      modify fun s => { s with shouldClose := true }
      recordFailure n m
      let s ← session
      sendErrorPacket s.clientAddress)
      (fun _ t => (∃ r, Reported w r t) ∧ t.control = w.control.close) (fun _ _ => False) w := by
  rw [wp_bind, wp_modify]
  let closing : World := { w with session := { w.session with shouldClose := true } }
  have reported := report_spec (w := closing) h n m
  have unmoved : Unmoved (do
      recordFailure n m
      let s ← session
      sendErrorPacket s.clientAddress) :=
    .bind (.recordFailure _ _) fun _ => .bind .session fun _ => Fixes.sendErrorPacket _
  refine wp_mono (wp_and reported (unmoved _ closing rfl)) ?_ fun _ _ hf => hf.1
  rintro _ t ⟨hr, hc⟩
  exact ⟨⟨_, hr.of_eq rfl rfl⟩, hc⟩

theorem readFailure_reports (h : w.sys.Answers) :
    wp readFailure (fun _ t => (∃ r, Reported w r t) ∧ t.control = w.control.close)
      (fun _ _ => False) w := closeAndReport_spec h _ _

theorem unexpectedOpcode_reports (h : w.sys.Answers) :
    wp unexpectedOpcode (fun _ t => (∃ r, Reported w r t) ∧ t.control = w.control.close)
      (fun _ _ => False) w := closeAndReport_spec h _ _

/-- Cancelling the receive says nothing to the client. -/
theorem recvAsyncCancel_spec (h : w.sys.Answers) :
    wp recvAsyncCancel (fun _ t => t.log = w.log ∧ t.sys.Answers ∧
      t.session.clientAddress = w.session.clientAddress) (fun _ _ => False) w := by
  obtain ⟨first, rest⟩ := h.answer
  rw [recvAsyncCancel, wp_bind, wp_require]
  exact ⟨fun _ => ⟨rfl, rest, rfl⟩, fun hf => absurd (first.symm.trans hf) (by decide)⟩

theorem maxRetransmissions_spec (h : w.sys.Answers) :
    wp (do
      setMaxRetransmissionsError
      let s ← session
      sendErrorPacket s.clientAddress) (fun _ t => ∃ r, Reported w r t) (fun _ _ => False) w := by
  obtain ⟨first, rest⟩ := h.answer
  rw [wp_bind, setMaxRetransmissionsError, wp_bind, wp_require]
  refine ⟨fun _ => ?_, fun hf => absurd (first.symm.trans hf) (by decide)⟩
  rw [wp_bind, wp_session]
  refine wp_mono (wp_bind.mp (report_spec (w := w.answered) rest _ _)) ?_ fun _ _ hf => hf
  intro _ t ht
  exact wp_mono ht (fun _ _ hr => ⟨_, hr.of_eq rfl rfl⟩) fun _ _ hf => hf

theorem giveUp_reports (h : w.sys.Answers) :
    wp giveUp (fun _ t => (∃ r, Reported w r t) ∧ t.control = w.control.giveUp)
      (fun _ _ => False) w := by
  have told : wp giveUp (fun _ t => ∃ r, Reported w r t) (fun _ _ => False) w := by
    rw [giveUp, wp_bind, wp_modify, wp_bind]
    refine wp_mono (recvAsyncCancel_spec (by exact h)) ?_ fun _ _ hf => hf
    rintro _ t ⟨hlog, hanswers, hclient⟩
    refine wp_mono (maxRetransmissions_spec hanswers) ?_ fun _ _ hf => hf
    rintro _ t' ⟨r, hr⟩
    exact ⟨r, hr.of_eq hlog hclient⟩
  exact wp_mono (wp_and told (giveUp_moves w)) (fun _ _ ht => ht) fun _ _ hf => hf.1

end Report

/-! ## The start -/

/-- The request has a known mode and its file opens. -/
def StartsCleanly (s : Session) (a : FileAnswers) : Prop :=
  (sessionOptionsInit s).mode ≠ .invalid ∧
    ∀ socket : ℕ, ∃ fd entries,
      a.Opening (s.requested socket).requestType (s.requested socket).readType.1 fd entries

/-- Nothing failed so far, and no one-byte read will. -/
def Clean (w : World) : Prop := failures w.log = [] ∧ .failed ∉ w.sys.byteReads

theorem Clean.add {w : World} (h : Clean w) {e : Entry} (he : NoFailure e) :
    Clean { w with log := w.log ++ [e] } := by
  refine ⟨?_, h.2⟩
  rw [failures_append, h.1]
  cases e with
  | failed r => exact (he r rfl).elim
  | _ => rfl

theorem failures_opening {a : FileAnswers} {ty : RequestType} {rt : ReadType} {fd : ℕ}
    {entries : List Entry} (h : a.Opening ty rt fd entries) : failures entries = [] := by
  cases h <;> rfl

theorem allocateBuffers_spec {w : World} (h : Clean w) :
    wp allocateBuffers (fun _ t => Clean t ∧ t.session.dataPackets.isSome)
      (fun _ t => Clean t) w := by
  simp only [allocateBuffers, wp_bind, wp_require, wp_sys, wp_modify]
  exact ⟨fun _ => ⟨fun _ => ⟨h, rfl⟩, fun _ => h⟩, fun _ => h⟩

theorem prepareTransfer_spec {w : World} (h : Clean w) :
    wp prepareTransfer (fun _ t => Clean t ∧ t.session.dataPackets.isSome)
      (fun _ t => Clean t) w := by
  rw [prepareTransfer, wp_bind, wp_modify, wp_bind]
  refine wp_mono (allocateBuffers_spec (by exact h)) ?_ fun _ _ h => h
  rintro _ t ⟨clean, some_⟩
  have rest : Logs t.session.fileDescriptor t.session.sockfd NoFailure (do
      let s ← session
      if s.stats.error.errorOccurred then do
        sendErrorPacket s.clientAddress
        modify fun s => { s with shouldClose := true }
      else pure ()) :=
    .bind .session fun _ => .ite (.bind (sendErrorPacket_logs noFailure_sent _) fun _ =>
      .modify fun _ => ⟨rfl, rfl, id⟩) (.pure _)
  have grown {t' : World} (ht' : Grows t.session.fileDescriptor t.session.sockfd NoFailure t.log t') :
      Clean t' := ⟨failures_of_grows ht' clean.1, (buffers_of_grows ht').2⟩
  exact rest.wp (.refl (.inr ⟨some_, clean.2⟩))
    (fun _ _ ht' => ⟨grown ht', (buffers_of_grows ht').1⟩) fun _ _ ht' => grown ht'

theorem startTransfer_spec {w : World} (h : Clean w) :
    wp startTransfer (fun _ t => Clean t ∧ t.session.dataPackets.isSome)
      (fun _ t => Clean t) w := by
  rw [startTransfer, wp_bind, wp_session, wp_ite]
  refine ⟨fun _ => prepareTransfer_spec h, fun _ => ?_⟩
  have queried : wp queryFileSize (fun _ t => Clean t) (fun _ t => Clean t) w := by
    simp only [queryFileSize, wp_bind, wp_session, wp_sys, wp_ite, wp_emit, wp_pure]
    exact ⟨fun _ => h.add (noFailure_read _), fun _ => h⟩
  refine wp_bind.mpr (wp_mono queried (fun size t ht => ?_) fun _ _ h => h)
  rw [wp_bind, wp_modify, wp_bind, wp_modify]
  exact prepareTransfer_spec (by exact ht)

theorem readRequest_clean : Keeps Clean readRequest := by
  refine .bind (.update fun _ h => h) fun _ => .bind (.bind (.gets _) fun a => ?_) fun _ =>
    .bind (.update fun _ h => h) fun _ => .bind (.update fun _ h => h) fun _ => .update fun _ h => h
  cases a.socket with
  | none => exact .stop _
  | some fd => exact .bind (.update fun _ h => h.add fun _ => by simp) fun _ => .update fun _ h => h

/-- A clean start leaves the buffers of a session that does not close. -/
theorem start_spec {w : World} (h : Clean w)
    (hs : isRequestValid w.session → StartsCleanly w.session w.sys.file) :
    wp start (fun _ t => Clean t ∧ (t.session.shouldClose ∨ t.session.dataPackets.isSome))
      (fun _ t => Clean t) w := by
  rw [start, wp_bind, wp_session, wp_ite]
  refine ⟨fun _ => ⟨h, .inl rfl⟩, fun hv => ?_⟩
  obtain ⟨hmode, hopens⟩ := hs (by simpa using hv)
  refine wp_bind.mpr (wp_mono (wp_and (readRequest_spec w) (readRequest_clean w h)) ?_
    fun _ _ h => h.2)
  rintro _ t ⟨⟨socket, -, rfl⟩, -⟩
  obtain ⟨fd, entries, opening⟩ := hopens socket
  rw [wp_bind, wp_session, wp_ite]
  refine ⟨fun hm => (hmode hm).elim, fun _ => (wp_openFile (by exact opening)).mpr ?_⟩
  have clean : Clean { w with
      session := (w.session.requested socket).opened fd
      log := (w.log ++ [.opened socket]) ++ entries } := by
    refine ⟨?_, h.2⟩
    rw [failures_append, failures_append, h.1, failures_opening opening]
    rfl
  exact wp_mono (startTransfer_spec clean) (fun _ t ht => ⟨ht.1, .inr ht.2⟩) fun _ _ h => h

/-! ## Containment -/

/-- The state of a session in which nothing failed so far. -/
structure Unfailed (w : World) : Prop where
  failures : failures w.log = []
  buffers : w.inflight = [] ∨ w.session.dataPackets.isSome

/-- What holds of a session from the failure `r` on: the client was told once,
nothing else was sent since, and the session closes without waiting for it. -/
structure Contained (r : StatsError) (w : World) : Prop where
  report : ∃ before after, w.log = before ++ .failed r :: after ∧ failures before = [] ∧
    failures after = [] ∧
    sentPackets after = [(w.session.clientAddress, .error r.errorNumber r.errorMessage)]
  recorded : w.session.stats.error = r
  closing : w.session.shouldClose
  idle : w.session.isFetchingData = false
  drained : .recv false ∉ w.inflight

theorem Contained.of_reported {r : StatsError} {w w' : World} (h : Reported w r w')
    (hlog : failures w.log = []) (hclose : w'.session.shouldClose)
    (hidle : w'.session.isFetchingData = false) (hdrained : .recv false ∉ w'.inflight) :
    Contained r w' where
  report := ⟨w.log, _, h.log, hlog, rfl, by rw [h.client]; rfl⟩
  recorded := h.recorded
  closing := hclose
  idle := hidle
  drained := hdrained

/-- The end of a call logs the close and nothing else. -/
theorem finish_keeps {P : World → Prop} {w : World} (h : P w)
    (hclosed : P { w with
      session := w.session.reported, log := w.log ++ w.session.closingEntries }) :
    wp finish (fun _ t => P t) (fun _ _ => False) w :=
  wp_finish.mpr ⟨fun _ => hclosed, fun _ => h⟩

theorem Unfailed.closed {w : World} (h : Unfailed w) :
    Unfailed { w with
      session := w.session.reported, log := w.log ++ w.session.closingEntries } := by
  refine ⟨?_, h.buffers⟩
  rw [failures_append, h.failures, failures_closingEntries]
  rfl

theorem Contained.closed {r : StatsError} {w : World} (h : Contained r w) :
    Contained r { w with
      session := w.session.reported, log := w.log ++ w.session.closingEntries } := by
  obtain ⟨before, after, hlog, hbefore, hafter, hsent⟩ := h.report
  refine ⟨⟨before, after ++ w.session.closingEntries, ?_, hbefore, ?_, ?_⟩, h.recorded, h.closing,
    h.idle, h.drained⟩
  · simp [hlog]
  · rw [failures_append, hafter, failures_closingEntries]
    rfl
  · rw [sentPackets_append, hsent, sentPackets_closingEntries]
    rfl

/-- A session is sound when it lost no failure. -/
def SoundWorld (w : World) : Prop := Unfailed w ∨ ∃ r, Contained r w

/-- A call from a state with the recorded failures `fs`: one that returns is
sound, and one that stops recorded no further failure. -/
theorem deliver_sound {sys : Sys} {e : Event} {w : World} {fs : List StatsError}
    (h : wp (do
      dispatch e
      fetchData) (fun _ t => SoundWorld t) (fun _ t => failures t.log = fs)
      { w with sys := sys }) :
    ((deliver sys e w).listening → SoundWorld (deliver sys e w).world) ∧
      ((deliver sys e w).listening ∨ failures (deliver sys e w).world.log = fs) := by
  refine deliver_spec (P := fun l => (l.listening → SoundWorld l.world) ∧
    (l.listening ∨ failures l.world.log = fs)) ?_
  refine wp_handleEvent.mpr (wp_mono h (fun _ t ht => ?_) fun abort t ht => ⟨fun hl => ?_, .inr ht⟩)
  · refine wp_mono (finish_keeps ht ?_) (fun state t' ht' => ⟨fun _ => ht', .inl ?_⟩)
      fun _ _ hf => hf.elim
    · rcases ht with unfailed | ⟨r, contained⟩
      · exact .inl unfailed.closed
      · exact .inr ⟨r, contained.closed⟩
    · cases state
      · exact .inl rfl
      · exact .inr rfl
  · cases abort <;> simp [Live.listening, Abort.status] at hl

/-! ## Steps -/

/-- Where a failure that is about to be recorded finds the session: nothing is
being read that would be sent after the report, no uncancelled receive is left
to wait for the client, and the failure is not a failed write. -/
def World.CanReport (w : World) : Event → Prop
  | .dataAvailable _ => .recv false ∉ w.inflight
  | .packetReceived (.ok d) => w.IsUnexpected d ∧ w.session.isFetchingData = false
  | _ => w.session.isFetchingData = false

/-- No failure is lost: a session starts on a known mode and a file that opens,
no one-byte read fails, and every other failure is recorded where it can be
reported, and the calls that report it succeed. -/
def Reportable : Condition := fun l label =>
  match label with
  | .start sys => .failed ∉ sys.byteReads ∧
      (isRequestValid l.world.session → StartsCleanly l.world.session sys.file)
  | .complete _ sys e => .failed ∉ sys.byteReads ∧
      ({ l.world with sys := sys }.Fails e →
        sys.Answers ∧ { l.world with sys := sys }.CanReport e)
  | .expire => True
  | .fill _ => True

section Steps

variable {w : World}

theorem unfailed_of_grows {fd sk : ℤ} {log : List Entry} (h : Grows fd sk NoFailure log w)
    (hlog : failures log = []) : Unfailed w :=
  ⟨failures_of_grows h hlog, .inr (buffers_of_grows h).1⟩

theorem shouldFetch_of_closing (h : w.session.shouldClose) : w.control.shouldFetch = false := by
  rw [control_shouldFetch]
  simp [shouldFetchData, h]

theorem start_sound (h : Clean w) (hu : w.control.Untouched)
    (hs : isRequestValid w.session → StartsCleanly w.session w.sys.file) :
    wp (do
      dispatch .start
      fetchData) (fun _ t => SoundWorld t) (fun _ t => failures t.log = []) w := by
  rw [wp_bind, dispatch, onStart, wp_bind]
  refine wp_mono (wp_and (start_spec h hs) (start_untouched w hu)) ?_ fun _ _ h => h.1.1
  rintro _ t ⟨⟨clean, ready⟩, untouched⟩
  rw [wp_bind, wp_session, wp_ite]
  refine ⟨fun hc => ?_, fun hc => ?_⟩
  · rw [wp_pure, wp_fetchData_idle (shouldFetch_of_closing hc)]
    exact .inl ⟨clean.1, .inl untouched.inflight⟩
  · have some_ : t.session.dataPackets.isSome := ready.resolve_left hc
    refine (greet_logs noFailure_sent t.session).wp (.refl (.inr ⟨some_, clean.2⟩))
      (fun _ t' ht' => ?_) fun _ t' ht' => failures_of_grows ht' clean.1
    refine (fetchData_logs (noFailure_read _)).wp ht' (fun _ t'' ht'' => ?_)
      fun _ t'' ht'' => failures_of_grows ht'' clean.1
    exact .inl (unfailed_of_grows ht'' clean.1)

/-- A call that fails nowhere. -/
theorem handled_sound {e : Event} (he : e ≠ .start) (hlog : failures w.log = [])
    (hbuf : w.session.dataPackets.isSome) (hreads : .failed ∉ w.sys.byteReads)
    (hnot : ¬w.Fails e) :
    wp (do
      dispatch e
      fetchData) (fun _ t => SoundWorld t) (fun _ t => failures t.log = []) w := by
  have grows : Grows w.session.fileDescriptor w.session.sockfd NoFailure w.log w :=
    .refl (.inr ⟨hbuf, hreads⟩)
  have logs := handled_logs noFailure_sent (noFailure_read _) (noFailure_wrote _) he
    grows (.inr hnot)
  exact wp_mono logs (fun _ t ht => .inl (unfailed_of_grows ht hlog))
    fun _ t ht => failures_of_grows ht hlog

/-- After a report nothing is read ahead. -/
theorem reported_sound {t : World} (hr : ∃ r, Reported w r t) (hlog : failures w.log = [])
    (hclose : t.control.shouldClose) (hidle : t.control.isFetchingData = false)
    (hdrained : .recv false ∉ t.control.inflight) :
    wp fetchData (fun _ t => SoundWorld t) (fun _ _ => False) t := by
  obtain ⟨r, hr⟩ := hr
  rw [wp_fetchData_idle (shouldFetch_of_closing hclose)]
  exact .inr ⟨r, .of_reported hr hlog hclose hidle hdrained⟩

/-- A call in which the session fails and can report it. -/
theorem failing_sound {e : Event} {op : Op} {pre post : List Op} (hops : w.inflight = pre ++ op :: post)
    (hrep : op.Reports e) (htidy : w.control.Tidy) (hlog : failures w.log = [])
    (hanswers : w.sys.Answers) (hfails : w.Fails e) (hcan : w.CanReport e) :
    wp (do
      dispatch e
      fetchData) (fun _ t => SoundWorld t) (fun _ _ => False) { w with inflight := pre ++ post } := by
  have no_recv (h : .recv false ∉ w.inflight) : .recv false ∉ pre ++ post := fun hm => by
    refine h ?_
    rw [hops]
    simp only [List.mem_append, List.mem_cons] at hm ⊢
    tauto
  cases e with
  | start => exact hfails.elim
  | timeoutRemoved c => exact hfails.elim
  | packetReceivedRemoved c => exact hfails.elim
  | dataAvailable c =>
      cases c with
      | ok n => exact hfails.elim
      | error n =>
          rw [wp_bind, dispatch, wp_bind, wp_jobDone, wp_bind, wp_modify]
          refine wp_bind.mpr (wp_ite.mpr ⟨fun _ => ?_, fun hne => (hne hfails).elim⟩)
          refine wp_mono (readFailure_reports (by exact hanswers)) ?_ fun _ _ hf => hf.elim
          rintro _ t ⟨hr, hc⟩
          refine reported_sound hr hlog (by rw [hc]; rfl) (by rw [hc]; rfl) ?_
          rw [hc]
          exact no_recv hcan
  | timeout c =>
      obtain ⟨hnot, hretries⟩ := hfails
      have reaped := htidy.remove hops (by cases op <;> first | rfl | exact hrep.elim)
      simp only [dispatch, wp_bind, wp_jobDone, wp_session, wp_ite, wp_pure]
      refine ⟨fun h => (hnot (.inl h)).elim, fun _ => ⟨fun h => (hnot (.inr h)).elim, fun _ => ?_⟩⟩
      refine wp_bind.mpr (wp_ite.mpr ⟨fun _ => ?_, fun hne => (hne hretries).elim⟩)
      refine wp_mono (giveUp_reports (by exact hanswers)) ?_ fun _ _ hf => hf.elim
      rintro _ t ⟨hr, hc⟩
      refine reported_sound hr hlog (by rw [hc]; rfl) (by rw [hc]; exact hcan) ?_
      rw [hc]
      exact Control.Drained.giveUp reaped rfl
  | packetReceived c =>
      cases c with
      | error n => exact hfails.elim
      | ok d =>
          obtain ⟨⟨hopen, hlen, hown⟩, -⟩ := hfails
          obtain ⟨⟨herror, hdata, hack⟩, hidle⟩ := hcan
          have own : sockaddrEquals d.sender w.session.clientAddress = true := hown
          obtain ⟨hsame, hinet⟩ := sockaddrEquals_iff.mp own
          have inet : d.sender.isInet = true := hsame ▸ hinet
          have none_ : (pre ++ post).countP Op.isRecv = 0 := by
            cases op with
            | recv b => exact htidy.no_receives hops
            | _ => exact hrep.elim
          simp only [dispatch, wp_bind, wp_jobDone, wp_session, wp_ite, wp_pure]
          refine ⟨fun h => absurd (h.symm.trans hopen) (by decide), fun _ => ?_⟩
          rw [onPacketReceived, wp_bind, wp_session]
          dsimp only
          rw [if_neg (by omega), if_neg (by simp [inet]), if_neg (by simp [World.reaped, own]),
            if_neg herror, if_neg (by exact hdata), if_neg (by exact hack)]
          refine wp_mono (unexpectedOpcode_reports (by exact hanswers)) ?_ fun _ _ hf => hf.elim
          rintro _ t ⟨hr, hc⟩
          have closing : t.session.shouldClose = true := (congrArg Control.shouldClose hc)
          refine ⟨fun _ => ?_, fun h => (h closing).elim⟩
          refine reported_sound hr hlog closing (by rw [hc]; exact hidle) ?_
          rw [hc]
          exact Control.not_mem_of_no_receives none_

/-- A closing session only counts its completions down. -/
theorem dispatch_closing {e : Event} (hclose : w.session.shouldClose) (he : e ≠ .start)
    (hd : ∀ c, e ≠ .dataAvailable c) :
    wp (dispatch e) (fun _ t => t = w.reaped) (fun _ t => t = w.reaped) w := by
  cases e with
  | start => exact (he rfl).elim
  | dataAvailable c => exact (hd c rfl).elim
  | timeout c =>
      simp only [dispatch, wp_bind, wp_jobDone, wp_session, wp_ite, wp_pure]
      exact ⟨fun _ => trivial, fun _ => ⟨fun _ => trivial, fun h => (h (.inl hclose)).elim⟩⟩
  | packetReceived c =>
      simp only [dispatch, wp_bind, wp_jobDone, wp_session, wp_ite, wp_pure]
      exact ⟨fun _ => trivial, fun h => (h hclose).elim⟩
  | timeoutRemoved c =>
      refine wp_bind.mpr (wp_jobDone.mpr ?_)
      cases c with
      | ok n => rfl
      | error e => exact wp_ite.mpr ⟨fun _ => rfl, fun _ => rfl⟩
  | packetReceivedRemoved c =>
      refine wp_bind.mpr (wp_jobDone.mpr ?_)
      cases c with
      | ok n => rfl
      | error e => exact wp_ite.mpr ⟨fun _ => rfl, fun _ => rfl⟩

/-- A contained session stays contained. -/
theorem contained_sound {r : StatsError} {e : Event} {op : Op} {pre post : List Op}
    (h : Contained r w) (hops : w.inflight = pre ++ op :: post) (hrep : op.Reports e)
    (htidy : w.control.Tidy) :
    wp (do
      dispatch e
      fetchData) (fun _ t => Contained r t ∧ t.inflight = pre ++ post)
      (fun _ t => t.log = w.log) { w with inflight := pre ++ post } := by
  have noFetch : op.isFetch = false := by
    have fetches := htidy.fetches
    rw [show w.control.isFetchingData = false from h.idle,
      show w.control.inflight = pre ++ op :: post from hops, Control.countP_split] at fetches
    by_contra hf
    simp [hf] at fetches
  refine wp_bind.mpr (wp_mono (dispatch_closing h.closing ?_ ?_) ?_ fun _ _ ht => ht ▸ rfl)
  · rintro rfl
    exact Op.not_reports_start hrep
  · rintro c rfl
    cases op with
    | read => simp [Op.isFetch] at noFetch
    | nop => simp [Op.isFetch] at noFetch
    | _ => exact hrep.elim
  · rintro _ t rfl
    rw [wp_fetchData_idle (shouldFetch_of_closing (by exact h.closing))]
    refine ⟨⟨h.report, h.recorded, h.closing, h.idle, fun hm => h.drained ?_⟩, rfl⟩
    rw [hops]
    have hm : .recv false ∈ pre ++ post := hm
    simp only [List.mem_append, List.mem_cons] at hm ⊢
    tauto

end Steps

/-! ## Runs -/

/-- The invariant of a session that loses no failure. -/
structure Sound (l : Live) : Prop where
  settled : Settled l
  fresh : l.status = .fresh → l.world.log = []
  sound : l.listening → SoundWorld l.world

namespace Sound

theorem boot (info : ServerInfo) (request : PeerMessage) : Sound (Live.boot info request) where
  settled := .boot _ _
  fresh _ := rfl
  sound h := by simp [Live.listening, Live.boot] at h

/-- What the system does between two calls is not logged. -/
theorem between {w w' : World} (h : SoundWorld w) (hlog : w'.log = w.log)
    (hbuf : w.session.dataPackets.isSome → w'.session.dataPackets.isSome)
    (hsome : w.inflight ≠ []) (herror : w'.session.stats = w.session.stats)
    (hcontrol : { w'.control with inflight := w.inflight } = w.control)
    (hrecv : .recv false ∈ w'.inflight → .recv false ∈ w.inflight) : SoundWorld w' := by
  rcases h with unfailed | ⟨r, contained⟩
  · exact .inl ⟨hlog ▸ unfailed.failures, .inr (hbuf (unfailed.buffers.resolve_left hsome))⟩
  · have hclient : w'.session.clientAddress = w.session.clientAddress :=
      congrArg Control.clientAddress hcontrol
    have hclose : w'.session.shouldClose = w.session.shouldClose :=
      congrArg Control.shouldClose hcontrol
    have hidle : w'.session.isFetchingData = w.session.isFetchingData :=
      congrArg Control.isFetchingData hcontrol
    refine .inr ⟨r, ?_, herror ▸ contained.recorded, hclose ▸ contained.closing,
      hidle.trans contained.idle, fun hm => contained.drained (hrecv hm)⟩
    rw [hlog, hclient]
    exact contained.report

/-- A step keeps the session sound, and ends it badly only where no failure was
recorded. -/
theorem step {l l' : Live} {label : Label} (h : Sound l) (hs : Step l label l')
    (hC : Reportable l label) :
    Sound l' ∧ (l'.listening ∨ failures l'.world.log = failures l.world.log) := by
  have settled := h.settled.step hs
  cases hs with
  | start sys hf =>
      obtain ⟨hreads, hstart⟩ := hC
      have nothing : failures l.world.log = [] := by rw [h.fresh hf]; rfl
      obtain ⟨sound, lossless⟩ := deliver_sound
        (start_sound (w := { l.world with sys := sys }) ⟨nothing, hreads⟩ (h.settled.fresh hf) hstart)
      exact ⟨⟨settled, fun hf' => (deliver_ne_fresh _ _ _ hf').elim, sound⟩, nothing ▸ lossless⟩
  | @complete pre post op sys e hl hops hr =>
      obtain ⟨hreads, hcan⟩ := hC
      have he : e ≠ .start := fun h => Op.not_reports_start (h ▸ hr)
      have delivered : wp (do
          dispatch e
          fetchData) (fun _ t => SoundWorld t)
          (fun _ t => failures t.log = failures l.world.log)
          { { l.world with inflight := pre ++ post } with sys := sys } := by
        rcases h.sound hl with unfailed | ⟨r, contained⟩
        · have hbuf : l.world.session.dataPackets.isSome :=
            unfailed.buffers.resolve_left (by simp [hops])
          rw [unfailed.failures]
          by_cases hfails : { l.world with sys := sys }.Fails e
          · obtain ⟨hanswers, hcan⟩ := hcan hfails
            exact wp_mono (failing_sound (w := { l.world with sys := sys }) hops hr
              (h.settled.tidy hl) unfailed.failures hanswers hfails hcan) (fun _ _ ht => ht)
              fun _ _ hf => hf.elim
          · refine handled_sound he unfailed.failures hbuf hreads ?_
            cases e <;> exact hfails
        · have moved : Contained r { l.world with sys := sys } :=
            ⟨contained.report, contained.recorded, contained.closing, contained.idle,
              contained.drained⟩
          exact wp_mono (contained_sound moved hops hr (h.settled.tidy hl))
            (fun _ _ ht => .inr ⟨r, ht.1⟩) fun _ _ ht => congrArg failures ht
      obtain ⟨sound, lossless⟩ := deliver_sound delivered
      exact ⟨⟨settled, fun hf' => (deliver_ne_fresh _ _ _ hf').elim, sound⟩, lossless⟩
  | expire hl hops =>
      refine ⟨⟨settled, fun hf => (hl.ne_fresh hf).elim, fun _ => ?_⟩, .inr rfl⟩
      refine between (h.sound hl) rfl id (by simp [hops]) rfl rfl fun hm => ?_
      rw [hops]
      simpa using hm
  | fill bytes hl hops hlen =>
      refine ⟨⟨settled, fun hf => (hl.ne_fresh hf).elim, fun _ => ?_⟩, .inr rfl⟩
      refine between (h.sound hl) rfl (fun hb => ?_) (by simp [hops]) rfl rfl fun hm => ?_
      · simpa [fillSlot] using hb
      · rw [hops]
        simpa using hm

end Sound

/-- From a failure on, every completion takes one operation out of flight and
puts none in. -/
theorem Contained.drains {r : StatsError} {l l' : Live} {op : Op} {sys : Sys} {e : Event}
    (h : Contained r l.world) (htidy : l.world.control.Tidy)
    (hs : Step l (.complete op sys e) l') (hl' : l'.listening) :
    l'.world.inflight.length + 1 = l.world.inflight.length := by
  cases hs with
  | @complete pre post _ _ _ hl hops hr =>
      have moved : Contained r { l.world with sys := sys } :=
        ⟨h.report, h.recorded, h.closing, h.idle, h.drained⟩
      have drained : (deliver sys e { l.world with inflight := pre ++ post }).listening →
          (deliver sys e { l.world with inflight := pre ++ post }).world.inflight = pre ++ post := by
        refine deliver_spec (P := fun l => l.listening → l.world.inflight = pre ++ post) ?_
        refine wp_handleEvent.mpr (wp_mono (contained_sound moved hops hr htidy) ?_ ?_)
        · rintro _ t ⟨-, ht⟩
          exact wp_finish.mpr ⟨fun _ _ => ht, fun _ _ => ht⟩
        · intro abort t _ hl
          cases abort <;> simp [Live.listening, Abort.status] at hl
      rw [drained hl', hops]
      simp
      omega

/-- In every run in which no failure is lost: a recorded failure was reported to
the client once and nothing was sent to it since; the session is closing, waits
for nothing that its client would have to send, drains, and is closed when it
has drained; and the call that records a failure does not end in an error. -/
theorem failures_contained {info : ServerInfo} {request : PeerMessage} {l : Live}
    (h : Runs Reportable (Live.boot info request) l) (hl : l.listening) :
    (∀ r, .failed r ∈ l.world.log → Contained r l.world ∧
      (∀ op sys e l', Step l (.complete op sys e) l' → l'.listening →
        l'.world.inflight.length + 1 = l.world.inflight.length) ∧
      (l.world.inflight = [] → l.status = .closed)) ∧
    ∀ label l', Step l label l' → Reportable l label →
      failures l'.world.log ≠ failures l.world.log → l'.listening := by
  have sound : Sound l := h.invariant (fun _ _ _ h hs hC => (h.step hs hC).1) (.boot _ _)
  have acc := accounted_of_runs h
  refine ⟨fun r hr => ?_, fun label l' hs hC hne => ((sound.step hs hC).2).resolve_right hne⟩
  have recorded : r ∈ failures l.world.log := List.mem_filterMap.mpr ⟨_, hr, rfl⟩
  have contained : Contained r l.world := by
    rcases sound.sound hl with unfailed | ⟨r', contained⟩
    · simp [unfailed.failures] at recorded
    · obtain ⟨before, after, hlog, hbefore, hafter, -⟩ := contained.report
      rw [hlog, failures_append, hbefore] at recorded
      have hr' : r ∈ r' :: failures after := recorded
      rw [hafter, List.mem_singleton] at hr'
      exact hr' ▸ contained
  refine ⟨contained, fun op sys e l' hs hl' => contained.drains (sound.settled.tidy hl) hs hl',
    fun hnone => (acc.closed hl).mpr ⟨contained.closing, ?_⟩⟩
  have counted : l.world.control.pendingJobs = UInt8.ofNat l.world.inflight.length := acc.counted hl
  rw [counted, hnone]
  rfl

/-! ## Two schedules -/

/-- A write request in an unknown mode records a failure, and is acknowledged. -/
theorem unknown_mode_acknowledged :
    ∃ l, Runs anySteps (Live.boot plainInfo (plainRequest Opcode.wrq "mail")) l ∧
      l.status = .idle ∧ l.world.session.shouldClose = false ∧
      failures l.world.log = [⟨true, ErrorCode.illegalOperation, ascii "Unknown mode."⟩] ∧
      sentPackets l.world.log = [(someClient, .ack 0)] := by
  have h : ((replay [.start fileOpens]
      (Live.boot plainInfo (plainRequest Opcode.wrq "mail"))).map fun l =>
        decide (l.status = .idle ∧ l.world.session.shouldClose = false ∧
          failures l.world.log = [⟨true, ErrorCode.illegalOperation, ascii "Unknown mode."⟩] ∧
          sentPackets l.world.log = [(someClient, .ack 0)])) = some true := by
    decide +kernel
  obtain ⟨l, hl, he⟩ := Option.map_eq_some_iff.mp h
  exact ⟨l, replay_runs hl fun _ _ _ => trivial, of_decide_eq_true he⟩

/-- A plain read request starts cleanly. -/
theorem plainRead_startsCleanly :
    StartsCleanly (sessionInit plainInfo (plainRequest Opcode.rrq "octet")) fileOpens.file := by
  refine ⟨by decide +kernel, fun socket => ⟨5, [.opened 5], .file ?_ rfl rfl⟩⟩
  rintro ⟨-, hd⟩
  have isFile : ((sessionInit plainInfo (plainRequest Opcode.rrq "octet")).requested
      socket).readType.1 = .file := rfl
  exact absurd (isFile.symm.trans hd) (by decide)

/-- Once its only block is sent, a read session that receives DATA reports the
unexpected opcode and is contained. -/
theorem unexpected_opcode_contained :
    ∃ l, Runs Reportable (Live.boot plainInfo (plainRequest Opcode.rrq "octet")) l ∧
      Contained ⟨true, ErrorCode.illegalOperation, ascii "Unexpected packet opcode."⟩ l.world := by
  have h : ((replay
      [.start fileOpens, .complete (.read 0 0 512 none) {} (.dataAvailable (.ok 3))]
      (Live.boot plainInfo (plainRequest Opcode.rrq "octet"))).bind fun l =>
        (perform l (arrival (.data 1 []))).map fun l' =>
          decide (l.world.session.requestType = .read ∧ l.world.session.isFetchingData = false ∧
            l'.status = .idle ∧ failures l'.world.log =
              [⟨true, ErrorCode.illegalOperation, ascii "Unexpected packet opcode."⟩])) =
      some true := by
    decide +kernel
  obtain ⟨l, hl, h⟩ := Option.bind_eq_some_iff.mp h
  obtain ⟨l', hl', he⟩ := Option.map_eq_some_iff.mp h
  obtain ⟨hread, hidle, hs, hfail⟩ := of_decide_eq_true he
  have hrun : Runs Reportable (Live.boot plainInfo (plainRequest Opcode.rrq "octet")) l := by
    obtain ⟨l₁, h₁, hrest⟩ := Option.bind_eq_some_iff.mp hl
    obtain ⟨l₂, h₂, hlast⟩ := Option.bind_eq_some_iff.mp hrest
    obtain rfl := Option.some.inj hlast
    have started : Reportable (Live.boot plainInfo (plainRequest Opcode.rrq "octet"))
        (.start fileOpens) := ⟨by simp [fileOpens], fun _ => plainRead_startsCleanly⟩
    have completed : Reportable l₁
        (.complete (.read 0 0 512 none) {} (.dataAvailable (.ok 3))) :=
      ⟨by simp, fun hf => hf.elim⟩
    exact (Relation.ReflTransGen.single ⟨_, perform_step h₁, started⟩).tail
      ⟨_, perform_step h₂, completed⟩
  have hcan : Reportable l (arrival (.data 1 [])) := by
    refine ⟨by simp, fun _ => ⟨fun b hb => by simp at hb, ⟨?_, ?_, ?_⟩, hidle⟩⟩
    · decide
    · rintro ⟨-, hw⟩
      exact absurd (hread.symm.trans hw) (by decide)
    · rintro ⟨ho, -⟩
      exact absurd ho (by decide)
  have hrun' := hrun.tail ⟨_, perform_step hl', hcan⟩
  refine ⟨l', hrun', ((failures_contained hrun' (.inl hs)).1 _ ?_).1⟩
  have hmem : (⟨true, ErrorCode.illegalOperation, ascii "Unexpected packet opcode."⟩ : StatsError) ∈
      failures l'.world.log := by
    rw [hfail]
    exact List.mem_singleton_self _
  obtain ⟨e, he, hr⟩ := List.mem_filterMap.mp hmem
  cases e with
  | failed r => exact Option.some.inj hr ▸ he
  | _ => simp at hr

end Tftp.Server
