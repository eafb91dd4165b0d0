import Tftp.Server.Control

/-!
# What a session starts from

The request decides which options a session acknowledges. A session that
acknowledges some sends an OACK and waits for the answer with a timeout; one
that acknowledges none sends ACK 0 for a write request and no timeout.
-/

namespace Tftp.Server

open Prog Act

/-! ## Options -/

theorem applyOption_required (fileSize : Option ℕ) (s : Session) (o : OptionKind) :
    (applyOption fileSize s o).options.validOptionsRequired =
      (s.options.validOptionsRequired || s.options.recognized.isActive o) ∧
    (applyOption fileSize s o).options.optionsAcknowledged = s.options.optionsAcknowledged ∧
    ∀ o', o' ≠ o → (applyOption fileSize s o).options.recognized.isActive o' =
      s.options.recognized.isActive o' := by
  unfold applyOption OptionTable.isActive
  cases h : s.options.recognized.get o with
  | none => simp
  | some v =>
      cases o with
      | timeout =>
          dsimp only
          split <;> simp
      | tsize =>
          rcases fileSize with _ | size
          · refine ⟨by simp, rfl, fun o' ho => ?_⟩
            cases o' <;> first | rfl | exact (ho rfl).elim
          · cases v
            · simp
            · refine ⟨by simp, rfl, fun o' ho => ?_⟩
              cases o' <;> first | rfl | exact (ho rfl).elim
      | _ => simp

theorem foldl_applyOption_required (fileSize : Option ℕ) (kinds : List OptionKind)
    (hnd : kinds.Nodup) (s : Session) :
    (kinds.foldl (applyOption fileSize) s).options.validOptionsRequired =
      (s.options.validOptionsRequired || kinds.any s.options.recognized.isActive) ∧
    (kinds.foldl (applyOption fileSize) s).options.optionsAcknowledged =
      s.options.optionsAcknowledged := by
  induction kinds generalizing s with
  | nil => simp
  | cons o kinds ih =>
      obtain ⟨hnotin, hnd⟩ := List.nodup_cons.mp hnd
      obtain ⟨hreq, hack, hothers⟩ := applyOption_required fileSize s o
      have others : kinds.any (applyOption fileSize s o).options.recognized.isActive =
          kinds.any s.options.recognized.isActive := by
        rw [Bool.eq_iff_iff, List.any_eq_true, List.any_eq_true]
        refine exists_congr fun o' => and_congr_right fun ho => ?_
        rw [hothers o' fun he => hnotin (he ▸ ho)]
      rw [List.foldl_cons, (ih hnd _).1, (ih hnd _).2, hreq, hack, others, List.any_cons,
        Bool.or_assoc]
      exact ⟨rfl, rfl⟩

/-- Options are acknowledged exactly when one was accepted. -/
theorem parseOptions_required (fileSize : Option ℕ) (s : Session) :
    (parseOptions fileSize s).options.validOptionsRequired =
      (s.options.validOptionsRequired || (acceptedOptions s).1.anyActive) ∧
    (parseOptions fileSize s).options.optionsAcknowledged = s.options.optionsAcknowledged := by
  have nodup : OptionKind.all.Nodup := by decide
  rw [parseOptions, (foldl_applyOption_required _ _ nodup _).1,
    (foldl_applyOption_required _ _ nodup _).2]
  exact ⟨rfl, rfl⟩

/-! ## Write requests -/

/-- A write request whose file opens and of which an option is accepted. -/
structure OffersOptions (s : Session) (a : FileAnswers) : Prop where
  mode : (sessionOptionsInit s).mode ≠ .invalid
  pathAllocated : a.pathAllocated
  opens : ∃ fd, a.openFile = .ok fd
  optionsSize : (sessionOptionsInit s).options.optionsSize ≠ 0
  accepted : (acceptedOptions (sessionOptionsInit s)).1.anyActive

theorem wp_queryFileSize {Q : Option ℕ → World → Prop} {E : Abort → World → Prop} {w : World}
    (h : ∀ size t, t.session = w.session → Q size t) : wp queryFileSize Q E w := by
  simp only [queryFileSize, wp_bind, wp_session, wp_sys, wp_ite, wp_emit, wp_pure]
  exact ⟨fun _ => h _ _ rfl, fun _ => h _ _ rfl⟩

/-- Parsing an accepted option makes the session wait for its acknowledgment. -/
theorem startTransfer_pending {w : World} (hs : w.session.options.optionsSize ≠ 0)
    (ha : (acceptedOptions w.session).1.anyActive)
    (hk : w.session.options.optionsAcknowledged = false) :
    wp startTransfer (fun _ t => t.control.optionsPending) (fun _ _ => True) w := by
  simp only [startTransfer, wp_bind, wp_session, wp_ite]
  refine ⟨fun h => (hs h).elim, fun _ => wp_queryFileSize fun size t ht => ?_⟩
  simp only [wp_modify]
  refine wp_mono (prepareTransfer_keeps (P := fun c => c.optionsPending) (fun _ h => h) _ ?_)
    (fun _ _ h => h) fun _ _ _ => trivial
  obtain ⟨hreq, hack⟩ := parseOptions_required size w.session
  simp [World.control, Session.optionsSettled, ht, hreq, hack, ha, hk]

/-- The session once its request is read. -/
def Session.requested (s : Session) (fd : ℕ) : Session :=
  let s := sessionOptionsInit
    { s with
      requestType := s.opcodeType
      sockfd := fd
      clientAddress := s.requestArgs.peerAddr
      recvBufferSize := defaultBlksize.toNat
      stats := {} }
  { s with stats := { s.stats with mode := s.mode } }

/-- What `start` does before it looks at the mode. -/
theorem readRequest_spec (w : World) :
    wp readRequest (fun _ t => ∃ fd, w.sys.socket = some fd ∧
      t = { w with session := w.session.requested fd, log := w.log ++ [.opened fd] })
      (fun _ _ => True) w := by
  rw [readRequest, wp_bind, wp_modify, wp_bind, sessionConnectionInit, wp_bind, wp_sys]
  cases hfd : w.sys.socket with
  | none => trivial
  | some fd => exact ⟨fd, rfl, rfl⟩

/-- The session once its file is open. -/
def Session.opened (s : Session) (fd : ℕ) : Session :=
  { s with options := { s.options with recognized := s.readType.2 }, fileDescriptor := fd }

/-- The answers with which `session_file_init` returns a descriptor, and what
it logs. A listing is read from the pipe it was written to. -/
inductive FileAnswers.Opening (a : FileAnswers) :
    RequestType → ReadType → ℕ → List Entry → Prop where
  | file {ty : RequestType} {rt : ReadType} {fd : ℕ} : ¬(ty = .read ∧ rt = .directory) →
      a.pathAllocated → a.openFile = .ok fd → Opening a ty rt fd [.opened fd]
  | directory {dir readEnd writeEnd : ℕ} : a.pathAllocated → a.opendir = some dir →
      a.pipe = some (readEnd, writeEnd) → a.setPipeSize → a.pipeWrites →
      Opening a .read .directory readEnd
        [.opened dir, .opened readEnd, .opened writeEnd, .closed dir, .closed writeEnd]

theorem wp_sessionFileInit {a : FileAnswers} {ty : RequestType} {rt : ReadType} {fd : ℕ}
    {entries : List Entry} {Q : ℤ → World → Prop} {E : Abort → World → Prop} {w : World}
    (h : a.Opening ty rt fd entries) :
    wp (sessionFileInit ty rt a) Q E w ↔ Q fd { w with log := w.log ++ entries } := by
  cases h with
  | file hty hp ho =>
      rw [sessionFileInit, if_neg hty, if_neg (by simp [hp]), ho]
      exact Iff.rfl
  | directory hp hdir hpipe hsize hwrites =>
      rw [sessionFileInit, if_pos ⟨rfl, rfl⟩, openDirectoryAsMemfile, if_neg (by simp [hp]), hdir]
      simp [hpipe, hsize, hwrites]

/-- A file that opens is transferred. -/
theorem wp_openFile {w : World} {fd : ℕ} {entries : List Entry} {Q : Unit → World → Prop}
    {E : Abort → World → Prop}
    (h : w.sys.file.Opening w.session.requestType w.session.readType.1 fd entries) :
    wp openFile Q E w ↔
      wp startTransfer Q E { w with session := w.session.opened fd, log := w.log ++ entries } := by
  have hfd : ¬(fd : ℤ) = -1 := by omega
  rw [openFile, wp_bind, wp_session, wp_bind, wp_sys, wp_bind, wp_modify, wp_bind,
    wp_sessionFileInit h, wp_bind, wp_modify, if_neg hfd]
  exact Iff.rfl

theorem acceptedOptions_congr (s : Session) {t : Session} (hi : t.info = s.info)
    (ho : t.options = s.options) : acceptedOptions t = acceptedOptions s := by
  simp [acceptedOptions, recognizedOptions, hi, ho]

/-- Unless it closes, a session started on a write request that offers options
waits for their acknowledgment. -/
theorem start_pending {w : World}
    (h : isRequestValid w.session → w.session.opcodeType = .write →
      OffersOptions w.session w.sys.file) :
    wp start (fun _ t => t.control.shouldClose = false →
      t.control.requestType = .write → t.control.optionsPending) (fun _ _ => True) w := by
  rw [start, wp_bind, wp_session, wp_ite]
  refine ⟨fun _ hc => by simp [World.control] at hc, fun hv => ?_⟩
  rw [wp_bind]
  refine wp_mono (readRequest_spec w) ?_ fun _ _ _ => trivial
  rintro _ t ⟨fd, -, rfl⟩
  by_cases hty : w.session.opcodeType = .read
  · have reads : Keeps (fun w => w.control.requestType = .read) (do
        let s ← session
        if s.mode = .invalid then
          recordFailure ErrorCode.illegalOperation (ascii "Unknown mode.")
        else openFile) :=
      .bind (Keeps.gets _) fun _ =>
        .ite ((Fixes.recordFailure _ _).keeps (P := fun c : Control => c.requestType = .read))
          (openFile_keeps (P := fun c => c.requestType = .read) (fun _ h => h) fun _ _ _ h => h)
    refine wp_mono (reads _ hty) (fun _ t ht _ hw => ?_) fun _ _ _ => trivial
    exact absurd (ht.symm.trans hw) (by decide)
  · have hwrite : w.session.opcodeType = .write := by
      cases h' : w.session.opcodeType
      · exact (hty h').elim
      · rfl
    have offers := h (by simpa using hv) hwrite
    obtain ⟨file, hfile⟩ := offers.opens
    have hreq : (w.session.requested fd).requestType = .write := hwrite
    rw [wp_bind, wp_session, wp_ite]
    refine ⟨fun hm => (offers.mode hm).elim, fun _ => ?_⟩
    have opening : w.sys.file.Opening (w.session.requested fd).requestType
        (w.session.requested fd).readType.1 file [.opened file] :=
      .file (fun h => absurd (hreq.symm.trans h.1) (by decide)) offers.pathAllocated hfile
    refine (wp_openFile opening).mpr ?_
    refine wp_mono (startTransfer_pending offers.optionsSize ?_ rfl) (fun _ _ h _ _ => h)
      fun _ _ _ => trivial
    have same : ((w.session.requested fd).opened file).options =
        (sessionOptionsInit w.session).options := by
      simp only [Session.opened, Session.readType, hreq, reduceCtorEq, and_false, if_false]
      rfl
    have accepted : (acceptedOptions ((w.session.requested fd).opened file)).1.anyActive := by
      rw [acceptedOptions_congr (sessionOptionsInit w.session)
        (t := (w.session.requested fd).opened file) rfl same]
      exact offers.accepted
    exact accepted

/-! ## What the start leaves alone -/

/-- The fields `start` may change, the error packet and the statistics apart. -/
def SetsUp (s s' : Session) : Prop :=
  ∃ ty fd filename mode timeout blockSize windowSize adaptive sockfd client recvSize stats options
    closing event estimator slots,
    s' = { s with
      requestType := ty
      fileDescriptor := fd
      filename := filename
      mode := mode
      timeout := timeout
      blockSize := blockSize
      windowSize := windowSize
      isAdaptiveTimeoutActive := adaptive
      sockfd := sockfd
      clientAddress := client
      recvBufferSize := recvSize
      stats := stats
      options := options
      shouldClose := closing
      eventTimeout := event
      adaptiveTimeout := estimator
      dataPackets := slots }

theorem setsUp_of_sets {s s' : Session} (h : SetsOptions s s') : SetsUp s s' := by
  obtain ⟨_, _, _, _, _, rfl⟩ := h
  exact ⟨_, _, _, _, _, _, _, _, _, _, _, _, _, _, _, _, _, rfl⟩

/-- The start sets these fields only; of the adaptive timeout it knows but the
initial one. What each such change keeps of a view is kept. -/
theorem start_keeps_view {γ : Type} {π : World → γ} [Quiet π] {P : γ → Prop}
    (h : ∀ (w : World) (s : Session), SetsUp w.session s →
      s.adaptiveTimeout = w.session.adaptiveTimeout ∨ s.adaptiveTimeout = .init →
        P (π w) → P (π { w with session := s })) : Keeps (fun w => P (π w)) start := by
  have sets {f : Session → Session} (hf : ∀ s, SetsUp s (f s))
      (ht : ∀ s, (f s).adaptiveTimeout = s.adaptiveTimeout) :
      Keeps (fun w => P (π w)) (modify f) := fun w hw => h w _ (hf _) (.inl (ht _)) hw
  have quiet {α : Type} {x : Act α} (hx : Fixes π x) : Keeps (fun w => P (π w)) x := hx.keeps
  have prepare : Keeps (fun w => P (π w)) prepareTransfer := by
    refine .bind (fun w hw => ?_) fun _ => .bind (.bind (quiet .require) fun _ =>
      .bind (quiet .sys) fun _ => .bind (sets (fun s => ?_) fun _ => rfl) fun _ =>
        .bind (quiet .require) fun _ => sets (fun s => ?_) fun _ => rfl) fun _ =>
          .bind (quiet .session) fun _ => .ite (.bind (quiet (.sendErrorPacket _)) fun _ =>
            sets (fun s => ?_) fun _ => rfl) (quiet (.pure _))
    · rw [wp_modify]
      split
      · exact h w _ ⟨_, _, _, _, _, _, _, _, _, _, _, _, _, _, _, _, _, rfl⟩ (.inr rfl) hw
      · exact hw
    all_goals exact ⟨_, _, _, _, _, _, _, _, _, _, _, _, _, _, _, _, _, rfl⟩
  have transfer : Keeps (fun w => P (π w)) startTransfer := by
    refine .bind (quiet .session) fun _ => .ite prepare (.bind (quiet .queryFileSize) fun size =>
      .bind (sets (fun s => setsUp_of_sets (parseOptions_sets size s)) fun s => ?_) fun _ =>
        .bind (sets (fun s => ?_) fun _ => rfl) fun _ => prepare)
    · obtain ⟨_, _, _, _, _, parsed⟩ := parseOptions_sets size s
      rw [parsed]
    · exact ⟨_, _, _, _, _, _, _, _, _, _, _, _, _, _, _, _, _, rfl⟩
  have connect : Keeps (fun w => P (π w)) sessionConnectionInit := by
    refine .bind (quiet .sys) fun a => ?_
    cases a.socket with
    | none => exact .stop _
    | some fd =>
        refine .bind (quiet (.note rfl)) fun _ => sets (fun s => ?_) fun _ => rfl
        exact ⟨_, _, _, _, _, _, _, _, _, _, _, _, _, _, _, _, _, rfl⟩
  have request : Keeps (fun w => P (π w)) readRequest := by
    refine .bind (sets (fun s => ?_) fun _ => rfl) fun _ => .bind connect fun _ =>
      .bind (sets (fun s => ?_) fun _ => rfl) fun _ => .bind (sets (fun s => ?_) fun _ => rfl)
        fun _ => sets (fun s => ?_) fun _ => rfl
    all_goals exact ⟨_, _, _, _, _, _, _, _, _, _, _, _, _, _, _, _, _, rfl⟩
  have opens : Keeps (fun w => P (π w)) openFile := by
    refine .bind (quiet .session) fun _ => .bind (quiet .sys) fun _ =>
      .bind (sets (fun s => ?_) fun _ => rfl) fun _ => .bind (quiet (.sessionFileInit _ _ _))
        fun _ => .bind (sets (fun s => ?_) fun _ => rfl) fun _ => .ite (quiet (.pure _)) transfer
    all_goals exact ⟨_, _, _, _, _, _, _, _, _, _, _, _, _, _, _, _, _, rfl⟩
  refine .bind (quiet .session) fun _ => .ite (sets (fun s => ?_) fun _ => rfl)
    (.bind request fun _ => .bind (quiet .session) fun _ => .ite (quiet (.recordFailure _ _)) opens)
  exact ⟨_, _, _, _, _, _, _, _, _, _, _, _, _, _, _, _, _, rfl⟩

/-- A view that sees none of these fields is the same after the start. -/
theorem start_fixes {γ : Type} {π : World → γ} [Quiet π]
    (h : ∀ (w : World) (s : Session), SetsUp w.session s → π { w with session := s } = π w) :
    Fixes π start := fun c =>
  start_keeps_view (P := fun c' => c' = c) fun w s hs _ hw => (h w s hs).trans hw

end Tftp.Server
