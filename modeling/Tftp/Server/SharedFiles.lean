import Mathlib.Data.UInt
import Tftp.Lib.OpenFiles
import Tftp.Server.FilePath
import Tftp.Server.Storage

/-!
# The files that sessions share

Every request opens a session of its own, and a write request empties the file it
names. Here the sessions of a server share one table of descriptors and one disk:
what a session writes goes wherever its descriptor leads at that time, in any order
of the steps of all sessions.
-/

namespace Tftp.Server

open Prog Act Ownership OpenFiles

/-! ## The calls of a session -/

section Calls

variable {F : Type}

/-- The call behind an entry of the log. `w` is the session after the step that logs it,
and `f` the file it names; only a write request opens its file for writing, and -1 is
refused. -/
def Entry.call? (w : World) (f : F) : Entry → Option (Call ℤ F UInt8)
  | .opened fd =>
      if w.session.requestType = .write ∧ w.outputFile = some fd then some (.create fd f)
      else some (.acquire fd)
  | .read fd => if fd = -1 then none else some (.read fd)
  | .wrote fd bytes => if fd = -1 then none else some (.write fd bytes)
  | .closed fd => some (.close fd)
  | _ => none

/-- The calls of a step. -/
def newCalls (l l' : Live) (f : F) : List (Call ℤ F UInt8) :=
  (l'.world.log.drop l.world.log.length).filterMap (Entry.call? l'.world f)

theorem call?_move (w : World) (f : F) (e : Entry) : (e.call? w f).map Call.move = e.move? := by
  cases e with
  | opened fd =>
      unfold Entry.call?
      dsimp only
      split <;> rfl
  | read fd =>
      unfold Entry.call? Entry.move?
      dsimp only
      split <;> rfl
  | wrote fd bytes =>
      unfold Entry.call? Entry.move?
      dsimp only
      split <;> rfl
  | _ => rfl

/-- Which entries are calls, and which call each of them is. -/
theorem call?_cases {w : World} {f : F} {e : Entry} {c : Call ℤ F UInt8}
    (h : e.call? w f = some c) :
    (∃ fd, e = .opened fd ∧ (w.session.requestType = .write ∧ w.outputFile = some fd) ∧
      c = .create fd f) ∨
    (∃ fd, e = .opened fd ∧ ¬(w.session.requestType = .write ∧ w.outputFile = some fd) ∧
      c = .acquire fd) ∨
    (∃ fd, e = .read fd ∧ c = .read fd) ∨
    (∃ fd bytes, e = .wrote fd bytes ∧ c = .write fd bytes) ∨
    ∃ fd, e = .closed fd ∧ c = .close fd := by
  cases e with
  | opened fd =>
      by_cases opens : w.session.requestType = .write ∧ w.outputFile = some fd
      · rw [Entry.call?, if_pos opens] at h
        exact .inl ⟨fd, rfl, opens, (Option.some.inj h).symm⟩
      · rw [Entry.call?, if_neg opens] at h
        exact .inr (.inl ⟨fd, rfl, opens, (Option.some.inj h).symm⟩)
  | read fd =>
      by_cases refused : fd = -1
      · simp [Entry.call?, refused] at h
      · rw [Entry.call?, if_neg refused] at h
        exact .inr (.inr (.inl ⟨fd, rfl, (Option.some.inj h).symm⟩))
  | wrote fd bytes =>
      by_cases refused : fd = -1
      · simp [Entry.call?, refused] at h
      · rw [Entry.call?, if_neg refused] at h
        exact .inr (.inr (.inr (.inl ⟨fd, bytes, rfl, (Option.some.inj h).symm⟩)))
  | closed fd => exact .inr (.inr (.inr (.inr ⟨fd, rfl, (Option.some.inj h).symm⟩)))
  | sent dest packet => cases h
  | failed r => cases h
  | reported stats => cases h

theorem newCalls_move (l l' : Live) (f : F) :
    (newCalls l l' f).map Call.move = Sessions.newMoves l l' := by
  rw [newCalls, Sessions.newMoves, moves, List.map_filterMap]
  exact List.filterMap_congr fun e _ => call?_move l'.world f e

end Calls

/-- A write session has opened its file. -/
def Live.OpensFile (l : Live) : Prop := l.world.session.requestType = .write ∧ l.world.HasFile

instance (l : Live) : Decidable l.OpensFile := by unfold Live.OpensFile; infer_instance

/-- What a session has written to its file. -/
def Live.content (l : Live) : Bytes := Io.content l.world.fileIo

/-- The path a write request asks for. -/
def requestPath (info : ServerInfo) (request : PeerMessage) : Bytes :=
  (sessionFileOpening (sessionOptionsInit (sessionInit info request)).filename info.root .write
    .file).path

section Calls

variable {F : Type} {f : F} {l l' : Live} {label : Label}

/-- After its first step a session is no longer fresh. -/
theorem Step.begun (hs : Step l label l') : l'.status ≠ .fresh := by
  cases hs with
  | start sys _ => exact deliver_ne_fresh _ _ _
  | complete _ _ _ _ _ _ => exact deliver_ne_fresh _ _ _
  | expire hl _ => exact hl.ne_fresh
  | fill _ hl _ _ => exact hl.ne_fresh

/-- No session comes back once it is closed. -/
theorem Step.idle (hs : Step l label l') (h : Accounted l) (own : KeepsToOwn l label)
    (hl : l.status ≠ .fresh) (idle : l'.status = .idle) : l.status = .idle := by
  cases label with
  | start sys =>
      cases hs with
      | start _ hf => exact (hl hf).elim
  | complete op sys e => exact h.idle_of_complete hs own
  | expire =>
      cases hs with
      | expire _ _ => exact idle
  | fill bytes =>
      cases hs with
      | fill _ _ _ _ => exact idle

theorem Step.opensFile_iff (hs : Step l label l') (hl : l.status ≠ .fresh) :
    l'.OpensFile ↔ l.OpensFile := by
  have type : l'.world.session.requestType = l.world.session.requestType :=
    congrArg Settings.requestType (hs.settings hl)
  rw [Live.OpensFile, Live.OpensFile, type, hs.hasFile_iff hl]

/-- A file is opened by the session that names it, and only at its start. -/
theorem created_mem_newCalls (hs : Step l label l') {fd : ℤ} {f' : F}
    (h : .create fd f' ∈ newCalls l l' f) : l.status = .fresh ∧ l'.OpensFile ∧ f' = f := by
  obtain ⟨e, he, call⟩ := List.mem_filterMap.mp h
  obtain ⟨fd, rfl, ⟨write, file⟩, created⟩ | ⟨_, _, _, created⟩ | ⟨_, _, created⟩ |
    ⟨_, _, _, created⟩ | ⟨_, _, created⟩ := call?_cases call
  · refine ⟨?_, ⟨write, ?_⟩, (Call.create.inj created).2⟩
    · by_contra later
      obtain ⟨extra, log, works, -⟩ := hs.works later
      rw [log, List.drop_left] at he
      exact works _ he
    · by_contra none_
      rw [World.outputFile, if_neg none_] at file
      cases file
  all_goals cases created

/-- The start of a write session opens its file, and writes nothing. -/
theorem start_newCalls {info : ServerInfo} {request : PeerMessage} {sys : Sys}
    (hs : Step (.boot info request) (.start sys) l') (opens : l'.OpensFile) :
    ∀ c ∈ newCalls (.boot info request) l' f,
      c ≠ .acquire l'.world.session.fileDescriptor ∧ (∀ x y, c = .create x y → y = f) ∧
        ∀ x bytes, c ≠ .write x bytes := by
  intro c hc
  refine ⟨?_, fun x y created => (created_mem_newCalls hs (created ▸ hc)).2.2, ?_⟩
  all_goals obtain ⟨e, he, call⟩ := List.mem_filterMap.mp hc
  · rintro rfl
    obtain ⟨_, _, _, acquired⟩ | ⟨fd, _, other, acquired⟩ | ⟨_, _, acquired⟩ |
      ⟨_, _, _, acquired⟩ | ⟨_, _, acquired⟩ := call?_cases call
    · cases acquired
    · have file : l'.world.outputFile = some l'.world.session.fileDescriptor := if_pos opens.2
      rw [Call.acquire.inj acquired] at file
      exact other ⟨opens.1, file⟩
    all_goals cases acquired
  · rintro x bytes rfl
    obtain ⟨_, _, _, wrote⟩ | ⟨_, _, _, wrote⟩ | ⟨_, _, wrote⟩ | ⟨fd, bytes', rfl, wrote⟩ |
      ⟨_, _, wrote⟩ := call?_cases call
    · cases wrote
    · cases wrote
    · cases wrote
    · exact hs.writes_nothing fd bytes' (List.mem_of_mem_drop he)
    · cases wrote

theorem start_content {info : ServerInfo} {request : PeerMessage} {sys : Sys}
    (hs : Step (.boot info request) (.start sys) l') : l'.content = [] := by
  refine List.flatMap_eq_nil_iff.mpr fun i hi => ?_
  obtain ⟨e, he, hi⟩ := List.mem_filterMap.mp hi
  cases e with
  | wrote x bytes => exact (hs.writes_nothing x bytes he).elim
  | sent dest packet =>
      cases packet with
      | ack n =>
          cases hi
          rfl
      | _ => cases hi
  | _ => cases hi

/-- Work on the file writes to it what the calls write. -/
theorem content_of_works {w : World} {fd : ℤ} {extra : List Entry}
    (works : ∀ e ∈ extra, e.Works fd) (real : fd ≠ -1) :
    Io.content (extra.filterMap (Entry.ioOn (some fd))) =
      (extra.filterMap (Entry.call? w f)).flatMap Call.bytes := by
  induction extra with
  | nil => rfl
  | cons e extra ih =>
      have rest := ih fun e he => works e (List.mem_cons_of_mem _ he)
      have first := works e List.mem_cons_self
      cases e with
      | wrote x bytes =>
          obtain rfl : x = fd := first
          have stored : (Entry.wrote x bytes).ioOn (some x) = some (.stored bytes) := if_pos rfl
          have call : (Entry.wrote x bytes).call? w f = some (.write x bytes) := if_neg real
          rw [List.filterMap_cons_some stored, List.filterMap_cons_some call]
          exact congrArg (bytes ++ ·) rest
      | read x =>
          obtain rfl : x = fd := first
          have call : (Entry.read x).call? w f = some (.read x) := if_neg real
          rw [List.filterMap_cons_none rfl, List.filterMap_cons_some call]
          exact rest
      | opened x => exact first.elim
      | closed x => exact first.elim
      | sent dest packet =>
          have call : (Entry.sent dest packet).call? w f = none := rfl
          rw [List.filterMap_cons_none call]
          cases packet with
          | ack n => exact rest
          | _ => exact rest
      | failed r => exact rest
      | reported stats => exact rest

/-- Later a session that has its file reads and writes there, and what it writes goes
behind what it has written. -/
theorem later_newCalls (hs : Step l label l') (hl : l.status ≠ .fresh) (idle : l'.status = .idle)
    (opens : l.OpensFile) :
    (∀ c ∈ newCalls l l' f, c = .read l.world.session.fileDescriptor ∨
      ∃ bytes, c = .write l.world.session.fileDescriptor bytes) ∧
      l'.content = l.content ++ (newCalls l l' f).flatMap Call.bytes := by
  obtain ⟨extra, log, -, works⟩ := hs.works hl
  replace works := works (by simp [idle])
  have new : newCalls l l' f = extra.filterMap (Entry.call? l'.world f) := by
    rw [newCalls, log, List.drop_left]
  rw [new]
  constructor
  · intro c hc
    obtain ⟨e, he, call⟩ := List.mem_filterMap.mp hc
    have works := works e he
    obtain ⟨fd, rfl, -⟩ | ⟨fd, rfl, -⟩ | ⟨fd, rfl, rfl⟩ | ⟨fd, bytes, rfl, rfl⟩ | ⟨fd, rfl, -⟩ :=
      call?_cases call
    · exact works.elim
    · exact works.elim
    · exact .inl (congrArg Call.read works)
    · exact .inr ⟨bytes, congrArg (Call.write · bytes) works⟩
    · exact works.elim
  · have file : l.world.outputFile = some l.world.session.fileDescriptor := if_pos opens.2
    have real : l.world.session.fileDescriptor ≠ -1 := opens.2.1
    unfold Live.content World.fileIo
    rw [hs.outputFile_eq hl, file, log, List.filterMap_append, Io.content_append]
    rw [content_of_works works real]

end Calls

/-! ## All sessions on one disk -/

/-- The sessions of a server, with the descriptors of all of them and the files. -/
structure Shared (ι F : Type) extends Sessions ι where
  files : Files ℤ F UInt8

namespace Shared

variable {ι F : Type} [DecidableEq ι] [DecidableEq F]

/-- At first no file is open for writing. -/
def boot (info : ServerInfo) (requests : ι → PeerMessage) (disk : F → Bytes) : Shared ι F :=
  ⟨.boot info requests, ⟨fun _ => none, disk⟩⟩

/-- A step of session `i`, whose calls take effect on the table and the files; `file`
tells which file each session names. -/
structure Serves (own : Finset ℤ) (file : ι → F) (s : Shared ι F) (i : ι) (label : Label)
    (s' : Shared ι F) : Prop where
  sessions : s.toSessions.Serves own i label s'.toSessions
  files : s'.files = s.files.run (newCalls (s.live i) (s'.live i) (file i))

/-- A run of the server all of whose steps meet `C`. -/
def Runs (own : Finset ℤ) (file : ι → F) (C : Shared ι F → ι → Label → Shared ι F → Prop) :
    Shared ι F → Shared ι F → Prop :=
  Relation.ReflTransGen fun s s' => ∃ i label, Serves own file s i label s' ∧ C s i label s'

/-- The session is open, and writes to its file. -/
def Writes (s : Shared ι F) (i : ι) : Prop := (s.live i).status = .idle ∧ (s.live i).OpensFile

/-- No session opens a file that an open session writes to. -/
def Spares (file : ι → F) (s : Shared ι F) (i : ι) (s' : Shared ι F) : Prop :=
  (s.live i).status = .fresh → (s'.live i).OpensFile → ∀ j, j ≠ i → s.Writes j → file j ≠ file i

/-- The session keeps to its own descriptors, and opens no file of another one. -/
def Considerate (file : ι → F) (s : Shared ι F) (i : ι) (label : Label) (s' : Shared ι F) :
    Prop :=
  KeepsToOwn (s.live i) label ∧ s.Spares file i s'

/-- What holds in every state of such a run. -/
structure Sound (own : Finset ℤ) (info : ServerInfo) (requests : ι → PeerMessage) (file : ι → F)
    (s : Shared ι F) : Prop where
  guarded : s.toSessions.Guarded own info requests
  fresh : ∀ i, (s.live i).status = .fresh → s.live i = .boot info (requests i)
  -- what a session has open for writing is the file it names
  confined : ∀ i f, s.files.Reaches (held (Sessions.shares own) s.history (some i)) f →
    (s.live i).OpensFile ∧ f = file i
  alone : ∀ i j, i ≠ j → s.Writes i → s.Writes j → file i ≠ file j
  kept : ∀ i, s.Writes i →
    s.files.AtEnd (s.live i).world.session.fileDescriptor (file i) (s.live i).content

variable {own : Finset ℤ} {info : ServerInfo} {requests : ι → PeerMessage} {file : ι → F}
  {disk : F → Bytes} {s s' : Shared ι F} {i j : ι} {label : Label}

namespace Sound

omit [DecidableEq F] in
theorem boot : Sound own info requests file (boot info requests disk) where
  guarded := .boot
  fresh _ _ := rfl
  confined i f h := by
    obtain ⟨fd, hd, -⟩ := h
    exact (Finset.notMem_empty fd hd).elim
  alone i j _ h := by cases h.1
  kept i h := by cases h.1

omit [DecidableEq F] in
/-- An open session holds its file. -/
theorem file_mem (h : Sound own info requests file s) (writes : s.Writes i) :
    (s.live i).world.session.fileDescriptor ∈
      held (Sessions.shares own) s.history (some i) :=
  ((h.guarded.custody i).idle writes.1).1.file.resolve_left writes.2.2.1

/-- What the calls of the session do to a file it does not have, and to the descriptors of
the others. -/
theorem reach (h : Sound own info requests file s) (hs : Serves own file s i label s')
    (keeps : KeepsToOwn (s.live i) label) :
    (∀ f, ¬s.files.Reaches (held (Sessions.shares own) s.history (some i)) f →
      (∀ d, .create d f ∉ newCalls (s.live i) (s'.live i) (file i)) →
        s'.files.disk f = s.files.disk f ∧
          ¬s'.files.Reaches (held (Sessions.shares own) s'.history (some i)) f) ∧
    ∀ j, j ≠ i → ∀ d ∈ held (Sessions.shares own) s.history (some j),
      s'.files.table d = s.files.table d := by
  obtain ⟨extra, log, yields⟩ := (h.guarded.custody i).step hs.sessions.taken keeps
  have moved := newCalls_move (s.live i) (s'.live i) (file i)
  have new : Sessions.newMoves (s.live i) (s'.live i) = moves extra := by
    rw [Sessions.newMoves, log, List.drop_left]
  have free := hs.sessions.free
  rw [← new, ← moved] at yields
  rw [← moved] at free
  obtain ⟨unreached, tables⟩ := Files.reach (s := s.files) h.guarded.kept yields free
  rw [moved, ← hs.sessions.history, ← hs.files] at unreached
  rw [← hs.files] at tables
  exact ⟨unreached, fun j hj => tables (some j) fun same => hj (Option.some.inj same)⟩

omit [DecidableEq F] in
/-- A session that has a file open is open itself, if it takes a step. -/
theorem writes_of_reaches (h : Sound own info requests file s)
    (hs : Step (s.live i) label (s'.live i)) {f : F}
    (reaches : s.files.Reaches (held (Sessions.shares own) s.history (some i)) f) :
    s.Writes i ∧ f = file i := by
  obtain ⟨opens, same⟩ := h.confined i f reaches
  obtain ⟨d, hd, -⟩ := reaches
  have custody := h.guarded.custody i
  have started : (s.live i).status ≠ .fresh := fun hf => by
    rw [(custody.fresh hf).2.2] at hd
    exact Finset.notMem_empty d hd
  have notClosed : (s.live i).status ≠ .closed := fun hc => by
    rw [custody.closed hc] at hd
    exact Finset.notMem_empty d hd
  exact ⟨⟨(hs.listened started).resolve_right notClosed, opens⟩, same⟩

/-- The step of another session leaves the file as it is. -/
theorem other (h : Sound own info requests file s) (hs : Serves own file s i label s')
    (considerate : s.Considerate file i label s') (hj : j ≠ i) (writes : s.Writes j) :
    s'.files.disk (file j) = s.files.disk (file j) := by
  obtain ⟨keeps, spares⟩ := considerate
  refine ((h.reach hs keeps).1 (file j) (fun reaches => ?_) fun d created => ?_).1
  · obtain ⟨mine, same⟩ := h.writes_of_reaches hs.sessions.taken reaches
    exact h.alone j i hj writes mine same
  · obtain ⟨hf, opens, same⟩ := created_mem_newCalls hs.sessions.taken created
    exact spares hf opens j hj writes same

/-- Its own step puts there what it has written. -/
theorem own_step (h : Sound own info requests file s) (hs : Serves own file s i label s')
    (keeps : KeepsToOwn (s.live i) label) (writes : s'.Writes i) :
    s'.files.AtEnd (s'.live i).world.session.fileDescriptor (file i) (s'.live i).content := by
  have taken := hs.sessions.taken
  rw [hs.files]
  by_cases hf : (s.live i).status = .fresh
  · obtain ⟨sys, rfl⟩ := taken.start_of_fresh hf
    have holding := ((h.guarded.step hs.sessions keeps).custody i).idle writes.1
    have mine := holding.1.file.resolve_left writes.2.2.1
    rw [hs.sessions.history, held_burst, ← newCalls_move _ _ (file i)] at mine
    have none_ := ((h.guarded.custody i).fresh hf).2.2
    rw [h.fresh i hf] at taken mine ⊢
    rw [start_content taken]
    refine Files.atEnd_of_created (start_newCalls taken writes.2) (fun hd => ?_) mine
    rw [none_] at hd
    exact (Finset.notMem_empty _ hd).elim
  · have idle := taken.idle (h.guarded.custody i).accounted keeps hf writes.1
    have opens := (taken.opensFile_iff hf).mp writes.2
    obtain ⟨uses, content⟩ := later_newCalls (f := file i) taken hf writes.1 opens
    have same : (s'.live i).world.session.fileDescriptor =
        (s.live i).world.session.fileDescriptor :=
      congrArg Settings.fileDescriptor (taken.settings hf)
    rw [content, same]
    exact (h.kept i ⟨idle, opens⟩).run uses

theorem step (h : Sound own info requests file s) (hs : Serves own file s i label s')
    (considerate : s.Considerate file i label s') : Sound own info requests file s' := by
  have taken := hs.sessions.taken
  obtain ⟨unreached, tables⟩ := h.reach hs considerate.1
  have guarded := h.guarded.step hs.sessions considerate.1
  have theirs {k : ι} (hk : k ≠ i) : held (Sessions.shares own) s'.history (some k) =
      held (Sessions.shares own) s.history (some k) := by
    rw [hs.sessions.history]
    exact held_burst_of_ne _ _ (fun same => hk (Option.some.inj same)) _
  have earlier {k : ι} (hk : k ≠ i) (writes : s'.Writes k) : s.Writes k := by
    rwa [Writes, hs.sessions.others hk] at writes
  have apart {k : ι} (hk : k ≠ i) (mine : s'.Writes i) (writes : s.Writes k) : file k ≠ file i := by
    by_cases hf : (s.live i).status = .fresh
    · exact considerate.2 hf mine.2 k hk writes
    · have idle := taken.idle (h.guarded.custody i).accounted considerate.1 hf mine.1
      exact h.alone k i hk writes ⟨idle, (taken.opensFile_iff hf).mp mine.2⟩
  constructor
  · exact guarded
  · intro k hk
    by_cases same : k = i
    · subst same
      exact (taken.begun hk).elim
    · rw [hs.sessions.others same] at hk ⊢
      exact h.fresh k hk
  · intro k f reaches
    by_cases same : k = i
    · subst same
      by_cases before : s.files.Reaches (held (Sessions.shares own) s.history (some k)) f
      · obtain ⟨writes, hf⟩ := h.writes_of_reaches taken before
        have later : (s.live k).status ≠ .fresh := by simp [writes.1]
        exact ⟨(taken.opensFile_iff later).mpr writes.2, hf⟩
      · by_contra wrong
        refine (unreached f before fun d created => wrong ?_).2 reaches
        exact (created_mem_newCalls taken created).2
    · rw [hs.sessions.others same]
      rw [theirs same] at reaches
      exact h.confined k f (reaches.of_table (tables k same))
  · intro k m hkm hk hm
    by_cases first : k = i
    · subst first
      exact (apart hkm.symm hk (earlier hkm.symm hm)).symm
    · by_cases second : m = i
      · subst second
        exact apart first hm (earlier first hk)
      · exact h.alone k m hkm (earlier first hk) (earlier second hm)
  · intro k hk
    by_cases same : k = i
    · subst same
      exact h.own_step hs considerate.1 hk
    · have writes := earlier same hk
      rw [hs.sessions.others same]
      exact (h.kept k writes).same (tables k same _ (h.file_mem writes))
        (h.other hs considerate same writes)

theorem of_runs (runs : Runs own file (Considerate file) (Shared.boot info requests disk) s) :
    Sound own info requests file s := by
  induction runs with
  | refl => exact .boot
  | tail _ hs ih =>
      obtain ⟨i, label, taken, considerate⟩ := hs
      exact ih.step taken considerate

end Sound

/-- In every interleaving in which the sessions keep to their own descriptors, and no
write request names a file that an open session writes to: the file of an open write
session holds what the session has written, so all that was stored before an ACK is still
at its place, and no such step of another session changes it. -/
theorem files_undisturbed {names : Bytes → F}
    (runs : Runs own (fun i => names (requestPath info (requests i)))
      (Considerate fun i => names (requestPath info (requests i))) (boot info requests disk) s)
    (writes : s.Writes i) :
    s.files.disk (names (requestPath info (requests i))) = (s.live i).content ∧
      (∀ pre n post, (s.live i).world.fileIo = pre ++ .acked n :: post →
        Io.content pre <+: s.files.disk (names (requestPath info (requests i)))) ∧
      ∀ j label s', j ≠ i →
        Serves own (fun i => names (requestPath info (requests i))) s j label s' →
          s.Considerate (fun i => names (requestPath info (requests i))) j label s' →
            s'.files.disk (names (requestPath info (requests i))) =
              s.files.disk (names (requestPath info (requests i))) := by
  have sound := Sound.of_runs runs
  have kept := (sound.kept i writes).disk
  refine ⟨kept, fun pre n post split => ?_, fun j label s' hj hs considerate => ?_⟩
  · rw [kept, Live.content, split, Io.content_append]
    exact List.prefix_append _ _
  · exact sound.other hs considerate hj.symm writes

/-! ## Replaying a schedule -/

instance (s : Shared ι F) (i : ι) : Decidable (s.Writes i) := by unfold Writes; infer_instance

instance [Fintype ι] (file : ι → F) (s : Shared ι F) (i : ι) (label : Label) (s' : Shared ι F) :
    Decidable (s.Considerate file i label s') := by
  unfold Considerate Spares
  infer_instance

/-- Session `i` takes a step, if it can. -/
def perform (own : Finset ℤ) (file : ι → F) (s : Shared ι F) (i : ι) (label : Label) :
    Option (Shared ι F) :=
  (Server.perform (s.live i) label).bind fun l =>
    if Allocates (inUse own s.history) (Sessions.newMoves (s.live i) l) then
      some ⟨s.toSessions.follow i label l, s.files.run (newCalls (s.live i) l (file i))⟩
    else none

theorem perform_serves (h : s.perform own file i label = some s') :
    Serves own file s i label s' := by
  obtain ⟨l, performed, h⟩ := Option.bind_eq_some_iff.mp h
  split at h
  next free =>
    cases h
    refine ⟨.step (perform_step performed) free, ?_⟩
    rw [(s.toSessions.follow_self i label l).1]
  next => cases h

/-- Run a schedule through, as long as each step meets `C`. -/
def replay (own : Finset ℤ) (file : ι → F) (C : Shared ι F → ι → Label → Shared ι F → Prop)
    [∀ s i label s', Decidable (C s i label s')] :
    List (ι × Label) → Shared ι F → Option (Shared ι F)
  | [], s => some s
  | (i, label) :: rest, s =>
      (s.perform own file i label).bind fun s' =>
        if C s i label s' then replay own file C rest s' else none

theorem replay_runs {C : Shared ι F → ι → Label → Shared ι F → Prop}
    [∀ s i label s', Decidable (C s i label s')] {labels : List (ι × Label)}
    (h : replay own file C labels s = some s') : Runs own file C s s' := by
  induction labels generalizing s with
  | nil =>
      cases h
      exact .refl
  | cons first labels ih =>
      obtain ⟨t, performed, h⟩ := Option.bind_eq_some_iff.mp h
      split at h
      next allowed => exact .head ⟨first.1, first.2, perform_serves performed, allowed⟩ (ih h)
      next => cases h

/-- A request for the file `name`. -/
def writeRequest (name : String) : PeerMessage where
  peerAddr := someClient
  buffer := bytes16 Opcode.wrq ++ ascii name ++ [0] ++ ascii "octet" ++ [0]

def otherFileOpens : Sys := { socket := some 6, file := { openFile := .ok 7 } }

/-- Two uploads at once, each to a file of its own. -/
def twoUploads (i : Bool) : PeerMessage := writeRequest (if i then "f" else "g")

def uploadPath (i : Bool) : Bytes := id (requestPath plainInfo (twoUploads i))

/-- Both take in two blocks, in turns; one of them comes twice. -/
def inTurns : List (Bool × Label) :=
  [(true, .start fileOpens), (false, .start otherFileOpens),
    (true, Upload.receives 1 (List.replicate 512 65) 512),
    (false, Upload.receives 1 (List.replicate 512 66) 512),
    (true, Upload.receives 1 (List.replicate 512 65) 512),
    (true, Upload.receives 2 (List.replicate 512 65) 512),
    (false, Upload.receives 2 (List.replicate 512 66) 512)]

/-- Each file holds its own two blocks. -/
theorem two_uploads_kept : ∃ s : Shared Bool Bytes,
    Runs {0, 1, 2, 3} uploadPath (Considerate uploadPath)
      (boot plainInfo twoUploads fun _ => [9]) s ∧ s.Writes true ∧ s.Writes false ∧
      s.files.disk (uploadPath true) = List.replicate 1024 65 ∧
      s.files.disk (uploadPath false) = List.replicate 1024 66 := by
  have h : ((replay {0, 1, 2, 3} uploadPath (Considerate uploadPath) inTurns
      (boot plainInfo twoUploads fun _ => [9])).map fun s =>
        decide (s.Writes true ∧ s.Writes false ∧ (s.live true).content = List.replicate 1024 65 ∧
          (s.live false).content = List.replicate 1024 66)) = some true := by
    decide +kernel
  obtain ⟨s, hs, he⟩ := Option.map_eq_some_iff.mp h
  obtain ⟨first, second, content, content'⟩ := of_decide_eq_true he
  have runs := replay_runs hs
  exact ⟨s, runs, first, second, (files_undisturbed runs first).1.trans content,
    (files_undisturbed runs second).1.trans content'⟩

/-! ## A write request that comes twice -/

/-- A request that the network doubles. -/
def doubled (_ : Bool) : PeerMessage := writeRequest "f"

/-- Both copies name one file. -/
def oneFile (i : Bool) : Bytes := id (requestPath plainInfo (doubled i))

/-- The session of the first copy has stored a block; the second copy empties the file. -/
theorem second_copy_empties :
    ¬∀ (s s' : Shared Bool Bytes) (i j : Bool) (label : Label),
      Runs {0, 1, 2, 3} oneFile (fun _ _ _ _ => True) (boot plainInfo doubled fun _ => []) s →
        s.Writes i → j ≠ i → Serves {0, 1, 2, 3} oneFile s j label s' →
          s'.files.disk (oneFile i) = s.files.disk (oneFile i) := by
  intro all
  have h : ((replay {0, 1, 2, 3} oneFile (fun _ _ _ _ => True)
      [(true, .start fileOpens), (true, Upload.receives 1 (List.replicate 512 65) 512)]
      (boot plainInfo doubled fun _ => [])).bind fun s =>
        (s.perform {0, 1, 2, 3} oneFile false (.start otherFileOpens)).map fun s' =>
          decide (s.Writes true ∧ s.files.disk (oneFile true) = List.replicate 512 65 ∧
            s'.files.disk (oneFile true) = [])) = some true := by
    decide +kernel
  obtain ⟨s, hs, h⟩ := Option.bind_eq_some_iff.mp h
  obtain ⟨s', hs', he⟩ := Option.map_eq_some_iff.mp h
  obtain ⟨writes, before, after⟩ := of_decide_eq_true he
  have same := all s s' true false _ (replay_runs hs) writes (by decide) (perform_serves hs')
  rw [before, after] at same
  cases same

end Shared

end Tftp.Server
