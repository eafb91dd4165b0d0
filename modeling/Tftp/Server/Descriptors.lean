import Tftp.Lib.Ownership
import Tftp.Server.Accounting
import Tftp.Server.Start
import Tftp.Server.Trace

/-!
# Descriptors of concurrent sessions

All sessions of a server share one descriptor table. A session may act on two
descriptors only: its socket and what `session_file_init` returned to it. The
kernel hands out numbers that are free, so a session that acts on any other
number may hit the file or the socket of another session.
-/

namespace Tftp.Server

open Prog Act Ownership

/-! ## Descriptor moves of the handlers -/

/-- What an entry does to the descriptor table. A read or a write of -1 is
refused by the kernel and touches nothing. -/
def Entry.move? : Entry → Option (Move ℤ)
  | .opened fd => some (.acquire fd)
  | .read fd => if fd = -1 then none else some (.use fd)
  | .wrote fd _ => if fd = -1 then none else some (.use fd)
  | .closed fd => some (.release fd)
  | _ => none

def moves (log : List Entry) : List (Move ℤ) := log.filterMap Entry.move?

@[simp] theorem moves_append (a b : List Entry) : moves (a ++ b) = moves a ++ moves b :=
  List.filterMap_append

/-- The entry is a read or a write of a file. -/
def Entry.OnFile (fd : ℤ) : Entry → Prop
  | .read x => x = fd
  | .wrote x _ => x = fd
  | _ => False

/-- What a handler logs while it works on the file `fd`. -/
def Entry.Works (fd : ℤ) : Entry → Prop
  | .opened _ => False
  | .closed _ => False
  | .read x => x = fd
  | .wrote x _ => x = fd
  | _ => True

theorem Entry.Works.onFile {fd x : ℤ} {e : Entry} (h : e.Works fd) (hx : e.OnFile x) : x = fd := by
  cases e <;> simp_all [Entry.Works, Entry.OnFile]

/-- Work on a file that is held, or that there is none of, changes no shares. -/
theorem yields_of_works {fd : ℤ} {log : List Entry} {held : Finset ℤ} {P : Finset ℤ → Prop}
    (h : ∀ e ∈ log, e.Works fd) (hfd : fd = -1 ∨ fd ∈ held) (hP : P held) :
    Yields held (moves log) P := by
  refine yields_of_uses (fun m hm => ?_) hP
  obtain ⟨e, he, hm⟩ := List.mem_filterMap.mp hm
  have works := h e he
  have used {x : ℤ} (hx : x = fd) (hm : (if x = -1 then none else some (Move.use x)) = some m) :
      ∃ r ∈ held, m = .use r := by
    subst hx
    by_cases hnone : x = -1
    · simp [hnone] at hm
    · rw [if_neg hnone] at hm
      exact ⟨x, hfd.resolve_left hnone, (Option.some.inj hm).symm⟩
  cases e with
  | read x => exact used works hm
  | wrote x bytes => exact used works hm
  | opened x => exact works.elim
  | closed x => exact works.elim
  | sent dest packet => simp [Entry.move?] at hm
  | failed r => simp [Entry.move?] at hm
  | reported stats => simp [Entry.move?] at hm

/-! ## What a session holds -/

/-- The descriptors of a started session: its socket, and its file if it has
one. -/
structure Session.Holding (s : Session) (held : Finset ℤ) : Prop where
  socket : s.sockfd ≠ -1
  apart : s.fileDescriptor ≠ s.sockfd
  shares : held = if s.fileDescriptor = -1 then {s.sockfd} else {s.fileDescriptor, s.sockfd}

theorem Session.Holding.file {s : Session} {held : Finset ℤ} (h : s.Holding held) :
    s.fileDescriptor = -1 ∨ s.fileDescriptor ∈ held := by
  by_cases hfd : s.fileDescriptor = -1
  · exact .inl hfd
  · refine .inr ?_
    rw [h.shares, if_neg hfd]
    exact Finset.mem_insert_self _ _

/-- The close of a session releases everything it holds. -/
theorem Session.Holding.closes {s : Session} {held : Finset ℤ} (h : s.Holding held) :
    Yields held (moves s.closingEntries) (· = ∅) := by
  have reported : moves (if s.info.hasStatsCallback then [.reported s.reported.stats] else []) =
      [] := by
    split <;> rfl
  rw [Session.closingEntries, moves_append, reported, List.nil_append, if_pos h.socket, h.shares]
  by_cases hfd : s.fileDescriptor = -1
  · simp [hfd, moves, Entry.move?, Yields]
  · have erased : ({s.fileDescriptor, s.sockfd} : Finset ℤ).erase s.fileDescriptor =
        {s.sockfd} := by
      rw [Finset.erase_insert]
      simpa using h.apart
    simp [hfd, moves, Entry.move?, Yields, erased]

theorem closingEntries_onFile {s : Session} {e : Entry} {fd : ℤ} (he : e ∈ s.closingEntries)
    (hfd : e.OnFile fd) : False := by
  simp only [Session.closingEntries, List.mem_append] at he
  rcases he with he | he | he <;> split at he <;> simp at he <;> subst he <;>
    exact hfd

/-- Since the log was `log` and the session held `held`, it acted on nothing
but its own descriptors, and holds them now. -/
def Tenure (log : List Entry) (held : Finset ℤ) (w : World) : Prop :=
  ∃ extra, w.log = log ++ extra ∧ Yields held (moves extra) w.session.Holding ∧
    ∀ e ∈ extra, ∀ fd, e.OnFile fd → fd = w.session.fileDescriptor

/-- Work on the file does not end the tenure. -/
theorem Tenure.grows {log : List Entry} {held : Finset ℤ} {w w' : World} (h : Tenure log held w)
    (hw : Grows w.session.fileDescriptor w.session.sockfd (Entry.Works w.session.fileDescriptor)
      w.log w') : Tenure log held w' := by
  obtain ⟨extra, hlog, hyields, hfiles⟩ := h
  obtain ⟨more, hmore, hworks⟩ := hw.log
  refine ⟨extra ++ more, ?_, ?_, ?_⟩
  · rw [hmore, hlog, List.append_assoc]
  · rw [moves_append, yields_append]
    refine hyields.mono fun s hs => yields_of_works hworks hs.file ?_
    exact ⟨hw.sockfd ▸ hs.socket, hw.fileDescriptor ▸ hw.sockfd ▸ hs.apart, by
      rw [hw.fileDescriptor, hw.sockfd]
      exact hs.shares⟩
  · intro e he fd hfd
    rw [hw.fileDescriptor]
    rcases List.mem_append.mp he with he | he
    · exact hfiles e he fd hfd
    · exact (hworks e he).onFile hfd

/-! ## The start of a session -/

/-- The call of `session_file_init` a session makes when it starts. -/
def Session.fileInit (s : Session) (a : FileAnswers) : Act ℤ :=
  sessionFileInit (s.requested 0).requestType (s.requested 0).readType.1 a

/-- `session_file_init` returns `fd`. -/
def Session.FileInitReturns (s : Session) (a : FileAnswers) (fd : ℤ) : Prop :=
  ∀ w, (s.fileInit a w).1 = .ok fd

/-- A listing fails where its directory is open and nobody closes it. -/
def FileAnswers.LeavesDirectoryOpen (a : FileAnswers) (ty : RequestType) (rt : ReadType) : Prop :=
  ty = .read ∧ rt = .directory ∧ a.pathAllocated ∧ a.opendir.isSome ∧
    (a.pipe = none ∨ a.setPipeSize = false)

/-- What opening a file logs: a session that held its socket holds the file
too, if there is one. -/
structure OpensFile (fd : ℤ) (entries : List Entry) : Prop where
  untouched : ∀ e ∈ entries, ∀ x, ¬e.OnFile x
  yields : ∀ socket : ℕ, Yields {(socket : ℤ)} (moves entries) fun held =>
    fd ≠ socket ∧ held = if fd = -1 then {(socket : ℤ)} else {fd, (socket : ℤ)}

theorem OpensFile.none (r : StatsError) : OpensFile (-1) [.failed r] where
  untouched e he x := by
    rw [List.mem_singleton.mp he]
    exact id
  yields socket := ⟨by omega, rfl⟩

theorem OpensFile.one (fd : ℕ) : OpensFile fd [.opened fd] where
  untouched e he x := by
    rw [List.mem_singleton.mp he]
    exact id
  yields socket hnew := by
    have real : ¬(fd : ℤ) = -1 := by omega
    rw [if_neg real]
    exact ⟨by simpa using hnew, rfl⟩

/-- A listing that cannot be written closes all it opened. -/
theorem OpensFile.abandoned (dir readEnd writeEnd : ℕ) (r : StatsError) :
    OpensFile (-1) [.opened dir, .opened readEnd, .opened writeEnd, .closed dir, .closed readEnd,
      .closed writeEnd, .failed r] where
  untouched e he x := by
    simp only [List.mem_cons, List.not_mem_nil, or_false] at he
    rcases he with rfl | rfl | rfl | rfl | rfl | rfl | rfl <;> exact id
  yields socket := by
    simp only [moves, List.filterMap_cons, Entry.move?, List.filterMap_nil, Yields,
      Finset.mem_insert, Finset.mem_singleton, Finset.mem_erase, Nat.cast_inj, not_or]
    intro hdir hread hwrite
    refine ⟨by tauto, ⟨by omega, by tauto⟩, ⟨by omega, by omega, by tauto⟩, by omega, ?_⟩
    rw [if_pos trivial]
    ext x
    simp only [Finset.mem_erase, Finset.mem_insert, Finset.mem_singleton]
    grind

/-- A listing is read from the pipe it was written to. -/
theorem OpensFile.listing (dir readEnd writeEnd : ℕ) :
    OpensFile readEnd
      [.opened dir, .opened readEnd, .opened writeEnd, .closed dir, .closed writeEnd] where
  untouched e he x := by
    simp only [List.mem_cons, List.not_mem_nil, or_false] at he
    rcases he with rfl | rfl | rfl | rfl | rfl <;> exact id
  yields socket := by
    have real : ¬(readEnd : ℤ) = -1 := by omega
    simp only [moves, List.filterMap_cons, Entry.move?, List.filterMap_nil, Yields, if_neg real,
      Finset.mem_insert, Finset.mem_singleton, Finset.mem_erase, Nat.cast_inj, not_or]
    intro hdir hread hwrite
    refine ⟨by tauto, ⟨by omega, by tauto⟩, by omega, ?_⟩
    ext x
    simp only [Finset.mem_erase, Finset.mem_insert, Finset.mem_singleton]
    grind

/-- The program returns `r`, having logged `entries` and set the statistics. -/
def Returns {α : Type} (x : Act α) (r : α) (entries : List Entry) : Prop :=
  ∀ w Q E, (∀ stats, Q r { w with
    session := { w.session with stats := stats }, log := w.log ++ entries }) → wp x Q E w

theorem Returns.result {α : Type} {x : Act α} {r : α} {entries : List Entry}
    (h : Returns x r entries) (w : World) : (x w).1 = .ok r := by
  have result : wp x (fun r' _ => r' = r) (fun _ _ => False) w := h w _ _ fun _ => rfl
  unfold wp at result
  generalize x w = o at result
  rcases o with ⟨_ | r', t⟩
  · exact result.elim
  · exact congrArg Except.ok result

theorem fileFailure_returns (n : UInt16) (m : Bytes) :
    Returns (fileFailure n m) (-1) [.failed ⟨true, n, m⟩] := fun _ _ _ h => h _

/-- Unless it leaves a directory open, `session_file_init` opens what it
returns and nothing else. -/
theorem sessionFileInit_returns {a : FileAnswers} {ty : RequestType} {rt : ReadType}
    (h : ¬a.LeavesDirectoryOpen ty rt) :
    ∃ fd entries, OpensFile fd entries ∧ Returns (sessionFileInit ty rt a) fd entries := by
  have failure (n : UInt16) (m : Bytes) : ∃ fd entries, OpensFile fd entries ∧
      Returns (fileFailure n m) fd entries := ⟨_, _, .none _, fileFailure_returns n m⟩
  unfold sessionFileInit
  split
  · rename_i hdir
    unfold openDirectoryAsMemfile
    split
    · exact failure _ _
    · rename_i hpath
      cases ho : a.opendir with
      | none => exact failure _ _
      | some dir =>
          have leaves : ¬(a.pipe = none ∨ a.setPipeSize = false) := fun hf =>
            h ⟨hdir.1, hdir.2, by simpa using hpath, by simp [ho], hf⟩
          obtain ⟨hpipe, hsize⟩ := not_or.mp leaves
          obtain ⟨⟨readEnd, writeEnd⟩, hp⟩ := Option.ne_none_iff_exists'.mp hpipe
          rw [hp]
          dsimp only
          rw [if_neg hsize]
          split
          · refine ⟨_, _, .abandoned dir readEnd writeEnd
              ⟨true, ErrorCode.notDefined, ascii "Could not write to pipe."⟩, fun w Q E hQ => ?_⟩
            simpa [fileFailure] using hQ _
          · refine ⟨_, _, .listing dir readEnd writeEnd, fun w Q E hQ => ?_⟩
            simpa using hQ w.session.stats
  · split
    · exact failure _ _
    · cases a.openFile with
      | ok fd => exact ⟨_, _, .one fd, fun w Q E hQ => hQ w.session.stats⟩
      | error e =>
          cases e with
          | eacces => exact failure _ _
          | enoent => exact failure _ _
          | other m => exact failure _ _

/-- The condition on a start: the request is accepted, its mode is known, and
no listing fails with its directory open. -/
structure StartsOwning (s : Session) (a : FileAnswers) : Prop where
  valid : isRequestValid s
  mode : (sessionOptionsInit s).mode ≠ .invalid
  listing : ¬a.LeavesDirectoryOpen (s.requested 0).requestType (s.requested 0).readType.1

instance (a : FileAnswers) (ty : RequestType) (rt : ReadType) :
    Decidable (a.LeavesDirectoryOpen ty rt) := by
  unfold FileAnswers.LeavesDirectoryOpen
  infer_instance

instance (s : Session) (a : FileAnswers) : Decidable (StartsOwning s a) :=
  decidable_of_iff (isRequestValid s ∧ (sessionOptionsInit s).mode ≠ .invalid ∧
      ¬a.LeavesDirectoryOpen (s.requested 0).requestType (s.requested 0).readType.1)
    ⟨fun ⟨valid, mode, listing⟩ => ⟨valid, mode, listing⟩,
      fun ⟨valid, mode, listing⟩ => ⟨valid, mode, listing⟩⟩

section Start

variable {w : World}

theorem startTransfer_logs {fd sk : ℤ} {A : Entry → Prop} (sent : ∀ d p, A (.sent d p))
    (read : A (.read fd)) : Logs fd sk A startTransfer := by
  have prepare : Logs fd sk A prepareTransfer := by
    refine .bind (.modify fun s => ?_) fun _ => .bind (.bind .require fun _ => .bind .sys fun _ =>
      .bind (.modify fun _ => ⟨rfl, rfl, fun _ => rfl⟩) fun _ => .bind .require fun _ =>
        .modify fun _ => ⟨rfl, rfl, id⟩) fun _ => .bind .session fun _ =>
          .ite (.bind (sendErrorPacket_logs sent _) fun _ => .modify fun _ => ⟨rfl, rfl, id⟩) (.pure _)
    split <;> exact ⟨rfl, rfl, id⟩
  refine .bind .session fun s => .ite prepare (.bind ?_ fun size => .bind (.modify fun s => ?_)
    fun _ => .bind (.modify fun _ => ⟨rfl, rfl, id⟩) fun _ => prepare)
  · intro log w hw
    rw [queryFileSize, wp_bind, wp_session, hw.fileDescriptor]
    refine (?_ : Logs fd sk A _) log w hw
    exact .bind .sys fun _ => .ite (.bind (.emit read) fun _ => .pure _) (.pure _)
  · obtain ⟨_, _, _, _, _, h⟩ := parseOptions_sets size s
    rw [h]
    exact ⟨rfl, rfl, id⟩

/-- The session holds its descriptors, and its file is what
`session_file_init` returned. -/
def Settles (s : Session) (a : FileAnswers) (log : List Entry) (held : Finset ℤ) (w : World) :
    Prop :=
  Tenure log held w ∧ s.FileInitReturns a w.session.fileDescriptor

variable {s : Session} {a : FileAnswers} {log : List Entry} {held : Finset ℤ}

theorem Settles.grows {w' : World} (h : Settles s a log held w)
    (hw : Grows w.session.fileDescriptor w.session.sockfd (Entry.Works w.session.fileDescriptor)
      w.log w') : Settles s a log held w' := ⟨h.1.grows hw, hw.fileDescriptor ▸ h.2⟩

theorem Settles.logs {α : Type} {x : Act α} {E : World → Prop} (h : Settles s a log held w)
    (hx : Logs w.session.fileDescriptor w.session.sockfd (Entry.Works w.session.fileDescriptor) x)
    (hE : ∀ t, Settles s a log held t → E t) :
    wp x (fun _ t => Settles s a log held t) (fun _ t => E t) w :=
  hx.wp (.refl (.inl fun _ => trivial)) (fun _ _ ht => h.grows ht) fun _ _ ht => hE _ (h.grows ht)

/-- A session that starts holds its socket and its file. -/
theorem start_settles (hlog : w.log = []) (h : StartsOwning w.session w.sys.file) :
    wp start (fun _ t => Settles w.session w.sys.file [] ∅ t)
      (fun _ t => Settles w.session w.sys.file [] ∅ t ∨ t.log = []) w := by
  rw [start, wp_bind, wp_session, wp_ite]
  refine ⟨fun hv => by simp [h.valid] at hv, fun _ => ?_⟩
  have requested : wp readRequest (fun _ t => ∃ fd, w.sys.socket = some fd ∧
      t = { w with session := w.session.requested fd, log := w.log ++ [.opened fd] })
      (fun _ t => t.log = []) w := by
    rw [readRequest, wp_bind, wp_modify, wp_bind, sessionConnectionInit, wp_bind, wp_sys]
    cases w.sys.socket with
    | none => exact hlog
    | some fd => exact ⟨fd, rfl, rfl⟩
  refine wp_bind.mpr (wp_mono requested ?_ fun _ _ ht => .inr ht)
  rintro _ _ ⟨socket, -, rfl⟩
  rw [wp_bind, wp_session, wp_ite]
  refine ⟨fun hm => (h.mode hm).elim, fun _ => ?_⟩
  obtain ⟨fd, entries, opens, returns⟩ := sessionFileInit_returns h.listing
  rw [openFile, wp_bind, wp_session, wp_bind, wp_sys, wp_bind, wp_modify, wp_bind]
  refine returns _ _ _ fun stats => ?_
  rw [wp_bind, wp_modify, hlog]
  have settled : Settles w.session w.sys.file [] ∅ { w with
      session := { (w.session.requested socket).opened 0 with
        stats := stats, fileDescriptor := fd }
      log := [.opened socket] ++ entries } := by
    refine ⟨⟨_, (List.nil_append _).symm, ?_, ?_⟩, fun w' => returns.result w'⟩
    · rw [moves_append, yields_append]
      intro _
      refine (opens.yields socket).mono ?_
      rintro held ⟨apart, shares⟩
      refine ⟨?_, apart, shares⟩
      change (socket : ℤ) ≠ -1
      omega
    · intro e he x hx
      rcases List.mem_append.mp he with he | he
      · rw [List.mem_singleton.mp he] at hx
        exact hx.elim
      · exact (opens.untouched e he x hx).elim
  refine wp_ite.mpr ⟨fun _ => settled, fun _ => ?_⟩
  exact settled.logs (startTransfer_logs (fun _ _ => trivial) rfl) fun _ => .inl

theorem started_settles (hlog : w.log = []) (h : StartsOwning w.session w.sys.file) :
    wp (do
      dispatch .start
      fetchData) (fun _ t => Settles w.session w.sys.file w.log ∅ t)
      (fun _ t => Settles w.session w.sys.file w.log ∅ t ∨ t.log = w.log) w := by
  rw [hlog, wp_bind, dispatch, onStart, wp_bind]
  refine wp_mono (start_settles hlog h) (fun _ t ht => ?_) fun _ _ ht => ht
  have fetches {t : World} (ht : Settles w.session w.sys.file [] ∅ t) :
      wp fetchData (fun _ t => Settles w.session w.sys.file [] ∅ t)
        (fun _ t => Settles w.session w.sys.file [] ∅ t ∨ t.log = []) t :=
    ht.logs (fetchData_logs rfl) fun _ => .inl
  rw [wp_bind, wp_session, wp_ite]
  refine ⟨fun _ => fetches ht, fun _ => ?_⟩
  refine wp_mono (ht.logs (greet_logs (fun _ _ => trivial) t.session)
    (E := fun t => Settles w.session w.sys.file [] ∅ t ∨ t.log = []) fun _ => .inl)
    (fun _ _ ht => fetches ht) fun _ _ ht => ht

/-- Every later call works on the descriptors the session has. -/
theorem handled_settles {e : Event} (he : e ≠ .start) (h : Settles s a log held w) :
    wp (do
      dispatch e
      fetchData) (fun _ t => Settles s a log held t) (fun _ t => Settles s a log held t) w :=
  wp_mono (handled_logs (A := Entry.Works w.session.fileDescriptor)
    (fun _ _ => trivial) rfl (fun _ => rfl) he (.refl (.inl fun _ => trivial))
    (.inl fun _ => trivial)) (fun _ _ ht => h.grows ht) fun _ _ ht => h.grows ht

end Start

/-! ## One session -/

/-- What is known of a session between two calls: what it holds, and which file
it works on. `s` is the session before it started, `a` what `session_file_init`
was answered then. -/
structure Custody (s : Session) (a : FileAnswers) (l : Live) (held : Finset ℤ) : Prop where
  accounted : Accounted l
  fresh : l.status = .fresh → l.world.session = s ∧ l.world.log = [] ∧ held = ∅
  idle : l.status = .idle → l.world.session.Holding held ∧
    s.FileInitReturns a l.world.session.fileDescriptor
  closed : l.status = .closed → held = ∅
  files : ∀ e ∈ l.world.log, ∀ fd, e.OnFile fd → s.FileInitReturns a fd

/-- The session keeps to its own descriptors: a start meets `StartsOwning`, and
at most 255 operations of a closing session are in flight. -/
def KeepsToOwn : Condition := fun l label =>
  match label with
  | .start sys => StartsOwning l.world.session sys.file
  | .complete _ _ _ => l.world.session.shouldClose → l.world.inflight.length ≤ 255
  | .expire => True
  | .fill _ => True

instance (l : Live) : ∀ label, Decidable (KeepsToOwn l label)
  | .start sys => inferInstanceAs (Decidable (StartsOwning l.world.session sys.file))
  | .complete _ _ _ =>
      inferInstanceAs (Decidable (l.world.session.shouldClose → l.world.inflight.length ≤ 255))
  | .expire => isTrue trivial
  | .fill _ => isTrue trivial

/-- What `session_file_init` was answered, after a step. -/
def Label.fileAnswers (a : FileAnswers) : Label → FileAnswers
  | .start sys => sys.file
  | _ => a

section Session

variable {s : Session} {a : FileAnswers} {l : Live} {held : Finset ℤ}

/-- A call that works on the session's own descriptors, together with the close
at its end. -/
theorem deliver_custody {sys : Sys} {e : Event} {w : World}
    (hfiles : ∀ e ∈ w.log, ∀ fd, e.OnFile fd → s.FileInitReturns a fd)
    (hacc : Accounted (deliver sys e w))
    (h : wp (do
      dispatch e
      fetchData) (fun _ t => Settles s a w.log held t)
      (fun _ t => Settles s a w.log held t ∨ t.log = w.log) { w with sys := sys }) :
    ∃ extra, (deliver sys e w).world.log = w.log ++ extra ∧
      Yields held (moves extra) (Custody s a (deliver sys e w)) := by
  have files {t : World} (ht : Settles s a w.log held t) :
      ∀ e ∈ t.log, ∀ fd, e.OnFile fd → s.FileInitReturns a fd := by
    obtain ⟨⟨extra, hlog, -, hown⟩, hinit⟩ := ht
    intro e he fd hfd
    rcases List.mem_append.mp (hlog ▸ he) with he | he
    · exact hfiles e he fd hfd
    · exact hown e he fd hfd ▸ hinit
  refine deliver_spec (P := fun l => Accounted l → ∃ extra, l.world.log = w.log ++ extra ∧
    Yields held (moves extra) (Custody s a l)) ?_ hacc
  refine wp_handleEvent.mpr (wp_mono h (fun _ t ht => ?_) fun abort t ht hacc => ?_)
  · obtain ⟨⟨extra, hlog, hyields, -⟩, hinit⟩ := id ht
    refine wp_finish.mpr ⟨fun _ hacc => ⟨extra ++ t.session.closingEntries, ?_, ?_⟩,
      fun _ hacc => ⟨extra, hlog, ?_⟩⟩
    · rw [hlog, List.append_assoc]
    · rw [moves_append, yields_append]
      refine hyields.mono fun mine hmine => hmine.closes.mono fun none hnone => ?_
      refine ⟨hacc, fun hf => ?_, fun hi => ?_, fun _ => hnone, fun e he fd hfd => ?_⟩
      · simp [SessionState.status] at hf
      · simp [SessionState.status] at hi
      · rcases List.mem_append.mp he with he | he
        · exact files ht e he fd hfd
        · exact (closingEntries_onFile he hfd).elim
    · refine hyields.mono fun mine hmine => ⟨hacc, fun hf => ?_, fun _ => ⟨hmine, hinit⟩,
        fun hc => ?_, files ht⟩
      · simp [SessionState.status] at hf
      · simp [SessionState.status] at hc
  · have stopped {mine : Finset ℤ} (hf : ∀ e ∈ t.log, ∀ fd, e.OnFile fd → s.FileInitReturns a fd) :
        Custody s a ⟨t, abort.status⟩ mine := by
      refine ⟨hacc, ?_, ?_, ?_, hf⟩ <;> intro hs <;> cases abort <;> simp [Abort.status] at hs
    rcases ht with ht | ht
    · obtain ⟨⟨extra, hlog, hyields, -⟩, -⟩ := id ht
      exact ⟨extra, hlog, hyields.mono fun mine _ => stopped (files ht)⟩
    · exact ⟨[], by simpa using ht, stopped (ht ▸ hfiles)⟩

/-- Between two calls nothing is logged and the descriptors stay. -/
theorem Custody.between {l' : Live} (h : Custody s a l held) (hacc : Accounted l')
    (hs : l'.status = l.status) (hl : l.listening) (hlog : l'.world.log = l.world.log)
    (hfd : l'.world.session.fileDescriptor = l.world.session.fileDescriptor)
    (hsk : l'.world.session.sockfd = l.world.session.sockfd) :
    ∃ extra, l'.world.log = l.world.log ++ extra ∧
      Yields held (moves extra) (Custody s a l') := by
  refine ⟨[], by simpa using hlog, hacc, fun hf => ?_, fun hi => ?_, fun hc => ?_, ?_⟩
  · exact (hl.ne_fresh (hs ▸ hf)).elim
  · obtain ⟨holding, hinit⟩ := h.idle (hs ▸ hi)
    refine ⟨⟨?_, ?_, ?_⟩, ?_⟩
    · rw [hsk]
      exact holding.socket
    · rw [hfd, hsk]
      exact holding.apart
    · rw [hfd, hsk]
      exact holding.shares
    · rw [hfd]
      exact hinit
  · exact h.closed (hs ▸ hc)
  · rw [hlog]
    exact h.files

/-- A closed session has nothing in flight, so what completes is of an open one. -/
theorem Accounted.idle_of_complete {l' : Live} {op : Op} {sys : Sys} {e : Event}
    (h : Accounted l) (hs : Step l (.complete op sys e) l')
    (hC : KeepsToOwn l (.complete op sys e)) : l.status = .idle := by
  cases hs with
  | @complete pre post _ _ _ hl hops hr =>
      refine hl.resolve_right fun hc => ?_
      obtain ⟨closing, zero⟩ := (h.closed hl).mp hc
      have few := hC closing
      have counted : l.world.control.pendingJobs = UInt8.ofNat l.world.inflight.length :=
        h.counted hl
      rw [zero, ← UInt8.toNat_inj, UInt8.toNat_ofNat', hops] at counted
      rw [hops] at few
      simp at counted few
      omega

theorem Custody.step {l' : Live} {label : Label} (h : Custody s a l held) (hs : Step l label l')
    (hC : KeepsToOwn l label) :
    ∃ extra, l'.world.log = l.world.log ++ extra ∧
      Yields held (moves extra) (Custody s (label.fileAnswers a) l') := by
  have hacc := h.accounted.step hs
  cases hs with
  | start sys hf =>
      obtain ⟨hsession, hlog, hheld⟩ := h.fresh hf
      rw [hheld, ← hsession]
      refine deliver_custody (by simp [hlog]) hacc ?_
      exact started_settles (w := { l.world with sys := sys }) hlog hC
  | @complete pre post op sys e hl hops hr =>
      have idle := h.accounted.idle_of_complete (.complete op sys e hl hops hr) hC
      obtain ⟨holding, hinit⟩ := h.idle idle
      have settles : Settles s a l.world.log held
          { { l.world with inflight := pre ++ post } with sys := sys } :=
        ⟨⟨[], by simp, holding, by simp⟩, hinit⟩
      have he : e ≠ .start := by
        rintro rfl
        exact Op.not_reports_start hr
      exact deliver_custody (w := { l.world with inflight := pre ++ post }) h.files hacc
        (wp_mono (handled_settles he settles) (fun _ _ ht => ht) fun _ _ ht => .inl ht)
  | expire hl hops => exact h.between hacc rfl hl rfl rfl rfl
  | fill bytes hl hops _ => exact h.between hacc rfl hl rfl rfl rfl

end Session

/-! ## All sessions of a server -/

/-- The sessions of one server, what `session_file_init` of each was answered,
and the descriptor moves all of them made, in order. The agent `none` is the
server itself. -/
structure Sessions (ι : Type) where
  live : ι → Live
  answers : ι → FileAnswers
  history : List (Option ι × Move ℤ)

namespace Sessions

variable {ι : Type} [DecidableEq ι]

def boot (info : ServerInfo) (requests : ι → PeerMessage) : Sessions ι :=
  ⟨fun i => Live.boot info (requests i), fun _ => {}, []⟩

/-- The descriptors in use before the first request are the server's own. -/
def shares (own : Finset ℤ) : Option ι → Finset ℤ
  | none => own
  | some _ => ∅

/-- The moves of a step. -/
def newMoves (l l' : Live) : List (Move ℤ) := moves (l'.world.log.drop l.world.log.length)

/-- Session `i` takes a step. -/
def follow (s : Sessions ι) (i : ι) (label : Label) (l' : Live) : Sessions ι where
  live := Function.update s.live i l'
  answers := Function.update s.answers i (label.fileAnswers (s.answers i))
  history := s.history ++ (newMoves (s.live i) l').map (some i, ·)

theorem follow_self (s : Sessions ι) (i : ι) (label : Label) (l' : Live) :
    (s.follow i label l').live i = l' ∧
      (s.follow i label l').answers i = label.fileAnswers (s.answers i) :=
  ⟨Function.update_self .., Function.update_self ..⟩

theorem follow_other (s : Sessions ι) {i j : ι} (h : i ≠ j) (label : Label) (l' : Live) :
    (s.follow i label l').live j = s.live j ∧ (s.follow i label l').answers j = s.answers j :=
  ⟨Function.update_of_ne h.symm .., Function.update_of_ne h.symm ..⟩

/-- A step of any session; the kernel hands out free descriptors only. -/
inductive Serves (own : Finset ℤ) : Sessions ι → ι → Label → Sessions ι → Prop where
  | step {s : Sessions ι} {i : ι} {label : Label} {l' : Live} : Step (s.live i) label l' →
      Allocates (inUse own s.history) (newMoves (s.live i) l') →
      Serves own s i label (s.follow i label l')

section

variable {own : Finset ℤ} {s s' : Sessions ι} {i : ι} {label : Label}

theorem Serves.taken (h : Serves own s i label s') : Step (s.live i) label (s'.live i) := by
  cases h with
  | step hs _ => exact (s.follow_self i label _).1 ▸ hs

theorem Serves.free (h : Serves own s i label s') :
    Allocates (inUse own s.history) (newMoves (s.live i) (s'.live i)) := by
  cases h with
  | step _ free => exact (s.follow_self i label _).1 ▸ free

theorem Serves.others (h : Serves own s i label s') {j : ι} (hj : j ≠ i) :
    s'.live j = s.live j := by
  cases h with
  | step _ _ => exact (s.follow_other hj.symm label _).1

theorem Serves.history (h : Serves own s i label s') :
    s'.history = s.history ++ (newMoves (s.live i) (s'.live i)).map (some i, ·) := by
  cases h with
  | step _ _ => rw [(s.follow_self i label _).1, follow]

end

/-- A run of the server whose steps meet `C`, each at its session. -/
def Runs (own : Finset ℤ) (C : Condition) : Sessions ι → Sessions ι → Prop :=
  Relation.ReflTransGen fun s s' => ∃ i label, Serves own s i label s' ∧ C (s.live i) label

/-- The moves of session `i`, out of a history. -/
def movesOf (history : List (Option ι × Move ℤ)) (i : ι) : List (Move ℤ) :=
  history.filterMap fun p => if p.1 = some i then some p.2 else none

@[simp] theorem movesOf_append (history : List (Option ι × Move ℤ)) (i j : ι)
    (ms : List (Move ℤ)) : movesOf (history ++ ms.map (some i, ·)) j =
      if i = j then movesOf history j ++ ms else movesOf history j := by
  by_cases h : i = j <;> simp [movesOf, h]

/-- Descriptor ownership: every read and write is on what the session's own
`session_file_init` returned; every descriptor used or closed is held by that
session and nobody else; and every descriptor opened is closed at most once,
and was closed when its session is. The history is all that the sessions did. -/
structure OwnDescriptors (own : Finset ℤ) (info : ServerInfo) (requests : ι → PeerMessage)
    (s : Sessions ι) : Prop where
  complete : ∀ i, movesOf s.history i = moves (s.live i).world.log
  files : ∀ i, ∀ e ∈ (s.live i).world.log, ∀ fd, e.OnFile fd →
    (sessionInit info (requests i)).FileInitReturns (s.answers i) fd
  exclusive : Exclusive (shares own) s.history
  balanced : ∀ i fd, acquired s.history (some i) fd =
    released s.history (some i) fd + share (held (shares own) s.history (some i)) fd
  closed : ∀ i, (s.live i).status = .closed → ∀ fd,
    acquired s.history (some i) fd = released s.history (some i) fd

/-- What a run of the server maintains. -/
structure Guarded (own : Finset ℤ) (info : ServerInfo) (requests : ι → PeerMessage)
    (s : Sessions ι) : Prop where
  kept : Kept (shares own) own s.history
  complete : ∀ i, movesOf s.history i = moves (s.live i).world.log
  custody : ∀ i, Custody (sessionInit info (requests i)) (s.answers i) (s.live i)
    (held (shares own) s.history (some i))

section Guarded

variable {own : Finset ℤ} {info : ServerInfo} {requests : ι → PeerMessage} {s : Sessions ι}

theorem Guarded.boot : Guarded own info requests (Sessions.boot info requests) where
  kept := by
    refine .nil (fun i => ?_) fun i j hij => ?_
    · cases i with
      | none => exact Finset.Subset.refl own
      | some i => exact Finset.empty_subset own
    · cases i with
      | none =>
          cases j with
          | none => exact (hij rfl).elim
          | some j => exact Finset.disjoint_empty_right own
      | some i => exact Finset.disjoint_empty_left _
  complete i := rfl
  custody i := by
    refine ⟨.boot _ _, fun _ => ⟨rfl, rfl, rfl⟩, fun hi => ?_, fun _ => rfl, ?_⟩
    · simp [Sessions.boot, Live.boot] at hi
    · simp [Sessions.boot, Live.boot]

theorem Guarded.step {s' : Sessions ι} {i : ι} {label : Label} (h : Guarded own info requests s)
    (hs : Serves own s i label s') (hC : KeepsToOwn (s.live i) label) :
    Guarded own info requests s' := by
  cases hs with
  | @step l' hs free =>
      obtain ⟨extra, hlog, yields⟩ := (h.custody i).step hs hC
      have new : newMoves (s.live i) l' = moves extra := by
        rw [newMoves, hlog, List.drop_left]
      rw [new] at free
      obtain ⟨kept, custody, others⟩ := h.kept.burst yields free
      have history : (s.follow i label l').history =
          s.history ++ (moves extra).map (some i, ·) := by
        rw [follow, new]
      refine ⟨history ▸ kept, fun j => ?_, fun j => ?_⟩
      · rw [history, movesOf_append, h.complete j]
        by_cases hij : i = j
        · subst hij
          rw [if_pos rfl, (follow_self ..).1, hlog, moves_append]
        · rw [if_neg hij, (follow_other s hij ..).1]
      · rw [history]
        by_cases hij : i = j
        · subst hij
          rw [(follow_self ..).1, (follow_self ..).2]
          exact custody
        · rw [(follow_other s hij ..).1, (follow_other s hij ..).2,
            others _ fun he => hij (Option.some.inj he).symm]
          exact h.custody j

end Guarded

/-- In every run of a server whose sessions start on accepted requests in a
known mode, leave no directory open, and close with at most 255 operations in
flight, every session keeps to its own descriptors. -/
theorem descriptors_owned {own : Finset ℤ} {info : ServerInfo} {requests : ι → PeerMessage}
    {s : Sessions ι} (h : Runs own KeepsToOwn (Sessions.boot info requests) s) :
    OwnDescriptors own info requests s := by
  have guarded : Guarded own info requests s := by
    induction h with
    | refl => exact .boot
    | tail _ hs ih =>
        obtain ⟨i, label, hs, hC⟩ := hs
        exact ih.step hs hC
  have balanced (i : ι) (fd : ℤ) : acquired s.history (some i) fd =
      released s.history (some i) fd + share (held (shares own) s.history (some i)) fd := by
    have balanced := guarded.kept.balanced (some i) fd
    rwa [shares, share_of_notMem (Finset.notMem_empty fd), Nat.add_zero] at balanced
  refine ⟨guarded.complete, fun i => (guarded.custody i).files, guarded.kept.exclusive, balanced,
    fun i hc fd => ?_⟩
  rw [balanced i fd, (guarded.custody i).closed hc, share_of_notMem (Finset.notMem_empty fd)]
  rfl

/-- Session `i` starts. -/
def start (s : Sessions ι) (i : ι) (sys : Sys) : Sessions ι :=
  s.follow i (.start sys) (deliver sys .start (s.live i).world)

theorem serves_start {own : Finset ℤ} {s : Sessions ι} {i : ι} {sys : Sys}
    (hf : (s.live i).status = .fresh)
    (free : Allocates (inUse own s.history)
      (newMoves (s.live i) (deliver sys .start (s.live i).world))) :
    Serves own s i (.start sys) (s.start i sys) := .step (.start sys hf) free

/-- A read request between two write requests. -/
def threeRequests (i : Fin 3) : PeerMessage :=
  plainRequest (if i = 1 then Opcode.rrq else Opcode.wrq) "octet"

/-- The server that refuses write requests has answered all three: closing
descriptor 0 made it free, and the reader's socket got that number. -/
def threeAnswered : Sessions (Fin 3) :=
  ((((Sessions.boot { plainInfo with isWriteRequestEnabled := false } threeRequests).start 0 {}).start 1
    { socket := some 0, file := { openFile := .ok 4 } }).start 2 {})

/-- The second refused request closes the socket of the reader. -/
theorem refused_request_closes_foreign_socket :
    Runs {0, 1, 2, 3} anySteps
      (Sessions.boot { plainInfo with isWriteRequestEnabled := false } threeRequests)
      threeAnswered ∧
    ∃ before, threeAnswered.history = before ++ [(some 2, .release 0)] ∧
      0 ∈ held (shares {0, 1, 2, 3}) before (some 1) ∧
      (threeAnswered.live 1).status = .idle ∧
      (threeAnswered.live 1).world.session.sockfd = 0 := by
  refine ⟨?_, [(some 0, .release 0), (some 1, .acquire 0), (some 1, .acquire 4), (some 1, .use 4)],
    by decide +kernel, by decide +kernel, by decide +kernel, by decide +kernel⟩
  refine ((Relation.ReflTransGen.single ⟨0, _, serves_start ?_ ?_, trivial⟩).tail
    ⟨1, _, serves_start ?_ ?_, trivial⟩).tail ⟨2, _, serves_start ?_ ?_, trivial⟩
  all_goals decide +kernel

/-- A read request whose file opens: the session uses what it opened. -/
theorem reader_owns_descriptors :
    ∃ s, Runs {0, 1, 2, 3} KeepsToOwn
        (Sessions.boot plainInfo fun _ : Unit => plainRequest Opcode.rrq "octet") s ∧
      s.history = [(some (), .acquire 4), (some (), .acquire 5), (some (), .use 5)] ∧
      OwnDescriptors {0, 1, 2, 3} plainInfo (fun _ : Unit => plainRequest Opcode.rrq "octet") s := by
  have starts : KeepsToOwn (Live.boot plainInfo (plainRequest Opcode.rrq "octet"))
      (.start fileOpens) := by
    refine ⟨by decide +kernel, by decide +kernel, ?_⟩
    rintro ⟨-, listing, -⟩
    exact absurd listing (by decide +kernel)
  have run : Runs {0, 1, 2, 3} KeepsToOwn
      (Sessions.boot plainInfo fun _ : Unit => plainRequest Opcode.rrq "octet")
      ((Sessions.boot plainInfo fun _ => plainRequest Opcode.rrq "octet").start () fileOpens) :=
    .single ⟨(), _, serves_start rfl (by decide +kernel), starts⟩
  exact ⟨_, run, by decide +kernel, descriptors_owned run⟩

end Sessions

end Tftp.Server
