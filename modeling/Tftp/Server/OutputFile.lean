import Tftp.Server.Descriptors
import Tftp.Server.Settings

/-!
# The file a session has opened

A session works on one descriptor, `file_descriptor`. It is a file of its own only
where `session_file_init` opened one: in an unknown mode the descriptor stays 0, and
it is -1 where the file does not open.
-/

namespace Tftp.Server

open Prog Act

def Entry.Opens (fd : ℤ) : Entry → Prop
  | .opened x => x = fd
  | _ => False

instance (fd : ℤ) (e : Entry) : Decidable (e.Opens fd) := by
  unfold Entry.Opens
  split <;> infer_instance

/-- The session has opened its file; what it opens besides is its socket. -/
def World.HasFile (w : World) : Prop :=
  w.session.fileDescriptor ≠ -1 ∧ w.session.fileDescriptor ≠ w.session.sockfd ∧
    ∃ e ∈ w.log, e.Opens w.session.fileDescriptor

instance (w : World) : Decidable w.HasFile := by unfold World.HasFile; infer_instance

def World.outputFile (w : World) : Option ℤ :=
  if w.HasFile then some w.session.fileDescriptor else none

/-! ## After the start -/

/-- What a session logs once it has started: it opens nothing, and works on its file
`fd` alone. -/
def Entry.Later (fd : ℤ) : Entry → Prop
  | .opened _ => False
  | .read x => x = fd
  | .wrote x _ => x = fd
  | _ => True

theorem Entry.Works.later {fd : ℤ} {e : Entry} (h : e.Works fd) : e.Later fd := by
  cases e with
  | closed x => trivial
  | opened x => exact h
  | read x => exact h
  | wrote x bytes => exact h
  | sent dest packet => trivial
  | failed r => trivial
  | reported stats => trivial

theorem closingEntries_later {s : Session} {e : Entry} (fd : ℤ) (h : e ∈ s.closingEntries) :
    e.Later fd := by
  simp only [Session.closingEntries, List.mem_append] at h
  rcases h with h | h | h <;> split at h <;> simp at h <;> subst h <;> trivial

section

variable {l l' : Live} {label : Label}

theorem Step.start_of_fresh (hs : Step l label l') (hf : l.status = .fresh) :
    ∃ sys, label = .start sys := by
  cases hs with
  | start sys _ => exact ⟨sys, rfl⟩
  | complete _ _ _ hl _ _ => exact (hl.ne_fresh hf).elim
  | expire hl _ => exact (hl.ne_fresh hf).elim
  | fill _ hl _ _ => exact (hl.ne_fresh hf).elim

/-- Only the close at its end closes anything. -/
theorem Step.works (hs : Step l label l') (hl : l.status ≠ .fresh) :
    ∃ extra, l'.world.log = l.world.log ++ extra ∧
      (∀ e ∈ extra, e.Later l.world.session.fileDescriptor) ∧
      (l'.status ≠ .closed → ∀ e ∈ extra, e.Works l.world.session.fileDescriptor) := by
  cases hs with
  | start sys hf => exact (hl hf).elim
  | expire => exact ⟨[], (List.append_nil _).symm, by simp, by simp⟩
  | fill bytes => exact ⟨[], (List.append_nil _).symm, by simp, by simp⟩
  | @complete pre post op sys e _ _ hr =>
      have notStart : e ≠ .start := fun he => Op.not_reports_start (he ▸ hr)
      refine deliver_spec (P := fun l' => ∃ extra, l'.world.log = l.world.log ++ extra ∧
        (∀ e ∈ extra, e.Later l.world.session.fileDescriptor) ∧
        (l'.status ≠ .closed → ∀ e ∈ extra, e.Works l.world.session.fileDescriptor)) ?_
      have begun : Grows l.world.session.fileDescriptor l.world.session.sockfd
          (Entry.Works l.world.session.fileDescriptor) l.world.log
          { l.world with inflight := pre ++ post, sys := sys } :=
        ⟨rfl, rfl, ⟨[], (List.append_nil _).symm, by simp⟩, .inl fun _ => trivial⟩
      have handled := handled_logs (A := Entry.Works l.world.session.fileDescriptor)
        (fun _ _ => trivial) rfl (fun _ => rfl) notStart begun (.inl fun _ => trivial)
      refine wp_handleEvent.mpr (wp_mono handled (fun _ t grown => ?_) fun _ t grown => ?_)
      · obtain ⟨extra, log, works⟩ := grown.log
        refine wp_finish.mpr ⟨fun _ => ⟨extra ++ t.session.closingEntries, ?_, ?_, ?_⟩, fun _ =>
          ⟨extra, log, fun e he => (works e he).later, fun _ => works⟩⟩
        · rw [log, List.append_assoc]
        · intro e he
          rcases List.mem_append.mp he with he | he
          · exact (works e he).later
          · exact closingEntries_later _ he
        · exact fun isOpen => (isOpen rfl).elim
      · obtain ⟨extra, log, works⟩ := grown.log
        exact ⟨extra, log, fun e he => (works e he).later, fun _ => works⟩

/-- A session keeps the file it has opened, and opens none later. -/
theorem Step.hasFile_iff (hs : Step l label l') (hl : l.status ≠ .fresh) :
    l'.world.HasFile ↔ l.world.HasFile := by
  obtain ⟨extra, log, later, -⟩ := hs.works hl
  have settings := hs.settings hl
  have file : l'.world.session.fileDescriptor = l.world.session.fileDescriptor :=
    congrArg Settings.fileDescriptor settings
  have socket : l'.world.session.sockfd = l.world.session.sockfd :=
    congrArg Settings.sockfd settings
  unfold World.HasFile
  rw [file, socket, log]
  refine and_congr_right fun _ => and_congr_right fun _ => ⟨?_, ?_⟩
  · rintro ⟨e, he, opens⟩
    rcases List.mem_append.mp he with he | he
    · exact ⟨e, he, opens⟩
    · cases e with
      | opened x => exact (later _ he).elim
      | _ => exact opens.elim
  · rintro ⟨e, he, opens⟩
    exact ⟨e, List.mem_append_left _ he, opens⟩

theorem Step.outputFile_eq (hs : Step l label l') (hl : l.status ≠ .fresh) :
    l'.world.outputFile = l.world.outputFile := by
  have file : l'.world.session.fileDescriptor = l.world.session.fileDescriptor :=
    congrArg Settings.fileDescriptor (hs.settings hl)
  simp only [World.outputFile, hs.hasFile_iff hl, file]

end

end Tftp.Server
