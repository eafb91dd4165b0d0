import Tftp.FileSize
import Tftp.Server.Encoding
import Tftp.Server.Reassembly

/-!
# The size that is announced and the size that is sent

Once the last block of a file has gone out, an octet session has sent the file
and a netascii session what the encoder makes of it. The size the server
announced with `tsize` is that of the blocks, except where the scan of the file
counts line ends that are behind the bytes it has read.
-/

namespace Tftp.Server

open Prog Act Blocks Netascii

/-- A regular file that nobody changes: reads bring its bytes one after the
other, and it is at its end when all of them were read. -/
def Transfer.ReadsFile (content : Bytes) (x : Transfer) : Label → Prop
  | .complete op sys (.dataAvailable (.ok k)) =>
      k = op.arrived ∧ x.stream ++ x.arriving <+: content ∧
        (sys.atEndOfFile ↔ x.stream ++ x.arriving = content)
  | _ => True

def World.lastPacket (w : World) : Option UInt16 := w.session.lastPacket

instance : Detached World.lastPacket where
  sys _ _ := rfl
  note _ _ _ := rfl
  reports _ _ _ _ := rfl
  ring _ _ _ _ _ _ := rfl
  block _ _ _ _ := rfl

/-- In an octet session only a read that brings something to a block can be
followed by its last block. -/
theorem dispatch_lastPacket {w : World} {e : Event} (he : e ≠ .start)
    (hd : ∀ k, e ≠ .dataAvailable (.ok k)) (hmode : w.session.mode = .octet) :
    wp (dispatch e) (fun _ t => t.lastPacket = w.lastPacket) (fun _ _ => True) w := by
  by_cases failed : ∃ errno, e = .dataAvailable (.error errno)
  · obtain ⟨errno, rfl⟩ := failed
    rw [dispatch, wp_bind, wp_jobDone, wp_bind, wp_modify]
    generalize hv : ({ session := _, sys := _, inflight := _, log := _ } : World) = v
    have mode : v.session.mode = .octet := by
      rw [← hv]
      exact hmode
    have last : v.lastPacket = w.lastPacket := by
      rw [← hv]
      rfl
    rw [onDataAvailable, wp_bind, wp_session, if_pos mode]
    exact readFailure_source.wp fun _ t same => (congrArg (fun c => c.buffer.lastPacket) same).trans last
  · have other : ∀ r, e ≠ .dataAvailable r := by
      intro r hr
      cases r with
      | ok k => exact hd k hr
      | error errno => exact failed ⟨errno, hr⟩
    exact (dispatch_source he other).wp fun _ t same => congrArg (fun c => c.buffer.lastPacket) same

namespace World.Serving

variable {w : World} {stream arriving : Bytes} {blocks : List Bytes} {pre post : List Op} {op : Op}

/-- The last block goes out at the end of the file. -/
theorem dispatch_last {sys : Sys} {m : ℕ} (h : w.Serving stream arriving blocks)
    (ht : w.control.Tidy) (hops : w.inflight = pre ++ op :: post) (hop : op.isFetch)
    (hm : m = op.arrived) :
    wp (dispatch (.dataAvailable (.ok m)))
      (fun _ w' => w'.session.lastPacket.isSome → sys.atEndOfFile = true)
      (fun _ _ => True) { w with inflight := pre ++ post, sys := sys } := by
  obtain ⟨-, last, part, loads, -⟩ := h.reading ht hops hop
  obtain ⟨hl, whole, arrived, hold⟩ := loads.awaits.arrived
  rw [hm, arrived, dispatch, wp_bind, wp_jobDone, wp_bind, wp_modify]
  generalize hv : ({ session := _, sys := _, inflight := _, log := _ } : World) = v
  have mode : v.session.mode = .octet := by
    rw [← hv]
    exact h.mode
  have buffer : v.buffer = w.buffer := by
    rw [← hv]
    rfl
  have answers : v.sys = sys := by
    rw [← hv]
    rfl
  refine wp_mono (onDataAvailable_spec mode arriving.length) ?_ fun _ _ _ => trivial
  rw [buffer, answers]
  have none_ (t : World) (isLast : t.session.lastPacket.isSome)
      (same : t.session.lastPacket = w.session.lastPacket) : sys.atEndOfFile = true := by
    rw [same, last] at isLast
    simp at isLast
  rintro _ t (⟨-, gathered, -⟩ | ⟨complete, slots, -, sent, -⟩) isLast
  · exact none_ t isLast (congrArg Buffer.lastPacket gathered)
  · by_cases short : part.length + arriving.length < w.buffer.blockSize.toNat
    · by_contra more
      exact complete ⟨by omega, eq_false_of_ne_true more⟩
    · have le := hold.le_append
      obtain ⟨-, same⟩ := Buffer.sent_full slots hl whole hold (by omega)
      exact none_ t isLast ((congrArg Buffer.lastPacket sent).trans same)

end World.Serving

namespace Transfer

variable {info : ServerInfo} {request : PeerMessage} {x : Transfer} {l' : Live} {content : Bytes}

theorem ReadsFile.truthful {label : Label} (h : ReadsFile content x label) : Truthful x label := by
  rintro op sys k rfl
  exact h.1

/-- Once the last block of a file has gone out, the whole file was read. -/
def Exhausts (content : Bytes) (x : Transfer) : Prop :=
  x.live.listening → x.live.world.session.mode = .octet →
    x.live.world.session.lastPacket.isSome → x.stream = content

theorem Exhausts.step {label : Label} (h : Exhausts content x) (served : Served info request x)
    (hs : Step x.live label l') (hC : ReadsFile content x label) :
    Exhausts content (x.follow label l') := by
  intro hl' hm hlast
  have kept : x.live.status ≠ .fresh → x.live.world.session.mode = .octet := fun hl =>
    (congrArg Settings.mode (hs.settings hl)).symm.trans hm
  have takes : (x.follow label l').stream = x.stream ++ label.brings x.arriving :=
    congrArg (x.stream ++ ·) (if_pos hm)
  rw [takes]
  have before (hl : x.live.listening) (quiet : label.brings x.arriving = [])
      (same : l'.world.session.lastPacket = x.live.world.session.lastPacket) :
      x.stream ++ label.brings x.arriving = content := by
    rw [quiet, List.append_nil]
    exact h hl (kept hl.ne_fresh) (same ▸ hlast)
  cases hs with
  | start sys hf =>
      obtain rfl := served.fresh hf
      -- the start sends no block
      obtain ⟨before, last, none_, -⟩ := (serving_started hl' hm).cuts.last hlast
      simp at none_
  | @complete pre post op sys e hl hops hr =>
      have he : e ≠ .start := fun he => Op.not_reports_start (he ▸ hr)
      have mode := kept hl.ne_fresh
      by_cases hd : ∃ k, e = .dataAvailable (.ok k)
      · obtain ⟨k, rfl⟩ := hd
        have hop : op.isFetch := by cases op <;> first | rfl | exact hr.elim
        obtain ⟨arrived, -, atEnd⟩ := hC
        have last := (deliver_view (π := World.lastPacket)
          (P := fun last => last.isSome → sys.atEndOfFile = true) (E := fun _ => True) sys _
          { x.live.world with inflight := pre ++ post }
          ((served.serving hl mode).dispatch_last (served.settled.tidy hl) hops hop arrived)
          fun _ _ => trivial).2 hl'
        exact atEnd.mp (last hlast)
      · have other : ∀ k, e ≠ .dataAvailable (.ok k) := fun k hk => hd ⟨k, hk⟩
        have same := (deliver_view (π := World.lastPacket)
          (P := fun last => last = x.live.world.lastPacket) (E := fun _ => True) sys e
          { x.live.world with inflight := pre ++ post }
          (dispatch_lastPacket (w := { x.live.world with inflight := pre ++ post, sys := sys }) he
            other mode) fun _ _ => trivial).2 hl'
        refine before hl ?_ same
        cases e with
        | dataAvailable r =>
            cases r with
            | ok k => exact (other k rfl).elim
            | error errno => rfl
        | _ => rfl
  | expire hl hops => exact before hl rfl rfl
  | fill bytes hl hops hlen => exact before hl rfl rfl

/-- What the environment does with a regular file. -/
def Serves (content : Bytes) (x : Transfer) (label : Label) : Prop :=
  Regular content x label ∧ ReadsFile content x label

theorem Runs.mono {C D : Transfer → Label → Prop} {a b : Transfer} (h : Runs C a b)
    (hCD : ∀ x label, C x label → D x label) : Runs D a b := by
  induction h with
  | refl => exact .refl
  | tail _ hs ih =>
      obtain ⟨label, l', hs, hC, rfl⟩ := hs
      exact ih.tail ⟨label, l', hs, hCD _ _ hC, rfl⟩

/-- An octet session has sent the whole file. -/
theorem octet_total (h : Runs (Serves content) (boot info request) x) (hl : x.live.listening)
    (hm : x.live.world.session.mode = .octet) (hlast : x.live.world.session.lastPacket.isSome) :
    x.blocks.flatten = content := by
  have both := h.invariant (I := fun x => Served info request x ∧ Exhausts content x) ?_ ?_
  · obtain ⟨served, exhausts⟩ := both
    exact ((served.serving hl hm).ended hlast).trans (exhausts hl hm hlast)
  · rintro x label l' ⟨served, exhausts⟩ hs hC
    exact ⟨served.step hs hC.2.truthful, exhausts.step served hs hC.2⟩
  · exact ⟨⟨.boot _ _, fun _ => rfl, fun hl => by
      simp [Live.listening, boot, Tracked.boot, Live.boot] at hl⟩, fun hl => by
      simp [Live.listening, boot, Tracked.boot, Live.boot] at hl⟩

/-- A netascii session has sent what the encoder makes of it. -/
theorem netascii_total (h : Runs (Serves content) (boot info request) x) (hl : x.live.listening)
    (hm : x.live.world.session.mode ≠ .octet) (hlast : x.live.world.session.lastPacket.isSome) :
    x.blocks.flatten.length = content.length + escapes content := by
  have encoded : Encoded info request content x :=
    (h.mono fun _ _ hC => hC.1).invariant (fun _ _ _ h hs hc => h.step hs hc)
      ⟨.boot _ _, fun _ => rfl, fun hl => by
        simp [Live.listening, boot, Tracked.boot, Live.boot] at hl⟩
  obtain ⟨rest, -, encoding⟩ := encoded.encoding hl hm
  rw [encoding.ended hlast, length_output]

variable {fd : ℤ} {buffer : Bytes} {reads : List Bytes}

/-- The size of a file is announced right exactly if it is sent in octet mode, or
if nothing behind the bytes that a read has brought counts for a line end. -/
theorem announced_size_iff (h : Runs (Serves reads.flatten) (boot info request) x)
    (hl : x.live.listening) (hlast : x.live.world.session.lastPacket.isSome) (hfd : 0 ≤ fd)
    (hbuffer : buffer.length = 4096)
    (hreads : ∀ bytes ∈ reads, 0 < bytes.length ∧ bytes.length ≤ 4096) :
    fileSize x.live.world.session.mode fd (some (.regular reads.flatten.length)) (some buffer)
        (reads.map some) true = some x.blocks.flatten.length ↔
      x.live.world.session.mode = .octet ∨ CleanBehind buffer reads := by
  by_cases hm : x.live.world.session.mode = .octet
  · refine iff_of_true ?_ (.inl hm)
    rw [octet_total h hl hm hlast, fileSize, if_pos hm]
    exact if_neg (not_lt.mpr hfd)
  · rw [netascii_total h hl hm hlast, fileSize, if_neg hm,
      fileSizeNetascii_eq hfd (hbuffer ▸ hreads), Option.some.injEq, Nat.add_eq_left, stale_eq_zero]
    exact ⟨.inr, fun h => h.resolve_left hm⟩

instance (content : Bytes) (x : Transfer) (label : Label) :
    Decidable (Serves content x label) := by
  unfold Serves ReadsFile
  refine @instDecidableAnd _ _ inferInstance ?_
  split <;> infer_instance

instance (content : Bytes) (x : Transfer) (label : Label) :
    Decidable (ReadsFile content x label) := by
  unfold ReadsFile
  split <;> infer_instance

/-- A file of one byte is sent in netascii mode. -/
theorem short_file_sent : ∃ x,
    Runs (Serves [97]) (boot plainInfo (plainRequest Opcode.rrq "netascii")) x ∧
      x.live.listening ∧ x.live.world.session.lastPacket.isSome ∧
        x.live.world.session.mode = .netascii ∧ x.blocks = [[97]] := by
  have h : ((replayWhile (fun x label => decide (Serves [97] x label)) (sendsShortFile [97])
      (boot plainInfo (plainRequest Opcode.rrq "netascii"))).map fun x =>
        decide (x.live.listening ∧ x.live.world.session.lastPacket.isSome ∧
          x.live.world.session.mode = .netascii ∧ x.blocks = [[97]])) = some true := by
    decide +kernel
  obtain ⟨x, hx, he⟩ := Option.map_eq_some_iff.mp h
  exact ⟨x, replayWhile_runs hx fun _ _ _ hc => of_decide_eq_true hc, of_decide_eq_true he⟩

/-- Its size is announced right by memory that is zero. -/
theorem zeroed_memory_announced : ∃ x : Transfer, x.blocks = [[97]] ∧
    fileSize x.live.world.session.mode 5 (some (.regular 1)) (some (List.replicate 4096 0))
      [some [97]] true = some x.blocks.flatten.length := by
  obtain ⟨x, run, hl, hlast, -, blocks⟩ := short_file_sent
  have clean : CleanBehind (List.replicate 4096 0) [[97]] := by
    refine ⟨fun c hc => ?_, trivial⟩
    obtain rfl := List.eq_of_mem_replicate (List.mem_of_mem_drop hc)
    decide
  have run : Runs (Serves [[97]].flatten) _ x := run
  exact ⟨x, blocks, (announced_size_iff run hl hlast (by decide) List.length_replicate
    (by simp)).mpr (.inr clean)⟩

/-- Memory full of line ends is announced with the file. -/
theorem stale_memory_announced : ¬∀ (info : ServerInfo) (request : PeerMessage) (x : Transfer)
    (fd : ℤ) (buffer : Bytes) (reads : List Bytes),
    Runs (Serves reads.flatten) (boot info request) x → x.live.listening →
      x.live.world.session.lastPacket.isSome → 0 ≤ fd → buffer.length = 4096 →
        (∀ bytes ∈ reads, 0 < bytes.length ∧ bytes.length ≤ 4096) →
          fileSize x.live.world.session.mode fd (some (.regular reads.flatten.length)) (some buffer)
            (reads.map some) true = some x.blocks.flatten.length := by
  intro all
  obtain ⟨x, run, hl, hlast, mode, blocks⟩ := short_file_sent
  have same := all _ _ x 5 (List.replicate 4096 10) [[97]] run hl hlast (by decide)
    List.length_replicate (by simp)
  rw [blocks, mode] at same
  exact absurd same (by decide +kernel)

end Transfer

end Tftp.Server
