import Tftp.Server.Stream

/-!
# Blocks that are put together from several reads

The kernel may give a read fewer bytes than it asks for. A block is read on
until it is complete, but `create_data_packets` compares what a single read gave
with the size of a whole block. A later read of a block is shorter than that, so
a file is asked for no bytes again and again once such a read has filled a block
short of the end of the file. A pipe is taken to be at its end by the first read
of no bytes, and goes on with the next block.
-/

namespace Tftp.Server

open Prog Act Blocks

/-- The number of bytes a read asks for. -/
def Op.asked : Op → ℕ
  | .read _ _ length _ => length
  | _ => 0

namespace Transfer

/-- The bytes of the block at hand. -/
def part (x : Transfer) : Bytes := x.stream.drop x.blocks.flatten.length

/-- The size of a block. -/
def blockSize (x : Transfer) : ℕ := x.live.world.session.blockSize.toNat

/-- What a source does, a file that may grow or, if not seekable, a pipe. A read
that completes tells how many bytes it has put in memory. A file that had more
when it was last asked gives a read some of the bytes it asks for. A pipe is
taken to be at its end by a read that gives nothing. -/
def Feeds (seekable : Bool) (x : Transfer) (label : Label) : Prop :=
  ∀ op sys k, label = .complete op sys (.dataAvailable (.ok k)) →
    k = op.arrived ∧
      if seekable then x.more → 0 < op.asked → 0 < k else (sys.atEndOfFile ↔ k = 0)

/-- No read that goes on with a block of a file fills it short of the end of
the file. -/
def FillsAtOnce (seekable : Bool) (_ : Transfer) (label : Label) : Prop :=
  ∀ slot offset length filled sys k,
    label = .complete (.read slot offset length filled) sys (.dataAvailable (.ok k)) →
      seekable → 0 < offset → k = length → sys.atEndOfFile

/-- The blocks that went out are the consecutive pieces of the stream that was
read, the last one and only that shorter than a block, and no more than `bound`
reads have completed for the block at hand. -/
structure Reassembles (x : Transfer) (bound : ℕ) : Prop where
  pieces : x.blocks.flatten <+: x.stream
  full : x.live.world.session.lastPacket = none → Full x.blockSize x.blocks
  last : x.live.world.session.lastPacket.isSome → ∃ before last, x.blocks = before ++ [last] ∧
    Full x.blockSize before ∧ last.length < x.blockSize ∧ x.blocks.flatten = x.stream
  reads : x.reads ≤ bound

/-- The reads that have completed for the block at hand: after the first one
every read has brought at least a byte. -/
structure Gathers (seekable : Bool) (x : Transfer) : Prop where
  file : seekable → x.reads ≤ x.part.length + 1 ∧ (0 < x.reads → x.more ∧ x.part.length < x.blockSize)
  pipe : seekable = false → x.reads ≤ x.part.length
  bound : x.reads ≤ x.blockSize

variable {info : ServerInfo} {request : PeerMessage} {x : Transfer} {l' : Live} {seekable : Bool}

/-- Without a read that completes the block at hand is the same. -/
theorem follow_other {label : Label}
    (hd : ∀ op sys k, label ≠ .complete op sys (.dataAvailable (.ok k)))
    (hm : l'.world.session.mode = .octet) :
    (x.follow label l').part = x.part ∧ (x.follow label l').reads = x.reads ∧
      (x.follow label l').more = x.more := by
  have quiet : label.brings x.arriving = [] ∧ label.produced x.live l' = [] ∧
      (x.follow label l').reads = x.reads ∧ (x.follow label l').more = x.more := by
    cases label with
    | complete op sys e =>
        cases e with
        | dataAvailable r =>
            cases r with
            | ok k => exact (hd op sys k rfl).elim
            | error e => exact ⟨rfl, rfl, rfl, rfl⟩
        | _ => exact ⟨rfl, rfl, rfl, rfl⟩
    | _ => exact ⟨rfl, rfl, rfl, rfl⟩
  obtain ⟨brings, produced, reads, more⟩ := quiet
  refine ⟨?_, reads, more⟩
  show (x.stream ++ label.taken x.arriving l').drop (x.blocks ++ label.produced x.live l').flatten.length =
    x.stream.drop x.blocks.flatten.length
  rw [Label.taken, if_pos hm, brings, produced, List.append_nil, List.append_nil]

namespace Gathers

/-- Nothing was read of a block that was just begun. -/
theorem of_none (h : x.reads = 0) : Gathers seekable x := by
  refine ⟨fun _ => ⟨?_, fun some_ => ?_⟩, fun _ => ?_, ?_⟩
  · rw [h]
    exact Nat.zero_le _
  · rw [h] at some_
    simp at some_
  · rw [h]
    exact Nat.zero_le _
  · rw [h]
    exact Nat.zero_le _

/-- A read completes. -/
theorem completed {pre post : List Op} {op : Op} {sys : Sys} {k : ℕ} (h : Gathers seekable x)
    (hserved : Served info request x) (hl : x.live.listening)
    (hm : x.live.world.session.mode = .octet)
    (hops : x.live.world.inflight = pre ++ op :: post) (hr : op.Reports (.dataAvailable (.ok k)))
    (hfeeds : Feeds seekable x (.complete op sys (.dataAvailable (.ok k))))
    (hfills : FillsAtOnce seekable x (.complete op sys (.dataAvailable (.ok k))))
    (hl' : (deliver sys (.dataAvailable (.ok k))
      { x.live.world with inflight := pre ++ post }).listening)
    (hm' : (deliver sys (.dataAvailable (.ok k))
      { x.live.world with inflight := pre ++ post }).world.session.mode = .octet)
    (hsize : (deliver sys (.dataAvailable (.ok k))
      { x.live.world with inflight := pre ++ post }).world.session.blockSize =
        x.live.world.session.blockSize) :
    Gathers seekable (x.follow (.complete op sys (.dataAvailable (.ok k)))
      (deliver sys (.dataAvailable (.ok k)) { x.live.world with inflight := pre ++ post })) := by
  have hop : op.isFetch := by cases op <;> first | rfl | exact hr.elim
  have serving := hserved.serving hl hm
  have tidy := hserved.settled.tidy hl
  obtain ⟨arrived, env⟩ := hfeeds op sys k rfl
  obtain ⟨-, incomplete⟩ := serving_completed serving tidy hops hr (fun _ _ _ he => by
    cases he
    exact arrived) hl'
  obtain ⟨-, -, part, loads, hs⟩ := serving.reading tidy hops hop
  generalize deliver sys (.dataAvailable (.ok k)) { x.live.world with inflight := pre ++ post } = l'
    at hl' hm' hsize incomplete ⊢
  have size : (x.follow (.complete op sys (.dataAvailable (.ok k))) l').blockSize = x.blockSize :=
    congrArg UInt16.toNat hsize
  by_cases nothing : (Label.complete op sys (.dataAvailable (.ok k))).produced x.live l' = []
  · -- the block is read on
    obtain ⟨short, more⟩ := incomplete k rfl nothing
    obtain ⟨-, -, count, hold⟩ := loads.awaits.arrived
    have le := hold.le_append
    have here : x.part = part := by
      rw [Transfer.part, ← hs, List.drop_left]
    have there : (x.follow (.complete op sys (.dataAvailable (.ok k))) l').part =
        part ++ x.arriving := by
      show (x.stream ++ Label.taken _ x.arriving l').drop
        (x.blocks ++ Label.produced _ x.live l').flatten.length = part ++ x.arriving
      rw [Label.taken, if_pos hm', nothing, List.append_nil, ← hs, List.append_assoc, List.drop_left]
      rfl
    have reads : (x.follow (.complete op sys (.dataAvailable (.ok k))) l').reads = x.reads + 1 :=
      if_pos nothing
    have known : (x.follow (.complete op sys (.dataAvailable (.ok k))) l').more = true := by
      show (!sys.atEndOfFile) = true
      rw [more]
      rfl
    have small : x.arriving.length < x.blockSize := short
    have whole : part.length + x.arriving.length ≤ x.blockSize := le
    have brought : k = x.arriving.length := arrived.trans count
    have grown : (part ++ x.arriving).length = part.length + x.arriving.length := List.length_append
    have asked : ∃ slot filled, op = .read slot part.length (x.blockSize - part.length) filled := by
      have awaits := loads.awaits
      cases awaits
      exact ⟨_, _, rfl⟩
    obtain ⟨slot, filled, rfl⟩ := asked
    cases seekable with
    | true =>
        obtain ⟨le_reads, after⟩ := h.file rfl
        rw [here] at le_reads after
        simp only [if_true] at env
        have room : part.length + x.arriving.length < x.blockSize := by
          by_contra full
          rcases Nat.eq_zero_or_pos part.length with first | later
          · omega
          · have ended := hfills _ _ _ _ _ _ rfl rfl later (by omega)
            rw [more] at ended
            simp at ended
        have progress : 0 < x.reads → 0 < x.arriving.length := fun some_ => by
          obtain ⟨hmore, hpart⟩ := after some_
          have gave := env hmore (show 0 < x.blockSize - part.length by omega)
          omega
        have steps : x.reads + 1 ≤ part.length + x.arriving.length + 1 := by
          rcases Nat.eq_zero_or_pos x.reads with none_ | some_
          · omega
          · have gave := progress some_
            omega
        refine ⟨fun _ => ?_, fun hf => by simp at hf, ?_⟩
        · rw [reads, there, grown, known, size]
          exact ⟨steps, fun _ => ⟨rfl, room⟩⟩
        · rw [reads, size]
          omega
    | false =>
        have le_reads := h.pipe rfl
        rw [here] at le_reads
        simp only [Bool.false_eq_true, if_false, more, false_iff] at env
        refine ⟨fun hf => by simp at hf, fun _ => ?_, ?_⟩
        · rw [reads, there, grown]
          omega
        · rw [reads, size]
          omega
  · -- the next block begins
    exact .of_none (if_neg nothing)

theorem congr {x' : Transfer} (h : Gathers seekable x) (hp : x'.part = x.part)
    (hr : x'.reads = x.reads) (hm : x'.more = x.more) (hs : x'.blockSize = x.blockSize) :
    Gathers seekable x' := by
  refine ⟨?_, ?_, ?_⟩
  · rw [hp, hr, hm, hs]
    exact h.file
  · rw [hp, hr]
    exact h.pipe
  · rw [hr, hs]
    exact h.bound

end Gathers

/-- What the environment and the reads of a run do. -/
def Reads (seekable : Bool) (x : Transfer) (label : Label) : Prop :=
  Feeds seekable x label ∧ FillsAtOnce seekable x label

theorem Feeds.truthful {label : Label} (h : Feeds seekable x label) : Truthful x label :=
  fun op sys k he => (h op sys k he).1

theorem gathers_step {label : Label} (hserved : Served info request x)
    (h : x.live.listening → x.live.world.session.mode = .octet → Gathers seekable x)
    (hs : Step x.live label l') (hC : Reads seekable x label) (hl' : l'.listening)
    (hm' : l'.world.session.mode = .octet) : Gathers seekable (x.follow label l') := by
  have kept : x.live.status ≠ .fresh → l'.world.settings = x.live.world.settings := hs.settings
  by_cases hd : ∃ op sys k, label = .complete op sys (.dataAvailable (.ok k))
  · obtain ⟨op, sys, k, rfl⟩ := hd
    cases hs with
    | complete _ _ _ hl hops hr =>
        have same := kept hl.ne_fresh
        have hm := (congrArg Settings.mode same).symm.trans hm'
        exact (h hl hm).completed hserved hl hm hops hr hC.1 hC.2 hl' hm'
          (congrArg Settings.blockSize same)
  · obtain ⟨hpart, hreads, hmore⟩ := follow_other (x := x)
      (fun op sys k he => hd ⟨op, sys, k, he⟩) hm'
    by_cases hf : x.live.status = .fresh
    · obtain rfl := hserved.fresh hf
      exact .of_none hreads
    · have hl : x.live.listening := by
        cases hs with
        | start sys hf' => exact (hf hf').elim
        | complete _ _ _ hl _ _ => exact hl
        | expire hl _ => exact hl
        | fill _ hl _ _ => exact hl
      have same := kept hf
      exact (h hl ((congrArg Settings.mode same).symm.trans hm')).congr hpart hreads hmore
        (congrArg (fun s => s.blockSize.toNat) same)

/-- The stream is cut into blocks wherever the reads end, and every block is
complete after as many reads as it has bytes. -/
theorem reads_reassembled (h : Runs (Reads seekable) (boot info request) x) (hl : x.live.listening)
    (hm : x.live.world.session.mode = .octet) : x.Reassembles x.blockSize := by
  have served : Served info request x := served_of_runs (fun _ _ hC => hC.1.truthful) h
  have gathers : x.live.listening → x.live.world.session.mode = .octet → Gathers seekable x := by
    refine (h.invariant (I := fun x => Served info request x ∧
      (x.live.listening → x.live.world.session.mode = .octet → Gathers seekable x)) ?_ ?_).2
    · rintro x label l' ⟨served, gathers⟩ hs hC
      exact ⟨served.step hs hC.1.truthful, fun hl' hm' => gathers_step served gathers hs hC hl' hm'⟩
    · exact ⟨⟨.boot _ _, fun _ => rfl, fun hl => by
        simp [Live.listening, boot, Tracked.boot, Live.boot] at hl⟩, fun _ _ => .of_none rfl⟩
  have serving := served.serving hl hm
  refine ⟨serving.sent, serving.cuts.full, fun hlast => ?_, (gathers hl hm).bound⟩
  obtain ⟨before, last, hblocks, full, -, short⟩ := serving.cuts.last hlast
  exact ⟨before, last, hblocks, full, short, serving.ended hlast⟩

/-- A file of three bytes that is read in two pieces. -/
def readInTwoPieces : List Label :=
  [.start fileOpens,
    .fill [1, 2],
    .complete (.read 0 0 512 (some 2)) { atEndOfFile := false } (.dataAvailable (.ok 2)),
    .fill [3],
    .complete (.read 0 2 510 (some 1)) {} (.dataAvailable (.ok 1))]

/-- Its bytes go out in one block. -/
theorem two_pieces_reassembled :
    ∃ x, Runs (Reads true) (boot plainInfo (plainRequest Opcode.rrq "octet")) x ∧
      x.blocks = [[1, 2, 3]] ∧ x.Reassembles x.blockSize := by
  have h : ((replay readInTwoPieces (boot plainInfo (plainRequest Opcode.rrq "octet"))).map fun x =>
      decide (x.live.status = .idle ∧ x.live.world.session.mode = .octet ∧
        x.blocks = [[1, 2, 3]])) = some true := by
    decide +kernel
  obtain ⟨x, hx, he⟩ := Option.map_eq_some_iff.mp h
  obtain ⟨hl, hm, hblocks⟩ := of_decide_eq_true he
  have hrun : Runs (Reads true) (boot plainInfo (plainRequest Opcode.rrq "octet")) x := by
    refine replay_runs hx fun x label hmem => ⟨?_, ?_⟩
    · rintro op sys k rfl
      simp only [readInTwoPieces, List.mem_cons, Label.complete.injEq, Event.dataAvailable.injEq,
        Except.ok.injEq, reduceCtorEq, false_or, List.not_mem_nil, or_false] at hmem
      rcases hmem with ⟨rfl, -, rfl⟩ | ⟨rfl, -, rfl⟩
      · exact ⟨rfl, fun _ _ => by decide⟩
      · exact ⟨rfl, fun _ _ => by decide⟩
    · rintro slot offset length filled sys k rfl - hpos hk
      simp only [readInTwoPieces, List.mem_cons, Label.complete.injEq, Event.dataAvailable.injEq,
        Op.read.injEq, Except.ok.injEq, reduceCtorEq, false_or, List.not_mem_nil, or_false] at hmem
      omega
  exact ⟨x, hrun, hblocks, reads_reassembled hrun (.inl hl) hm⟩

/-! ## A block that is never sent -/

/-- The first block is full, and the session reads on behind it. -/
def StuckSession (s : Session) : Prop :=
  s.mode = .octet ∧ s.requestType = .read ∧ s.shouldClose = false ∧ s.optionsSettled = true ∧
    s.lastPacket = none ∧ s.windowBegin = 1 ∧ s.nextDataPacketToSend = 1 ∧ s.windowSize = 1 ∧
    s.blockSize = 512 ∧ s.lastBlockSize = 512

instance (s : Session) : Decidable (StuckSession s) := by unfold StuckSession; infer_instance

/-- The read of no bytes of the full block. -/
def emptyRead : Op := .read 0 512 0 none

/-- A read that does not complete the block. -/
theorem wp_onDataAvailable_incomplete {Q : Unit → World → Prop} {E : Abort → World → Prop}
    {w : World} {k : ℕ} (hm : w.session.mode = .octet)
    (hi : w.buffer.Incomplete k w.sys.atEndOfFile) :
    wp (onDataAvailable (.ok k)) Q E w ↔ Q () { w with session := { w.session with
      lastBlockSize := w.session.lastBlockSize + UInt16.ofNat k, incompleteRead := true } } := by
  have incomplete : k < w.session.blockSize.toNat ∧ w.sys.atEndOfFile = false := hi
  rw [onDataAvailable, wp_bind, wp_session, if_pos hm, wp_bind, createDataPackets, wp_bind,
    wp_modify, wp_bind, wp_session, wp_bind, endOfFile, wp_bind, wp_sys, wp_pure]
  dsimp only
  rw [if_pos incomplete, wp_bind, wp_modify, wp_pure, if_neg (by decide), wp_pure]

/-- The read-ahead of a system that takes every call. -/
theorem wp_fetchData_octet {Q : Unit → World → Prop} {E : Abort → World → Prop} {w : World}
    (hm : w.session.mode = .octet) (hf : shouldFetchData w.session) (hw : w.session.windowSize ≠ 0)
    (ha : w.sys.calls = []) :
    wp fetchData Q E w ↔ Q () { w with
      session := { w.session with
        isFetchingData := true
        lastBlockSize := w.buffer.done
        incompleteRead := false
        pendingJobs := w.session.pendingJobs + 1 }
      inflight := w.inflight ++ [w.buffer.fetch]
      log := w.log ++ [.read w.session.fileDescriptor] } := by
  have same : { w.sys with calls := w.sys.calls.tail } = w.sys := by
    rw [ha, List.tail_nil, ← ha]
  rw [fetchData, wp_bind, wp_session, if_pos hf, wp_bind, wp_modify, if_pos hm, fetchDataOctetAsync,
    wp_bind, wp_session]
  dsimp only
  rw [if_neg hw, wp_bind, wp_modify, wp_bind, wp_submit, wp_bind, wp_emit, wp_modify]
  simp only [World.answer, World.answered, ha, List.headD_nil, true_imp_iff, reduceCtorEq,
    false_imp_iff, and_true]
  rw [ha] at same
  rw [same]
  rfl

/-- The read of no bytes is followed by the same read. -/
theorem stuck_again {w : World} (h : StuckSession w.session) :
    let l' := deliver { atEndOfFile := false } (.dataAvailable (.ok 0))
      { w with inflight := [.recv false] }
    l'.status = .idle ∧ StuckSession l'.world.session ∧
      l'.world.inflight = [.recv false, emptyRead] ∧
      l'.world.log = w.log ++ [.read w.session.fileDescriptor] := by
  intro l'
  refine deliver_spec (P := fun l => l.status = .idle ∧ StuckSession l.world.session ∧
    l.world.inflight = [.recv false, emptyRead] ∧
    l.world.log = w.log ++ [.read w.session.fileDescriptor]) ?_
  rw [wp_handleEvent, wp_bind, dispatch, wp_bind, wp_jobDone, wp_bind, wp_modify]
  generalize hv : ({ session := _, sys := _, inflight := _, log := _ } : World) = v
  have moved : StuckSession v.session ∧ v.sys = { atEndOfFile := false } ∧
      v.inflight = [.recv false] ∧ v.log = w.log ∧ v.session.isFetchingData = false ∧
      v.session.fileDescriptor = w.session.fileDescriptor := by
    subst hv
    exact ⟨h, rfl, rfl, rfl, rfl, rfl⟩
  obtain ⟨⟨mode, requestType, shouldClose, settled, lastPacket, windowBegin, next, windowSize,
    blockSize, lastBlockSize⟩, sys, ops, log, idle, fd⟩ := moved
  -- the block is full, but the read that completes is not
  have incomplete : v.buffer.Incomplete 0 v.sys.atEndOfFile := by
    refine ⟨?_, by rw [sys]⟩
    rw [show v.buffer.blockSize = 512 from blockSize]
    decide
  rw [wp_onDataAvailable_incomplete mode incomplete]
  have full : v.session.lastBlockSize + UInt16.ofNat 0 = 512 := by
    rw [lastBlockSize]
    rfl
  -- so the rest of it is read
  have fetches : shouldFetchData v.session := by
    have range : isInRange 1 1 1 = true := by decide
    simp [shouldFetchData, requestType, idle, shouldClose, settled, lastPacket, next, windowBegin,
      windowSize, range]
  have window : v.session.windowSize ≠ 0 := by
    rw [windowSize]
    decide
  have answers : v.sys.calls = [] := by rw [sys]
  refine (wp_fetchData_octet ?_ ?_ ?_ ?_).mpr (wp_finish.mpr ⟨fun closing => ?_, fun _ => ⟨rfl, ?_⟩⟩)
  · exact mode
  · exact fetches
  · exact window
  · exact answers
  · have closing' : v.session.shouldClose = true := closing.1
    rw [shouldClose] at closing'
    simp at closing'
  refine ⟨⟨mode, requestType, shouldClose, settled, lastPacket, windowBegin, next, windowSize,
    blockSize, full⟩, ?_, ?_⟩
  · show v.inflight ++ [.read ((v.session.nextDataPacketToSend - 1).toNat % v.session.windowSize.toNat)
      (v.session.lastBlockSize + UInt16.ofNat 0).toNat
      (v.session.blockSize.toNat - (v.session.lastBlockSize + UInt16.ofNat 0).toNat) none] =
      [.recv false, emptyRead]
    rw [ops, full, next, windowSize, blockSize]
    rfl
  · show v.log ++ [.read v.session.fileDescriptor] = w.log ++ [.read w.session.fileDescriptor]
    rw [log, fd]

/-- A file whose first block is read in two pieces. -/
def fillsLater : List Label :=
  [.start fileOpens,
    .fill (List.replicate 300 0),
    .complete (.read 0 0 512 (some 300)) { atEndOfFile := false } (.dataAvailable (.ok 300)),
    .fill (List.replicate 212 0),
    .complete (.read 0 300 212 (some 212)) { atEndOfFile := false } (.dataAvailable (.ok 212))]

/-- Any number of reads completes for the block, and it is never sent. -/
theorem reads_without_end (n : ℕ) :
    ∃ x, Runs (Feeds true) (boot plainInfo (plainRequest Opcode.rrq "octet")) x ∧
      x.live.status = .idle ∧ StuckSession x.live.world.session ∧
      x.live.world.inflight = [.recv false, emptyRead] ∧ n ≤ x.reads := by
  induction n with
  | zero =>
      have h : ((replay fillsLater (boot plainInfo (plainRequest Opcode.rrq "octet"))).map fun x =>
          decide (x.live.status = .idle ∧ StuckSession x.live.world.session ∧
            x.live.world.inflight = [.recv false, emptyRead])) = some true := by
        decide +kernel
      obtain ⟨x, hx, he⟩ := Option.map_eq_some_iff.mp h
      obtain ⟨hl, stuck, ops⟩ := of_decide_eq_true he
      refine ⟨x, replay_runs hx ?_, hl, stuck, ops, Nat.zero_le _⟩
      rintro x label hmem op sys k rfl
      simp only [fillsLater, List.mem_cons, Label.complete.injEq, Event.dataAvailable.injEq,
        Except.ok.injEq, reduceCtorEq, false_or, List.not_mem_nil, or_false] at hmem
      rcases hmem with ⟨rfl, -, rfl⟩ | ⟨rfl, -, rfl⟩
      · exact ⟨rfl, fun _ _ => by decide⟩
      · exact ⟨rfl, fun _ _ => by decide⟩
  | succ n ih =>
      obtain ⟨x, hx, hl, stuck, ops, count⟩ := ih
      obtain ⟨hl', stuck', ops', log⟩ := stuck_again stuck
      have split : x.live.world.inflight = [.recv false] ++ emptyRead :: [] := ops
      have hs := Step.complete emptyRead { atEndOfFile := false } (.dataAvailable (.ok 0)) (.inl hl)
        split trivial
      rw [List.append_nil] at hs
      refine ⟨_, hx.tail ⟨_, _, hs, ?_, rfl⟩, hl', stuck', ops', ?_⟩
      · rintro op sys k he
        cases he
        exact ⟨rfl, fun _ none_ => absurd none_ (by decide)⟩
      · refine (Nat.succ_le_succ count).trans (le_of_eq (if_pos ?_).symm)
        show payloads (List.drop _ _) = []
        rw [log, List.drop_left]
        rfl

/-- No bound holds for the reads of a block. -/
theorem reads_unbounded :
    ¬∃ bound : ℕ → ℕ, ∀ (info : ServerInfo) (request : PeerMessage) (seekable : Bool) (x : Transfer),
      Runs (Feeds seekable) (boot info request) x → x.live.listening →
        x.live.world.session.mode = .octet → x.Reassembles (bound x.blockSize) := by
  rintro ⟨bound, h⟩
  obtain ⟨x, hx, hl, stuck, -, count⟩ := reads_without_end (bound 512 + 1)
  have size : x.blockSize = 512 := by
    rw [blockSize, stuck.2.2.2.2.2.2.2.2.1]
    rfl
  have few := (h _ _ _ x hx (.inl hl) stuck.1).reads
  rw [size] at few
  omega

end Transfer

end Tftp.Server
