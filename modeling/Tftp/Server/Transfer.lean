import Tftp.Lib.Blocks
import Tftp.Server.Packets
import Tftp.Server.Settings
import Tftp.Server.Start
import Tftp.Server.Window

/-!
# The stream a read session sends

A run of a read session is followed here together with the stream of bytes it
reads: what completed reads have brought, what the read in flight has put in
memory, and the payloads of the blocks that went out. Between two calls an
octet session holds the first bytes of the block it is reading, and the read in
flight asks for the rest of that block.
-/

namespace Tftp.Server

open Prog Act Blocks

/-! ## Reading a block -/

namespace Buffer

/-- The slot of the next block begins with `part`. -/
structure Holds (b : Buffer) (part : Bytes) : Prop where
  le : part.length ≤ b.blockSize.toNat
  bytes : ∀ slots, b.dataPackets = some slots →
    (slots (b.slotOf b.nextDataPacketToSend)).data.take part.length = part

/-- The read-ahead agrees with the `part` that is in place: without a read in
flight it is what the next read finds, and a read in flight goes to the rest of
the block, where it has put the `arriving` bytes. -/
inductive Awaits (b : Buffer) (part arriving : Bytes) : Bool → List Op → Prop where
  | idle : b.done.toNat = part.length → arriving = [] → Awaits b part arriving false []
  | reading (filled : Option ℕ) : b.incompleteRead = false →
      b.lastBlockSize.toNat = part.length → filled.getD 0 = arriving.length →
      b.Holds (part ++ arriving) →
      Awaits b part arriving true [.read (b.slotOf b.nextDataPacketToSend) part.length
        (b.blockSize.toNat - part.length) filled]

/-- An octet session is reading a block, of which it holds `part`. -/
structure Loads (b : Buffer) (part arriving : Bytes) (fetching : Bool) (ops : List Op) :
    Prop where
  holds : b.Holds part
  awaits : b.Awaits part arriving fetching ops

/-- The payload areas have the size of a block. -/
def Sized (b : Buffer) : Prop :=
  ∀ slots, b.dataPackets = some slots → ∀ j, (slots j).data.length = b.blockSize.toNat

end Buffer

/-- The number of bytes an operation has put in memory. -/
def Op.arrived : Op → ℕ
  | .read _ _ _ filled => filled.getD 0
  | _ => 0

namespace Buffer

variable {b : Buffer} {part arriving : Bytes} {m : ℕ} {slots : ℕ → Slot}

/-- `last_block_size` counts the bytes in place without overflow. -/
theorem toNat_add {k : ℕ} (hk : b.lastBlockSize.toNat = k) (hm : k + m ≤ b.blockSize.toNat) :
    (b.lastBlockSize + UInt16.ofNat m).toNat = k + m := by
  have hlt := b.blockSize.toNat_lt
  rw [UInt16.toNat_add, UInt16.toNat_ofNat', hk]
  omega

/-- The bytes a read has put in memory are in place. -/
theorem Awaits.arrived {op : Op} {fetching : Bool} (h : b.Awaits part arriving fetching [op]) :
    b.lastBlockSize.toNat = part.length ∧ b.incompleteRead = false ∧
      op.arrived = arriving.length ∧ b.Holds (part ++ arriving) := by
  cases h with
  | reading filled hi hl hf hold => exact ⟨hl, hi, hf, hold⟩

theorem Holds.le_append (h : b.Holds (part ++ arriving)) :
    part.length + arriving.length ≤ b.blockSize.toNat := by
  have le := h.le
  rwa [List.length_append] at le

/-- The rest of an incomplete block is still to be read. -/
theorem gathered (hl : b.lastBlockSize.toNat = part.length) (h : b.Holds (part ++ arriving)) :
    (b.gather arriving.length).Loads (part ++ arriving) [] false [] where
  holds := ⟨h.le, h.bytes⟩
  awaits := .idle ((toNat_add hl h.le_append).trans List.length_append.symm) rfl

/-- The packet of a complete block carries its number and its bytes. -/
theorem filledPacket_eq (hs : b.dataPackets = some slots)
    (hl : b.lastBlockSize.toNat = part.length) (h : b.Holds (part ++ arriving)) :
    b.filledPacket slots arriving.length = .data b.nextDataPacketToSend (part ++ arriving) := by
  rw [filledPacket, toNat_add hl h.le_append, ← List.length_append, h.bytes slots hs]

/-- A complete block that is full is followed by the next one. -/
theorem sent_full (slots : ℕ → Slot) (hl : b.lastBlockSize.toNat = part.length) (hi : b.incompleteRead = false)
    (h : b.Holds (part ++ arriving)) (hm : part.length + arriving.length = b.blockSize.toNat) :
    (b.complete slots arriving.length).sent.Loads [] [] false [] ∧
      (b.complete slots arriving.length).sent.lastPacket = b.lastPacket := by
  have total := toNat_add hl h.le_append
  refine ⟨⟨⟨Nat.zero_le _, fun _ _ => rfl⟩, .idle ?_ rfl⟩, ?_⟩
  · show (b.complete slots arriving.length).sent.done.toNat = 0
    simp [sent, complete, done, hi]
  · refine if_neg fun hlt => ?_
    have less : (b.lastBlockSize + UInt16.ofNat arriving.length).toNat < b.blockSize.toNat := hlt
    omega

/-- A short one is the last. -/
theorem sent_short (slots : ℕ → Slot) (hl : b.lastBlockSize.toNat = part.length) (h : b.Holds (part ++ arriving))
    (hm : part.length + arriving.length < b.blockSize.toNat) :
    (b.complete slots arriving.length).sent.lastPacket = some b.nextDataPacketToSend ∧
      (b.complete slots arriving.length).sent.lastBlockSize.toNat =
        part.length + arriving.length := by
  have total := toNat_add hl h.le_append
  refine ⟨if_pos ?_, total⟩
  show (b.lastBlockSize + UInt16.ofNat arriving.length).toNat < b.blockSize.toNat
  omega

/-- The next read asks for the rest of the block. -/
theorem Awaits.fetched (h : b.Awaits part arriving false []) (hk : b.Holds part) :
    b.fetched.Loads part arriving true [b.fetch] := by
  cases h with
  | idle done none_ =>
      subst none_
      refine ⟨⟨hk.le, hk.bytes⟩, ?_⟩
      have reads : b.fetch = .read (b.fetched.slotOf b.fetched.nextDataPacketToSend) part.length
          (b.fetched.blockSize.toNat - part.length) none := by
        rw [fetch, done]
        rfl
      rw [reads]
      refine .reading none rfl done rfl ?_
      rw [List.append_nil]
      exact ⟨hk.le, hk.bytes⟩

/-- The buffer after a read has put `bytes` in a slot. -/
def fill (b : Buffer) (slot offset : ℕ) (bytes : Bytes) : Buffer :=
  { b with dataPackets := b.dataPackets.map fun slots =>
      updateSlot slots slot fun p => { p with data := poke p.data offset bytes } }

/-- What is put behind the part in place follows it. -/
theorem take_poke {data bytes : Bytes} (h : data.take part.length = part) :
    (poke data part.length bytes).take (part ++ bytes).length = part ++ bytes := by
  rw [poke, h]
  exact List.take_left

/-- A read puts the next bytes of the stream behind those in place. -/
theorem Awaits.fill {slot offset length : ℕ} {bytes : Bytes}
    (h : b.Awaits part arriving true [.read slot offset length none])
    (hk : b.Holds part) (hlen : bytes.length ≤ length) :
    (b.fill slot offset bytes).Loads part bytes true
      [.read slot offset length (some bytes.length)] := by
  cases h with
  | reading _ hi hl _ _ =>
      have le := hk.le
      have arrives : (b.fill (b.slotOf b.nextDataPacketToSend) part.length bytes).Holds
          (part ++ bytes) := by
        refine ⟨?_, fun slots' hd => ?_⟩
        · show (part ++ bytes).length ≤ b.blockSize.toNat
          rw [List.length_append]
          omega
        · obtain ⟨slots, hd', rfl⟩ := Option.map_eq_some_iff.mp hd
          have filled : (poke (slots (b.slotOf b.nextDataPacketToSend)).data part.length bytes).take
              (part ++ bytes).length = part ++ bytes := take_poke (hk.bytes slots hd')
          simpa [updateSlot, Buffer.fill, slotOf] using filled
      have stays : (b.fill (b.slotOf b.nextDataPacketToSend) part.length bytes).Holds part := by
        refine ⟨hk.le, fun slots' hd => ?_⟩
        have more := congrArg (List.take part.length) (arrives.bytes slots' hd)
        rwa [List.take_take, List.take_left, List.length_append, Nat.min_eq_left (by omega)] at more
      exact ⟨stays, .reading _ hi hl rfl arrives⟩

theorem Sized.fill (hs : b.Sized) {slot offset : ℕ} {bytes : Bytes}
    (hlen : offset + bytes.length ≤ b.blockSize.toNat) : (b.fill slot offset bytes).Sized := by
  intro slots' hd j
  obtain ⟨slots, hd', rfl⟩ := Option.map_eq_some_iff.mp hd
  have size := hs slots hd' j
  unfold updateSlot
  split
  · show (poke (slots j).data offset bytes).length = b.blockSize.toNat
    simp [poke]
    omega
  · exact size

end Buffer

/-! ## The start -/

/-- Nothing was read into the buffer yet. -/
structure Buffer.Blank (b : Buffer) : Prop where
  nextDataPacketToSend : b.nextDataPacketToSend = 1
  lastPacket : b.lastPacket = none
  lastBlockSize : b.lastBlockSize = 0
  incompleteRead : b.incompleteRead = false
  sized : b.Sized

section Start

variable {w : World}

theorem Buffer.sized_of_none {b : Buffer} (h : b.dataPackets = none) : b.Sized := fun slots hs => by
  simp [h] at hs

theorem prepareTransfer_blank (h : w.buffer.Blank) :
    wp prepareTransfer (fun _ t => t.buffer.Blank) (fun _ _ => True) w := by
  have fixed : KeepsBuffer (do
      let s ← session
      if s.stats.error.errorOccurred then do
        sendErrorPacket s.clientAddress
        modify fun s => { s with shouldClose := true }
      else pure ()) :=
    .bind .session fun s => .ite (.bind (.sendErrorPacket _) fun _ => .modify fun _ => rfl)
      (.pure _)
  rw [prepareTransfer, wp_bind, wp_modify]
  generalize hv : ({ session := _, sys := _, inflight := _, log := _ } : World) = v
  have buffer : v.buffer = w.buffer := by
    subst hv
    split <;> rfl
  rw [← buffer] at h
  rw [wp_bind, allocateBuffers, wp_bind, wp_require]
  refine ⟨fun _ => ?_, fun _ => trivial⟩
  rw [wp_bind, wp_sys, wp_bind, wp_modify, wp_bind, wp_require]
  refine ⟨fun _ => ?_, fun _ => trivial⟩
  refine fixed.wp fun _ t ht => ?_
  rw [ht]
  refine ⟨h.nextDataPacketToSend, h.lastPacket, h.lastBlockSize, h.incompleteRead, fun slots hs j => ?_⟩
  obtain rfl := Option.some.inj hs
  show (((v.sys.heap j).data ++ List.replicate v.session.blockSize.toNat 0).take
    v.session.blockSize.toNat).length = v.session.blockSize.toNat
  simp

theorem startTransfer_blank (h : w.buffer.Blank) (hn : w.session.dataPackets = none) :
    wp startTransfer (fun _ t => t.buffer.Blank) (fun _ _ => True) w := by
  rw [startTransfer, wp_bind, wp_session, wp_ite]
  refine ⟨fun _ => prepareTransfer_blank h, fun _ => ?_⟩
  refine wp_bind.mpr (wp_queryFileSize fun size t ht => ?_)
  rw [wp_bind, wp_modify, wp_bind, wp_modify]
  obtain ⟨_, _, _, _, _, parsed⟩ := parseOptions_sets size w.session
  rw [ht, parsed]
  exact prepareTransfer_blank ⟨h.nextDataPacketToSend, h.lastPacket, h.lastBlockSize, h.incompleteRead,
    Buffer.sized_of_none hn⟩

theorem start_blank (h : w.buffer.Blank) (hn : w.session.dataPackets = none) :
    wp start (fun _ t => t.buffer.Blank) (fun _ _ => True) w := by
  have blank (s : Session) (t : World) (hs : t.session = s)
      (same : s.nextDataPacketToSend = w.session.nextDataPacketToSend ∧
        s.lastPacket = w.session.lastPacket ∧ s.lastBlockSize = w.session.lastBlockSize ∧
        s.incompleteRead = w.session.incompleteRead ∧ s.dataPackets = w.session.dataPackets) :
      t.buffer.Blank ∧ t.session.dataPackets = none := by
    subst hs
    obtain ⟨next, last, size, incomplete, slots⟩ := same
    exact ⟨⟨next.trans h.nextDataPacketToSend, last.trans h.lastPacket, size.trans h.lastBlockSize,
      incomplete.trans h.incompleteRead, Buffer.sized_of_none (slots.trans hn)⟩, slots.trans hn⟩
  rw [start, wp_bind, wp_session, wp_ite]
  refine ⟨fun _ => (blank _ _ rfl ⟨rfl, rfl, rfl, rfl, rfl⟩).1, fun _ => ?_⟩
  refine wp_bind.mpr (wp_mono (readRequest_spec w) ?_ fun _ _ _ => trivial)
  rintro _ _ ⟨fd, -, rfl⟩
  have requested := blank _ { w with session := w.session.requested fd } rfl ⟨rfl, rfl, rfl, rfl, rfl⟩
  rw [wp_bind, wp_session, wp_ite]
  refine ⟨fun _ => ?_, fun _ => ?_⟩
  · exact (Fixes.recordFailure _ _ : KeepsBuffer _).wp fun _ t ht => by
      rw [ht]
      exact requested.1
  · rw [openFile, wp_bind, wp_session, wp_bind, wp_sys, wp_bind, wp_modify, wp_bind]
    refine (Fixes.sessionFileInit _ _ _ : KeepsBuffer _).wp fun fd t ht => ?_
    have opened : t.buffer.Blank := by
      rw [ht]
      exact requested.1
    have unallocated : t.session.dataPackets = none :=
      (congrArg Buffer.dataPackets ht).trans requested.2
    rw [wp_bind, wp_modify, wp_ite]
    exact ⟨fun _ => opened, fun _ => startTransfer_blank opened unallocated⟩

/-- What follows the start within the first call leaves the source alone. -/
theorem greet_source : KeepsSource (do
    let s ← session
    if s.shouldClose then pure ()
    else do
      if s.optionsSettled = false then sendOack
      else if s.requestType = .write then do
        if ← Act.attempt then emit (.sent s.clientAddress (.ack 0)) else pure ()
      else pure ()
      recvAsync) :=
  have oack : KeepsSource sendOack :=
    .bind .require fun _ => .bind .sys fun _ => .bind .session fun _ =>
      .bind (.modify fun _ => rfl) fun _ => .bind submitTimeout_source fun _ => .sendto _ _
  .bind .session fun _ => .ite (.pure _) (.ite (.bind oack fun _ => recvAsync_source)
    (.ite (.bind .attempt fun _ => .ite (.bind (.emit _) fun _ => recvAsync_source) recvAsync_source)
      recvAsync_source))

/-- A session starts with a blank buffer, and nothing to read yet. -/
theorem onStart_blank (h : w.buffer.Blank) (hn : w.session.dataPackets = none) :
    wp onStart (fun _ t => t.buffer.Blank ∧ t.intake = w.intake) (fun _ _ => True) w := by
  have intake : KeepsIntake start := by
    refine start_fixes fun w s hs => ?_
    obtain ⟨_, _, _, _, _, _, _, _, _, _, _, _, _, _, _, _, _, rfl⟩ := hs
    rfl
  refine wp_bind.mpr (wp_mono (wp_and (start_blank h hn) (intake.wp fun _ _ same => same)) ?_
    fun _ _ _ => trivial)
  rintro _ t ⟨blank, same⟩
  refine greet_source.wp fun _ t' source => ?_
  have buffer : t'.buffer = t.buffer := congrArg Source.buffer source
  exact ⟨buffer ▸ blank, (congrArg Source.intake source).trans same⟩

end Start

/-! ## What a call does to the stream -/

namespace Control

/-- A session that is closing stays so. -/
theorem Takes.stays_closing {c c' : Control} {e : Event} (he : e ≠ .start) (h : c.Takes e c')
    (hopen : c'.shouldClose = false) : c.shouldClose = false := by
  have closed : ∀ c₁ : Control, c₁.shouldClose → c₁.shouldClose = false → c.shouldClose = false :=
    fun _ hc ho => absurd (hc.symm.trans ho) (by decide)
  cases e with
  | start => exact (he rfl).elim
  | timeout r =>
      rcases h with ⟨-, rfl⟩ | ⟨hn, -⟩
      · exact hopen
      · by_contra hc
        exact hn (.inr (.inl (by simpa using hc)))
  | timeoutRemoved r => exact (congrArg shouldClose h).symm.trans hopen
  | packetReceivedRemoved r => exact (congrArg shouldClose h).symm.trans hopen
  | packetReceived r =>
      rcases h with ⟨-, rfl⟩ | ⟨hopen', -⟩
      · exact hopen
      · exact hopen'
  | dataAvailable r =>
      rcases h with ⟨_, -, rfl⟩ | rfl | ⟨short, rfl⟩
      · exact closed _ rfl hopen
      · exact hopen
      · have same : ({ c.reap with isFetchingData := false }.sendNext short).shouldClose =
            c.shouldClose := by
          unfold sendNext
          dsimp only
          split <;> rfl
        exact same.symm.trans hopen

end Control

/-- A session that is still open after a call was open before it. -/
theorem deliver_open {sys : Sys} {e : Event} {w : World} (he : e ≠ .start)
    (hl : (deliver sys e w).listening)
    (hopen : (deliver sys e w).world.session.shouldClose = false) :
    w.session.shouldClose = false := by
  obtain ⟨⟨c, taken, -, op, -, fetched⟩, -⟩ := deliver_control sys e w hl
  have same : (c.fetch op).shouldClose = c.shouldClose := by
    unfold Control.fetch
    split <;> rfl
  refine taken.stays_closing he ?_
  rw [← same, ← fetched]
  exact hopen

/-- The payload of a DATA packet that is sent. -/
def Entry.payload? : Entry → Option Bytes
  | .sent _ (.data _ bytes) => some bytes
  | _ => none

def payloads (log : List Entry) : List Bytes := log.filterMap Entry.payload?

theorem payloads_append (log rest : List Entry) :
    payloads (log ++ rest) = payloads log ++ payloads rest := List.filterMap_append

theorem payloads_closing (s : Session) : payloads s.closingEntries = [] := by
  unfold Session.closingEntries
  split <;> split <;> split <;> rfl

/-- The blocks that went out have the size of a block, up to a last one that is
shorter. -/
structure Session.Cuts (s : Session) (blocks : List Bytes) : Prop where
  next : UInt16.ofNat (blocks.length + 1) = s.nextDataPacketToSend
  full : s.lastPacket = none → Full s.blockSize.toNat blocks
  last : s.lastPacket.isSome → ∃ before last, blocks = before ++ [last] ∧
    Full s.blockSize.toNat before ∧ last.length = s.lastBlockSize.toNat ∧
    last.length < s.blockSize.toNat

/-- An octet session that has read `stream` and has sent `blocks` of it. One
that is closing without a read in flight reads no more. -/
structure World.Serving (w : World) (stream arriving : Bytes) (blocks : List Bytes) : Prop where
  mode : w.session.mode = .octet
  cuts : w.session.Cuts blocks
  sized : w.buffer.Sized
  loads : w.session.lastPacket = none → w.session.shouldClose = false ∨ w.session.isFetchingData →
    ∃ part, w.buffer.Loads part arriving w.session.isFetchingData (w.inflight.filter Op.isFetch) ∧
      blocks.flatten ++ part = stream
  ended : w.session.lastPacket.isSome → blocks.flatten = stream
  sent : blocks.flatten <+: stream

/-- Nothing went out yet. -/
theorem Buffer.Blank.cuts {w : World} (h : w.buffer.Blank) : w.session.Cuts [] where
  next := h.nextDataPacketToSend.symm
  full _ := Full.nil
  last hl := by
    have last : w.session.lastPacket = none := h.lastPacket
    simp [last] at hl

/-- The fields of the buffer that say what the blocks are. -/
theorem Session.Cuts.congr {w w' : World} {blocks : List Bytes} (h : w.session.Cuts blocks)
    (hb : w'.buffer = w.buffer) : w'.session.Cuts blocks := by
  have next : w'.session.nextDataPacketToSend = w.session.nextDataPacketToSend :=
    congrArg Buffer.nextDataPacketToSend hb
  have last : w'.session.lastPacket = w.session.lastPacket := congrArg Buffer.lastPacket hb
  have size : w'.session.blockSize = w.session.blockSize := congrArg Buffer.blockSize hb
  have fill : w'.session.lastBlockSize = w.session.lastBlockSize := congrArg Buffer.lastBlockSize hb
  refine ⟨next ▸ h.next, fun hl => size ▸ h.full (last ▸ hl), fun hl => ?_⟩
  rw [size, fill]
  exact h.last (last ▸ hl)

namespace World.Serving

variable {w w' : World} {stream arriving : Bytes} {blocks : List Bytes}

/-- What the source and the flag do not show does not matter. -/
theorem congr (h : w.Serving stream arriving blocks) (hb : w'.buffer = w.buffer)
    (hi : w'.intake.isFetchingData = w.intake.isFetchingData)
    (hf : w'.intake.fetches = w.intake.fetches)
    (hc : w'.session.shouldClose = false → w.session.shouldClose = false) :
    w'.Serving stream arriving blocks := by
  have mode : w'.session.mode = w.session.mode := congrArg Buffer.mode hb
  have last : w'.session.lastPacket = w.session.lastPacket := congrArg Buffer.lastPacket hb
  have flag : w'.session.isFetchingData = w.session.isFetchingData := hi
  have ops : w'.inflight.filter Op.isFetch = w.inflight.filter Op.isFetch := hf
  refine ⟨mode.trans h.mode, h.cuts.congr hb, hb ▸ h.sized, fun hl running => ?_,
    fun hl => h.ended (last ▸ hl), h.sent⟩
  rw [hb, flag, ops]
  exact h.loads (last ▸ hl) (running.imp hc (flag ▸ ·))

/-- The events that complete no read leave the stream alone. -/
theorem dispatch_other {e : Event} (he : e ≠ .start) (hd : ∀ r, e ≠ .dataAvailable r)
    (h : w.Serving stream arriving blocks) :
    wp (dispatch e) (fun _ w' => w'.Serving stream arriving blocks) (fun _ _ => True) w := by
  have fixed := (dispatch_source he hd).wp (w := w) fun _ _ same => same
  refine wp_mono (wp_and fixed (dispatch_moves e w)) ?_ fun _ _ _ => trivial
  rintro _ w' ⟨same, moves⟩
  have intake := congrArg Source.intake same
  exact h.congr (congrArg Source.buffer same) (congrArg Intake.isFetchingData intake)
    (congrArg Intake.fetches intake) (moves.stays_closing he)

end World.Serving

/-- A single read in flight is the one that completes. -/
theorem fetches_split {pre post : List Op} {op op' : Op} (hop : op.isFetch)
    (h : (pre ++ op :: post).filter Op.isFetch = [op']) :
    op = op' ∧ (pre ++ post).filter Op.isFetch = [] := by
  rw [List.filter_append, List.filter_cons_of_pos hop] at h
  rw [List.filter_append]
  obtain ⟨hpre, hpost⟩ | ⟨_, hpre, hpost⟩ := List.append_eq_cons_iff.mp h
  · rw [hpre]
    obtain ⟨rfl, hnil⟩ := List.cons_eq_cons.mp hpost
    exact ⟨rfl, hnil⟩
  · simp at hpost

namespace World.Serving

variable {w : World} {stream arriving : Bytes} {blocks : List Bytes} {pre post : List Op} {op : Op}

/-- The read in flight fills the block that is loaded. -/
theorem reading (h : w.Serving stream arriving blocks) (ht : w.control.Tidy)
    (hops : w.inflight = pre ++ op :: post) (hop : op.isFetch) :
    (pre ++ post).filter Op.isFetch = [] ∧ w.session.lastPacket = none ∧
      ∃ part, w.buffer.Loads part arriving true [op] ∧ blocks.flatten ++ part = stream := by
  obtain ⟨-, fetching⟩ := ht.removeFetch hops hop
  have last : w.session.lastPacket = none := (ht.fetching fetching).2.2
  have flag : w.session.isFetchingData = true := fetching
  obtain ⟨part, loads, hs⟩ := h.loads last (.inr flag)
  rw [flag] at loads
  have one : (pre ++ post).filter Op.isFetch = [] ∧ w.inflight.filter Op.isFetch = [op] := by
    have awaits := loads.awaits
    generalize hf : w.inflight.filter Op.isFetch = fetches at awaits
    cases awaits with
    | reading filled _ _ _ _ =>
        rw [hops] at hf
        obtain ⟨rfl, rest⟩ := fetches_split hop hf
        exact ⟨rest, rfl⟩
  rw [one.2] at loads
  exact ⟨one.1, last, part, loads, hs⟩

/-- The bytes in place and those that arrived belong to a block that is read
on, or they are all of it and go out. -/
theorem onDataAvailable_serving {part : Bytes} (cuts : w.session.Cuts blocks)
    (sized : w.buffer.Sized) (last : w.session.lastPacket = none)
    (hmode : w.session.mode = .octet) (idle : w.session.isFetchingData = false)
    (none_left : w.inflight.filter Op.isFetch = [])
    (hl : w.buffer.lastBlockSize.toNat = part.length) (whole : w.buffer.incompleteRead = false)
    (hold : w.buffer.Holds (part ++ arriving)) (hs : blocks.flatten ++ part = stream) :
    wp (onDataAvailable (.ok arriving.length))
      (fun _ w' => ∃ extra, w'.log = w.log ++ extra ∧
        w'.Serving (stream ++ arriving) [] (blocks ++ payloads extra) ∧
        w'.session.nextDataPacketToSend =
          w.session.nextDataPacketToSend + UInt16.ofNat (payloads extra).length ∧
        (payloads extra).length ≤ 1 ∧
        (payloads extra = [] → w.buffer.Incomplete arriving.length w.sys.atEndOfFile))
      (fun _ _ => True) w := by
  refine wp_mono (wp_and (onDataAvailable_spec hmode arriving.length)
    ((onDataAvailable_intake _).wp fun _ _ same => same)) ?_ fun _ _ _ => trivial
  rintro _ w' ⟨done, intake⟩
  have flag : w'.session.isFetchingData = false :=
    (congrArg Intake.isFetchingData intake).trans idle
  have ops : w'.inflight.filter Op.isFetch = [] := (congrArg Intake.fetches intake).trans none_left
  rcases done with ⟨incomplete, buffer, log⟩ | ⟨-, slots, hd, buffer, log⟩
  · -- the block is not complete
    have lastPacket : w'.session.lastPacket = none :=
      (congrArg Buffer.lastPacket buffer).trans last
    have next : w'.session.nextDataPacketToSend = w.session.nextDataPacketToSend :=
      congrArg Buffer.nextDataPacketToSend buffer
    have blockSize : w'.session.blockSize = w.session.blockSize := congrArg Buffer.blockSize buffer
    have mode : w'.session.mode = .octet := (congrArg Buffer.mode buffer).trans hmode
    have ended (hl : w'.session.lastPacket.isSome) : False := by
      rw [lastPacket] at hl
      simp at hl
    have follows : blocks.flatten ++ (part ++ arriving) = stream ++ arriving := by
      rw [← List.append_assoc, hs]
    refine ⟨[], log.trans (List.append_nil _).symm, ⟨mode, ?_, buffer ▸ sized,
      fun _ _ => ⟨part ++ arriving, ?_, ?_⟩, fun hl => (ended hl).elim, ?_⟩, ?_, Nat.zero_le _,
      fun _ => incomplete⟩
    · rw [show payloads [] = [] from rfl, List.append_nil]
      exact ⟨next ▸ cuts.next, fun _ => blockSize ▸ cuts.full last, fun hl => (ended hl).elim⟩
    · rw [buffer, flag, ops]
      exact Buffer.gathered hl hold
    · rw [show payloads [] = [] from rfl, List.append_nil, follows]
    · rw [show payloads [] = [] from rfl, List.append_nil, ← follows]
      exact List.prefix_append _ _
    · rw [next]
      exact (UInt16.add_zero _).symm
  · -- the block goes out
    have next : w'.session.nextDataPacketToSend = w.session.nextDataPacketToSend + 1 :=
      congrArg Buffer.nextDataPacketToSend buffer
    have blockSize : w'.session.blockSize = w.session.blockSize := congrArg Buffer.blockSize buffer
    have mode : w'.session.mode = .octet := (congrArg Buffer.mode buffer).trans hmode
    have le : part.length + arriving.length ≤ w.session.blockSize.toNat := hold.le_append
    have sized' : (w.buffer.complete slots arriving.length).sent.Sized := by
      intro slots' hs' j
      obtain rfl := Option.some.inj hs'
      unfold updateSlot
      split
      · exact sized slots hd j
      · exact sized slots hd j
    have sent : payloads [.sent w.session.clientAddress
        (w.buffer.filledPacket slots arriving.length)] = [part ++ arriving] := by
      rw [Buffer.filledPacket_eq hd hl hold]
      rfl
    have produced : (blocks ++ [part ++ arriving]).flatten = stream ++ arriving := by
      rw [List.flatten_append, List.flatten_singleton, ← List.append_assoc, hs]
    have number : UInt16.ofNat ((blocks ++ [part ++ arriving]).length + 1) =
        w'.session.nextDataPacketToSend := by
      rw [List.length_append, List.length_singleton, Serial.ofNat_succ, cuts.next, next]
    by_cases short : part.length + arriving.length < w.session.blockSize.toNat
    · -- a short one ends the stream
      obtain ⟨isLast, size⟩ := Buffer.sent_short slots hl hold short
      have lastPacket : w'.session.lastPacket = some w.session.nextDataPacketToSend :=
        (congrArg Buffer.lastPacket buffer).trans isLast
      have lastBlockSize : w'.session.lastBlockSize.toNat = part.length + arriving.length :=
        (congrArg (fun b => b.lastBlockSize.toNat) buffer).trans size
      have ended (hl : w'.session.lastPacket = none) : False := by
        rw [lastPacket] at hl
        simp at hl
      refine ⟨_, log, ?_, ?_, ?_, fun nothing => ?_⟩
      · rw [sent]
        refine ⟨mode, ⟨number, fun hl => (ended hl).elim, fun _ => ⟨blocks, _, rfl, ?_, ?_, ?_⟩⟩,
          buffer ▸ sized', fun hl => (ended hl).elim, fun _ => produced, produced ▸ List.prefix_rfl⟩
        · rw [blockSize]
          exact cuts.full last
        · rw [lastBlockSize, List.length_append]
        · rw [blockSize, List.length_append]
          exact short
      · rw [sent]
        exact next
      · rw [sent]
        exact le_rfl
      · simp [sent] at nothing
    · -- a full block is followed by the next
      have filled : part.length + arriving.length = w.session.blockSize.toNat :=
        le_antisymm le (not_lt.mp short)
      obtain ⟨loads, same⟩ := Buffer.sent_full slots hl whole hold filled
      have lastPacket : w'.session.lastPacket = none :=
        (congrArg Buffer.lastPacket buffer).trans (same.trans last)
      have ended (hl : w'.session.lastPacket.isSome) : False := by
        rw [lastPacket] at hl
        simp at hl
      refine ⟨_, log, ?_, ?_, ?_, fun nothing => ?_⟩
      · rw [sent]
        refine ⟨mode, ⟨number, fun _ => ?_, fun hl => (ended hl).elim⟩, buffer ▸ sized',
          fun _ _ => ⟨[], ?_, ?_⟩, fun hl => (ended hl).elim, produced ▸ List.prefix_rfl⟩
        · rw [blockSize]
          exact (cuts.full last).snoc (List.length_append.trans filled)
        · rw [buffer, flag, ops]
          exact loads
        · rw [List.append_nil, produced]
      · rw [sent]
        exact next
      · rw [sent]
        exact le_rfl
      · simp [sent] at nothing

/-- A completed read brings its bytes, and the block goes out when it is
complete. -/
theorem dispatch_data {sys : Sys} {m : ℕ} (h : w.Serving stream arriving blocks)
    (ht : w.control.Tidy) (hops : w.inflight = pre ++ op :: post) (hop : op.isFetch)
    (hm : m = op.arrived) :
    wp (dispatch (.dataAvailable (.ok m)))
      (fun _ w' => ∃ extra, w'.log = w.log ++ extra ∧
        w'.Serving (stream ++ arriving) [] (blocks ++ payloads extra) ∧
        w'.session.nextDataPacketToSend =
          w.session.nextDataPacketToSend + UInt16.ofNat (payloads extra).length ∧
        (payloads extra).length ≤ 1 ∧
        (payloads extra = [] → w.buffer.Incomplete arriving.length sys.atEndOfFile))
      (fun _ _ => True) { w with inflight := pre ++ post, sys := sys } := by
  obtain ⟨idle, last, part, loads, hs⟩ := h.reading ht hops hop
  obtain ⟨hl, whole, arrived, hold⟩ := loads.awaits.arrived
  rw [hm, arrived, dispatch, wp_bind, wp_jobDone, wp_bind, wp_modify]
  refine onDataAvailable_serving (h.cuts.congr ?_) ?_ ?_ ?_ rfl idle ?_ ?_ ?_ hs
  · rfl
  · exact h.sized
  · exact last
  · exact h.mode
  · exact hl
  · exact whole
  · exact ⟨hold.le, hold.bytes⟩

/-- A read that fails closes the session, which then reads no more. -/
theorem dispatch_failed {sys : Sys} {e : Errno} (h : w.Serving stream arriving blocks) :
    wp (dispatch (.dataAvailable (.error e)))
      (fun _ w' => w'.Serving stream [] blocks) (fun _ _ => True)
      { w with inflight := pre ++ post, sys := sys } := by
  rw [dispatch, wp_bind, wp_jobDone, wp_bind, wp_modify]
  generalize hv : ({ session := _, sys := _, inflight := _, log := _ } : World) = v
  obtain ⟨buffer, idle, mode⟩ : v.buffer = w.buffer ∧ v.session.isFetchingData = false ∧
      v.session.mode = .octet := by
    subst hv
    exact ⟨rfl, rfl, h.mode⟩
  rw [onDataAvailable, wp_bind, wp_session, if_pos mode]
  have closes : wp readFailure (fun _ w' => w'.control = v.control.close) (fun _ _ => True) v := by
    simp only [readFailure, wp_bind, wp_modify, wp_recordFailure, wp_session]
    exact (Fixes.sendErrorPacket _ : Unmoved _).wp fun _ _ ht => ht
  refine wp_mono (wp_and (readFailure_source.wp (w := v) fun _ _ same => same) closes) ?_
    fun _ _ _ => trivial
  rintro _ w' ⟨source, control⟩
  have buffer' : w'.buffer = w.buffer := (congrArg Source.buffer source).trans buffer
  have closing : w'.session.shouldClose = true := congrArg Control.shouldClose control
  have flag : w'.session.isFetchingData = false :=
    (congrArg Control.isFetchingData control).trans idle
  refine ⟨(congrArg Buffer.mode buffer').trans h.mode, h.cuts.congr buffer', buffer' ▸ h.sized,
    fun _ running => ?_, fun hl => h.ended (congrArg (fun b => b.lastPacket.isSome) buffer' ▸ hl),
    h.sent⟩
  rw [closing, flag] at running
  simp at running

/-- The read-ahead asks for the rest of the block that is loaded. -/
theorem fetchData_serving (h : w.Serving stream arriving blocks) :
    wp fetchData (fun _ w' => w'.Serving stream arriving blocks ∧
      w'.session.nextDataPacketToSend = w.session.nextDataPacketToSend ∧
        w'.session.lastPacket = w.session.lastPacket ∧
        ∃ rest, w'.log = w.log ++ rest ∧ payloads rest = []) (fun _ _ => True) w := by
  refine wp_mono (wp_and (fetchData_spec h.mode) (fetchData_moves w)) ?_ fun _ _ _ => trivial
  rintro _ w' ⟨reads, -, op, -, control⟩
  by_cases fetches : shouldFetchData w.session = true
  · rw [if_pos fetches] at reads
    obtain ⟨buffer, ops, log⟩ := reads
    have moved : w.control.shouldFetch = true := (control_shouldFetch w).trans fetches
    rw [Control.fetch, if_pos moved] at control
    simp only [Control.shouldFetch, Bool.and_eq_true, Bool.not_eq_true', Option.isNone_iff_eq_none]
      at moved
    obtain ⟨⟨⟨⟨⟨-, idle⟩, isOpen⟩, -⟩, last⟩, -⟩ := moved
    have last' : w.session.lastPacket = none := last
    have idle' : w.session.isFetchingData = false := idle
    obtain ⟨part, loads, hs⟩ := h.loads last' (.inl isOpen)
    rw [idle'] at loads
    have next : w'.session.nextDataPacketToSend = w.session.nextDataPacketToSend :=
      congrArg Buffer.nextDataPacketToSend buffer
    have blockSize : w'.session.blockSize = w.session.blockSize := congrArg Buffer.blockSize buffer
    have lastPacket : w'.session.lastPacket = none :=
      (congrArg Buffer.lastPacket buffer).trans last'
    have ended (hl : w'.session.lastPacket.isSome) : False := by
      rw [lastPacket] at hl
      simp at hl
    have flag : w'.session.isFetchingData = true := congrArg Control.isFetchingData control
    have none_left : w.inflight.filter Op.isFetch = [] := by
      have awaits := loads.awaits
      generalize w.inflight.filter Op.isFetch = ops at awaits
      cases awaits
      rfl
    have one : w'.inflight.filter Op.isFetch = [w.buffer.fetch] := by
      rw [ops, List.filter_append, none_left]
      rfl
    rw [none_left] at loads
    refine ⟨⟨(congrArg Buffer.mode buffer).trans h.mode, ?_, buffer ▸ h.sized, fun _ _ => ?_,
      fun hl => (ended hl).elim, h.sent⟩, next, lastPacket.trans last'.symm, _, log, rfl⟩
    · exact ⟨next ▸ h.cuts.next, fun _ => blockSize ▸ h.cuts.full last', fun hl => (ended hl).elim⟩
    · rw [buffer, flag, one]
      exact ⟨part, loads.awaits.fetched loads.holds, hs⟩
  · rw [if_neg fetches] at reads
    obtain ⟨buffer, ops, log⟩ := reads
    have stays : w.control.shouldFetch ≠ true := fun moved =>
      fetches ((control_shouldFetch w).symm.trans moved)
    rw [Control.fetch, if_neg stays] at control
    refine ⟨h.congr buffer (congrArg Control.isFetchingData control) (congrArg (List.filter _) ops)
      fun hc => (congrArg Control.shouldClose control).symm.trans hc,
      congrArg Buffer.nextDataPacketToSend buffer, congrArg Buffer.lastPacket buffer, [],
      log.trans (List.append_nil _).symm, rfl⟩

/-- What follows `dispatch` within a call. -/
theorem rest (h : w.Serving stream arriving blocks) :
    wp (do
        fetchData
        finish)
      (fun _ w' => w'.Serving stream arriving blocks ∧
        w'.session.nextDataPacketToSend = w.session.nextDataPacketToSend ∧
          w'.session.lastPacket = w.session.lastPacket ∧
          ∃ rest, w'.log = w.log ++ rest ∧ payloads rest = []) (fun _ _ => True) w := by
  refine wp_bind.mpr (wp_mono h.fetchData_serving ?_ fun _ _ _ => trivial)
  rintro _ t ⟨serving, next, last, log, hlog, none_⟩
  refine wp_finish.mpr ⟨fun _ => ⟨?_, next, last, log ++ t.session.closingEntries, ?_, ?_⟩,
    fun _ => ⟨serving, next, last, log, hlog, none_⟩⟩
  · exact serving.congr rfl rfl rfl id
  · show t.log ++ t.session.closingEntries = w.log ++ (log ++ t.session.closingEntries)
    rw [hlog, List.append_assoc]
  · rw [payloads_append, none_, payloads_closing, List.append_nil]

/-- A session starts to read the first block. -/
theorem of_blank (hmode : w.session.mode = .octet) (h : w.buffer.Blank)
    (hi : w.session.isFetchingData = false) (hf : w.inflight.filter Op.isFetch = []) :
    w.Serving [] [] [] where
  mode := hmode
  cuts := h.cuts
  sized := h.sized
  loads _ _ := by
    rw [hi, hf]
    have done : w.buffer.done.toNat = 0 := by
      rw [Buffer.done, if_neg (by simp [h.incompleteRead])]
      rfl
    exact ⟨[], ⟨⟨Nat.zero_le _, fun _ _ => rfl⟩, .idle done rfl⟩, rfl⟩
  ended hl := by
    have last : w.session.lastPacket = none := h.lastPacket
    simp [last] at hl
  sent := List.prefix_rfl

end World.Serving

end Tftp.Server
