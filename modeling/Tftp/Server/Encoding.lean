import Tftp.Netascii
import Tftp.Server.BlockSize
import Tftp.Server.Stream
import Tftp.Server.Trace

/-!
# The blocks of a netascii session

The encoder of a netascii session fills a whole block when it runs and leaves at
most one byte over for the next one. Between two calls the blocks that went out,
the block at hand, the byte that is left over and the rest of the file make up
the output of the encoder for the whole file.
-/

namespace Tftp.Server

open Prog Act Blocks Netascii

/-! ## One block -/

section Loop

variable {w : World} {fd : ℤ} {size rounds : ℕ} {block rest : Bytes}

theorem wp_readByte {Q : ByteRead → World → Prop} {E : Abort → World → Prop} :
    wp (readByte fd) Q E w ↔ Q (w.sys.byteReads.headD .endOfFile)
      { w with
        sys := { w.sys with byteReads := w.sys.byteReads.tail }
        log := w.log ++ [.read fd] } := Iff.rfl

/-- The encoder has put `block` in the packet and has `rest` still to read. -/
structure World.Packs (w : World) (size : ℕ) (block rest total : Bytes) : Prop where
  reads : w.sys.byteReads = rest.map .byte
  output : pendingOutput size block w.session.netasciiBuffer rest = total
  le : block.length ≤ size

/-- A round takes a byte from the file and puts it in the block. Only the first
one finds a byte that was left over, and only a full block leaves one. -/
theorem netasciiLoop_spec {total : Bytes} (hsize : 2 ≤ size) (hr : size - block.length ≤ rounds)
    (hleft : w.session.netasciiBuffer = none ∨ block = [] ∨ block.length = size)
    (h : w.Packs size block rest total) :
    wp (netasciiLoop fd size rounds block) (fun block' w' => ∃ rest',
        w'.Packs size block' rest' total ∧ rest' <:+ rest ∧
          (block'.length < size → w'.session.netasciiBuffer = none ∧ rest' = []))
      (fun _ _ => True) w := by
  induction rounds generalizing w block rest with
  | zero =>
      have le := h.le
      exact ⟨rest, h, List.suffix_rfl, fun hlt => by omega⟩
  | succ rounds ih =>
      rw [netasciiLoop, wp_ite]
      refine ⟨fun hlt => ?_, fun hge => ⟨rest, h, List.suffix_rfl, fun hlt => (hge hlt).elim⟩⟩
      rw [wp_bind, wp_session]
      dsimp only
      rw [wp_bind, wp_modify, wp_bind, wp_readByte]
      -- what was left over is put first
      have output := (pendingOutput_left block w.session.netasciiBuffer rest).trans h.output
      have room : (block ++ w.session.netasciiBuffer.toList).length < size := by
        rcases hleft with hn | rfl | hfull
        · simpa [hn] using hlt
        · cases w.session.netasciiBuffer <;> simp <;> omega
        · omega
      have grown : size - (block ++ w.session.netasciiBuffer.toList).length ≤ rounds + 1 := by
        rw [List.length_append]
        omega
      generalize block ++ w.session.netasciiBuffer.toList = block₁ at output room grown ⊢
      dsimp only
      rw [h.reads]
      cases rest with
      | nil => exact ⟨[], ⟨rfl, output, room.le⟩, List.suffix_rfl, fun _ => ⟨rfl, rfl⟩⟩
      | cons c rest =>
          -- the rounds that follow read the rest
          have later : ∀ block₂ left, size - block₂.length ≤ rounds →
              (left = none ∨ block₂.length = size) →
              pendingOutput size block₂ left rest = total → block₂.length ≤ size →
              wp (netasciiLoop fd size rounds block₂) (fun block' w' => ∃ rest',
                  w'.Packs size block' rest' total ∧ rest' <:+ c :: rest ∧
                    (block'.length < size → w'.session.netasciiBuffer = none ∧ rest' = []))
                (fun _ _ => True)
                { w with
                  session := { w.session with netasciiBuffer := left }
                  sys := { w.sys with byteReads := rest.map .byte }
                  log := w.log ++ [.read fd] } := by
            intro block₂ left hr' hleft' output' le'
            refine wp_mono (ih hr' (hleft'.imp_right .inr) ⟨rfl, output', le'⟩) ?_
              fun _ _ _ => trivial
            rintro block' w' ⟨rest', packs, suffix, short⟩
            exact ⟨rest', packs, suffix.trans (List.suffix_cons c rest), short⟩
          have placed : (block₁ ++ [c]).length = block₁.length + 1 := List.length_append
          rw [List.map_cons, List.headD_cons, List.tail_cons]
          refine wp_ite.mpr ⟨fun hc => wp_ite.mpr ⟨fun hfull => ?_, fun hroom => ?_⟩, fun hc => ?_⟩
          · -- the second byte is left over
            rw [wp_bind, wp_modify]
            refine later _ (some c) ?_ (.inr hfull) ?_ hfull.le
            · omega
            · rw [pendingOutput_boundary (by omega) hc, output]
          · have both : block₁ ++ [c] ++ [if c = 10 then 13 else 0] =
                block₁ ++ put size block₁.length c := by
              have inside : ¬block₁.length + 1 = size := fun he => hroom (placed.trans he)
              rw [put, if_pos hc, if_neg inside, List.append_assoc]
              rfl
            refine later _ none ?_ (.inl rfl) ?_ ?_
            · rw [List.length_append, placed, List.length_singleton]
              omega
            · rw [both, pendingOutput_put room, output]
            · rw [List.length_append, placed, List.length_singleton]
              omega
          · have single : block₁ ++ [c] = block₁ ++ put size block₁.length c := by
              rw [put, if_neg hc]
            refine later _ none ?_ (.inl rfl) ?_ ?_
            · omega
            · rw [single, pendingOutput_put room, output]
            · omega

/-- No block gets more bytes than it has room for. -/
theorem netasciiLoop_le (hsize : 2 ≤ size) (hr : size - block.length ≤ rounds)
    (hleft : w.session.netasciiBuffer = none ∨ block = [] ∨ block.length = size)
    (hle : block.length ≤ size) :
    wp (netasciiLoop fd size rounds block) (fun block' _ => block'.length ≤ size)
      (fun _ _ => True) w := by
  induction rounds generalizing w block with
  | zero => exact hle
  | succ rounds ih =>
      rw [netasciiLoop, wp_ite]
      refine ⟨fun hlt => ?_, fun _ => hle⟩
      rw [wp_bind, wp_session]
      dsimp only
      rw [wp_bind, wp_modify, wp_bind, wp_readByte]
      have room : (block ++ w.session.netasciiBuffer.toList).length < size := by
        rcases hleft with hn | rfl | hfull
        · simpa [hn] using hlt
        · cases w.session.netasciiBuffer <;> simp <;> omega
        · omega
      have grown : size - (block ++ w.session.netasciiBuffer.toList).length ≤ rounds + 1 := by
        rw [List.length_append]
        omega
      generalize block ++ w.session.netasciiBuffer.toList = block₁ at room grown ⊢
      dsimp only
      cases w.sys.byteReads.headD .endOfFile with
      | endOfFile => exact room.le
      | failed => exact trivial
      | byte c =>
          have placed : (block₁ ++ [c]).length = block₁.length + 1 := List.length_append
          refine wp_ite.mpr ⟨fun _ => wp_ite.mpr ⟨fun hfull => ?_, fun hroom => ?_⟩, fun _ => ?_⟩
          · rw [wp_bind, wp_modify]
            exact ih (by omega) (.inr (.inr hfull)) hfull.le
          · have two (b : UInt8) : (block₁ ++ [c] ++ [b]).length = block₁.length + 2 := by simp
            refine ih ?_ (.inl rfl) ?_
            · rw [two]
              omega
            · rw [two]
              omega
          · exact ih (by omega) (.inl rfl) (by omega)

end Loop

/-- The completion tells an encoder nothing. -/
theorem wp_onDataAvailable_encoded {w : World} {r : Completion ℕ} {Q : Unit → World → Prop}
    {E : Abort → World → Prop} (hm : w.session.mode ≠ .octet) :
    wp (onDataAvailable r) Q E w ↔ wp sendNextBlock Q E w := by
  cases r with
  | ok k => rw [onDataAvailable, wp_bind, wp_session, if_neg hm]
  | error e => rw [onDataAvailable, wp_bind, wp_session, if_neg hm]

/-- What the encoder leaves alone. -/
def World.frame (w : World) : Buffer × Bool × Bool × List Op :=
  (w.buffer, w.session.isFetchingData, w.session.shouldClose, w.inflight)

instance : Blind World.frame := ⟨fun _ _ => rfl, fun _ _ _ => rfl, fun _ _ _ _ => rfl⟩

instance : Unlogged World.frame := ⟨fun _ _ => rfl⟩

/-! ## A session between two calls -/

namespace Buffer

variable {b : Buffer} {slots : ℕ → Slot} {block : Bytes}

/-- The slots once `block` is in that of the next block. -/
def place (b : Buffer) (slots : ℕ → Slot) (block : Bytes) : ℕ → Slot :=
  updateSlot slots (b.slotOf b.nextDataPacketToSend) fun slot =>
    { blockNumber := b.nextDataPacketToSend, data := poke slot.data 0 block }

/-- The encoder has put `block` in its slot. -/
def pack (b : Buffer) (slots : ℕ → Slot) (block : Bytes) : Buffer :=
  { b with dataPackets := some slots, lastBlockSize := UInt16.ofNat block.length }

theorem pack_holds (h : block.length ≤ b.blockSize.toNat) :
    (b.pack (b.place slots block) block).Holds block := by
  refine ⟨h, fun slots' hs => ?_⟩
  obtain rfl := Option.some.inj hs
  have here : (b.place slots block (b.slotOf b.nextDataPacketToSend)).data =
      poke (slots (b.slotOf b.nextDataPacketToSend)).data 0 block := by
    rw [place, updateSlot, if_pos rfl]
  show ((b.place slots block) (b.slotOf b.nextDataPacketToSend)).data.take block.length = block
  rw [here, poke]
  simp

theorem pack_sized (hs : b.Sized) (hd : b.dataPackets = some slots)
    (h : block.length ≤ b.blockSize.toNat) : (b.pack (b.place slots block) block).Sized := by
  intro slots' hs' j
  obtain rfl := Option.some.inj hs'
  have size := hs slots hd j
  show (b.place slots block j).data.length = b.blockSize.toNat
  unfold place updateSlot
  split
  · show (poke (slots j).data 0 block).length = b.blockSize.toNat
    simp [poke]
    omega
  · exact size

end Buffer

/-- What is in the slot of the next block. -/
def Buffer.block (b : Buffer) (slots : ℕ → Slot) : Bytes :=
  (slots (b.slotOf b.nextDataPacketToSend)).data.take b.lastBlockSize.toNat

/-- A session that encodes its file, and has sent `blocks`. -/
structure World.Encodes (w : World) (blocks : List Bytes) : Prop where
  mode : w.session.mode ≠ .octet
  size : 8 ≤ w.session.blockSize.toNat
  cuts : w.session.Cuts blocks
  sized : w.buffer.Sized
  nops : ∀ op ∈ w.inflight.filter Op.isFetch, op = .nop
  fits : w.session.isFetchingData → w.session.lastBlockSize.toNat ≤ w.session.blockSize.toNat

namespace World.Encodes

variable {w w' : World} {blocks : List Bytes} {pre post : List Op} {op : Op}

/-- What neither the buffer nor its intake shows does not matter. -/
theorem congr (h : w.Encodes blocks) (hb : w'.buffer = w.buffer)
    (hi : w'.session.isFetchingData = w.session.isFetchingData)
    (hf : w'.inflight.filter Op.isFetch = w.inflight.filter Op.isFetch) : w'.Encodes blocks := by
  have mode : w'.session.mode = w.session.mode := congrArg Buffer.mode hb
  have size : w'.session.blockSize = w.session.blockSize := congrArg Buffer.blockSize hb
  have fill : w'.session.lastBlockSize = w.session.lastBlockSize := congrArg Buffer.lastBlockSize hb
  refine ⟨mode ▸ h.mode, size ▸ h.size, h.cuts.congr hb, hb ▸ h.sized, hf ▸ h.nops, fun hi' => ?_⟩
  rw [fill, size]
  exact h.fits (hi ▸ hi')

theorem of_blank (hmode : w.session.mode ≠ .octet) (hsize : 8 ≤ w.session.blockSize.toNat)
    (h : w.buffer.Blank) (hi : w.session.isFetchingData = false)
    (hf : w.inflight.filter Op.isFetch = []) : w.Encodes [] where
  mode := hmode
  size := hsize
  cuts := h.cuts
  sized := h.sized
  nops op hm := by simp [hf] at hm
  fits hi' := by simp [hi] at hi'

/-- The events that complete no read leave the blocks alone. -/
theorem dispatch_other {e : Event} (he : e ≠ .start) (hd : ∀ r, e ≠ .dataAvailable r)
    (h : w.Encodes blocks) :
    wp (dispatch e) (fun _ w' => w'.Encodes blocks) (fun _ _ => True) w := by
  refine (dispatch_source he hd).wp fun _ w' same => ?_
  have intake := congrArg Source.intake same
  exact h.congr (congrArg Source.buffer same) (congrArg Intake.isFetchingData intake)
    (congrArg Intake.fetches intake)

/-- A completion finds the block at hand in its slot. -/
theorem ready (h : w.Encodes blocks) (ht : w.control.Tidy) (hops : w.inflight = pre ++ op :: post)
    (hop : op.isFetch) : op = .nop ∧ (pre ++ post).filter Op.isFetch = [] ∧
      w.session.isFetchingData = true ∧ w.session.lastPacket = none := by
  obtain ⟨-, fetching⟩ := ht.removeFetch hops hop
  have count := ht.fetches
  have one : (w.inflight.filter Op.isFetch).length = 1 := by
    rw [← List.countP_eq_length_filter]
    exact count.trans (if_pos fetching)
  obtain ⟨op', hone⟩ := List.length_eq_one_iff.mp one
  rw [hops] at hone
  obtain ⟨rfl, none_left⟩ := fetches_split hop hone
  refine ⟨h.nops op ?_, none_left, fetching, (ht.fetching fetching).2.2⟩
  rw [hops, hone]
  exact List.mem_singleton_self _

/-- The block at hand goes out. -/
theorem dispatch_data {sys : Sys} {r : Completion ℕ} (h : w.Encodes blocks)
    (ht : w.control.Tidy) (hops : w.inflight = pre ++ op :: post) (hop : op.isFetch) :
    wp (dispatch (.dataAvailable r))
      (fun _ w' => ∃ slots extra, w.session.dataPackets = some slots ∧
        w'.log = w.log ++ extra ∧ payloads extra = [w.buffer.block slots] ∧
        w'.Encodes (blocks ++ [w.buffer.block slots]) ∧ w'.buffer = w.buffer.sent ∧
        w'.intake = { w.intake with
          isFetchingData := false, fetches := [], byteReads := sys.byteReads })
      (fun _ _ => True) { w with inflight := pre ++ post, sys := sys } := by
  obtain ⟨rfl, none_left, fetching, last⟩ := h.ready ht hops hop
  have mode' := h.mode
  rw [dispatch, wp_bind, wp_jobDone, wp_bind, wp_modify]
  refine (wp_onDataAvailable_encoded ?_).mpr (wp_mono (wp_and sendNextBlock_spec
    (sendNextBlock_intake.wp fun _ _ same => same)) ?_ fun _ _ _ => trivial)
  · exact mode'
  rintro _ w' ⟨⟨slots, hs, buffer, log⟩, intake⟩
  have slots_eq : w.session.dataPackets = some slots := hs
  have buffer' : w'.buffer = w.buffer.sent := buffer
  have intake' : w'.intake = { w.intake with
      isFetchingData := false, fetches := [], byteReads := sys.byteReads } :=
    intake.trans (congrArg (fun ops => Intake.mk false ops w.session.netasciiBuffer sys.byteReads)
      none_left)
  have size : w'.session.blockSize = w.session.blockSize := congrArg Buffer.blockSize buffer'
  have next : w'.session.nextDataPacketToSend = w.session.nextDataPacketToSend + 1 :=
    congrArg Buffer.nextDataPacketToSend buffer'
  have lastSize : w'.session.lastBlockSize = w.session.lastBlockSize :=
    congrArg Buffer.lastBlockSize buffer'
  have lastPacket : w'.session.lastPacket =
      if w.session.lastBlockSize < w.session.blockSize then some w.session.nextDataPacketToSend
      else w.session.lastPacket := congrArg Buffer.lastPacket buffer'
  -- the slot has room for the block
  have length : (w.buffer.block slots).length = w.session.lastBlockSize.toNat := by
    have area := h.sized slots slots_eq (w.buffer.slotOf w.buffer.nextDataPacketToSend)
    have fits : w.buffer.lastBlockSize.toNat ≤ w.buffer.blockSize.toNat := h.fits fetching
    rw [Buffer.block, List.length_take, area]
    exact Nat.min_eq_left fits
  have number : UInt16.ofNat ((blocks ++ [w.buffer.block slots]).length + 1) =
      w'.session.nextDataPacketToSend := by
    rw [List.length_append, List.length_singleton, Serial.ofNat_succ, h.cuts.next, next]
  refine ⟨slots, _, slots_eq, log, rfl, ?_, buffer', intake'⟩
  have flag : w'.session.isFetchingData = false := congrArg Intake.isFetchingData intake'
  have ops : w'.inflight.filter Op.isFetch = [] := congrArg Intake.fetches intake'
  refine ⟨?_, size ▸ h.size, ⟨number, fun hn => ?_, fun hn => ?_⟩, ?_, fun op hm => ?_, fun hf => ?_⟩
  · have mode : w'.session.mode = w.session.mode := congrArg Buffer.mode buffer'
    exact mode ▸ h.mode
  · -- a full block is followed by the next
    have full : ¬w.session.lastBlockSize < w.session.blockSize := by
      intro short
      rw [lastPacket, if_pos short] at hn
      simp at hn
    rw [UInt16.lt_iff_toNat_lt] at full
    have filled : (w.buffer.block slots).length = w.session.blockSize.toNat := by
      have fits := h.fits fetching
      omega
    rw [size]
    exact (h.cuts.full last).snoc filled
  · have short : w.session.lastBlockSize < w.session.blockSize := by
      by_contra full
      rw [lastPacket, if_neg full, last] at hn
      simp at hn
    refine ⟨blocks, _, rfl, ?_, ?_, ?_⟩
    · rw [size]
      exact h.cuts.full last
    · rw [length, lastSize]
    · rw [length, size]
      exact UInt16.lt_iff_toNat_lt.mp short
  · rw [buffer']
    exact h.sized
  · simp [ops] at hm
  · simp [flag] at hf

/-- What the read-ahead does with a session that is to be read for. -/
theorem wp_fetchData_encoded {Q : World → Prop} (h : w.Encodes blocks)
    (hidle : ¬shouldFetchData w.session → Q w)
    (hpack : ∀ slots v, shouldFetchData w.session → w.session.dataPackets = some slots →
      v.frame = (w.buffer, true, w.session.shouldClose, w.inflight) →
      v.session.netasciiBuffer = w.session.netasciiBuffer → v.sys = w.sys → v.log = w.log →
      wp (netasciiLoop v.session.fileDescriptor w.session.blockSize.toNat
          w.session.blockSize.toNat [])
        (fun block t => ∀ u : World, u.buffer = w.buffer.pack (w.buffer.place slots block) block →
          u.session.isFetchingData = true → u.session.shouldClose = w.session.shouldClose →
          u.inflight = w.inflight ++ [.nop] →
          u.session.netasciiBuffer = t.session.netasciiBuffer →
          u.sys.byteReads = t.sys.byteReads → u.log = t.log → Q u) (fun _ _ => True) v) :
    wp fetchData (fun _ w' => Q w') (fun _ _ => True) w := by
  have octet := h.mode
  rw [fetchData, wp_bind, wp_session, wp_ite]
  refine ⟨fun fetches => ?_, hidle⟩
  rw [wp_bind, wp_modify, if_neg octet]
  generalize hv : ({ session := _, sys := _, inflight := _, log := _ } : World) = v
  have begun : v.frame = (w.buffer, true, w.session.shouldClose, w.inflight) ∧
      v.session.netasciiBuffer = w.session.netasciiBuffer ∧ v.sys = w.sys ∧ v.log = w.log := by
    subst hv
    exact ⟨rfl, rfl, rfl, rfl⟩
  obtain ⟨frame, left, sys, log⟩ := begun
  have same : v.session.blockSize = w.session.blockSize := congrArg (fun f => f.1.blockSize) frame
  rw [fetchDataNetasciiAsync, wp_bind, wp_session]
  refine wp_ite.mpr ⟨fun _ => trivial, fun _ => ?_⟩
  cases hs : v.session.dataPackets with
  | none =>
      dsimp only
      rw [wp_bind, wp_readByte]
      exact wp_ite.mpr ⟨fun _ => trivial, fun _ => trivial⟩
  | some slots =>
      dsimp only
      have buffer₀ : v.buffer = w.buffer := congrArg Prod.fst frame
      have allocated : w.session.dataPackets = some slots :=
        (congrArg Buffer.dataPackets buffer₀).symm.trans hs
      rw [same]
      refine wp_bind.mpr (wp_mono (wp_and ((Fixes.netasciiLoop _ _ _ _ : Fixes World.frame _).wp
        fun _ _ same => same) (hpack slots v fetches allocated frame left sys log)) ?_
          fun _ _ _ => trivial)
      rintro block t ⟨frame', done⟩
      rw [frame] at frame'
      have buffer : t.buffer = w.buffer := congrArg Prod.fst frame'
      have flag : t.session.isFetchingData = true := congrArg (fun f => f.2.1) frame'
      have closing : t.session.shouldClose = w.session.shouldClose := congrArg (fun f => f.2.2.1) frame'
      have ops : t.inflight = w.inflight := congrArg (fun f => f.2.2.2) frame'
      rw [wp_bind, wp_modify, wp_bind, wp_submit]
      refine ⟨fun _ => ?_, fun _ => trivial⟩
      rw [wp_modify]
      refine done _ ?_ flag closing (congrArg (· ++ [.nop]) ops) rfl rfl rfl
      refine Eq.trans (b := t.buffer.pack (v.buffer.place slots block) block) rfl ?_
      rw [buffer, buffer₀]

end World.Encodes

/-- A session that is to be read for has no read in flight and has not sent its
last block. -/
theorem World.fetches {w : World} (h : shouldFetchData w.session) :
    w.session.isFetchingData = false ∧ w.session.shouldClose = false ∧
      w.session.lastPacket = none := by
  simp only [shouldFetchData, Bool.and_eq_true, Bool.not_eq_true', Option.isNone_iff_eq_none] at h
  exact ⟨h.1.1.1.1.2, h.1.1.1.2, h.1.2⟩

namespace World.Encodes

variable {w w' : World} {blocks : List Bytes}

/-- The encoder has run for the next block. -/
theorem pack {slots : ℕ → Slot} {block : Bytes} (h : w.Encodes blocks)
    (hs : w.session.dataPackets = some slots) (hlast : w.session.lastPacket = none)
    (hle : block.length ≤ w.session.blockSize.toNat)
    (hb : w'.buffer = w.buffer.pack (w.buffer.place slots block) block)
    (ho : w'.inflight = w.inflight ++ [.nop]) : w'.Encodes blocks := by
  have mode : w'.session.mode = w.session.mode := congrArg Buffer.mode hb
  have size : w'.session.blockSize = w.session.blockSize := congrArg Buffer.blockSize hb
  have lastPacket : w'.session.lastPacket = none := (congrArg Buffer.lastPacket hb).trans hlast
  have next : w'.session.nextDataPacketToSend = w.session.nextDataPacketToSend :=
    congrArg Buffer.nextDataPacketToSend hb
  refine ⟨mode ▸ h.mode, size ▸ h.size, ⟨next ▸ h.cuts.next, fun _ => size ▸ h.cuts.full hlast,
    fun hl => ?_⟩, ?_, fun op hm => ?_, fun _ => ?_⟩
  · rw [lastPacket] at hl
    simp at hl
  · rw [hb]
    exact Buffer.pack_sized h.sized hs hle
  · rw [ho, List.filter_append] at hm
    rcases List.mem_append.mp hm with hm | hm
    · exact h.nops op hm
    · exact List.mem_singleton.mp hm
  · have fill : w'.session.lastBlockSize = UInt16.ofNat block.length :=
      congrArg Buffer.lastBlockSize hb
    rw [fill, size, UInt16.toNat_ofNat']
    exact (Nat.mod_le _ _).trans hle

/-- The read-ahead keeps to the size of a block. -/
theorem fetchData_encodes (h : w.Encodes blocks) :
    wp fetchData (fun _ w' => w'.Encodes blocks) (fun _ _ => True) w := by
  refine h.wp_fetchData_encoded (fun _ => h) fun slots v fetches hs _ left _ _ => ?_
  obtain ⟨-, -, last⟩ := World.fetches fetches
  have two : 2 ≤ w.session.blockSize.toNat := le_trans (by decide) h.size
  refine wp_mono (netasciiLoop_le two (Nat.sub_le _ _) (.inr (.inl rfl)) (Nat.zero_le _)) ?_
    fun _ _ _ => trivial
  intro block t hle u hb _ _ ho _ _ _
  exact h.pack hs last hle hb ho

/-- What follows `dispatch` within a call. -/
theorem ends (h : w.Encodes blocks) :
    wp (do
        fetchData
        finish) (fun _ w' => w'.Encodes blocks) (fun _ _ => True) w := by
  refine wp_bind.mpr (wp_mono h.fetchData_encodes ?_ fun _ _ _ => trivial)
  intro _ t encodes
  exact wp_finish.mpr ⟨fun _ => encodes.congr rfl rfl rfl, fun _ => encodes⟩

end World.Encodes

/-- The read-ahead sends nothing. -/
theorem fetchData_unsent (w : World) : wp fetchData
    (fun _ w' => ∃ log, w'.log = w.log ++ log ∧ payloads log = []) (fun _ _ => True) w := by
  have reads : Logs w.session.fileDescriptor w.session.sockfd (fun e => e.payload? = none)
      fetchData := fetchData_logs rfl
  refine reads.wp (.refl (.inl fun _ => rfl)) (fun _ w' grows => ?_) fun _ _ _ => trivial
  obtain ⟨log, hlog, none_⟩ := grows.log
  exact ⟨log, hlog, List.filterMap_eq_nil_iff.mpr none_⟩

/-! ## A netascii session between two calls -/

/-- The block the encoder has put in the next slot, if it has run for it. A
short block is the end of the file. -/
inductive Buffer.Packed (b : Buffer) (left : Option UInt8) (rest : Bytes) :
    Bytes → Bool → List Op → Prop where
  | idle : b.Packed left rest [] false []
  | ready (block : Bytes) : b.lastBlockSize.toNat = block.length → b.Holds block →
      (block.length < b.blockSize.toNat → left = none ∧ rest = []) →
      b.Packed left rest block true [.nop]

/-- A session that has `rest` of `content` still to encode, and has sent
`blocks`. -/
structure World.Encoding (w : World) (content rest : Bytes) (blocks : List Bytes) : Prop where
  encodes : w.Encodes blocks
  reads : w.sys.byteReads = rest.map .byte
  packed : w.session.lastPacket = none → w.session.shouldClose = false ∨ w.session.isFetchingData →
    ∃ block, w.buffer.Packed w.session.netasciiBuffer rest block w.session.isFetchingData
        (w.inflight.filter Op.isFetch) ∧
      blocks.flatten ++
        pendingOutput w.session.blockSize.toNat block w.session.netasciiBuffer rest =
          output w.session.blockSize.toNat 0 content
  ended : w.session.lastPacket.isSome →
    blocks.flatten = output w.session.blockSize.toNat 0 content

namespace World.Encoding

variable {w w' : World} {content rest : Bytes} {blocks : List Bytes} {pre post : List Op} {op : Op}

/-- What neither the buffer nor its intake shows does not matter. -/
theorem congr (h : w.Encoding content rest blocks) (hb : w'.buffer = w.buffer)
    (hi : w'.intake = w.intake)
    (hc : w'.session.shouldClose = false → w.session.shouldClose = false) :
    w'.Encoding content rest blocks := by
  have size : w'.session.blockSize = w.session.blockSize := congrArg Buffer.blockSize hb
  have last : w'.session.lastPacket = w.session.lastPacket := congrArg Buffer.lastPacket hb
  have flag : w'.session.isFetchingData = w.session.isFetchingData :=
    congrArg Intake.isFetchingData hi
  have ops : w'.inflight.filter Op.isFetch = w.inflight.filter Op.isFetch :=
    congrArg Intake.fetches hi
  have left : w'.session.netasciiBuffer = w.session.netasciiBuffer :=
    congrArg Intake.netasciiBuffer hi
  have reads : w'.sys.byteReads = w.sys.byteReads := congrArg Intake.byteReads hi
  refine ⟨h.encodes.congr hb flag ops, reads.trans h.reads, fun hl running => ?_, fun hl => ?_⟩
  · rw [hb, flag, ops, left, size]
    exact h.packed (last ▸ hl) (running.imp hc (flag ▸ ·))
  · rw [size]
    exact h.ended (last ▸ hl)

/-- A session starts with the whole file to read. -/
theorem of_blank (hmode : w.session.mode ≠ .octet) (hsize : 8 ≤ w.session.blockSize.toNat)
    (h : w.buffer.Blank) (hi : w.session.isFetchingData = false)
    (hf : w.inflight.filter Op.isFetch = []) (hn : w.session.netasciiBuffer = none)
    (hr : w.sys.byteReads = content.map .byte) : w.Encoding content content [] where
  encodes := .of_blank hmode hsize h hi hf
  reads := hr
  packed _ _ := by
    rw [hi, hf, hn]
    refine ⟨[], .idle, ?_⟩
    simp [pendingOutput]
  ended hl := by
    have last : w.session.lastPacket = none := h.lastPacket
    simp [last] at hl

/-- The events that complete no read leave the blocks alone. -/
theorem dispatch_other {e : Event} (he : e ≠ .start) (hd : ∀ r, e ≠ .dataAvailable r)
    (h : w.Encoding content rest blocks) :
    wp (dispatch e) (fun _ w' => w'.Encoding content rest blocks) (fun _ _ => True) w := by
  have fixed := (dispatch_source he hd).wp (w := w) fun _ _ same => same
  refine wp_mono (wp_and fixed (dispatch_moves e w)) ?_ fun _ _ _ => trivial
  rintro _ w' ⟨same, moves⟩
  exact h.congr (congrArg Source.buffer same) (congrArg Source.intake same) (moves.stays_closing he)

/-- The block at hand goes out. -/
theorem dispatch_data {sys : Sys} {r : Completion ℕ} (h : w.Encoding content rest blocks)
    (ht : w.control.Tidy) (hops : w.inflight = pre ++ op :: post) (hop : op.isFetch)
    (hsys : sys.byteReads = w.sys.byteReads) :
    wp (dispatch (.dataAvailable r))
      (fun _ w' => ∃ extra, w'.log = w.log ++ extra ∧
        w'.Encoding content rest (blocks ++ payloads extra))
      (fun _ _ => True) { w with inflight := pre ++ post, sys := sys } := by
  obtain ⟨-, -, fetching, last⟩ := h.encodes.ready ht hops hop
  obtain ⟨block, packed, total⟩ := h.packed last (.inr fetching)
  obtain ⟨hl, hold, short⟩ : w.buffer.lastBlockSize.toNat = block.length ∧ w.buffer.Holds block ∧
      (block.length < w.buffer.blockSize.toNat → w.session.netasciiBuffer = none ∧ rest = []) := by
    rw [fetching] at packed
    generalize w.inflight.filter Op.isFetch = ops at packed
    cases packed with
    | ready _ hl hold short => exact ⟨hl, hold, short⟩
  refine wp_mono (h.encodes.dispatch_data ht hops hop) ?_ fun _ _ _ => trivial
  rintro _ w' ⟨slots, extra, hs, log, sent, encodes, buffer, intake⟩
  have here : w.buffer.block slots = block := by
    rw [Buffer.block, hl]
    exact hold.bytes slots hs
  rw [here] at sent encodes
  refine ⟨extra, log, ?_⟩
  rw [sent]
  have flag : w'.session.isFetchingData = false := congrArg Intake.isFetchingData intake
  have ops : w'.inflight.filter Op.isFetch = [] := congrArg Intake.fetches intake
  have left : w'.session.netasciiBuffer = w.session.netasciiBuffer :=
    congrArg Intake.netasciiBuffer intake
  have reads : w'.sys.byteReads = w.sys.byteReads := (congrArg Intake.byteReads intake).trans hsys
  have size : w'.session.blockSize = w.session.blockSize := congrArg Buffer.blockSize buffer
  have lastPacket : w'.session.lastPacket =
      if w.session.lastBlockSize < w.session.blockSize then some w.session.nextDataPacketToSend
      else w.session.lastPacket := congrArg Buffer.lastPacket buffer
  have flat : (blocks ++ [block]).flatten = blocks.flatten ++ block := by
    rw [List.flatten_append, List.flatten_singleton]
  have shorter : w.session.lastBlockSize < w.session.blockSize ↔
      block.length < w.session.blockSize.toNat := by
    rw [UInt16.lt_iff_toNat_lt, show w.session.lastBlockSize.toNat = block.length from hl]
  refine ⟨encodes, reads.trans h.reads, fun hn _ => ⟨[], ?_, ?_⟩, fun hn => ?_⟩
  · rw [flag, ops]
    exact .idle
  · -- a full block is followed by the next
    have filled : block.length = w.session.blockSize.toNat := by
      refine le_antisymm hold.le (not_lt.mp fun hlt => ?_)
      rw [lastPacket, if_pos (shorter.mpr hlt)] at hn
      simp at hn
    rw [flat, size, left, ← total, pendingOutput_full filled, List.append_assoc]
  · -- a short block is the last
    have hlt : block.length < w.session.blockSize.toNat := by
      by_contra full
      rw [lastPacket, if_neg fun hs => full (shorter.mp hs), last] at hn
      simp at hn
    obtain ⟨nothing, finished⟩ := short hlt
    rw [flat, size, ← total, nothing, finished]
    simp [pendingOutput, output]

/-- The read-ahead puts the next block in its slot. -/
theorem fetchData_encoding (h : w.Encoding content rest blocks) :
    wp fetchData (fun _ w' => ∃ rest', rest' <:+ rest ∧ w'.Encoding content rest' blocks)
      (fun _ _ => True) w := by
  refine h.encodes.wp_fetchData_encoded (fun _ => ⟨rest, List.suffix_rfl, h⟩)
    fun slots v fetches hs _ left sys _ => ?_
  obtain ⟨idle, isOpen, last⟩ := World.fetches fetches
  obtain ⟨block, packed, total⟩ := h.packed last (.inl isOpen)
  obtain ⟨rfl, none_left⟩ : block = [] ∧ w.inflight.filter Op.isFetch = [] := by
    rw [idle] at packed
    generalize w.inflight.filter Op.isFetch = ops at packed
    cases packed
    exact ⟨rfl, rfl⟩
  have two : 2 ≤ w.session.blockSize.toNat := le_trans (by decide) h.encodes.size
  have reads : v.sys.byteReads = rest.map .byte := sys ▸ h.reads
  refine wp_mono (netasciiLoop_spec two (Nat.sub_le _ _) (.inr (.inl rfl))
    ⟨reads, rfl, Nat.zero_le _⟩) ?_ fun _ _ _ => trivial
  rintro block t ⟨rest', packs, suffix, short⟩ u hb flag _ ho left' reads' _
  have encodes := h.encodes.pack hs last packs.le hb ho
  have size : u.session.blockSize = w.session.blockSize := congrArg Buffer.blockSize hb
  have lastPacket : u.session.lastPacket = none := (congrArg Buffer.lastPacket hb).trans last
  have one : u.inflight.filter Op.isFetch = [.nop] := by
    rw [ho, List.filter_append, none_left]
    rfl
  refine ⟨rest', suffix, encodes, reads'.trans packs.reads, fun _ _ => ⟨block, ?_, ?_⟩, fun hl => ?_⟩
  · rw [hb, flag, one, left']
    refine .ready block ?_ (Buffer.pack_holds packs.le) short
    have bound := w.session.blockSize.toNat_lt
    have le := packs.le
    show (UInt16.ofNat block.length).toNat = block.length
    rw [UInt16.toNat_ofNat']
    omega
  · rw [left', size, packs.output, left]
    exact total
  · rw [lastPacket] at hl
    simp at hl

/-- What follows `dispatch` within a call. -/
theorem ends (h : w.Encoding content rest blocks) :
    wp (do
        fetchData
        finish)
      (fun _ w' => ∃ rest', rest' <:+ rest ∧ w'.Encoding content rest' blocks)
      (fun _ _ => True) w := by
  refine wp_bind.mpr (wp_mono h.fetchData_encoding ?_ fun _ _ _ => trivial)
  rintro _ t ⟨rest', suffix, encoding⟩
  refine wp_finish.mpr ⟨fun _ => ⟨rest', suffix, ?_⟩, fun _ => ⟨rest', suffix, encoding⟩⟩
  exact encoding.congr rfl rfl id

end World.Encoding

/-- After `dispatch` a call sends no block. -/
theorem rest_unsent (w : World) : wp (do
      fetchData
      finish)
    (fun _ w' => ∃ log, w'.log = w.log ++ log ∧ payloads log = []) (fun _ _ => True) w := by
  refine wp_bind.mpr (wp_mono (fetchData_unsent w) ?_ fun _ _ _ => trivial)
  rintro _ t ⟨log, hlog, none_⟩
  refine wp_finish.mpr ⟨fun _ => ⟨log ++ t.session.closingEntries, ?_, ?_⟩,
    fun _ => ⟨log, hlog, none_⟩⟩
  · show t.log ++ t.session.closingEntries = w.log ++ (log ++ t.session.closingEntries)
    rw [hlog, List.append_assoc]
  · rw [payloads_append, none_, payloads_closing, List.append_nil]

/-! ## Runs -/

/-- A no-op does not fail. -/
def Op.MayGive : Op → Event → Bool
  | .nop, .dataAvailable (.error _) => false
  | _, _ => true

/-- The reads of the encoder go through the file from where it stands. -/
def Transfer.Regular (content : Bytes) (x : Transfer) : Label → Prop
  | .start sys => sys.byteReads = (content.drop x.stream.length).map .byte
  | .complete op sys e =>
      sys.byteReads = (content.drop x.stream.length).map .byte ∧ op.MayGive e
  | _ => True

namespace Transfer

/-- A session between two calls. -/
structure Encoded (info : ServerInfo) (request : PeerMessage) (content : Bytes) (x : Transfer) :
    Prop where
  settled : Settled x.live
  fresh : x.live.status = .fresh → x = boot info request
  encoding : x.live.listening → x.live.world.session.mode ≠ .octet →
    ∃ rest, x.stream ++ rest = content ∧ x.live.world.Encoding content rest x.blocks

variable {info : ServerInfo} {request : PeerMessage} {x : Transfer} {l' : Live}
  {content rest rest' : Bytes}

/-- The bytes a call takes are those it does not leave. -/
theorem taken_encoded {label : Label} {arriving : Bytes}
    (hm : l'.world.session.mode ≠ .octet) (hr : label.byteReads = rest.map .byte)
    (hr' : l'.world.sys.byteReads = rest'.map .byte) (h : rest' <:+ rest) :
    label.taken arriving l' ++ rest' = rest := by
  obtain ⟨front, rfl⟩ := h
  have bytes (s : Bytes) : (s.map ByteRead.byte).filterMap ByteRead.byte? = s := by
    induction s with
    | nil => rfl
    | cons c s ih => simp [ByteRead.byte?, ih]
  have length : front.length = (front.map ByteRead.byte).length := (List.length_map _).symm
  rw [Label.taken, if_neg hm, hr, hr', List.length_map, List.length_map, List.length_append,
    Nat.add_sub_cancel, List.map_append, length, List.take_left, bytes]

namespace Encoded

/-- What the first call leaves of a session that encodes its file. -/
theorem started {sys : Sys} (hsys : sys.byteReads = content.map .byte)
    (hl : (deliver sys .start (boot info request).live.world).listening)
    (hmode : (deliver sys .start (boot info request).live.world).world.session.mode ≠ .octet) :
    ∃ rest, rest <:+ content ∧
      (deliver sys .start (boot info request).live.world).world.Encoding content rest [] := by
  refine deliver_returns (P := fun t => t.session.mode ≠ .octet →
    ∃ rest, rest <:+ content ∧ t.Encoding content rest []) ?_ hl hmode
  have blank : (boot info request).live.world.buffer.Blank :=
    ⟨rfl, rfl, rfl, rfl, Buffer.sized_of_none rfl⟩
  have default : 8 ≤ (boot info request).live.world.session.blockSize.toNat :=
    show 8 ≤ defaultBlksize.toNat by decide
  refine wp_bind.mpr (wp_mono (wp_and
    (onStart_blank (w := { (boot info request).live.world with sys := sys }) blank rfl)
    (onStart_blockSize default)) ?_ fun _ _ _ => trivial)
  rintro _ t ⟨⟨ready, intake⟩, size⟩
  have settled : KeepsSettings (do
      fetchData
      finish) := .bind .fetchData fun _ => .finish
  by_cases octet : t.session.mode = .octet
  · exact settled.wp fun _ t' ht' hm => (hm ((congrArg Settings.mode ht').trans octet)).elim
  · have encoding : t.Encoding content content [] := .of_blank octet size ready
      (congrArg Intake.isFetchingData intake) (congrArg Intake.fetches intake)
      (congrArg Intake.netasciiBuffer intake) ((congrArg Intake.byteReads intake).trans hsys)
    exact wp_mono encoding.ends (fun _ _ h _ => h) fun _ _ _ => trivial

/-- What a completion leaves of it. -/
theorem completed {pre post : List Op} {op : Op} {sys : Sys} {e : Event}
    (h : x.live.world.Encoding content rest x.blocks)
    (ht : x.live.world.control.Tidy) (hops : x.live.world.inflight = pre ++ op :: post)
    (hr : op.Reports e) (hsys : sys.byteReads = rest.map .byte)
    (hok : op.MayGive e)
    (hl : (deliver sys e { x.live.world with inflight := pre ++ post }).listening) :
    ∃ rest', rest' <:+ rest ∧
      (deliver sys e { x.live.world with inflight := pre ++ post }).world.Encoding content rest'
        (x.blocks ++ (Label.complete op sys e).produced x.live
          (deliver sys e { x.live.world with inflight := pre ++ post })) := by
  refine deliver_returns (P := fun t => ∃ rest', rest' <:+ rest ∧ t.Encoding content rest'
    (x.blocks ++ (Label.complete op sys e).produced x.live ⟨t, .idle⟩)) ?_ hl
  refine wp_bind.mpr ?_
  have same : sys.byteReads = x.live.world.sys.byteReads := hsys.trans h.reads.symm
  by_cases hd : ∃ r, e = .dataAvailable r
  · obtain ⟨r, rfl⟩ := hd
    have hop : op.isFetch := by cases op <;> first | rfl | exact hr.elim
    obtain ⟨rfl, -⟩ := h.encodes.ready ht hops hop
    obtain ⟨k, rfl⟩ : ∃ k, r = .ok k := by
      cases r with
      | ok k => exact ⟨k, rfl⟩
      | error e => simp [Op.MayGive] at hok
    refine wp_mono (h.dispatch_data ht hops hop same) ?_ fun _ _ _ => trivial
    rintro _ t ⟨extra, log, encoding⟩
    refine wp_mono (wp_and encoding.ends (rest_unsent t)) ?_ fun _ _ _ => trivial
    rintro _ t' ⟨⟨rest', suffix, encoding'⟩, more, log', none_⟩
    have sent : (Label.complete .nop sys (.dataAvailable (.ok k))).produced x.live ⟨t', .idle⟩ =
        payloads extra := by
      show payloads (t'.log.drop x.live.world.log.length) = payloads extra
      rw [log', log, List.append_assoc, List.drop_left, payloads_append, none_, List.append_nil]
    rw [sent]
    exact ⟨rest', suffix, encoding'⟩
  · have hd' : ∀ r, e ≠ .dataAvailable r := fun r hr => hd ⟨r, hr⟩
    have he : e ≠ .start := fun he => Op.not_reports_start (he ▸ hr)
    have hop : op.isFetch = false := by
      cases op <;> cases e <;> first | rfl | exact hr.elim | exact (hd' _ rfl).elim
    have kept : ({ x.live.world with inflight := pre ++ post, sys := sys } : World).Encoding
        content rest x.blocks := by
      refine h.congr rfl ?_ id
      have ops : (pre ++ post).filter Op.isFetch = x.live.world.inflight.filter Op.isFetch := by
        rw [hops, List.filter_append, List.filter_append, List.filter_cons_of_neg (by simp [hop])]
      show Intake.mk _ ((pre ++ post).filter Op.isFetch) _ sys.byteReads = _
      rw [ops, same]
      rfl
    refine wp_mono (kept.dispatch_other he hd') ?_ fun _ _ _ => trivial
    intro _ t encoding
    refine wp_mono encoding.ends ?_ fun _ _ _ => trivial
    rintro _ t' ⟨rest', suffix, encoding'⟩
    have quiet : (Label.complete op sys e).produced x.live ⟨t', .idle⟩ = [] := by
      cases e <;> first | rfl | exact (hd' _ rfl).elim
    rw [quiet, List.append_nil]
    exact ⟨rest', suffix, encoding'⟩

theorem step {label : Label} (h : Encoded info request content x) (hs : Step x.live label l')
    (hC : Regular content x label) : Encoded info request content (x.follow label l') := by
  have settled := h.settled.step hs
  have kept : x.live.status ≠ .fresh → l'.world.settings = x.live.world.settings := hs.settings
  cases hs with
  | start sys hf =>
      obtain rfl := h.fresh hf
      refine ⟨settled, fun hf' => (deliver_ne_fresh _ _ _ hf').elim, fun hl hm => ?_⟩
      have hsys : sys.byteReads = content.map .byte := hC
      obtain ⟨rest, suffix, encoding⟩ := started hsys hl hm
      exact ⟨rest, taken_encoded hm hsys encoding.reads suffix, encoding⟩
  | @complete pre post op sys e hl hops hr =>
      refine ⟨settled, fun hf' => (deliver_ne_fresh _ _ _ hf').elim, fun hl' hm => ?_⟩
      obtain ⟨rest, all, encoding⟩ := h.encoding hl fun he =>
        hm ((congrArg Settings.mode (kept hl.ne_fresh)).trans he)
      have hsys : sys.byteReads = rest.map .byte := by
        rw [hC.1, ← all, List.drop_left]
      obtain ⟨rest', suffix, encoding'⟩ := completed encoding (h.settled.tidy hl) hops hr hsys
        hC.2 hl'
      refine ⟨rest', ?_, encoding'⟩
      have took : (Label.complete op sys e).taken x.arriving
          (deliver sys e { x.live.world with inflight := pre ++ post }) ++ rest' = rest :=
        taken_encoded hm hsys encoding'.reads suffix
      show x.stream ++ (Label.complete op sys e).taken x.arriving _ ++ rest' = content
      rw [List.append_assoc, took, all]
  | @expire pre post hl hops =>
      refine ⟨settled, fun hf' => (hl.ne_fresh hf').elim, fun _ hm => ?_⟩
      have octet : x.live.world.session.mode ≠ .octet := hm
      obtain ⟨rest, all, encoding⟩ := h.encoding hl octet
      refine ⟨rest, ?_, ?_⟩
      · show x.stream ++ Label.taken .expire x.arriving _ ++ rest = content
        rw [Label.taken, if_neg octet, show Label.expire.byteReads = [] from rfl, List.take_nil,
          List.filterMap_nil, List.append_nil, all]
      · show World.Encoding _ content rest (x.blocks ++ [])
        rw [List.append_nil]
        refine encoding.congr rfl ?_ id
        have ops : (pre ++ .timeout .expired :: post).filter Op.isFetch =
            x.live.world.inflight.filter Op.isFetch := by
          rw [hops, List.filter_append, List.filter_append]
          rfl
        show Intake.mk _ ((pre ++ .timeout .expired :: post).filter Op.isFetch) _ _ = _
        rw [ops]
        rfl
  | @fill pre post slot offset length bytes hl hops hlen =>
      refine ⟨settled, fun hf' => (hl.ne_fresh hf').elim, fun _ hm => ?_⟩
      obtain ⟨rest, -, encoding⟩ := h.encoding hl hm
      -- an encoder has no read in flight
      obtain ⟨isNop, -⟩ := encoding.encodes.ready (h.settled.tidy hl) hops rfl
      simp at isNop

end Encoded

/-- The DATA blocks carry the netascii form of the file, and only the last one
is shorter than a block. -/
structure CarriesNetascii (x : Transfer) (content : Bytes) : Prop where
  bytes : x.blocks.flatten = encode content
  cut : ∃ before last, x.blocks = before ++ [last] ∧
    Full x.live.world.session.blockSize.toNat before ∧
      last.length < x.live.world.session.blockSize.toNat

/-- A netascii session sends the netascii form of a file exactly if the file has
no line end, and no carriage return whose form begins in the last place of a
block. -/
theorem netascii_carried_iff (h : Runs (Regular content) (boot info request) x)
    (hl : x.live.listening) (hm : x.live.world.session.mode = .netascii)
    (hlast : x.live.world.session.lastPacket.isSome) :
    x.CarriesNetascii content ↔ Aligned x.live.world.session.blockSize.toNat 0 content := by
  have encoded : Encoded info request content x :=
    h.invariant (fun _ _ _ h hs hc => h.step hs hc)
      ⟨.boot _ _, fun _ => rfl, fun hl => by
        simp [Live.listening, boot, Tracked.boot, Live.boot] at hl⟩
  obtain ⟨rest, -, encoding⟩ := encoded.encoding hl (by simp [hm])
  have sent := encoding.ended hlast
  have size := encoding.encodes.size
  rw [← output_eq_encode_iff (by omega), ← sent]
  constructor
  · intro carries
    exact carries.bytes
  · intro same
    obtain ⟨before, last, hblocks, full, -, short⟩ := encoding.encodes.cuts.last hlast
    exact ⟨same, before, last, hblocks, full, short⟩

instance (content : Bytes) (x : Transfer) (label : Label) :
    Decidable (Regular content x label) := by
  unfold Regular
  split <;> infer_instance

/-- A short file is encoded at once, and its block goes out. -/
def sendsShortFile (content : Bytes) : List Label :=
  [.start { fileOpens with byteReads := content.map .byte },
    .complete .nop {} (.dataAvailable (.ok 0))]

/-- A carriage return within a block is sent as it should be. -/
theorem carriage_return_carried : ∃ x,
    Runs (Regular [97, 13]) (boot plainInfo (plainRequest Opcode.rrq "netascii")) x ∧
      x.blocks = [[97, 13, 0]] ∧ x.CarriesNetascii [97, 13] := by
  have h : ((replayWhile (fun x label => decide (Regular [97, 13] x label)) (sendsShortFile [97, 13])
      (boot plainInfo (plainRequest Opcode.rrq "netascii"))).map fun x =>
        decide (x.live.status = .idle ∧ x.live.world.session.mode = .netascii ∧
          x.live.world.session.blockSize = 512 ∧ x.live.world.session.lastPacket.isSome ∧
            x.blocks = [[97, 13, 0]])) = some true := by
    decide +kernel
  obtain ⟨x, hx, he⟩ := Option.map_eq_some_iff.mp h
  obtain ⟨hl, hm, size, last, blocks⟩ := of_decide_eq_true he
  have run : Runs (Regular [97, 13]) (boot plainInfo (plainRequest Opcode.rrq "netascii")) x :=
    replayWhile_runs hx fun _ _ _ hc => of_decide_eq_true hc
  refine ⟨x, run, blocks, (netascii_carried_iff run (.inl hl) hm last).mpr ?_⟩
  rw [size, ← output_eq_encode_iff (by decide)]
  decide

/-- A line end is not. -/
theorem line_end_turned : ¬∀ (info : ServerInfo) (request : PeerMessage) (content : Bytes)
    (x : Transfer), Runs (Regular content) (boot info request) x → x.live.listening →
      x.live.world.session.mode = .netascii → x.live.world.session.lastPacket.isSome →
        x.CarriesNetascii content := by
  intro all
  have h : ((replayWhile (fun x label => decide (Regular [10] x label)) (sendsShortFile [10])
      (boot plainInfo (plainRequest Opcode.rrq "netascii"))).map fun x =>
        decide (x.live.status = .idle ∧ x.live.world.session.mode = .netascii ∧
          x.live.world.session.blockSize = 512 ∧ x.live.world.session.lastPacket.isSome ∧
            x.blocks = [[10, 13]])) = some true := by
    decide +kernel
  obtain ⟨x, hx, he⟩ := Option.map_eq_some_iff.mp h
  obtain ⟨hl, hm, size, last, blocks⟩ := of_decide_eq_true he
  have run : Runs (Regular [10]) (boot plainInfo (plainRequest Opcode.rrq "netascii")) x :=
    replayWhile_runs hx fun _ _ _ hc => of_decide_eq_true hc
  have carries := all _ _ _ x run (.inl hl) hm last
  have bytes := carries.bytes
  rw [blocks] at bytes
  exact absurd bytes (by decide)

end Transfer

end Tftp.Server
