import Tftp.Server.AnnouncedSize
import Tftp.Server.BytesSent
import Tftp.Server.Retransmit

/-!
# The slots of a read session

The slot of a block is taken from its number, which wraps. As long as the number
of slots divides a full turn, or the numbers of the file's blocks do not wrap, the
blocks of a window and the one being read have slots of their own: what the timer
sends again is then what was sent.
-/

namespace Tftp.Server

open Prog Act Blocks

/-! ## What the slots hold -/

namespace Buffer

/-- What the slots hold of the `blocks` that went out: those of the last window have
their numbers there, and their payloads as well, but for the one whose slot the next
block is put in. -/
def Stores (b : Buffer) (slots : ℕ → Slot) (blocks : List Bytes) (busy : Bool) : Prop :=
  ∀ i piece, blocks[i]? = some piece → blocks.length ≤ i + b.windowSize.toNat →
    (slots (b.slotOf (UInt16.ofNat (i + 1)))).blockNumber = UInt16.ofNat (i + 1) ∧
      ((busy → blocks.length < i + b.windowSize.toNat) →
        (slots (b.slotOf (UInt16.ofNat (i + 1)))).data.take piece.length = piece)

/-- The slots of a window have numbers that wrap with them, or that do not wrap up to
the block behind `m` blocks. -/
def Fits (b : Buffer) (m : ℕ) : Prop := b.windowSize.toNat ∣ 65536 ∨ m < 65536

variable {b : Buffer} {slots : ℕ → Slot} {blocks : List Bytes} {busy : Bool} {piece : Bytes}

theorem lt_of_get {i : ℕ} (h : blocks[i]? = some piece) : i < blocks.length :=
  (List.getElem?_eq_some_iff.mp h).1

/-- The slot of the next block is not that of a block of the window. -/
theorem Fits.apart {i m : ℕ} (h : b.Fits m) (hi : i < m) (near : m < i + b.windowSize.toNat) :
    b.slotOf (UInt16.ofNat (i + 1)) ≠ b.slotOf (UInt16.ofNat (m + 1)) :=
  Serial.slot_ne hi near h

theorem Stores.nil : b.Stores slots [] busy := fun i piece h => by simp at h

/-- Starting to put a block in its slot gives up the one that was there. -/
theorem Stores.put (h : b.Stores slots blocks busy) : b.Stores slots blocks true := by
  intro i piece hi near
  obtain ⟨number, payload⟩ := h i piece hi near
  exact ⟨number, fun room => payload fun _ => room rfl⟩

/-- The bytes of the next block go to a slot of their own. -/
theorem Stores.fill {offset : ℕ} {bytes : Bytes} (h : b.Stores slots blocks true)
    (fits : b.Fits blocks.length) :
    b.Stores (updateSlot slots (b.slotOf (UInt16.ofNat (blocks.length + 1))) fun p =>
      { p with data := poke p.data offset bytes }) blocks true := by
  intro i piece hi near
  obtain ⟨number, payload⟩ := h i piece hi near
  constructor
  · unfold updateSlot
    split
    · exact number
    · exact number
  · intro room
    have other := fits.apart (lt_of_get hi) (room rfl)
    unfold updateSlot
    rw [if_neg other]
    exact payload room

/-- A block that is complete is the last of those the slots hold. -/
theorem Stores.snoc (h : b.Stores slots blocks true) (fits : b.Fits blocks.length)
    (hold : (slots (b.slotOf (UInt16.ofNat (blocks.length + 1)))).data.take piece.length = piece) :
    b.Stores (updateSlot slots (b.slotOf (UInt16.ofNat (blocks.length + 1))) fun p =>
      { p with blockNumber := UInt16.ofNat (blocks.length + 1) }) (blocks ++ [piece]) false := by
  intro i found hi near
  rw [List.length_append, List.length_singleton] at near
  by_cases before : i < blocks.length
  · rw [List.getElem?_append_left before] at hi
    obtain ⟨number, payload⟩ := h i found hi (by omega)
    have other := fits.apart before near
    unfold updateSlot
    rw [if_neg other]
    exact ⟨number, fun _ => payload fun _ => near⟩
  · have last : i = blocks.length := by
      have bound := lt_of_get hi
      rw [List.length_append, List.length_singleton] at bound
      omega
    subst last
    rw [List.getElem?_concat_length] at hi
    obtain rfl := Option.some.inj hi
    unfold updateSlot
    rw [if_pos rfl]
    exact ⟨rfl, fun _ => hold⟩

end Buffer

/-- A session that is not closing stores the blocks that went out. -/
def World.Stores (w : World) (blocks : List Bytes) : Prop :=
  w.session.shouldClose = false → ∀ slots, w.session.dataPackets = some slots →
    w.buffer.Stores slots blocks (w.session.isFetchingData || w.session.incompleteRead)

namespace World.Stores

variable {w w' : World} {blocks : List Bytes}

theorem congr (h : w.Stores blocks) (hb : w'.buffer = w.buffer)
    (hi : w'.session.isFetchingData = w.session.isFetchingData)
    (hc : w'.session.shouldClose = false → w.session.shouldClose = false) : w'.Stores blocks := by
  intro open_ slots hs
  have incomplete : w'.session.incompleteRead = w.session.incompleteRead :=
    congrArg Buffer.incompleteRead hb
  have same : w'.session.dataPackets = w.session.dataPackets := congrArg Buffer.dataPackets hb
  rw [hb, hi, incomplete]
  exact h (hc open_) slots (same ▸ hs)

/-- Nothing is stored yet. -/
theorem nil : w.Stores [] := fun _ _ _ => .nil

/-- The read-ahead gives up at most the slot of the next block. -/
theorem fetchData (h : w.Stores blocks) (hmode : w.session.mode = .octet) :
    wp fetchData (fun _ t => t.Stores blocks) (fun _ _ => True) w := by
  refine wp_mono (wp_and (fetchData_spec hmode) (fetchData_moves w)) ?_ fun _ _ _ => trivial
  rintro _ t ⟨reads, -, op, -, control⟩
  by_cases fetches : shouldFetchData w.session = true
  · rw [if_pos fetches] at reads
    have moved : w.control.shouldFetch = true := (control_shouldFetch w).trans fetches
    rw [Control.fetch, if_pos moved] at control
    have flag : t.session.isFetchingData = true := congrArg Control.isFetchingData control
    have closing : t.session.shouldClose = w.session.shouldClose :=
      congrArg Control.shouldClose control
    have same : t.session.dataPackets = w.session.dataPackets :=
      congrArg Buffer.dataPackets reads.1
    intro open_ slots hs
    rw [flag, reads.1]
    exact (h (closing ▸ open_) slots (same ▸ hs)).put
  · rw [if_neg fetches] at reads
    have stays : w.control.shouldFetch ≠ true := fun moved =>
      fetches ((control_shouldFetch w).symm.trans moved)
    rw [Control.fetch, if_neg stays] at control
    exact h.congr reads.1 (congrArg Control.isFetchingData control) fun hc =>
      (congrArg Control.shouldClose control).symm.trans hc

/-- What follows `dispatch` within a call. -/
theorem rest (h : w.Stores blocks) (hmode : w.session.mode = .octet) :
    wp (do
        Server.fetchData
        finish)
      (fun _ t => t.Stores blocks) (fun _ _ => True) w := by
  refine wp_bind.mpr (wp_mono (h.fetchData hmode) ?_ fun _ _ _ => trivial)
  intro _ t stores
  exact wp_finish.mpr ⟨fun _ => stores.congr rfl rfl id, fun _ => stores⟩

/-- The events that complete no read leave the slots alone. -/
theorem dispatch_other {e : Event} (he : e ≠ .start) (hd : ∀ r, e ≠ .dataAvailable r)
    (h : w.Stores blocks) :
    wp (dispatch e) (fun _ t => t.Stores blocks) (fun _ _ => True) w := by
  have fixed := (dispatch_source he hd).wp (w := w) fun _ _ same => same
  refine wp_mono (wp_and fixed (dispatch_moves e w)) ?_ fun _ _ _ => trivial
  rintro _ t ⟨same, moves⟩
  exact h.congr (congrArg Source.buffer same)
    (congrArg (fun s => s.intake.isFetchingData) same) (moves.stays_closing he)

/-- A read that fails closes the session. -/
theorem dispatch_failed {e : Errno} (hmode : w.session.mode = .octet) :
    wp (dispatch (.dataAvailable (.error e))) (fun _ t => t.Stores blocks) (fun _ _ => True) w := by
  rw [dispatch, wp_bind, wp_jobDone, wp_bind, wp_modify]
  generalize hv : ({ session := _, sys := _, inflight := _, log := _ } : World) = v
  have mode : v.session.mode = .octet := by
    rw [← hv]
    exact hmode
  rw [onDataAvailable, wp_bind, wp_session, if_pos mode]
  refine wp_mono readFailure_silent ?_ fun _ _ _ => trivial
  rintro _ t ⟨-, closing, -⟩ open_
  exact absurd (closing.symm.trans open_) (by decide)

variable {stream arriving : Bytes} {pre post : List Op} {op : Op} {sys : Sys}

/-- A completed read leaves the blocks that went out in their slots, and the block it
completes with them. -/
theorem dispatch_data (h : w.Stores blocks) (serving : w.Serving stream arriving blocks)
    (tidy : w.control.Tidy) (hops : w.inflight = pre ++ op :: post) (hop : op.isFetch)
    (fits : w.buffer.Fits blocks.length) :
    wp (dispatch (.dataAvailable (.ok op.arrived)))
      (fun _ t => ∃ extra, t.log = w.log ++ extra ∧ t.Stores (blocks ++ payloads extra))
      (fun _ _ => True) { w with inflight := pre ++ post, sys := sys } := by
  obtain ⟨idle, -, part, loads, -⟩ := serving.reading tidy hops hop
  obtain ⟨-, fetching⟩ := tidy.removeFetch hops hop
  obtain ⟨hl, whole, arrived, hold⟩ := loads.awaits.arrived
  have flag : w.session.isFetchingData = true := fetching
  have next : UInt16.ofNat (blocks.length + 1) = w.buffer.nextDataPacketToSend := serving.cuts.next
  have moves := dispatch_moves (.dataAvailable (.ok op.arrived))
    { w with inflight := pre ++ post, sys := sys }
  have done : wp (dispatch (.dataAvailable (.ok op.arrived)))
      (fun _ t => t.session.isFetchingData = false ∧
        (t.buffer = w.buffer.gather arriving.length ∧ t.log = w.log ∨
          ∃ slots, w.session.dataPackets = some slots ∧
            t.buffer = (w.buffer.complete slots arriving.length).sent ∧
            t.log = w.log ++ [.sent w.session.clientAddress
              (w.buffer.filledPacket slots arriving.length)]))
      (fun _ _ => True) { w with inflight := pre ++ post, sys := sys } := by
    rw [arrived, dispatch, wp_bind, wp_jobDone, wp_bind, wp_modify]
    refine wp_mono (wp_and (onDataAvailable_spec (by exact serving.mode) arriving.length)
      ((onDataAvailable_intake _).wp fun _ _ same => same)) ?_ fun _ _ _ => trivial
    rintro _ t ⟨done, intake⟩
    refine ⟨congrArg Intake.isFetchingData intake, ?_⟩
    rcases done with ⟨-, buffer, log⟩ | ⟨-, slots, hs, buffer, log⟩
    · exact .inl ⟨buffer, log⟩
    · exact .inr ⟨slots, hs, buffer, log⟩
  refine wp_mono (wp_and done moves) ?_ fun _ _ _ => trivial
  rintro _ t ⟨⟨unset, done⟩, taken⟩
  have opens : t.session.shouldClose = false → w.session.shouldClose = false :=
    taken.stays_closing (by simp)
  rcases done with ⟨buffer, log⟩ | ⟨slots, hs, buffer, log⟩
  · -- more of the block is to come
    refine ⟨[], log.trans (List.append_nil _).symm, fun open_ slots hs => ?_⟩
    have same : t.session.dataPackets = w.session.dataPackets := congrArg Buffer.dataPackets buffer
    have incomplete : t.session.incompleteRead = true := congrArg Buffer.incompleteRead buffer
    rw [buffer, incomplete, Bool.or_true, show payloads [] = [] from rfl, List.append_nil]
    exact (h (opens open_) slots (same ▸ hs)).put
  · -- the block goes out
    refine ⟨_, log, fun open_ slots' hs' => ?_⟩
    have allocated : t.session.dataPackets = some (updateSlot slots
        (w.buffer.slotOf w.buffer.nextDataPacketToSend) fun slot =>
          { slot with blockNumber := w.buffer.nextDataPacketToSend }) :=
      congrArg Buffer.dataPackets buffer
    obtain rfl := Option.some.inj (allocated.symm.trans hs')
    have incomplete : t.session.incompleteRead = false :=
      (congrArg Buffer.incompleteRead buffer).trans whole
    have before := h (opens open_) slots hs
    rw [flag, Bool.true_or] at before
    have piece := hold.bytes slots hs
    have sent : payloads [.sent w.session.clientAddress
        (w.buffer.filledPacket slots arriving.length)] = [part ++ arriving] := by
      rw [Buffer.filledPacket_eq hs hl hold]
      rfl
    rw [unset, incomplete, Bool.or_false, buffer, sent, ← next]
    rw [← next] at piece
    exact before.snoc fits piece

end World.Stores

/-! ## Blocks read in pieces -/

/-- A session that has a piece of the next block had one before, or was reading it. -/
def World.Pauses (w t : World) : Prop :=
  t.session.incompleteRead = true →
    (w.session.incompleteRead = true ∨ w.session.isFetchingData = true) ∧
      t.session.nextDataPacketToSend = w.session.nextDataPacketToSend

namespace World.Pauses

variable {w v t : World}

theorem of_buffer (h : t.buffer = w.buffer) : w.Pauses t := fun incomplete =>
  ⟨.inl ((congrArg Buffer.incompleteRead h).symm.trans incomplete),
    congrArg Buffer.nextDataPacketToSend h⟩

/-- The read-ahead asks for the rest of a block, or leaves the buffer alone. -/
theorem rest (h : w.Pauses v) (hmode : v.session.mode = .octet) :
    wp (do
        fetchData
        finish)
      (fun _ t => w.Pauses t) (fun _ _ => True) v := by
  refine wp_bind.mpr (wp_mono (fetchData_spec hmode) ?_ fun _ _ _ => trivial)
  intro _ t reads
  have paused : w.Pauses t := by
    intro incomplete
    split at reads
    · have asked : t.session.incompleteRead = false := congrArg Buffer.incompleteRead reads.1
      exact absurd (asked.symm.trans incomplete) (by decide)
    · have same : t.session.nextDataPacketToSend = v.session.nextDataPacketToSend :=
        congrArg Buffer.nextDataPacketToSend reads.1
      obtain ⟨before, next⟩ := h ((congrArg Buffer.incompleteRead reads.1).symm.trans incomplete)
      exact ⟨before, same.trans next⟩
  exact wp_finish.mpr ⟨fun _ => paused, fun _ => paused⟩

/-- A completed read leaves a piece of its block, or sends the block. -/
theorem dispatch_data {pre post : List Op} {sys : Sys} {r : Completion ℕ}
    (hmode : w.session.mode = .octet) (whole : w.session.incompleteRead = false)
    (fetching : w.session.isFetchingData = true) :
    wp (dispatch (.dataAvailable r)) (fun _ t => w.Pauses t) (fun _ _ => True)
      { w with inflight := pre ++ post, sys := sys } := by
  rw [dispatch, wp_bind, wp_jobDone, wp_bind, wp_modify]
  cases r with
  | error e =>
      rw [onDataAvailable, wp_bind, wp_session, if_pos (by exact hmode)]
      exact readFailure_source.wp fun _ t same => .of_buffer (congrArg Source.buffer same)
  | ok k =>
      refine wp_mono (onDataAvailable_spec (by exact hmode) k) ?_ fun _ _ _ => trivial
      rintro _ t (⟨-, buffer, -⟩ | ⟨-, slots, -, buffer, -⟩) incomplete
      · exact ⟨.inr fetching, congrArg Buffer.nextDataPacketToSend buffer⟩
      · have complete : t.session.incompleteRead = w.session.incompleteRead :=
          congrArg Buffer.incompleteRead buffer
        exact absurd (whole.symm.trans (complete.symm.trans incomplete)) (by decide)

end World.Pauses

/-! ## Runs -/

namespace Transfer

variable {info : ServerInfo} {request : PeerMessage} {x : Transfer} {l' : Live} {content : Bytes}

/-- The number of slots divides a full turn, or the numbers of the file's blocks do not
wrap. -/
def SlotsFit (content : Bytes) (s : Session) : Prop :=
  s.windowSize.toNat ∣ 65536 ∨ last s.blockSize.toNat content ≤ 65536

/-- While a block is read, it is one of the file's. -/
theorem SlotsFit.reading {w : World} {stream arriving : Bytes} {blocks : List Bytes}
    (h : SlotsFit content w.session) (serving : w.Serving stream arriving blocks)
    (hlast : w.session.lastPacket = none) (size : 8 ≤ w.session.blockSize.toNat)
    (begins : stream <+: content) : w.buffer.Fits blocks.length := by
  rcases h with divides | few
  · exact .inl divides
  · refine .inr ?_
    have full : blocks.flatten.length = blocks.length * w.session.blockSize.toNat :=
      (serving.cuts.full hlast).length_flatten
    have within : blocks.flatten.length ≤ content.length := (serving.sent.trans begins).length_le
    have count : blocks.length ≤ content.length / w.session.blockSize.toNat :=
      (Nat.le_div_iff_mul_le (by omega)).mpr (full ▸ within)
    unfold last at few
    omega

/-- An octet session that reads a regular file, between two calls. -/
structure Holding (info : ServerInfo) (request : PeerMessage) (content : Bytes) (x : Transfer) :
    Prop where
  served : Served info request x
  size : x.live.listening → 8 ≤ x.live.world.session.blockSize.toNat
  begins : x.live.listening → x.live.world.session.mode = .octet → x.stream <+: content
  exhausts : Exhausts content x
  position : x.live.listening → x.live.world.session.mode = .octet →
    x.nextDataPacketToSend = x.blocks.length + 1
  stores : x.live.listening → x.live.world.session.mode = .octet →
    SlotsFit content x.live.world.session → x.live.world.Stores x.blocks

namespace Holding

theorem boot : Holding info request content (boot info request) where
  served := ⟨.boot _ _, fun _ => rfl, fun hl => by
    simp [Live.listening, Transfer.boot, Tracked.boot, Live.boot] at hl⟩
  size hl := by simp [Live.listening, Transfer.boot, Tracked.boot, Live.boot] at hl
  begins hl := by simp [Live.listening, Transfer.boot, Tracked.boot, Live.boot] at hl
  exhausts hl := by simp [Live.listening, Transfer.boot, Tracked.boot, Live.boot] at hl
  position hl := by simp [Live.listening, Transfer.boot, Tracked.boot, Live.boot] at hl
  stores hl := by simp [Live.listening, Transfer.boot, Tracked.boot, Live.boot] at hl

/-- What a completion leaves in the slots. -/
theorem completed {pre post : List Op} {op : Op} {sys : Sys} {e : Event}
    (h : x.live.world.Stores x.blocks)
    (serving : x.live.world.Serving x.stream x.arriving x.blocks)
    (tidy : x.live.world.control.Tidy) (hops : x.live.world.inflight = pre ++ op :: post)
    (hr : op.Reports e) (hC : Truthful x (.complete op sys e))
    (fits : op.isFetch → x.live.world.buffer.Fits x.blocks.length)
    (hl : (deliver sys e { x.live.world with inflight := pre ++ post }).listening) :
    (deliver sys e { x.live.world with inflight := pre ++ post }).world.Stores
      (x.blocks ++ (Label.complete op sys e).produced x.live
        (deliver sys e { x.live.world with inflight := pre ++ post })) := by
  have he : e ≠ .start := fun he => Op.not_reports_start (he ▸ hr)
  refine deliver_returns (P := fun t => t.Stores
    (x.blocks ++ (Label.complete op sys e).produced x.live ⟨t, .idle⟩)) ?_ hl
  have kept : wp (dispatch e) (fun _ t => t.session.mode = .octet) (fun _ _ => True)
      { x.live.world with inflight := pre ++ post, sys := sys } :=
    (dispatch_settings he).wp fun _ t same => (congrArg Settings.mode same).trans serving.mode
  refine wp_bind.mpr ?_
  by_cases hd : ∃ r, e = .dataAvailable r
  · obtain ⟨r, rfl⟩ := hd
    have hop : op.isFetch := by cases op <;> first | rfl | exact hr.elim
    cases r with
    | error errno =>
        have failed : wp (dispatch (.dataAvailable (.error errno)))
            (fun _ t => t.Stores x.blocks) (fun _ _ => True)
            { x.live.world with inflight := pre ++ post, sys := sys } :=
          World.Stores.dispatch_failed serving.mode
        refine wp_mono (wp_and failed kept) ?_ fun _ _ _ => trivial
        rintro _ t ⟨stores, mode⟩
        refine wp_mono (stores.rest mode) (fun _ t' stores' => ?_) fun _ _ _ => trivial
        show t'.Stores (x.blocks ++ [])
        rw [List.append_nil]
        exact stores'
    | ok k =>
        obtain rfl := hC op sys k rfl
        refine wp_mono (wp_and (h.dispatch_data serving tidy hops hop (fits hop)) kept) ?_
          fun _ _ _ => trivial
        rintro _ t ⟨⟨extra, log, stores⟩, mode⟩
        refine wp_mono (wp_and (stores.rest mode) (rest_unsent t)) ?_ fun _ _ _ => trivial
        rintro _ t' ⟨stores', more, log', none_⟩
        have sent : (Label.complete op sys (.dataAvailable (.ok op.arrived))).produced x.live
            ⟨t', .idle⟩ = payloads extra := by
          show payloads (t'.log.drop x.live.world.log.length) = payloads extra
          rw [log', log, List.append_assoc, List.drop_left, payloads_append, none_, List.append_nil]
        rw [sent]
        exact stores'
  · have hd' : ∀ r, e ≠ .dataAvailable r := fun r hr => hd ⟨r, hr⟩
    have before : ({ x.live.world with inflight := pre ++ post, sys := sys } : World).Stores
        x.blocks := h.congr rfl rfl id
    refine wp_mono (wp_and (before.dispatch_other he hd') kept) ?_ fun _ _ _ => trivial
    rintro _ t ⟨stores, mode⟩
    refine wp_mono (stores.rest mode) (fun _ t' stores' => ?_) fun _ _ _ => trivial
    have quiet : (Label.complete op sys e).produced x.live ⟨t', .idle⟩ = [] := by
      cases e <;> first | rfl | exact (hd' _ rfl).elim
    rw [quiet, List.append_nil]
    exact stores'

/-- While a read is in flight, the slot it goes to is not one of the window. -/
theorem fits {pre post : List Op} {op : Op} (h : Holding info request content x)
    (hl : x.live.listening) (hm : x.live.world.session.mode = .octet)
    (slots : SlotsFit content x.live.world.session)
    (hops : x.live.world.inflight = pre ++ op :: post) (hop : op.isFetch) :
    x.live.world.buffer.Fits x.blocks.length := by
  have serving := h.served.serving hl hm
  obtain ⟨-, last, -⟩ := serving.reading (h.served.settled.tidy hl) hops hop
  exact slots.reading serving last (h.size hl) (h.begins hl hm)

theorem step {label : Label} (h : Holding info request content x) (hs : Step x.live label l')
    (hC : ReadsFile content x label) : Holding info request content (x.follow label l') := by
  have served := h.served.step hs hC.truthful
  have exhausts := h.exhausts.step h.served hs hC
  have kept : x.live.status ≠ .fresh → l'.world.settings = x.live.world.settings := hs.settings
  have mode : x.live.status ≠ .fresh → l'.world.session.mode = .octet →
      x.live.world.session.mode = .octet := fun hl hm =>
    (congrArg Settings.mode (kept hl)).symm.trans hm
  have size : x.live.status ≠ .fresh → l'.world.session.blockSize = x.live.world.session.blockSize :=
    fun hl => congrArg Settings.blockSize (kept hl)
  have fit : x.live.status ≠ .fresh → SlotsFit content l'.world.session →
      SlotsFit content x.live.world.session := by
    intro hl slots
    have width : l'.world.session.windowSize = x.live.world.session.windowSize :=
      congrArg Settings.windowSize (kept hl)
    unfold SlotsFit at slots
    rw [width, size hl] at slots
    exact slots
  have takes : l'.world.session.mode = .octet →
      (x.follow label l').stream = x.stream ++ label.brings x.arriving := fun hm =>
    congrArg (x.stream ++ ·) (if_pos hm)
  have position : l'.listening → l'.world.session.mode = .octet →
      (x.follow label l').nextDataPacketToSend = (x.follow label l').blocks.length + 1 := by
    intro hl' hm
    have here : x.nextDataPacketToSend = x.blocks.length + 1 ∧
        UInt16.ofNat (x.blocks.length + 1) = x.live.world.session.nextDataPacketToSend := by
      by_cases hf : x.live.status = .fresh
      · obtain rfl := h.served.fresh hf
        exact ⟨rfl, rfl⟩
      · have hl := hs.listened hf
        exact ⟨h.position hl (mode hf hm), (h.served.serving hl (mode hf hm)).cuts.next⟩
    exact position_step here.1 here.2 (served.serving hl' hm).cuts.next (produced_le_one hs hl')
  refine ⟨served, fun hl' => ?_, fun hl' hm => ?_, exhausts, position, fun hl' hm slots => ?_⟩
  · -- the size of the blocks
    by_cases hf : x.live.status = .fresh
    · cases hs with
      | start sys _ =>
          obtain rfl := h.served.fresh hf
          refine deliver_returns (P := fun t => 8 ≤ t.session.blockSize.toNat) ?_ hl'
          have rest : KeepsSettings (do
              fetchData
              finish) := .bind .fetchData fun _ => .finish
          have default : 8 ≤ (Transfer.boot info request).live.world.session.blockSize.toNat :=
            show 8 ≤ defaultBlksize.toNat by decide
          refine wp_bind.mpr (wp_mono (onStart_blockSize default) ?_ fun _ _ _ => trivial)
          intro _ t enough
          refine rest.wp fun _ t' same => ?_
          have same : t'.session.blockSize = t.session.blockSize :=
            congrArg Settings.blockSize same
          exact same ▸ enough
      | complete _ _ _ hl _ _ => exact (hl.ne_fresh hf).elim
      | expire hl _ => exact (hl.ne_fresh hf).elim
      | fill _ hl _ _ => exact (hl.ne_fresh hf).elim
    · rw [show (x.follow label l').live = l' from rfl, size hf]
      exact h.size (hs.listened hf)
  · -- what was read of the file
    rw [takes hm]
    cases hs with
    | start sys hf =>
        obtain rfl := h.served.fresh hf
        exact List.nil_prefix
    | @complete pre post op sys e hl hops hr =>
        by_cases hd : ∃ k, e = .dataAvailable (.ok k)
        · obtain ⟨k, rfl⟩ := hd
          exact hC.2.1
        · have none_ : (Label.complete op sys e).brings x.arriving = [] := by
            unfold Label.brings
            split
            · rename_i he
              cases he
              exact (hd ⟨_, rfl⟩).elim
            · rfl
          rw [none_, List.append_nil]
          exact h.begins hl (mode hl.ne_fresh hm)
    | expire hl _ =>
        rw [show Label.expire.brings x.arriving = [] from rfl, List.append_nil]
        exact h.begins hl hm
    | fill bytes hl _ _ =>
        rw [show (Label.fill bytes).brings x.arriving = [] from rfl, List.append_nil]
        exact h.begins hl hm
  · -- what the slots hold
    cases hs with
    | start sys hf =>
        obtain rfl := h.served.fresh hf
        exact .nil
    | @complete pre post op sys e hl hops hr =>
        have mode := mode hl.ne_fresh hm
        have slots := fit hl.ne_fresh slots
        exact completed (h.stores hl mode slots) (h.served.serving hl mode)
          (h.served.settled.tidy hl) hops hr hC.truthful (h.fits hl mode slots hops) hl'
    | expire hl hops =>
        show World.Stores _ (x.blocks ++ [])
        rw [List.append_nil]
        exact (h.stores hl hm slots).congr rfl rfl id
    | @fill pre post slot offset length bytes hl hops hlen =>
        show World.Stores _ (x.blocks ++ [])
        rw [List.append_nil]
        have serving := h.served.serving hl hm
        have tidy := h.served.settled.tidy hl
        obtain ⟨-, -, part, loads, -⟩ := serving.reading tidy hops rfl
        obtain ⟨-, fetching⟩ := tidy.removeFetch hops rfl
        have flag : x.live.world.session.isFetchingData = true := fetching
        have next : UInt16.ofNat (x.blocks.length + 1) = x.live.world.buffer.nextDataPacketToSend :=
          serving.cuts.next
        have place : slot = x.live.world.buffer.slotOf (UInt16.ofNat (x.blocks.length + 1)) := by
          have awaits := loads.awaits
          rw [next]
          cases awaits
          rfl
        intro open_ slots' hs'
        obtain ⟨before, hs, rfl⟩ := Option.map_eq_some_iff.mp hs'
        have stores := h.stores hl hm slots open_ before hs
        rw [flag, Bool.true_or] at stores
        show Buffer.Stores _ _ _ (x.live.world.session.isFetchingData || _)
        rw [flag, Bool.true_or, place]
        exact stores.fill (h.fits hl hm slots hops rfl)

end Holding

/-- A session that has a piece of the next block had one before, or was reading it. -/
theorem Served.pauses {label : Label} (h : Served info request x) (hs : Step x.live label l')
    (hl : l'.listening) (hm : l'.world.session.mode = .octet) :
    x.live.world.Pauses l'.world := by
  have mode : x.live.status ≠ .fresh → x.live.world.session.mode = .octet := fun hf =>
    (congrArg Settings.mode (hs.settings hf)).symm.trans hm
  cases hs with
  | start sys hf =>
      obtain rfl := h.fresh hf
      refine deliver_returns (P := fun t => t.session.mode = .octet →
        (boot info request).live.world.Pauses t) ?_ hl hm
      have blank : (boot info request).live.world.buffer.Blank :=
        ⟨rfl, rfl, rfl, rfl, Buffer.sized_of_none rfl⟩
      refine wp_bind.mpr (wp_mono
        (onStart_blank (w := { (boot info request).live.world with sys := sys }) blank rfl) ?_
        fun _ _ _ => trivial)
      rintro _ t ⟨ready, -⟩
      have none_ : (boot info request).live.world.Pauses t := fun incomplete =>
        absurd (ready.incompleteRead.symm.trans incomplete) (by decide)
      have settled : KeepsSettings (do
          fetchData
          finish) := .bind .fetchData fun _ => .finish
      by_cases octet : t.session.mode = .octet
      · exact wp_mono (none_.rest octet) (fun _ _ h _ => h) fun _ _ _ => trivial
      · exact settled.wp fun _ t' ht' hm =>
          (octet ((congrArg Settings.mode ht').symm.trans hm)).elim
  | @complete pre post op sys e hl' hops hr =>
      have he : e ≠ .start := fun he => Op.not_reports_start (he ▸ hr)
      have octet := mode hl'.ne_fresh
      refine deliver_returns (P := fun t => x.live.world.Pauses t) ?_ hl
      have kept : wp (dispatch e) (fun _ t => t.session.mode = .octet) (fun _ _ => True)
          { x.live.world with inflight := pre ++ post, sys := sys } :=
        (dispatch_settings he).wp fun _ t same => (congrArg Settings.mode same).trans octet
      have done : wp (dispatch e) (fun _ t => x.live.world.Pauses t) (fun _ _ => True)
          { x.live.world with inflight := pre ++ post, sys := sys } := by
        by_cases hd : ∃ r, e = .dataAvailable r
        · obtain ⟨r, rfl⟩ := hd
          have hop : op.isFetch := by cases op <;> first | rfl | exact hr.elim
          have tidy := h.settled.tidy hl'
          obtain ⟨-, -, part, loads, -⟩ := (h.serving hl' octet).reading tidy hops hop
          exact World.Pauses.dispatch_data octet loads.awaits.arrived.2.1
            (tidy.removeFetch hops hop).2
        · exact (dispatch_source he fun r hr => hd ⟨r, hr⟩).wp fun _ t same =>
            .of_buffer (congrArg Source.buffer same)
      refine wp_bind.mpr (wp_mono (wp_and done kept) ?_ fun _ _ _ => trivial)
      rintro _ t ⟨paused, mode⟩
      exact paused.rest mode
  | expire hl' _ => exact .of_buffer rfl
  | fill bytes hl' _ _ => exact fun incomplete => ⟨.inl incomplete, rfl⟩

theorem holding_of_runs {C : Transfer → Label → Prop}
    (hC : ∀ x label, C x label → ReadsFile content x label)
    (h : Runs C (boot info request) x) : Holding info request content x :=
  h.invariant (fun _ _ _ h hs hc => h.step hs (hC _ _ hc)) .boot

/-! ## What the timer sends again -/

/-- `get_data_packet_info` gives the blocks of a window the sizes they have. -/
theorem payloadSize_eq {w : World} {blocks : List Bytes} {piece : Bytes} {i : ℕ}
    (h : w.session.Cuts blocks)
    (hlast : ∀ p, w.session.lastPacket = some p → w.session.nextDataPacketToSend = p + 1)
    (get : blocks[i]? = some piece) (near : blocks.length - (i + 1) < 65536) :
    (w.buffer.payloadSize (UInt16.ofNat (i + 1))).toNat = piece.length := by
  have there : i < blocks.length := Buffer.lt_of_get get
  -- the last packet is that of the last block
  have lastNumber (p : UInt16) (hp : w.session.lastPacket = some p) :
      p = UInt16.ofNat blocks.length := by
    have next := hlast p hp
    rw [← h.next, Serial.ofNat_succ] at next
    exact ((UInt16.add_left_inj 1).mp next).symm
  have here (p : UInt16) (hp : w.session.lastPacket = some p) :
      p = UInt16.ofNat (i + 1) ↔ i + 1 = blocks.length := by
    rw [lastNumber p hp, ← Serial.ofNat_inj_near (by omega) near]
    exact eq_comm
  unfold Buffer.payloadSize
  cases hl : w.session.lastPacket with
  | none =>
      rw [if_neg (by simp [World.buffer, hl])]
      exact (h.full hl piece (List.mem_of_getElem? get)).symm
  | some p =>
      obtain ⟨before, final, rfl, full, size, -⟩ := h.last (by rw [hl]; rfl)
      have isLast : w.buffer.lastPacket = some (UInt16.ofNat (i + 1)) ↔ i = before.length := by
        have same : w.buffer.lastPacket = some p := hl
        rw [same, Option.some_inj, here p hl, List.length_append, List.length_singleton]
        omega
      by_cases last : i = before.length
      · rw [if_pos (isLast.mpr last)]
        subst last
        rw [List.getElem?_concat_length] at get
        obtain rfl := Option.some.inj get
        exact size.symm
      · rw [if_neg (isLast.not.mpr last)]
        rw [List.length_append, List.length_singleton] at there
        rw [List.getElem?_append_left (by omega)] at get
        exact (full piece (List.mem_of_getElem? get)).symm

/-- The blocks that went out are the first ones of the file. -/
theorem Holding.blocks_eq (h : Holding info request content x) (hl : x.live.listening)
    (hm : x.live.world.session.mode = .octet) :
    x.blocks = firstBlocks x.live.world.session.blockSize.toNat content x.blocks.length := by
  have serving := h.served.serving hl hm
  cases hlast : x.live.world.session.lastPacket with
  | none =>
      exact (serving.cuts.full hlast).eq_firstBlocks (serving.sent.trans (h.begins hl hm))
  | some p =>
      have isLast : x.live.world.session.lastPacket.isSome := by rw [hlast]; rfl
      obtain ⟨before, piece, cut, full, -, short⟩ := serving.cuts.last isLast
      have whole : before.flatten ++ (piece ++ []) = content := by
        rw [← h.exhausts hl hm isLast, ← serving.ended isLast, cut, List.flatten_append,
          List.flatten_singleton, List.append_nil]
      rw [cut, List.length_append, List.length_singleton]
      exact snoc_eq_firstBlocks (full.eq_firstBlocks ⟨_, whole⟩) full.length_flatten whole
        (.inr ⟨short.le, rfl⟩)

/-- There are no more of them than the file has. -/
theorem Holding.length_le_last (h : Holding info request content x) (hl : x.live.listening)
    (hm : x.live.world.session.mode = .octet) :
    x.blocks.length ≤ last x.live.world.session.blockSize.toNat content := by
  have serving := h.served.serving hl hm
  have positive : 0 < x.live.world.session.blockSize.toNat := by
    have size := h.size hl
    omega
  have within : x.blocks.flatten.length ≤ content.length :=
    (serving.sent.trans (h.begins hl hm)).length_le
  have fullest {pieces : List Bytes} (full : Full x.live.world.session.blockSize.toNat pieces)
      (hle : pieces.flatten.length ≤ content.length) :
      pieces.length ≤ content.length / x.live.world.session.blockSize.toNat :=
    (Nat.le_div_iff_mul_le positive).mpr (full.length_flatten ▸ hle)
  unfold last
  cases hlast : x.live.world.session.lastPacket with
  | none => exact Nat.le_succ_of_le (fullest (serving.cuts.full hlast) within)
  | some p =>
      have isLast : x.live.world.session.lastPacket.isSome := by rw [hlast]; rfl
      obtain ⟨before, piece, cut, full, -, -⟩ := serving.cuts.last isLast
      rw [cut, List.length_append, List.length_singleton]
      rw [cut, List.flatten_append, List.length_append] at within
      exact Nat.succ_le_succ (fullest full (by omega))

/-- An octet session that reads a regular file and slides its window along it. -/
structure Sliding (info : ServerInfo) (request : PeerMessage) (content : Bytes) (x : Transfer) :
    Prop where
  holding : Holding info request content x
  windowed : x.toTracked.Windowed
  retransmits : Retransmits x.live
  first : 1 ≤ x.windowBegin
  paused : x.live.listening → x.live.world.session.mode = .octet →
    x.live.world.session.incompleteRead = true →
      x.nextDataPacketToSend < x.windowBegin + x.live.world.session.windowSize.toNat

/-- ACKs name blocks that are outstanding, and reads bring the file. -/
def AcksAndReads (content : Bytes) (x : Transfer) (label : Label) : Prop :=
  AckMeetsWindow x.live label ∧ ReadsFile content x label

namespace Sliding

theorem boot : Sliding info request content (boot info request) where
  holding := .boot
  windowed := .boot _ _
  retransmits := .boot _ _
  first := le_rfl
  paused hl := by simp [Live.listening, Transfer.boot, Tracked.boot, Live.boot] at hl

/-- While a part of the next block is in place, the window has room for it. -/
theorem room (h : Sliding info request content x) (hl : x.live.listening)
    (hm : x.live.world.session.mode = .octet)
    (busy : x.live.world.session.isFetchingData = true ∨
      x.live.world.session.incompleteRead = true) :
    x.nextDataPacketToSend < x.windowBegin + x.live.world.session.windowSize.toNat := by
  rcases busy with fetching | incomplete
  · exact (h.windowed.inWindow hl).room fetching
  · exact h.paused hl hm incomplete

theorem step {label : Label} (h : Sliding info request content x) (hs : Step x.live label l')
    (hC : AcksAndReads content x label) : Sliding info request content (x.follow label l') := by
  have reach : AcksWithinReach x.live label := by
    have meets := hC.1
    unfold AcksWithinReach
    unfold AckMeetsWindow at meets
    split
    · exact fun reaches => meets reaches.1
    · trivial
  have later : x.windowBegin ≤ (x.follow label l').windowBegin := Nat.le_add_right _ _
  refine ⟨h.holding.step hs hC.2, h.windowed.step hs hC.1, h.retransmits.step hs reach,
    h.first.trans later, fun hl hm incomplete => ?_⟩
  obtain ⟨before, next⟩ := h.holding.served.pauses hs hl hm incomplete
  by_cases hf : x.live.status = .fresh
  · -- a session that has not started reads nothing
    obtain rfl := h.holding.served.fresh hf
    rcases before with wrong | wrong
    · cases wrong
    · cases wrong
  · have settings := hs.settings hf
    have width : l'.world.session.windowSize = x.live.world.session.windowSize :=
      congrArg Settings.windowSize settings
    have room := h.room (hs.listened hf) ((congrArg Settings.mode settings).symm.trans hm) before.symm
    have stays : (x.follow label l').nextDataPacketToSend = x.nextDataPacketToSend := by
      show Serial.advance _ x.live.world.session.nextDataPacketToSend
        l'.world.session.nextDataPacketToSend = _
      rw [next, Serial.advance_self]
    rw [stays, show (x.follow label l').live = l' from rfl, width]
    exact room.trans_le (Nat.add_le_add_right later _)

theorem of_runs (h : Runs (AcksAndReads content) (Transfer.boot info request) x) :
    Sliding info request content x :=
  h.invariant (fun _ _ _ h hs hc => h.step hs hc) .boot

end Sliding

/-- The outstanding blocks and the one that is being read have slots of their own. -/
def Apart (x : Transfer) : Prop :=
  ∀ j k, x.windowBegin ≤ j → j < k →
    (k < x.nextDataPacketToSend ∨
      k = x.nextDataPacketToSend ∧ x.live.world.session.isFetchingData = true) →
    x.live.world.buffer.slotOf (UInt16.ofNat j) ≠ x.live.world.buffer.slotOf (UInt16.ofNat k)

/-- The call sends the outstanding blocks of the file, each with its number and its
bytes; a call of the system that fails cuts this short. -/
def SendsAgain (content : Bytes) (x : Transfer) (sys : Sys) (l' : Live) : Prop :=
  ∃ m, l'.world.log = x.live.world.log ++ (List.range' x.windowBegin m).map (fun k =>
      .sent x.live.world.session.clientAddress
        (.data (UInt16.ofNat k) (block x.live.world.session.blockSize.toNat content k))) ∧
    (l'.status = .idle ∧ m = x.nextDataPacketToSend - x.windowBegin ∨
      l'.status = .error ∧ false ∈ sys.calls ∧ m < x.nextDataPacketToSend - x.windowBegin)

/-- What the timer sends again is right. -/
structure Recovers (content : Bytes) (x : Transfer) : Prop where
  apart : x.Apart
  again : ∀ op sys r l', Step x.live (.complete op sys (.timeout r)) l' →
    x.live.world.session.ReachesLoop sys r → x.SendsAgain content sys l'

theorem Sliding.apart (h : Sliding info request content x) (hl : x.live.listening)
    (hm : x.live.world.session.mode = .octet) (slots : SlotsFit content x.live.world.session) :
    x.Apart := by
  intro j k hj hjk hk
  have window := h.windowed.inWindow hl
  have first := h.first
  have size : x.nextDataPacketToSend ≤ x.windowBegin + x.live.world.session.windowSize.toNat :=
    window.size
  have position := h.holding.position hl hm
  obtain ⟨i, rfl⟩ : ∃ i, j = i + 1 := ⟨j - 1, by omega⟩
  obtain ⟨m, rfl⟩ : ∃ m, k = m + 1 := ⟨k - 1, by omega⟩
  have near : m < i + x.live.world.session.windowSize.toNat := by
    rcases hk with before | ⟨next, fetching⟩
    · omega
    · have room := h.room hl hm (.inl fetching)
      omega
  refine Serial.slot_ne (by omega) near ?_
  rcases hk with before | ⟨next, fetching⟩
  · have some_ := h.holding.length_le_last hl hm
    refine slots.imp_right fun few => ?_
    omega
  · have none_ : x.live.world.session.lastPacket = none :=
      ((h.windowed.settled.tidy hl).fetching fetching).2.2
    have fits := slots.reading (h.holding.served.serving hl hm) none_ (h.holding.size hl)
      (h.holding.begins hl hm)
    refine fits.imp_right fun below => ?_
    omega

/-- The packet that stands for an outstanding block carries it. -/
theorem Sliding.packet_eq (h : Sliding info request content x) (hl : x.live.listening)
    (hm : x.live.world.session.mode = .octet) (slots : SlotsFit content x.live.world.session)
    (open_ : x.live.world.session.shouldClose = false) {packets : ℕ → Slot}
    (hs : x.live.world.session.dataPackets = some packets) {k : ℕ} (hb : x.windowBegin ≤ k)
    (hn : k < x.nextDataPacketToSend) :
    x.live.world.buffer.packet packets (UInt16.ofNat k) =
      .data (UInt16.ofNat k) (block x.live.world.session.blockSize.toNat content k) := by
  have window := h.windowed.inWindow hl
  have first := h.first
  have size : x.nextDataPacketToSend ≤ x.windowBegin + x.live.world.session.windowSize.toNat :=
    window.size
  have width := x.live.world.session.windowSize.toNat_lt
  have position := h.holding.position hl hm
  have serving := h.holding.served.serving hl hm
  have cuts := serving.cuts
  obtain ⟨i, rfl⟩ : ∃ i, k = i + 1 := ⟨k - 1, by omega⟩
  have there : i < x.blocks.length := by omega
  have piece : x.blocks[i]? =
      some (block x.live.world.session.blockSize.toNat content (i + 1)) := by
    rw [h.holding.blocks_eq hl hm]
    simp [firstBlocks, there]
  obtain ⟨number, payload⟩ := h.holding.stores hl hm slots open_ packets hs i _ piece
    (by show _ ≤ i + x.live.world.session.windowSize.toNat; omega)
  have bytes := payload fun busy => by
    have room := h.room hl hm (by simpa using busy)
    show _ < i + x.live.world.session.windowSize.toNat
    omega
  have length := payloadSize_eq cuts (h.windowed.settled.tidy hl).last piece (by omega)
  rw [Buffer.packet, number, length, bytes]

theorem Sliding.again (h : Sliding info request content x) (hm : x.live.world.session.mode = .octet)
    (slots : SlotsFit content x.live.world.session) {op : Op} {sys : Sys} {r : Completion ℕ}
    (hs : Step x.live (.complete op sys (.timeout r)) l')
    (loop : x.live.world.session.ReachesLoop sys r) : x.SendsAgain content sys l' := by
  cases hs with
  | @complete pre post _ _ _ hl hops hr =>
      have window := h.windowed.inWindow hl
      have isRead : x.live.world.control.requestType = .read := loop.isRead
      have settled : x.live.world.control.optionsPending = false := by
        simp [World.control, loop.settled]
      have nonempty : x.windowBegin < x.nextDataPacketToSend := by
        refine lt_of_le_of_ne window.le fun same => ?_
        rcases h.retransmits.needed hl loop.active isRead with pending | other
        · exact absurd (settled.symm.trans pending) (by decide)
        · exact other (by rw [← window.windowBegin, ← window.next, same])
      have size : x.nextDataPacketToSend ≤ x.windowBegin + x.live.world.session.windowSize.toNat :=
        window.size
      have near := window.near
      have width : x.live.world.session.windowSize ≠ 0 := by
        intro zero
        rw [zero, UInt16.toNat_zero] at size
        omega
      have allocated : x.live.world.session.dataPackets.isSome := by
        rcases h.retransmits.ready hl isRead with allocated | plain
        · exact allocated
        · refine absurd plain.empty fun same => nonempty.ne ?_
          rw [← window.windowBegin, ← window.next] at same
          exact (Serial.ofNat_inj_near nonempty.le near).mp same
      obtain ⟨packets, hp⟩ := Option.isSome_iff_exists.mp allocated
      have blocks (m : ℕ) (hm' : m ≤ x.nextDataPacketToSend - x.windowBegin) :
          x.live.world.buffer.packets packets x.windowBegin m =
            (List.range' x.windowBegin m).map fun k =>
              .data (UInt16.ofNat k) (block x.live.world.session.blockSize.toNat content k) := by
        refine List.map_congr_left fun k hk => ?_
        obtain ⟨before, behind⟩ := List.mem_range'_1.mp hk
        exact h.packet_eq hl hm slots loop.isOpen hp before (by omega)
      have call := handleEvent_loop (w := { x.live.world with inflight := pre ++ post, sys := sys })
        loop width hp window.windowBegin window.next nonempty near (h.windowed.settled.fetched hl)
      refine deliver_spec (P := x.SendsAgain content sys) (wp_mono call ?_ ?_)
      · rintro state w' ⟨rfl, log⟩
        refine ⟨_, log.trans ?_, .inl ⟨rfl, rfl⟩⟩
        show _ ++ (x.live.world.buffer.packets packets _ _).map _ = _
        rw [blocks _ le_rfl, List.map_map]
        rfl
      · rintro e w' ⟨rfl, failed, m, few, log⟩
        refine ⟨m, log.trans ?_, .inr ⟨rfl, failed, few⟩⟩
        show _ ++ (x.live.world.buffer.packets packets _ _).map _ = _
        rw [blocks _ few.le, List.map_map]
        rfl

/-- In every run of an octet session over a regular file in which ACKs only name
outstanding blocks, what the timer sends again is right, if the number of slots divides
a full turn or the numbers of the file's blocks do not wrap. -/
theorem retransmission_recovers (runs : Runs (AcksAndReads content) (boot info request) x)
    (hl : x.live.listening) (octet : x.live.world.session.mode = .octet)
    (slots : SlotsFit content x.live.world.session) : x.Recovers content := by
  have sliding := Sliding.of_runs runs
  exact ⟨sliding.apart hl octet slots, fun op sys r l' hs loop => sliding.again octet slots hs loop⟩

instance (content : Bytes) (x : Transfer) (label : Label) :
    Decidable (AcksAndReads content x label) := by
  unfold AcksAndReads
  infer_instance

/-- Each of two blocks that went out is sent again as it was. -/
theorem two_blocks_recover : ∃ x : Transfer,
    Runs (AcksAndReads twoBlockFile) (boot plainInfo (plainRequest Opcode.rrq "octet")) x ∧
      x.blocks = [List.replicate 512 97, [97]] ∧ x.Recovers twoBlockFile := by
  have h : ((replayWhile (fun x label => decide (AcksAndReads twoBlockFile x label))
      (sendsTwoBlocks ++ [.expire]) (boot plainInfo (plainRequest Opcode.rrq "octet"))).map fun x =>
        decide (x.live.listening ∧ x.live.world.session.mode = .octet ∧
          x.live.world.session.windowSize = 1 ∧
            x.blocks = [List.replicate 512 97, [97]])) = some true := by
    decide +kernel
  obtain ⟨x, hx, he⟩ := Option.map_eq_some_iff.mp h
  obtain ⟨hl, octet, width, blocks⟩ := of_decide_eq_true he
  have runs := replayWhile_runs hx fun _ _ _ hc => of_decide_eq_true hc
  have slots : SlotsFit twoBlockFile x.live.world.session := by
    refine .inl ?_
    rw [width]
    decide
  exact ⟨x, runs, blocks, retransmission_recovers runs hl octet slots⟩

/-! ## What goes out -/

/-- The last packet is known exactly when there is no block left to send. -/
theorem Holding.exhausted_iff (h : Holding info request content x) (hl : x.live.listening)
    (hm : x.live.world.session.mode = .octet) :
    x.live.world.session.lastPacket.isSome ↔
      x.blocks.length = last x.live.world.session.blockSize.toNat content := by
  have serving := h.served.serving hl hm
  have positive : 0 < x.live.world.session.blockSize.toNat := by
    have size := h.size hl
    omega
  constructor
  · intro isLast
    obtain ⟨before, piece, cut, full, -, short⟩ := serving.cuts.last isLast
    have whole : x.blocks.flatten = content := by
      rw [← h.exhausts hl hm isLast, ← serving.ended isLast]
    have length := congrArg List.length whole
    rw [cut, List.flatten_append, List.length_append, List.flatten_singleton,
      full.length_flatten] at length
    have blocks : (before.length * x.live.world.session.blockSize.toNat + piece.length) /
        x.live.world.session.blockSize.toNat = before.length := by
      rw [Nat.mul_comm, Nat.mul_add_div positive, Nat.div_eq_of_lt short, Nat.add_zero]
    rw [cut, List.length_append, List.length_singleton, last, ← length, blocks]
  · intro all
    by_contra none_
    have open_ : x.live.world.session.lastPacket = none := by simpa using none_
    have within : x.blocks.flatten.length ≤ content.length :=
      (serving.sent.trans (h.begins hl hm)).length_le
    rw [(serving.cuts.full open_).length_flatten] at within
    have few := (Nat.le_div_iff_mul_le positive).mpr within
    unfold last at all
    omega

/-- In every run of an octet session over a regular file, whatever is acknowledged and
however the timer fires: the blocks that went out for the first time are the first ones
of the file, in order and none of them twice, and the last packet is known exactly when
all of them have gone out. -/
theorem file_sent_in_order (runs : Runs (ReadsFile content) (boot info request) x)
    (hl : x.live.listening) (octet : x.live.world.session.mode = .octet) :
    x.blocks = firstBlocks x.live.world.session.blockSize.toNat content x.blocks.length ∧
      x.blocks.length ≤ last x.live.world.session.blockSize.toNat content ∧
      (x.live.world.session.lastPacket.isSome ↔
        x.blocks.length = last x.live.world.session.blockSize.toNat content) := by
  have holding := holding_of_runs (fun _ _ reads => reads) runs
  exact ⟨holding.blocks_eq hl octet, holding.length_le_last hl octet, holding.exhausted_iff hl octet⟩

/-- Both blocks of a file go out. -/
theorem two_blocks_sent : ∃ x : Transfer,
    Runs (ReadsFile twoBlockFile) (boot plainInfo (plainRequest Opcode.rrq "octet")) x ∧
      x.blocks = [List.replicate 512 97, [97]] ∧ x.live.world.session.lastPacket.isSome := by
  have h : ((replayWhile (fun x label => decide (ReadsFile twoBlockFile x label)) sendsTwoBlocks
      (boot plainInfo (plainRequest Opcode.rrq "octet"))).map fun x =>
        decide (x.live.listening ∧ x.live.world.session.mode = .octet ∧
          x.live.world.session.blockSize = 512 ∧
            x.blocks = [List.replicate 512 97, [97]])) = some true := by
    decide +kernel
  obtain ⟨x, hx, he⟩ := Option.map_eq_some_iff.mp h
  obtain ⟨hl, octet, size, blocks⟩ := of_decide_eq_true he
  have runs := replayWhile_runs hx fun _ _ _ hc => of_decide_eq_true hc
  obtain ⟨-, -, known⟩ := file_sent_in_order runs hl octet
  refine ⟨x, runs, blocks, known.mpr ?_⟩
  rw [blocks, size]
  decide +kernel

end Transfer

end Tftp.Server
