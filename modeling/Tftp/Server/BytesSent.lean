import Tftp.Server.Closing
import Tftp.Server.Encoding
import Tftp.Server.Tally

/-!
# The bytes counted as sent

Every ACK a read session takes adds to `stats.bytes_sent` the bytes of the blocks
from the begin of the window to the one it names. The product of the block size
and their number is computed in `int`, and an empty window takes every ACK: the
count is that of the acknowledged blocks as long as no product overflows and no
ACK finds the window empty.
-/

namespace Tftp.Server

open Prog Act Blocks

/-! ## What an ACK counts -/

/-- Below 2^31 the count of an ACK is exact. -/
theorem getCumulativeAckdPayloadSize_eq {s : Session} {n : UInt16} (h : s.ackd n < 2 ^ 31) :
    getCumulativeAckdPayloadSize s n = UInt64.ofNat (s.ackd n) := by
  have wide : s.ackd n ≤ Int32.maxValue.toInt := by
    have bound : Int32.maxValue.toInt = 2147483647 := by decide
    rw [bound]
    omega
  unfold getCumulativeAckdPayloadSize
  dsimp only
  rw [← Int32.ofNat_add]
  show (Int32.ofNat (s.ackd n)).toInt64.toUInt64 = UInt64.ofNat (s.ackd n)
  rw [Int32.toInt64_ofNat' wide, Int64.toUInt64_ofNat']

/-- An ACK of the block at position `k` adds the bytes of the blocks from
position `b` on. -/
theorem Session.Cuts.ackd {s : Session} {blocks : List Bytes} {b k : ℕ} (h : s.Cuts blocks)
    (hlast : ∀ p, s.lastPacket = some p → s.nextDataPacketToSend = p + 1)
    (hw : UInt16.ofNat b = s.windowBegin) (hb : 1 ≤ b) (hbk : b ≤ k) (hk : k ≤ blocks.length)
    (near : blocks.length - b < 65535) :
    (blocks.take k).flatten.length =
      (blocks.take (b - 1)).flatten.length + s.ackd (UInt16.ofNat k) := by
  have distance : (UInt16.ofNat k - s.windowBegin).toNat = k - b := by
    rw [← hw]
    exact Serial.toNat_sub_near hbk (by omega)
  -- the last packet is that of the last block
  have lastNumber (p : UInt16) (hp : s.lastPacket = some p) : p = UInt16.ofNat blocks.length := by
    have next := hlast p hp
    rw [← h.next, Serial.ofNat_succ] at next
    exact ((UInt16.add_left_inj 1).mp next).symm
  have whole : (b - 1) + (k - b) + 1 = k := by omega
  rw [Session.ackd, distance]
  by_cases last : s.lastPacket = some (UInt16.ofNat k)
  · have isLast : k = blocks.length := (Serial.ofNat_inj_near hk (by omega)).mp (lastNumber _ last)
    obtain ⟨before, piece, rfl, full, size, -⟩ := h.last (by simp [last])
    rw [List.length_append, List.length_singleton] at isLast
    have begins : (before ++ [piece]).take (b - 1) = before.take (b - 1) :=
      List.take_append_of_le_length (by omega)
    have ends : (before ++ [piece]).take k = before ++ [piece] :=
      List.take_of_length_le (by rw [List.length_append, List.length_singleton]; omega)
    rw [if_pos last, begins, ends, List.flatten_append, List.length_append, List.flatten_singleton,
      full.length_flatten, full.length_flatten_take (by omega), ← size, Nat.mul_comm s.blockSize.toNat,
      ← Nat.add_assoc, ← Nat.add_mul]
    congr 2
    omega
  · -- up to there all blocks are full
    have full : Full s.blockSize.toNat (blocks.take k) := by
      cases hl : s.lastPacket with
      | none => exact (h.full hl).take k
      | some p =>
          obtain ⟨before, piece, rfl, full, -, -⟩ := h.last (by simp [hl])
          have notLast : k ≠ (before ++ [piece]).length := by
            rintro rfl
            exact last (hl.trans (congrArg some (lastNumber p hl)))
          rw [List.length_append, List.length_singleton] at hk notLast
          rw [List.take_append_of_le_length (by omega)]
          exact full.take k
    have before : blocks.take (b - 1) = (blocks.take k).take (b - 1) := by
      rw [List.take_take, Nat.min_eq_left (by omega)]
    have count : (blocks.take k).length = k := by
      rw [List.length_take, Nat.min_eq_left hk]
    rw [if_neg last, before, full.length_flatten_take (by omega), full.length_flatten, count,
      Nat.mul_comm s.blockSize.toNat, ← Nat.add_assoc, ← Nat.add_mul]
    conv => lhs; rw [← whole]
    rw [Nat.succ_mul]

/-! ## Blocks and positions -/

/-- A call for a completed read sends at most one block. -/
theorem dispatch_sends_one {w : World} (r : Completion ℕ) :
    wp (dispatch (.dataAvailable r))
      (fun _ t => ∃ extra, t.log = w.log ++ extra ∧ (payloads extra).length ≤ 1)
      (fun _ _ => True) w := by
  rw [dispatch, wp_bind, wp_jobDone, wp_bind, wp_modify]
  generalize hv : ({ session := _, sys := _, inflight := _, log := _ } : World) = v
  have log : v.log = w.log := by
    subst hv
    rfl
  rw [← log]
  by_cases hm : v.session.mode = .octet
  · cases r with
    | error e =>
        rw [onDataAvailable, wp_bind, wp_session, if_pos hm]
        refine wp_mono readFailure_silent ?_ fun _ _ _ => trivial
        rintro _ t ⟨-, -, extra, hlog, silent⟩
        have none_ : payloads extra = [] := by
          refine List.filterMap_eq_nil_iff.mpr fun e he => ?_
          have quiet := silent e he
          unfold Entry.payload?
          split
          · simp [Entry.isTransfer] at quiet
          · rfl
        exact ⟨extra, hlog, by simp [none_]⟩
    | ok k =>
        refine wp_mono (onDataAvailable_spec hm k) ?_ fun _ _ _ => trivial
        rintro _ t (⟨-, -, hlog⟩ | ⟨-, slots, -, -, hlog⟩)
        · exact ⟨[], by rw [hlog, List.append_nil], Nat.zero_le _⟩
        · exact ⟨_, hlog, le_rfl⟩
  · refine (wp_onDataAvailable_encoded hm).mpr (wp_mono sendNextBlock_spec ?_ fun _ _ _ => trivial)
    rintro _ t ⟨slots, -, -, hlog⟩
    exact ⟨_, hlog, le_rfl⟩

namespace Transfer

variable {info : ServerInfo} {request : PeerMessage} {x : Transfer} {l' : Live}

/-- What the system answers to a session: a read that completes tells how many
bytes it has put in memory, and a no-op does not fail. -/
def Answers (x : Transfer) (label : Label) : Prop :=
  Truthful x label ∧ ∀ op sys e, label = .complete op sys e → op.MayGive e

/-- A session between two calls: the blocks that went out are those before the
next position. -/
structure Numbered (info : ServerInfo) (request : PeerMessage) (x : Transfer) : Prop where
  served : Served info request x
  windowed : x.toTracked.Windowed
  encodes : x.live.listening → x.live.world.session.mode ≠ .octet →
    x.live.world.Encodes x.blocks
  position : x.live.listening → x.nextDataPacketToSend = x.blocks.length + 1

theorem Numbered.cuts (h : Numbered info request x) (hl : x.live.listening) :
    x.live.world.session.Cuts x.blocks := by
  by_cases hm : x.live.world.session.mode = .octet
  · exact (h.served.serving hl hm).cuts
  · exact (h.encodes hl hm).cuts

theorem produced_le_one {label : Label} (hs : Step x.live label l') (hl : l'.listening) :
    (label.produced x.live l').length ≤ 1 := by
  cases hs with
  | start => exact Nat.zero_le _
  | expire => exact Nat.zero_le _
  | fill => exact Nat.zero_le _
  | @complete pre post op sys e hl' hops hr =>
      by_cases hd : ∃ k, e = .dataAvailable (.ok k)
      · obtain ⟨k, rfl⟩ := hd
        refine deliver_returns (P := fun t =>
          (payloads (t.log.drop x.live.world.log.length)).length ≤ 1) ?_ hl
        refine wp_bind.mpr (wp_mono (dispatch_sends_one _) ?_ fun _ _ _ => trivial)
        rintro _ t ⟨extra, log, one⟩
        refine wp_mono (rest_unsent t) ?_ fun _ _ _ => trivial
        rintro _ t' ⟨more, log', none_⟩
        rw [log', log, List.append_assoc, List.drop_left, payloads_append, none_, List.append_nil]
        exact one
      · have none_ : (Label.complete op sys e).produced x.live
            (deliver sys e { x.live.world with inflight := pre ++ post }) = [] := by
          unfold Label.produced
          split
          · rename_i he
            cases he
            exact (hd ⟨_, rfl⟩).elim
          · rfl
        rw [none_]
        exact Nat.zero_le _

/-- What the first call leaves of a session that encodes its file. -/
theorem encodes_started {sys : Sys}
    (hl : (deliver sys .start (boot info request).live.world).listening)
    (hm : (deliver sys .start (boot info request).live.world).world.session.mode ≠ .octet) :
    (deliver sys .start (boot info request).live.world).world.Encodes [] := by
  refine deliver_returns (P := fun t => t.session.mode ≠ .octet → t.Encodes []) ?_ hl hm
  have blank : (boot info request).live.world.buffer.Blank :=
    ⟨rfl, rfl, rfl, rfl, Buffer.sized_of_none rfl⟩
  have default : 8 ≤ (boot info request).live.world.session.blockSize.toNat :=
    show 8 ≤ defaultBlksize.toNat by decide
  refine wp_bind.mpr (wp_mono (wp_and
    (onStart_blank (w := { (boot info request).live.world with sys := sys }) blank rfl)
    (onStart_blockSize default)) ?_ fun _ _ _ => trivial)
  rintro _ t ⟨⟨ready, intake⟩, size⟩
  have settled : KeepsSettings (do
      fetchData
      finish) := .bind .fetchData fun _ => .finish
  by_cases octet : t.session.mode = .octet
  · exact settled.wp fun _ t' ht' hm => (hm ((congrArg Settings.mode ht').trans octet)).elim
  · have encodes : t.Encodes [] := .of_blank octet size ready
      (congrArg Intake.isFetchingData intake) (congrArg Intake.fetches intake)
    exact wp_mono encodes.ends (fun _ _ h _ => h) fun _ _ _ => trivial

/-- What a completion leaves of it. -/
theorem encodes_completed {pre post : List Op} {op : Op} {sys : Sys} {e : Event}
    (h : x.live.world.Encodes x.blocks) (ht : x.live.world.control.Tidy)
    (hops : x.live.world.inflight = pre ++ op :: post) (hr : op.Reports e) (hok : op.MayGive e)
    (hl : (deliver sys e { x.live.world with inflight := pre ++ post }).listening) :
    (deliver sys e { x.live.world with inflight := pre ++ post }).world.Encodes
      (x.blocks ++ (Label.complete op sys e).produced x.live
        (deliver sys e { x.live.world with inflight := pre ++ post })) := by
  refine deliver_returns (P := fun t => t.Encodes
    (x.blocks ++ (Label.complete op sys e).produced x.live ⟨t, .idle⟩)) ?_ hl
  refine wp_bind.mpr ?_
  by_cases hd : ∃ r, e = .dataAvailable r
  · obtain ⟨r, rfl⟩ := hd
    have hop : op.isFetch := by cases op <;> first | rfl | exact hr.elim
    obtain ⟨rfl, -⟩ := h.ready ht hops hop
    obtain ⟨k, rfl⟩ : ∃ k, r = .ok k := by
      cases r with
      | ok k => exact ⟨k, rfl⟩
      | error e => simp [Op.MayGive] at hok
    refine wp_mono (h.dispatch_data ht hops hop) ?_ fun _ _ _ => trivial
    rintro _ t ⟨slots, extra, -, log, sent, encodes, -, -⟩
    refine wp_mono (wp_and encodes.ends (rest_unsent t)) ?_ fun _ _ _ => trivial
    rintro _ t' ⟨encodes', more, log', none_⟩
    have produced : (Label.complete .nop sys (.dataAvailable (.ok k))).produced x.live ⟨t', .idle⟩ =
        [x.live.world.buffer.block slots] := by
      show payloads (t'.log.drop x.live.world.log.length) = _
      rw [log', log, List.append_assoc, List.drop_left, payloads_append, none_, List.append_nil, sent]
    rw [produced]
    exact encodes'
  · have hd' : ∀ r, e ≠ .dataAvailable r := fun r hr => hd ⟨r, hr⟩
    have he : e ≠ .start := fun he => Op.not_reports_start (he ▸ hr)
    have hop : op.isFetch = false := by
      cases op <;> cases e <;> first | rfl | exact hr.elim | exact (hd' _ rfl).elim
    have kept : ({ x.live.world with inflight := pre ++ post, sys := sys } : World).Encodes
        x.blocks := by
      refine h.congr rfl rfl ?_
      show (pre ++ post).filter Op.isFetch = x.live.world.inflight.filter Op.isFetch
      rw [hops, List.filter_append, List.filter_append, List.filter_cons_of_neg (by simp [hop])]
    refine wp_mono (kept.dispatch_other he hd') ?_ fun _ _ _ => trivial
    intro _ t encodes
    refine wp_mono encodes.ends ?_ fun _ _ _ => trivial
    intro _ t' encodes'
    have quiet : (Label.complete op sys e).produced x.live ⟨t', .idle⟩ = [] := by
      cases e <;> first | rfl | exact (hd' _ rfl).elim
    rw [quiet, List.append_nil]
    exact encodes'

/-- The position of the next block moves on with the blocks. -/
theorem position_step {n : ℕ} {next next' : UInt16} {blocks more : List Bytes}
    (hn : n = blocks.length + 1) (hb : UInt16.ofNat (blocks.length + 1) = next)
    (hb' : UInt16.ofNat ((blocks ++ more).length + 1) = next') (one : more.length ≤ 1) :
    Serial.advance n next next' = (blocks ++ more).length + 1 := by
  subst hb hb' hn
  rw [List.length_append]
  rcases Nat.le_one_iff_eq_zero_or_eq_one.mp one with hm | hm
  · rw [hm, Nat.add_zero, Serial.advance_self]
  · rw [hm, Serial.ofNat_succ (blocks.length + 1), Serial.advance_succ]

namespace Numbered

theorem step {label : Label} (h : Numbered info request x) (hs : Step x.live label l')
    (hC : Answers x label) (hW : AckMeetsWindow x.live label) :
    Numbered info request (x.follow label l') := by
  have served := h.served.step hs hC.1
  have windowed : (x.follow label l').toTracked.Windowed := h.windowed.step hs hW
  have kept : x.live.status ≠ .fresh → l'.world.settings = x.live.world.settings := hs.settings
  have encodes : l'.listening → l'.world.session.mode ≠ .octet →
      l'.world.Encodes (x.blocks ++ label.produced x.live l') := by
    intro hl' hm'
    cases hs with
    | start sys hf =>
        obtain rfl := h.served.fresh hf
        exact encodes_started hl' hm'
    | complete op sys e hl hops hr =>
        refine encodes_completed (h.encodes hl fun he => hm' ?_) (h.served.settled.tidy hl) hops hr
          (hC.2 op sys e rfl) hl'
        exact (congrArg Settings.mode (kept hl.ne_fresh)).trans he
    | @expire pre post hl hops =>
        refine (List.append_nil x.blocks).symm ▸ (h.encodes hl hm').congr rfl rfl ?_
        show (pre ++ .timeout .expired :: post).filter Op.isFetch = _
        rw [hops, List.filter_append, List.filter_append]
        rfl
    | fill bytes hl hops =>
        obtain ⟨isNop, -⟩ := (h.encodes hl hm').ready (h.served.settled.tidy hl) hops rfl
        simp at isNop
  refine ⟨served, windowed, encodes, fun hl' => ?_⟩
  have cuts' : l'.world.session.Cuts (x.blocks ++ label.produced x.live l') := by
    by_cases hm : l'.world.session.mode = .octet
    · exact (served.serving hl' hm).cuts
    · exact (encodes hl' hm).cuts
  have here : x.nextDataPacketToSend = x.blocks.length + 1 ∧
      UInt16.ofNat (x.blocks.length + 1) = x.live.world.session.nextDataPacketToSend := by
    by_cases hf : x.live.status = .fresh
    · obtain rfl := h.served.fresh hf
      exact ⟨rfl, rfl⟩
    · have hl : x.live.listening := by
        cases hs with
        | start sys hf' => exact (hf hf').elim
        | complete _ _ _ hl _ _ => exact hl
        | expire hl _ => exact hl
        | fill _ hl _ _ => exact hl
      exact ⟨h.position hl, (h.cuts hl).next⟩
  exact position_step here.1 here.2 cuts'.next (produced_le_one hs hl')

end Numbered

/-! ## The count -/

/-- The bytes of the blocks that were acknowledged. -/
def acknowledged (x : Transfer) : ℕ := (x.blocks.take (x.windowBegin - 1)).flatten.length

/-- No ACK of blocks is taken whose bytes overflow an `int`. -/
def AckFits (x : Transfer) (label : Label) : Prop :=
  match label with
  | .complete _ _ (.packetReceived (.ok d)) => x.live.world.control.IsAck d →
      ¬(x.live.world.session.optionsSettled = false ∧ readU16 d.bytes 2 = 0) →
      isInRange (readU16 d.bytes 2) x.live.world.session.windowBegin
        (x.live.world.session.nextDataPacketToSend - 1) →
      x.live.world.session.ackd (readU16 d.bytes 2) < 2 ^ 31
  | _ => True

/-- The count is that of the acknowledged blocks; once the last packet is
acknowledged it is the size of all that was sent. -/
structure Accounts (x : Transfer) : Prop where
  bytesSent : x.live.world.session.stats.bytesSent = UInt64.ofNat x.acknowledged
  whole : ∀ p, x.live.world.session.lastPacket = some p →
    x.live.world.session.windowBegin = p + 1 →
      x.live.world.session.stats.bytesSent = UInt64.ofNat x.blocks.flatten.length ∧
        (x.live.world.session.mode = .octet → x.blocks.flatten = x.stream)

/-- A read session between two calls. -/
structure Counted (info : ServerInfo) (request : PeerMessage) (x : Transfer) : Prop where
  numbered : Numbered info request x
  first : 1 ≤ x.windowBegin
  count : x.live.listening → x.live.world.session.requestType = .read →
    x.live.world.session.stats.bytesSent = UInt64.ofNat x.acknowledged

namespace Counted

/-- A datagram is counted as the blocks it acknowledges. -/
theorem recounts {d : Datagram} {c : Tally} (h : Counted info request x) (hl : x.live.listening)
    (hread : x.live.world.session.requestType = .read)
    (hopen : x.live.world.session.shouldClose = false)
    (hW : ¬x.live.world.control.AcksNothing d)
    (hF : x.live.world.control.IsAck d →
      ¬(x.live.world.session.optionsSettled = false ∧ readU16 d.bytes 2 = 0) →
      isInRange (readU16 d.bytes 2) x.live.world.session.windowBegin
        (x.live.world.session.nextDataPacketToSend - 1) →
      x.live.world.session.ackd (readU16 d.bytes 2) < 2 ^ 31)
    (hc : x.live.world.Recounts d c) : c.bytesSent = UInt64.ofNat (x.blocks.take
      (Serial.advance x.windowBegin x.live.world.session.windowBegin c.windowBegin - 1)).flatten.length := by
  have count := h.count hl hread
  have window := h.numbered.windowed.inWindow hl
  have tidy := h.numbered.served.settled.tidy hl
  cases hc with
  | same =>
      show x.live.world.session.stats.bytesSent = UInt64.ofNat (x.blocks.take
        (Serial.advance x.windowBegin x.live.world.session.windowBegin
          x.live.world.session.windowBegin - 1)).flatten.length
      rw [Serial.advance_self]
      exact count
  | options pending hn =>
      -- nothing was sent yet, so the window stays where it is
      have waits : x.live.world.control.optionsPending = true := by
        simpa [World.control] using pending
      have begins : x.live.world.session.windowBegin = 1 :=
        (window.pending waits hread).trans (tidy.pending waits hread).1
      show x.live.world.session.stats.bytesSent = UInt64.ofNat (x.blocks.take
        (Serial.advance x.windowBegin x.live.world.session.windowBegin 1 - 1)).flatten.length
      rw [begins, Serial.advance_self]
      exact count
  | blocks hack hn hrange =>
      have fits := hF hack hn hrange
      have hne : x.live.world.control.windowBegin ≠ x.live.world.control.nextDataPacketToSend :=
        fun he => hW ⟨hread, hopen, hack, by simpa [World.control] using hn, he⟩
      have some_ : x.windowBegin < x.nextDataPacketToSend := by
        refine lt_of_le_of_ne window.le fun he => hne ?_
        rw [← window.windowBegin, ← window.next, he]
      have onArc : Serial.OnArc (readU16 d.bytes 2) x.live.world.control.windowBegin
          (x.live.world.control.nextDataPacketToSend - 1) := (isInRange_iff _ _ _).mp hrange
      rw [← window.windowBegin, ← window.next] at onArc
      obtain ⟨k, hbk, hkn, hk⟩ := Serial.exists_of_onArc some_ onArc
      have near := window.near
      have position := h.numbered.position hl
      have begins : UInt16.ofNat x.windowBegin = x.live.world.session.windowBegin :=
        window.windowBegin
      have moved : Serial.advance x.windowBegin x.live.world.session.windowBegin
          (readU16 d.bytes 2 + 1) = k + 1 := by
        rw [← begins, ← hk]
        exact Serial.advance_after hbk (by omega)
      have total := (h.numbered.cuts hl).ackd tidy.last begins h.first hbk (by omega) (by omega)
      show x.live.world.session.stats.bytesSent +
          getCumulativeAckdPayloadSize x.live.world.session (readU16 d.bytes 2) =
        UInt64.ofNat (x.blocks.take (Serial.advance x.windowBegin
          x.live.world.session.windowBegin (readU16 d.bytes 2 + 1) - 1)).flatten.length
      rw [moved, Nat.add_sub_cancel, total, hk, getCumulativeAckdPayloadSize_eq fits, count,
        UInt64.ofNat_add]
      rfl

theorem step {label : Label} (h : Counted info request x) (hs : Step x.live label l')
    (hC : Answers x label) (hW : AckMeetsWindow x.live label) (hF : AckFits x label) :
    Counted info request (x.follow label l') := by
  have numbered := h.numbered.step hs hC hW
  have kept : x.live.status ≠ .fresh → l'.world.settings = x.live.world.settings := hs.settings
  have first : 1 ≤ (x.follow label l').windowBegin :=
    h.first.trans (Nat.le_add_right _ _)
  refine ⟨numbered, first, fun hl' hread' => ?_⟩
  -- no more blocks are acknowledged than there are
  have rest (he : l'.world.tally = x.live.world.tally) (hl : x.live.listening)
      (hread : x.live.world.session.requestType = .read) :
      l'.world.session.stats.bytesSent = UInt64.ofNat (x.follow label l').acknowledged := by
    have same : l'.world.session.windowBegin = x.live.world.session.windowBegin :=
      congrArg Tally.windowBegin he
    have bytes : l'.world.session.stats.bytesSent = x.live.world.session.stats.bytesSent :=
      congrArg Tally.bytesSent he
    have le := (h.numbered.windowed.inWindow hl).le
    have position := h.numbered.position hl
    rw [bytes, h.count hl hread]
    show _ = UInt64.ofNat ((x.blocks ++ label.produced x.live l').take
      (Serial.advance x.windowBegin x.live.world.session.windowBegin
        l'.world.session.windowBegin - 1)).flatten.length
    rw [same, Serial.advance_self, List.take_append_of_le_length (by omega)]
    rfl
  have keeps : KeepsTally (do
      fetchData
      finish) := .bind fetchData_tally fun _ => finish_tally
  cases hs with
  | start sys hf =>
      obtain rfl := h.numbered.served.fresh hf
      have begun : (deliver sys .start (boot info request).live.world).world.tally = ⟨1, 0⟩ := by
        refine deliver_returns (P := fun t => t.tally = ⟨1, 0⟩) ?_ hl'
        refine wp_bind.mpr (wp_mono (onStart_tally rfl) ?_ fun _ _ _ => trivial)
        exact fun _ t ht => keeps.wp fun _ t' ht' => ht'.trans ht
      have none_ : ((boot info request).follow (.start sys)
          (deliver sys .start (boot info request).live.world)).acknowledged = 0 := by
        show (([] ++ [] : List Bytes).take _).flatten.length = 0
        simp
      rw [none_]
      exact congrArg Tally.bytesSent begun
  | @complete pre post op sys e hl hops hr =>
      have hread : x.live.world.session.requestType = .read :=
        (congrArg Settings.requestType (kept hl.ne_fresh)).symm.trans hread'
      have he : e ≠ .start := fun he => Op.not_reports_start (he ▸ hr)
      by_cases hd : ∃ r, e = .packetReceived r
      · obtain ⟨r, rfl⟩ := hd
        have counted : (deliver sys (.packetReceived r)
              { x.live.world with inflight := pre ++ post }).world.tally = x.live.world.tally ∨
            x.live.world.session.shouldClose = false ∧ ∃ d, r = .ok d ∧
              x.live.world.Recounts d (deliver sys (.packetReceived r)
                { x.live.world with inflight := pre ++ post }).world.tally := by
          refine deliver_returns (P := fun t => t.tally = x.live.world.tally ∨
            x.live.world.session.shouldClose = false ∧ ∃ d, r = .ok d ∧
              x.live.world.Recounts d t.tally) ?_ hl'
          refine wp_bind.mpr (wp_mono (dispatch_recounts ?_) ?_ fun _ _ _ => trivial)
          · exact hread
          · intro _ t ht
            refine keeps.wp fun _ t' ht' => ?_
            rw [ht']
            refine ht.imp_right ?_
            rintro ⟨isOpen, d, rfl, recounts⟩
            have counts : x.live.world.Recounts d t.tally := World.Recounts.congr (by rfl) recounts
            exact ⟨isOpen, d, rfl, counts⟩
        rcases counted with same | ⟨isOpen, d, rfl, recounts⟩
        · exact rest same hl hread
        · have total := h.recounts hl hread isOpen hW hF recounts
          refine total.trans (congrArg (fun b => UInt64.ofNat (List.take _ b).flatten.length) ?_)
          exact (List.append_nil x.blocks).symm
      · refine rest ?_ hl hread
        refine deliver_returns (P := fun t => t.tally = x.live.world.tally) ?_ hl'
        refine wp_bind.mpr ((dispatch_tally he fun r hr => hd ⟨r, hr⟩).wp fun _ t ht => ?_)
        exact keeps.wp fun _ t' ht' => ht'.trans ht
  | expire hl hops => exact rest rfl hl hread'
  | fill bytes hl hops => exact rest rfl hl hread'

end Counted

/-- What a run is to meet: its answers are those of a system, no ACK but the one
that answers an OACK finds the window empty, and none overflows. -/
def Countable (x : Transfer) (label : Label) : Prop :=
  Answers x label ∧ AckMeetsWindow x.live label ∧ AckFits x label

theorem counted_of_runs (h : Runs Countable (boot info request) x) : Counted info request x := by
  refine h.invariant (fun _ _ _ h hs hC => h.step hs hC.1 hC.2.1 hC.2.2) ?_
  have idle : ¬(boot info request).live.listening := by
    simp [Live.listening, boot, Tracked.boot, Live.boot]
  exact ⟨⟨⟨.boot _ _, fun _ => rfl, fun hl => (idle hl).elim⟩, .boot _ _, fun hl => (idle hl).elim,
    fun hl => (idle hl).elim⟩, le_rfl, fun hl => (idle hl).elim⟩

/-- The bytes counted as sent are those of the acknowledged blocks. -/
theorem bytes_accounted (h : Runs Countable (boot info request) x) (hl : x.live.listening)
    (hread : x.live.world.session.requestType = .read) : x.Accounts := by
  have counted := counted_of_runs h
  have count := counted.count hl hread
  have window := counted.numbered.windowed.inWindow hl
  refine ⟨count, fun p hp hb => ?_⟩
  -- the window is empty behind the last packet
  have next := (counted.numbered.served.settled.tidy hl).last p hp
  have near := window.near
  have empty : x.windowBegin = x.nextDataPacketToSend := by
    refine (Serial.ofNat_inj_near window.le near).mp ?_
    rw [window.windowBegin, window.next, next]
    exact hb
  have all : x.blocks.take (x.windowBegin - 1) = x.blocks := by
    have position := counted.numbered.position hl
    exact List.take_of_length_le (by omega)
  refine ⟨?_, fun hm => (counted.numbered.served.serving hl hm).ended (by simp [hp])⟩
  rw [count, acknowledged, all]

instance (l : Live) (label : Label) : Decidable (AckMeetsWindow l label) := by
  unfold AckMeetsWindow Control.AcksNothing
  split <;> infer_instance

instance (x : Transfer) (label : Label) : Decidable (AckFits x label) := by
  unfold AckFits
  split <;> infer_instance

/-- A file of a full block and of one byte. -/
def twoBlockFile : Bytes := List.replicate 513 97

/-- Its first block is sent twice, as no ACK comes in for it at first; then its ACK
comes, and again when the second block has gone out. -/
def sendsTwoBlocks : List Label :=
  [.start fileOpens,
    .fill (List.replicate 512 97),
    .complete (.read 0 0 512 (some 512)) { atEndOfFile := false } (.dataAvailable (.ok 512)),
    .expire,
    .complete (.timeout .expired) {} (.timeout (.error ETIME)),
    arrival (.ack 1),
    .complete (.timeout .removed) {} (.timeout (.error ECANCELED)),
    .complete .timeoutRemove {} (.timeoutRemoved (.ok 0)),
    .fill [97],
    .complete (.read 0 0 512 (some 1)) {} (.dataAvailable (.ok 1)),
    arrival (.ack 1)]

/-- Its bytes are counted. -/
theorem two_blocks_counted :
    ∃ x, Runs Countable (boot plainInfo (plainRequest Opcode.rrq "octet")) x ∧
      x.acknowledged = 513 ∧ x.Accounts := by
  have h : ((replayWhile (fun x label => decide (AckMeetsWindow x.live label ∧ AckFits x label))
      (sendsTwoBlocks ++ [arrival (.ack 2)]) (boot plainInfo (plainRequest Opcode.rrq "octet"))).map
        fun x => decide (x.live.status = .idle ∧ x.live.world.session.requestType = .read ∧
          x.acknowledged = 513)) = some true := by
    decide +kernel
  obtain ⟨x, hx, he⟩ := Option.map_eq_some_iff.mp h
  obtain ⟨hl, hread, all⟩ := of_decide_eq_true he
  have run : Runs Countable (boot plainInfo (plainRequest Opcode.rrq "octet")) x := by
    refine replayWhile_runs hx fun x label hmem hc => ⟨⟨?_, ?_⟩, of_decide_eq_true hc⟩
    · rintro op sys k rfl
      simp only [sendsTwoBlocks, arrival, List.cons_append, List.nil_append, List.mem_cons,
        Label.complete.injEq, Event.dataAvailable.injEq, Except.ok.injEq, reduceCtorEq, false_or,
        List.not_mem_nil, or_false, and_false] at hmem
      rcases hmem with ⟨rfl, -, rfl⟩ | ⟨rfl, -, rfl⟩ <;> rfl
    · rintro op sys e rfl
      simp only [sendsTwoBlocks, arrival, List.cons_append, List.nil_append, List.mem_cons,
        Label.complete.injEq, reduceCtorEq, false_or, List.not_mem_nil, or_false] at hmem
      rcases hmem with ⟨rfl, -, rfl⟩ | ⟨rfl, -, rfl⟩ | ⟨rfl, -, rfl⟩ | ⟨rfl, -, rfl⟩ |
        ⟨rfl, -, rfl⟩ | ⟨rfl, -, rfl⟩ | ⟨rfl, -, rfl⟩ | ⟨rfl, -, rfl⟩ <;> rfl
  exact ⟨x, run, all, bytes_accounted run (.inl hl) hread⟩

/-- While the first block is being read, an ACK of block 5 is counted as five
blocks. -/
theorem unsent_blocks_counted :
    ¬∀ (info : ServerInfo) (request : PeerMessage) (x : Transfer),
      Runs Answers (boot info request) x → x.live.listening →
        x.live.world.session.requestType = .read → x.Accounts := by
  intro all
  have h : ((replay [.start fileOpens, arrival (.ack 5)]
      (boot plainInfo (plainRequest Opcode.rrq "octet"))).map fun x =>
        decide (x.live.status = .idle ∧ x.live.world.session.requestType = .read ∧
          x.acknowledged = 0 ∧ x.live.world.session.stats.bytesSent = 2560)) = some true := by
    decide +kernel
  obtain ⟨x, hx, he⟩ := Option.map_eq_some_iff.mp h
  obtain ⟨hl, hread, none_, counted⟩ := of_decide_eq_true he
  have run : Runs Answers (boot plainInfo (plainRequest Opcode.rrq "octet")) x := by
    refine replay_runs hx fun x label hmem => ⟨?_, ?_⟩
    · rintro op sys k rfl
      simp [arrival] at hmem
    · rintro op sys e rfl
      simp only [arrival, List.mem_cons, Label.complete.injEq, reduceCtorEq, false_or,
        List.not_mem_nil, or_false] at hmem
      obtain ⟨rfl, -, rfl⟩ := hmem
      rfl
  have total := (all _ _ x run (.inl hl) hread).bytesSent
  rw [none_, counted] at total
  exact absurd total (by decide)

end Transfer

end Tftp.Server
