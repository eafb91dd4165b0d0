import Tftp.Server.Negotiation
import Tftp.Server.OutputFile
import Tftp.Server.Ring

/-!
# What a write session stores and acknowledges

A write session writes the payload of each block it accepts and acknowledges
it, and it acknowledges the last block again when its timer expires. Here the
log is read as the sequence of these two. That an acknowledged block is in the
file rests on there being a file, and on `write` having stored all of the block:
the session looks at neither.
-/

namespace Tftp.Server

open Prog Act

/-! ## Writes and acknowledgments -/

inductive Io where
  /-- a `write`, with the bytes it stored -/
  | stored (bytes : Bytes)
  | acked (blockNumber : UInt16)
deriving DecidableEq

def Entry.io : Entry → Option Io
  | .wrote _ bytes => some (.stored bytes)
  | .sent _ (.ack n) => some (.acked n)
  | _ => none

def World.io (w : World) : List Io := w.log.filterMap Entry.io

/-- Of the writes, those to the output file. -/
def Entry.ioOn (file : Option ℤ) : Entry → Option Io
  | .wrote fd bytes => if file = some fd then some (.stored bytes) else none
  | e => e.io

/-- The writes to the output file of the session, and the acknowledgments. -/
def World.fileIo (w : World) : List Io := w.log.filterMap (Entry.ioOn w.outputFile)

/-- A session with a file writes nowhere else. -/
theorem fileIo_eq_io {w : World} (h : w.HasFile)
    (own : ∀ fd bytes, .wrote fd bytes ∈ w.log → fd = w.session.fileDescriptor) :
    w.fileIo = w.io := by
  unfold World.fileIo World.io
  refine List.filterMap_congr fun e he => ?_
  cases e with
  | wrote fd bytes =>
      have file : w.outputFile = some fd := by
        rw [World.outputFile, if_pos h, own fd bytes he]
      exact if_pos file
  | _ => rfl

/-- A session without a file stores nothing in it. -/
theorem eq_acked_of_mem_fileIo {w : World} (h : ¬w.HasFile) {i : Io} (hi : i ∈ w.fileIo) :
    ∃ n, i = .acked n ∧ .acked n ∈ w.io := by
  obtain ⟨e, he, hi⟩ := List.mem_filterMap.mp hi
  have none_ : w.outputFile = none := if_neg h
  rw [none_] at hi
  have sent : e.io = some i ∧ ∃ n, i = .acked n := by
    cases e with
    | wrote fd bytes => cases hi
    | sent dest packet =>
        cases packet with
        | ack n =>
            cases hi
            exact ⟨rfl, n, rfl⟩
        | _ => cases hi
    | _ => cases hi
  obtain ⟨io, n, rfl⟩ := sent
  exact ⟨n, rfl, List.mem_filterMap.mpr ⟨e, he, io⟩⟩

namespace Io

def isStored : Io → Bool
  | .stored _ => true
  | .acked _ => false

def bytes : Io → Bytes
  | .stored bytes => bytes
  | .acked _ => []

def number : Io → Option UInt16
  | .stored _ => none
  | .acked n => some n

/-- What the writes have put in the file. -/
def content (io : List Io) : Bytes := io.flatMap bytes

/-- The number of writes, one for each block that was accepted. -/
def writes (io : List Io) : ℕ := io.countP isStored

@[simp] theorem content_nil : content [] = [] := rfl

@[simp] theorem content_append (io io' : List Io) : content (io ++ io') = content io ++ content io' :=
  List.flatMap_append

@[simp] theorem content_stored (b : Bytes) : content [.stored b] = b := List.append_nil b

@[simp] theorem content_acked (n : UInt16) : content [.acked n] = [] := rfl

@[simp] theorem writes_nil : writes [] = 0 := rfl

@[simp] theorem writes_append (io io' : List Io) : writes (io ++ io') = writes io + writes io' :=
  List.countP_append

@[simp] theorem writes_stored (b : Bytes) : writes [.stored b] = 1 := rfl

@[simp] theorem writes_acked (n : UInt16) : writes [.acked n] = 0 := rfl

end Io

/-- Every acknowledgment in `io` is that of the block written last, and by then
the payloads of all `blocks` up to that one are in the file, in order and
without a gap. -/
def AckedStored (blocks : List Bytes) (io : List Io) : Prop :=
  ∀ pre n post, io = pre ++ .acked n :: post →
    n = UInt16.ofNat (Io.writes pre) ∧ Io.writes pre ≤ blocks.length ∧
      Io.content pre = (blocks.take (Io.writes pre)).flatten

namespace AckedStored

variable {blocks : List Bytes} {io : List Io}

theorem nil (blocks : List Bytes) : AckedStored blocks [] := by
  intro pre n post h
  simp at h

/-- More blocks do not take back what is stored of the first ones. -/
theorem mono (h : AckedStored blocks io) (more : List Bytes) : AckedStored (blocks ++ more) io := by
  intro pre n post split
  obtain ⟨number, le, content⟩ := h pre n post split
  refine ⟨number, ?_, ?_⟩
  · rw [List.length_append]
    omega
  · rw [List.take_append_of_le_length le]
    exact content

theorem stored (h : AckedStored blocks io) (b : Bytes) : AckedStored blocks (io ++ [.stored b]) := by
  intro pre n post split
  rcases List.append_eq_append_iff.mp split with ⟨rest, rfl, later⟩ | ⟨rest, rfl, later⟩
  · cases rest with
    | nil => simp at later
    | cons i rest => simp at later
  · cases rest with
    | nil => simp at later
    | cons i rest =>
        obtain ⟨rfl, -⟩ : Io.acked n = i ∧ post = rest ++ [.stored b] := by simpa using later
        exact h pre n rest rfl

theorem acked {n : UInt16} (h : AckedStored blocks io) (number : n = UInt16.ofNat (Io.writes io))
    (le : Io.writes io ≤ blocks.length)
    (content : Io.content io = (blocks.take (Io.writes io)).flatten) :
    AckedStored blocks (io ++ [.acked n]) := by
  intro pre m post split
  rcases List.append_eq_append_iff.mp split with ⟨rest, rfl, later⟩ | ⟨rest, rfl, later⟩
  · cases rest with
    | nil =>
        obtain ⟨rfl, rfl⟩ : n = m ∧ post = [] := by simpa [eq_comm] using later
        rw [List.append_nil]
        exact ⟨number, le, content⟩
    | cons i rest => simp at later
  · cases rest with
    | nil =>
        obtain ⟨rfl, rfl⟩ : m = n ∧ post = [] := by simpa using later
        rw [List.append_nil] at number le content
        exact ⟨number, le, content⟩
    | cons i rest =>
        obtain ⟨rfl, -⟩ : Io.acked m = i ∧ post = rest ++ [.acked n] := by simpa using later
        exact h pre m rest rfl

/-- Where nothing is stored, ACK 0 is right. -/
theorem of_unstored {all : List Io} (zero : ∀ n, .acked n ∈ all → n = 0)
    (h : ∀ i ∈ io, ∃ n, i = .acked n ∧ .acked n ∈ all) : AckedStored blocks io := by
  rintro pre n post rfl
  obtain ⟨m, same, acked⟩ := h (.acked n) (by simp)
  cases same
  have none_ : Io.writes pre = 0 := by
    refine List.countP_eq_zero.mpr fun i hi => ?_
    obtain ⟨k, rfl, -⟩ := h i (List.mem_append_left _ hi)
    exact Bool.false_ne_true
  have nothing : Io.content pre = [] := by
    refine List.flatMap_eq_nil_iff.mpr fun i hi => ?_
    obtain ⟨k, rfl, -⟩ := h i (List.mem_append_left _ hi)
    rfl
  refine ⟨?_, ?_, ?_⟩
  · rw [none_, zero n acked]
    rfl
  · rw [none_]
    exact Nat.zero_le _
  · rw [none_, nothing]
    rfl

end AckedStored

/-! ## Programs that store and acknowledge nothing -/

/-- The part of a session this is about. -/
structure Storing where
  io : List Io
  expected : UInt16
  settled : Bool

def World.storing (w : World) : Storing :=
  ⟨w.io, w.session.expectedSequenceNumber, w.session.optionsSettled⟩

abbrev KeepsStoring {α : Type} (x : Act α) : Prop := Fixes World.storing x

theorem io_append {w : World} {e : Entry} :
    World.io { w with log := w.log ++ [e] } = w.io ++ e.io.toList := by
  unfold World.io
  rw [List.filterMap_append]
  cases h : e.io with
  | none => rw [List.filterMap_cons_none h, List.filterMap_nil, Option.toList_none]
  | some i => rw [List.filterMap_cons_some h, List.filterMap_nil, Option.toList_some]

instance : Detached World.storing where
  sys _ _ := rfl
  note w e he := by
    have none_ : e.io = none := by
      unfold Entry.io
      split
      · exact absurd he Bool.noConfusion
      · exact absurd he Bool.noConfusion
      · rfl
    unfold World.storing
    rw [io_append, none_]
    simp
  reports _ _ _ _ := rfl
  ring _ _ _ _ _ _ := rfl
  block _ _ _ _ := rfl

theorem sendto_storing (dest : Address) {packet : Packet} (h : (Entry.sent dest packet).io = none) :
    KeepsStoring (sendto dest packet) := by
  refine .bind .require fun _ => .update fun w => ?_
  unfold World.storing
  rw [io_append, h]
  simp

theorem sendOack_storing : KeepsStoring sendOack :=
  .bind .require fun _ => .bind .sys fun _ => .bind .session fun _ =>
    .bind (.modify fun _ => rfl) fun _ => .bind .submitTimeout fun _ => sendto_storing _ rfl

/-! ## The start -/

/-- What the start of a session leaves alone of it. -/
def World.fresh (w : World) : List Io × UInt16 := (w.io, w.session.expectedSequenceNumber)

theorem fresh_of_storing {α : Type} {x : Act α} (h : KeepsStoring x) : Fixes World.fresh x :=
  h.comp fun s => (s.io, s.expected)

instance : Quiet World.fresh where
  calls _ _ := rfl
  note w e he :=
    congrArg (fun s : Storing => (s.io, s.expected)) (Quiet.note w e he : World.storing _ = _)
  reports _ _ _ := rfl

theorem start_fresh : Fixes World.fresh start := by
  refine start_fixes fun w s hs => ?_
  obtain ⟨_, _, _, _, _, _, _, _, _, _, _, _, _, _, _, _, _, rfl⟩ := hs
  rfl

/-- The log a session starts with, once it has told the client to begin. -/
def Greeted (c : List Io × UInt16) (w : World) : Prop :=
  w.fresh = c ∨ w.fresh = (c.1 ++ [.acked 0], c.2)

theorem onStart_fresh (w : World) :
    wp onStart (fun _ t => Greeted w.fresh t) (fun _ t => Greeted w.fresh t) w := by
  have same {α : Type} {x : Act α} {t : World} (hx : KeepsStoring x) (ht : Greeted w.fresh t) :
      wp x (fun _ t' => Greeted w.fresh t') (fun _ t' => Greeted w.fresh t') t := by
    refine wp_mono (fresh_of_storing hx _ t rfl) (fun _ t' ht' => ?_) fun _ t' ht' => ?_
    all_goals
      unfold Greeted
      rw [ht']
      exact ht
  refine wp_bind.mpr (wp_mono (start_fresh _ w rfl) ?_ fun _ t ht => .inl ht)
  intro _ t ht
  have started : Greeted w.fresh t := .inl ht
  rw [wp_bind, wp_session, wp_ite]
  refine ⟨fun _ => started, fun _ => wp_ite.mpr ⟨fun _ => ?_, fun _ => wp_ite.mpr ⟨fun _ => ?_,
    fun _ => same .recvAsync started⟩⟩⟩
  · exact same (.bind sendOack_storing fun _ => .recvAsync) started
  · rw [wp_bind, wp_attempt, wp_ite]
    refine ⟨fun _ => ?_, fun _ => same .recvAsync started⟩
    rw [wp_bind, wp_emit]
    refine same .recvAsync (.inr ?_)
    have sent := @io_append t.answered (.sent t.session.clientAddress (.ack 0))
    unfold World.fresh at ht ⊢
    rw [sent, ← ht]
    rfl

/-! ## The events of a write session -/

/-- The DATA packet an event brings, if its block is accepted. -/
def World.accepted (w : World) : Event → Option Datagram
  | .packetReceived (.ok d) => if w.IsOwn d ∧ w.Accepts d then some d else none
  | _ => none

namespace Storing

/-- Nothing is done, or the last block is acknowledged again. -/
def Repeats (c c' : Storing) : Prop :=
  c' = c ∨ c.settled = true ∧ c' = { c with io := c.io ++ [.acked (c.expected - 1)] }

/-- A block is accepted: `bytes` are what was stored of it. -/
def block (c : Storing) (n : UInt16) (bytes : Bytes) : Storing where
  io := c.io ++ [.stored bytes] ++ [.acked n]
  expected := c.expected + 1
  settled := c.settled || n = 1

end Storing

/-- An OACK is the only packet kept for the acknowledgment of options. -/
def Settings.OffersOack (s : Settings) : Prop :=
  ∀ packet, s.oackPacket = some packet → ∃ values, packet = .oack values

section Events

variable {w : World} {d : Datagram}

theorem onTimeout_storing (hwrite : w.session.requestType = .write)
    (hoack : w.settings.OffersOack) :
    wp onTimeout (fun _ t => w.storing.Repeats t.storing) (fun _ t => w.storing.Repeats t.storing)
      w := by
  have same {α : Type} {x : Act α} (hx : KeepsStoring x) :
      wp x (fun _ t => w.storing.Repeats t.storing) (fun _ t => w.storing.Repeats t.storing) w :=
    wp_mono (hx _ w rfl) (fun _ _ ht => .inl ht) fun _ _ ht => .inl ht
  rw [onTimeout, wp_bind, wp_session, wp_ite]
  refine ⟨fun _ => same .giveUp, fun _ => ?_⟩
  rw [wp_bind, wp_modify, wp_bind, wp_modify]
  generalize hv : ({ session := _, sys := _, inflight := _, log := _ } : World) = v
  have kept : v.storing = w.storing ∧ v.settings = w.settings := by
    subst hv
    unfold World.storing World.settings
    dsimp only
    split <;> exact ⟨rfl, rfl⟩
  have armed := wp_and ((Fixes.submitTimeout : KeepsStoring _) v.storing v rfl)
    ((Fixes.submitTimeout : KeepsSettings _) v.settings v rfl)
  refine wp_bind.mpr (wp_mono armed ?_ fun _ t ht => .inl (ht.1.trans kept.1))
  rintro _ t ⟨storing, settings⟩
  have storing := storing.trans kept.1
  have settings := settings.trans kept.2
  have quiet {x : Act Unit} (hx : KeepsStoring x) :
      wp x (fun _ t => w.storing.Repeats t.storing) (fun _ t => w.storing.Repeats t.storing) t :=
    wp_mono (hx _ t rfl) (fun _ _ ht => .inl (ht.trans storing)) fun _ _ ht => .inl (ht.trans storing)
  rw [retransmit, wp_bind, wp_session, wp_ite]
  refine ⟨fun _ => ?_, fun settled => wp_ite.mpr ⟨fun _ => ?_, fun isRead => ?_⟩⟩
  · -- the OACK
    cases hp : t.session.oackPacket with
    | none => exact .inl storing
    | some packet =>
        have same_ : w.session.oackPacket = t.session.oackPacket :=
          (congrArg Settings.oackPacket settings).symm
        obtain ⟨values, rfl⟩ := hoack packet (same_.trans hp)
        exact quiet (sendto_storing _ rfl)
  · have settled : w.storing.settled = true := by
      rw [← storing]
      exact eq_true_of_ne_false settled
    refine wp_sendto.mpr ⟨fun _ => .inr ⟨settled, ?_⟩, fun _ => .inl storing⟩
    have expected : t.session.expectedSequenceNumber = w.storing.expected :=
      congrArg Storing.expected storing
    have sent := @io_append t.answered
      (.sent t.session.clientAddress (.ack (t.session.expectedSequenceNumber - 1)))
    rw [← storing]
    exact congrArg (fun io => (⟨io, t.session.expectedSequenceNumber, t.session.optionsSettled⟩ :
      Storing)) sent
  · have type : t.session.requestType = w.session.requestType :=
      congrArg Settings.requestType settings
    exact absurd (type.trans hwrite) isRead

/-- A block that is accepted is written and acknowledged, unless one of the two
calls fails. -/
theorem acceptBlock_storing (n : UInt16) (data : Bytes) :
    wp (acceptBlock n data)
      (fun _ t => ∃ k, w.sys.write = some k ∧ w.answer = true ∧ t.storing =
        { w.storing with
          io := w.io ++ [.stored (data.take k)] ++ [.acked n]
          expected := w.storing.expected + 1 })
      (fun _ t => ∃ bytes, t.storing = { w.storing with io := w.io ++ [.stored bytes] }) w := by
  rw [acceptBlock, wp_bind, wp_session, wp_bind, wp_sys, wp_bind, wp_emit]
  have wrote := @io_append w (.wrote w.session.fileDescriptor (data.take (w.sys.write.getD 0)))
  generalize hv : ({ session := _, sys := _, inflight := _, log := _ } : World) = v at wrote ⊢
  have kept : v.storing = { w.storing with
      io := w.io ++ [.stored (data.take (w.sys.write.getD 0))] } ∧ v.answer = w.answer := by
    subst hv
    unfold World.storing
    rw [wrote]
    exact ⟨rfl, rfl⟩
  cases hr : w.sys.write with
  | none =>
      refine wp_bind.mpr (wp_mono ((Fixes.recordFailure _ _ : KeepsStoring _) _ v rfl) ?_ ?_)
      · exact fun _ t ht => ⟨_, ht.trans kept.1⟩
      · exact fun _ t ht => ⟨_, ht.trans kept.1⟩
  | some k =>
      rw [hr] at kept
      dsimp only
      rw [wp_bind, wp_modify, wp_bind, wp_sendto]
      refine ⟨fun answered => ⟨k, rfl, kept.2.symm.trans answered, ?_⟩, fun _ => ⟨_, kept.1⟩⟩
      have sent := @io_append v (.sent v.session.clientAddress (.ack n))
      have io : v.io = w.io ++ [.stored (data.take k)] := congrArg Storing.io kept.1
      have expected : v.session.expectedSequenceNumber = w.storing.expected :=
        congrArg Storing.expected kept.1
      have settled : v.session.optionsSettled = w.storing.settled :=
        congrArg Storing.settled kept.1
      rw [io] at sent
      rw [← expected, ← settled, ← hv] at *
      exact congrArg (fun io => (⟨io, _, _⟩ : Storing)) sent

/-- What a call leaves of a session that accepts the block of `d`. -/
def Stores (w : World) (d : Datagram) (c : Storing) : Prop :=
  ∃ k, w.sys.write = some k ∧ w.answer = true ∧
    c = w.storing.block (readU16 d.bytes 2) ((d.bytes.drop 4).take k)

/-- What it leaves if it does not get as far as the acknowledgment, or not
beyond it. -/
def Fails (w : World) (d : Datagram) (c : Storing) : Prop :=
  (∃ bytes, c.io = w.io ++ [.stored bytes]) ∨ Stores w d c

theorem onData_storing (ha : w.Accepts d) :
    wp (onData d.bytes) (fun _ t => Stores w d t.storing) (fun _ t => Fails w d t.storing) w := by
  rw [onData, wp_bind, wp_session, wp_ite]
  refine ⟨fun pending => ?_, fun settled => wp_ite.mpr ⟨fun other => ?_, fun same => ?_⟩⟩
  · rw [wp_bind, wp_modify]
    refine wp_mono (acceptBlock_storing _ _) ?_ ?_
    · rintro _ t ⟨k, wrote, answered, ht⟩
      refine ⟨k, wrote, answered, ht.trans ?_⟩
      have first : (readU16 d.bytes 2 = 1) = True := eq_true pending.2
      simp [World.storing, Storing.block, Session.optionsSettled, World.io, first]
    · rintro _ t ⟨bytes, ht⟩
      exact .inl ⟨bytes, congrArg Storing.io ht⟩
  · rcases ha.2.2 with pending | expected
    · exact absurd pending settled
    · exact absurd expected other
  · refine wp_mono (acceptBlock_storing _ _) ?_ ?_
    · rintro _ t ⟨k, wrote, answered, ht⟩
      refine ⟨k, wrote, answered, ht.trans ?_⟩
      have known : w.storing.settled = (w.storing.settled || decide (readU16 d.bytes 2 = 1)) := by
        cases h : w.storing.settled with
        | true => rfl
        | false =>
            have other : readU16 d.bytes 2 ≠ 1 := fun first => settled ⟨h, first⟩
            simp [other]
      unfold Storing.block
      rw [← known]
      rfl
    · rintro _ t ⟨bytes, ht⟩
      exact .inl ⟨bytes, congrArg Storing.io ht⟩

/-- A datagram that brings no block changes nothing of this. -/
theorem onPacketReceived_storing (hwrite : w.session.requestType = .write)
    (hn : ¬(4 ≤ d.bytes.length ∧ sockaddrEquals d.sender w.session.clientAddress ∧ w.Accepts d)) :
    wp (onPacketReceived (.ok d)) (fun _ t => t.storing = w.storing)
      (fun _ t => t.storing = w.storing) w := by
  have quiet {x : Act Unit} (hx : KeepsStoring x) :
      wp x (fun _ t => t.storing = w.storing) (fun _ t => t.storing = w.storing) w := hx _ w rfl
  rw [onPacketReceived, wp_bind, wp_session]
  refine wp_ite.mpr ⟨fun _ => rfl, fun long => wp_ite.mpr ⟨fun _ => rfl, fun _ =>
    wp_ite.mpr ⟨fun _ => quiet (.unknownTransferId _), fun own => ?_⟩⟩⟩
  dsimp only
  refine wp_ite.mpr ⟨fun _ => quiet (.bind (.modify fun _ => rfl) fun _ =>
    .reportClientError _), fun _ => wp_ite.mpr ⟨fun data => ?_, fun _ =>
      wp_ite.mpr ⟨fun ack => ?_, fun _ => quiet .unexpectedOpcode⟩⟩⟩
  · rw [onData, wp_bind, wp_session, wp_ite]
    have own : sockaddrEquals d.sender w.session.clientAddress = true := eq_true_of_ne_false own
    refine ⟨fun pending => ?_, fun _ => wp_ite.mpr ⟨fun _ => rfl, fun expected => ?_⟩⟩
    · exact absurd ⟨not_lt.mp long, own, data.1, data.2, .inl pending⟩ hn
    · exact absurd ⟨not_lt.mp long, own, data.1, data.2, .inr (not_not.mp expected)⟩ hn
  · rw [hwrite] at ack
    exact absurd ack.2 (by decide)

/-- The `switch` of a write session, without the start and without a read. -/
theorem dispatch_storing {e : Event} (he : e ≠ .start) (hread : ∀ r, e ≠ .dataAvailable r)
    (hwrite : w.session.requestType = .write) (hoack : w.settings.OffersOack)
    (hn : w.accepted e = none) :
    wp (dispatch e) (fun _ t => w.storing.Repeats t.storing) (fun _ t => w.storing.Repeats t.storing)
      w := by
  have reaped : KeepsStoring jobDone := .modify fun _ => rfl
  have quiet {x : Act Unit} (hx : KeepsStoring x) :
      wp x (fun _ t => w.storing.Repeats t.storing) (fun _ t => w.storing.Repeats t.storing) w :=
    wp_mono (hx _ w rfl) (fun _ _ ht => .inl ht) fun _ _ ht => .inl ht
  cases e with
  | start => exact (he rfl).elim
  | dataAvailable r => exact (hread r rfl).elim
  | timeout r =>
      rw [dispatch, wp_bind, wp_jobDone, wp_bind, wp_session, wp_ite]
      exact ⟨fun _ => .inl rfl, fun _ => wp_ite.mpr ⟨fun _ => .inl rfl, fun _ =>
        onTimeout_storing (w := w.reaped) hwrite hoack⟩⟩
  | timeoutRemoved r =>
      refine quiet (.bind reaped fun _ => ?_)
      cases r with
      | ok n => exact .pure _
      | error e => exact .ite (.stop _) (.pure _)
  | packetReceivedRemoved r =>
      refine quiet (.bind reaped fun _ => ?_)
      cases r with
      | ok n => exact .pure _
      | error e => exact .ite (.stop _) (.pure _)
  | packetReceived r =>
      cases r with
      | error e =>
          exact quiet (.bind reaped fun _ => .bind .session fun _ =>
            .ite (.pure _) (.ite (.pure _) (.stop _)))
      | ok d =>
          rw [dispatch, wp_bind, wp_jobDone, wp_bind, wp_session, wp_ite]
          refine ⟨fun _ => .inl rfl, fun isOpen => ?_⟩
          have none_ : ¬(4 ≤ d.bytes.length ∧ sockaddrEquals d.sender w.session.clientAddress ∧
              w.Accepts d) := by
            rintro ⟨long, own, accepts⟩
            have isOpen : w.session.shouldClose = false := eq_false_of_ne_true isOpen
            rw [World.accepted, if_pos ⟨⟨isOpen, long, own⟩, accepts⟩] at hn
            cases hn
          refine wp_bind.mpr (wp_mono (onPacketReceived_storing (w := w.reaped) hwrite none_) ?_
            fun _ t ht => .inl ht)
          intro _ t ht
          have listens : KeepsStoring (do
              let s ← session
              if s.shouldClose then pure () else recvAsync) :=
            .bind .session fun _ => .ite (.pure _) .recvAsync
          exact wp_mono (listens _ t rfl) (fun _ t' ht' => .inl (ht'.trans ht))
            fun _ t' ht' => .inl (ht'.trans ht)

/-- The `switch` with a block that is accepted. -/
theorem dispatch_stores (hown : w.IsOwn d) (ha : w.Accepts d) :
    wp (dispatch (.packetReceived (.ok d))) (fun _ t => Stores w d t.storing)
      (fun _ t => Fails w d t.storing) w := by
  obtain ⟨isOpen, long, own⟩ := hown
  obtain ⟨same, inet⟩ := sockaddrEquals_iff.mp own
  have isInet : d.sender.isInet = true := same ▸ inet
  have notError : ¬Opcode.data = Opcode.error := by decide
  have isOpen' : ¬w.session.shouldClose = true := by simp [isOpen]
  rw [dispatch, wp_bind, wp_jobDone, wp_bind, wp_session, wp_ite]
  refine ⟨fun closed => absurd closed isOpen', fun _ => ?_⟩
  have received : wp (onPacketReceived (.ok d)) (fun _ t => Stores w d t.storing)
      (fun _ t => Fails w d t.storing) w.reaped := by
    rw [onPacketReceived, wp_bind, wp_session, if_neg (not_lt.mpr long), if_neg (by simp [isInet])]
    have own' : ¬sockaddrEquals d.sender w.reaped.session.clientAddress = false := by
      have : sockaddrEquals d.sender w.reaped.session.clientAddress = true := own
      simp [this]
    have write : w.reaped.session.requestType = .write := ha.2.1
    rw [if_neg own']
    dsimp only
    rw [ha.1, if_neg notError, if_pos ⟨rfl, write⟩]
    exact onData_storing (w := w.reaped) ha
  refine wp_bind.mpr (wp_mono received ?_ fun _ _ ht => ht)
  intro _ t ht
  have listens : KeepsStoring (do
      let s ← session
      if s.shouldClose then pure () else recvAsync) :=
    .bind .session fun _ => .ite (.pure _) .recvAsync
  refine wp_mono (listens _ t rfl) (fun _ t' ht' => ?_) fun _ t' ht' => ?_
  · rw [ht']
    exact ht
  · rw [ht']
    exact .inr ht

end Events

/-! ## Steps of a write session -/

section Steps

variable {l l' : Live} {d : Datagram} {op : Op} {sys : Sys} {e : Event}

theorem accepted_eq_some {w : World} (h : w.accepted e = some d) :
    e = .packetReceived (.ok d) ∧ w.IsOwn d ∧ w.Accepts d := by
  unfold World.accepted at h
  split at h
  next d' =>
    split at h
    next taken =>
      obtain rfl := Option.some.inj h
      exact ⟨rfl, taken⟩
    next => cases h
  next => cases h

/-- The first step stores nothing, and at most tells the client to begin. -/
theorem Step.greets {info : ServerInfo} {request : PeerMessage}
    (hs : Step (.boot info request) (.start sys) l') :
    (l'.world.io = [] ∨ l'.world.io = [.acked 0]) ∧ l'.world.storing.expected = 1 := by
  cases hs with
  | start _ _ =>
      have greeting : wp (dispatch .start)
          (fun _ t => (t.storing.io = [] ∨ t.storing.io = [.acked 0]) ∧ t.storing.expected = 1)
          (fun _ t => (t.storing.io = [] ∨ t.storing.io = [.acked 0]) ∧ t.storing.expected = 1)
          { (Live.boot info request).world with sys := sys } := by
        refine wp_mono (onStart_fresh _) (fun _ t ht => ?_) fun _ t ht => ?_
        all_goals
          rcases ht with same | greeted
          · exact ⟨.inl (congrArg Prod.fst same), congrArg Prod.snd same⟩
          · exact ⟨.inr (congrArg Prod.fst greeted), congrArg Prod.snd greeted⟩
      exact (deliver_view sys .start (Live.boot info request).world (π := World.storing)
        (P := fun c => (c.io = [] ∨ c.io = [.acked 0]) ∧ c.expected = 1)
        (E := fun c => (c.io = [] ∨ c.io = [.acked 0]) ∧ c.expected = 1) greeting fun _ hc => hc).1

theorem Step.writes_nothing {info : ServerInfo} {request : PeerMessage}
    (hs : Step (.boot info request) (.start sys) l') (fd : ℤ) (bytes : Bytes) :
    .wrote fd bytes ∉ l'.world.log := by
  intro hm
  have stored : Io.stored bytes ∈ l'.world.io := List.mem_filterMap.mpr ⟨_, hm, rfl⟩
  rcases hs.greets.1 with io | io
  · rw [io] at stored
    cases stored
  · rw [io] at stored
    simp at stored

/-- A step with a block that is accepted. -/
theorem Step.stores (hs : Step l (.complete op sys (.packetReceived (.ok d))) l')
    (hown : l.world.IsOwn d) (ha : l.world.Accepts d) :
    Fails { l.world with sys := sys } d l'.world.storing ∧
      (l'.listening → Stores { l.world with sys := sys } d l'.world.storing) := by
  cases hs with
  | @complete pre post _ _ _ hl hops hr =>
      exact deliver_view sys (.packetReceived (.ok d)) { l.world with inflight := pre ++ post }
        (π := World.storing) (P := Stores { l.world with sys := sys } d)
        (E := Fails { l.world with sys := sys } d)
        (dispatch_stores (w := { l.world with inflight := pre ++ post, sys := sys }) hown ha)
        fun _ stored => .inr stored

/-- A step that takes in no block writes nothing. -/
theorem Step.repeats (hs : Step l (.complete op sys e) l') (ring : Settled l)
    (hwrite : l.world.session.requestType = .write) (hoack : l.world.settings.OffersOack)
    (hn : l.world.accepted e = none) : l.world.storing.Repeats l'.world.storing := by
  cases hs with
  | @complete pre post _ _ _ hl hops hr =>
      have notStart : e ≠ .start := fun he => Op.not_reports_start (he ▸ hr)
      have noRead : ∀ r, e ≠ .dataAvailable r := by
        rintro r rfl
        have fetch : op.isFetch = true := by
          cases op <;> first | rfl | exact hr.elim
        obtain ⟨-, fetching⟩ := (ring.tidy hl).removeFetch hops fetch
        have isRead := ((ring.tidy hl).fetching fetching).1
        exact absurd (hwrite.symm.trans isRead) (by decide)
      exact (deliver_view sys e { l.world with inflight := pre ++ post } (π := World.storing)
        (P := l.world.storing.Repeats)
        (dispatch_storing (w := { l.world with inflight := pre ++ post, sys := sys })
          notStart noRead hwrite hoack hn) fun _ same => same).1

end Steps

/-! ## Runs -/

/-- A session with the payloads of the blocks it has accepted. -/
structure Upload where
  live : Live
  blocks : List Bytes

namespace Upload

def boot (info : ServerInfo) (request : PeerMessage) : Upload := ⟨Live.boot info request, []⟩

/-- The payload of the block that a step accepts. -/
def arrival (l : Live) : Label → List Bytes
  | .complete _ _ e => ((l.world.accepted e).map fun d => d.bytes.drop 4).toList
  | _ => []

inductive Step : Upload → Label → Upload → Prop where
  | mk {x : Upload} {label : Label} {l : Live} : Server.Step x.live label l →
      Step x label ⟨l, x.blocks ++ arrival x.live label⟩

def Runs (C : Upload → Label → Prop) : Upload → Upload → Prop :=
  Relation.ReflTransGen fun x y => ∃ label, Step x label y ∧ C x label

/-- Where a block is accepted, `write` fails or stores all of its payload, or
the acknowledgment cannot be sent. -/
def WritesAll (x : Upload) : Label → Prop
  | .complete _ sys e => ∀ d k, x.live.world.accepted e = some d → sys.write = some k →
      (d.bytes.drop 4).length ≤ k ∨ sys.calls.head? = some false
  | _ => True

/-- The file holds all blocks, and the session expects the next one. -/
structure Kept (blocks : List Bytes) (c : Storing) : Prop where
  writes : Io.writes c.io = blocks.length
  content : Io.content c.io = blocks.flatten
  expected : c.expected = UInt16.ofNat (blocks.length + 1)
  first : c.settled = false → blocks = []

namespace Kept

variable {blocks : List Bytes} {c c' : Storing}

theorem previous (h : Kept blocks c) : c.expected - 1 = UInt16.ofNat blocks.length := by
  rw [h.expected, UInt16.ofNat_add]
  exact UInt16.add_sub_cancel _ _

theorem repeats (h : Kept blocks c) (hr : c.Repeats c') : Kept blocks c' := by
  rcases hr with rfl | ⟨-, rfl⟩
  · exact h
  · exact ⟨by simp [h.writes], by simp [h.content], h.expected, h.first⟩

theorem acked_repeats (h : Kept blocks c) (acked : AckedStored blocks c.io) (hr : c.Repeats c') :
    AckedStored blocks c'.io := by
  rcases hr with rfl | ⟨-, rfl⟩
  · exact acked
  · refine acked.acked ?_ h.writes.le ?_
    · rw [h.writes]
      exact h.previous
    · rw [h.writes, List.take_length]
      exact h.content

theorem block (h : Kept blocks c) {n : UInt16} (payload : Bytes)
    (number : c.settled = false ∧ n = 1 ∨ n = c.expected) :
    Kept (blocks ++ [payload]) (c.block n payload) where
  writes := by
    simp only [Storing.block, Io.writes_append, Io.writes_stored, Io.writes_acked, h.writes,
      List.length_append, List.length_singleton]
  content := by
    simp only [Storing.block, Io.content_append, Io.content_stored, Io.content_acked, h.content,
      List.flatten_append, List.flatten_singleton, List.append_nil]
  expected := by
    rw [Storing.block, h.expected, List.length_append]
    exact (UInt16.ofNat_add _ 1).symm
  first settled := by
    -- the first block settles the options
    have unsettled : c.settled = false ∧ n ≠ 1 := by simpa [Storing.block] using settled
    rcases number with first | expected
    · exact absurd first.2 unsettled.2
    · rw [h.expected, h.first unsettled.1] at expected
      exact absurd expected unsettled.2

theorem acked_block (h : Kept blocks c) (acked : AckedStored blocks c.io) {n : UInt16}
    (payload : Bytes) (number : c.settled = false ∧ n = 1 ∨ n = c.expected) :
    AckedStored (blocks ++ [payload]) (c.block n payload).io := by
  have written : AckedStored (blocks ++ [payload]) (c.io ++ [.stored payload]) :=
    (acked.mono [payload]).stored payload
  have count : Io.writes (c.io ++ [.stored payload]) = (blocks ++ [payload]).length := by
    simp [h.writes]
  refine written.acked ?_ count.le ?_
  · rw [count, List.length_append]
    rcases number with ⟨unsettled, rfl⟩ | rfl
    · rw [h.first unsettled]
      rfl
    · exact h.expected
  · rw [count, List.take_length]
    simp [h.content]

end Kept

/-- What holds in every state of a run. -/
structure Sound (info : ServerInfo) (request : PeerMessage) (x : Upload) : Prop where
  ring : Settled x.live
  fresh : x.live.status = .fresh → x = boot info request
  oack : x.live.status ≠ .fresh → x.live.world.settings.OffersOack
  acked : x.live.world.session.requestType = .write → AckedStored x.blocks x.live.world.io
  kept : x.live.listening → x.live.world.session.requestType = .write →
    Kept x.blocks x.live.world.storing

namespace Sound

variable {info : ServerInfo} {request : PeerMessage} {x : Upload}

theorem boot : Sound info request (boot info request) where
  ring := Settled.boot info request
  fresh _ := rfl
  oack h := (h rfl).elim
  acked h := by cases h
  kept h := by simp [Live.listening, Upload.boot, Live.boot] at h

theorem started {sys : Sys} (h : Sound info request x) (hf : x.live.status = .fresh) :
    Sound info request ⟨deliver sys .start x.live.world, x.blocks⟩ := by
  have ring := h.ring.step (.start sys hf)
  obtain rfl := h.fresh hf
  have hs : Server.Step (Live.boot info request) (.start sys)
      (deliver sys .start (Live.boot info request).world) := .start sys hf
  obtain ⟨io, expected⟩ := hs.greets
  refine ⟨ring, fun fresh => (deliver_ne_fresh _ _ _ fresh).elim, fun _ => ?_, fun hwrite => ?_,
    fun hl hwrite => ?_⟩
  · intro packet hp
    obtain ⟨oack, -⟩ := @deliver_acknowledges sys (Live.boot info request).world rfl rfl packet hp
    exact ⟨_, oack⟩
  · rcases io with none_ | greeted
    · exact none_ ▸ .nil []
    · exact greeted ▸ (AckedStored.nil []).acked rfl le_rfl rfl
  · rcases io with none_ | greeted
    · exact ⟨congrArg Io.writes none_, congrArg Io.content none_, expected, fun _ => rfl⟩
    · exact ⟨congrArg Io.writes greeted, congrArg Io.content greeted, expected, fun _ => rfl⟩

/-- What a call after the start leaves of a write session. -/
theorem stores {pre post : List Op} {op : Op} {sys : Sys} {e : Event}
    (h : Sound info request x) (hl : x.live.listening)
    (hops : x.live.world.inflight = pre ++ op :: post) (hr : op.Reports e)
    (hC : WritesAll x (.complete op sys e))
    (hwrite : (deliver sys e
      { x.live.world with inflight := pre ++ post }).world.session.requestType = .write) :
    AckedStored (x.blocks ++ arrival x.live (.complete op sys e))
        (deliver sys e { x.live.world with inflight := pre ++ post }).world.io ∧
      ((deliver sys e { x.live.world with inflight := pre ++ post }).listening →
        Kept (x.blocks ++ arrival x.live (.complete op sys e))
          (deliver sys e { x.live.world with inflight := pre ++ post }).world.storing) := by
  have hs : Server.Step x.live (.complete op sys e)
      (deliver sys e { x.live.world with inflight := pre ++ post }) := .complete op sys e hl hops hr
  have write : x.live.world.session.requestType = .write :=
    (congrArg Settings.requestType (hs.settings hl.ne_fresh)).symm.trans hwrite
  have kept := h.kept hl write
  have acked := h.acked write
  cases ha : x.live.world.accepted e with
  | none =>
      have blocks : x.blocks ++ arrival x.live (.complete op sys e) = x.blocks := by
        rw [arrival, ha]
        exact List.append_nil _
      have repeats := hs.repeats h.ring write (h.oack hl.ne_fresh) ha
      rw [blocks]
      exact ⟨kept.acked_repeats acked repeats, fun _ => kept.repeats repeats⟩
  | some d =>
      obtain ⟨rfl, own, accepts⟩ := accepted_eq_some ha
      have blocks : x.blocks ++ arrival x.live (.complete op sys (.packetReceived (.ok d))) =
          x.blocks ++ [d.bytes.drop 4] := by
        rw [arrival, ha]
        rfl
      have number : x.live.world.storing.settled = false ∧ readU16 d.bytes 2 = 1 ∨
          readU16 d.bytes 2 = x.live.world.storing.expected := accepts.2.2
      have whole (c : Storing) (stored : Stores { x.live.world with sys := sys } d c) :
          c = x.live.world.storing.block (readU16 d.bytes 2) (d.bytes.drop 4) := by
        obtain ⟨k, wrote, answered, rfl⟩ := stored
        have full : (d.bytes.drop 4).take k = d.bytes.drop 4 := by
          rcases hC d k ha wrote with all | unsent
          · exact List.take_of_length_le all
          · have answered : sys.calls.headD true = true := answered
            rw [List.headD_eq_head?_getD, unsent] at answered
            cases answered
        rw [full]
        rfl
      obtain ⟨fails, listening⟩ := hs.stores own accepts
      rw [blocks]
      refine ⟨?_, fun hl' => ?_⟩
      · rcases fails with ⟨bytes, io⟩ | stored
        · have io : (deliver sys (.packetReceived (.ok d))
              { x.live.world with inflight := pre ++ post }).world.io =
              x.live.world.io ++ [.stored bytes] := io
          rw [io]
          exact (acked.mono _).stored bytes
        · exact (congrArg (AckedStored _) (congrArg Storing.io (whole _ stored))).mpr
            (kept.acked_block acked _ number)
      · rw [whole _ (listening hl')]
        exact kept.block _ number

/-- A call after the start. -/
theorem completed {pre post : List Op} {op : Op} {sys : Sys} {e : Event}
    (h : Sound info request x) (hl : x.live.listening)
    (hops : x.live.world.inflight = pre ++ op :: post) (hr : op.Reports e)
    (hC : WritesAll x (.complete op sys e)) :
    Sound info request
      ⟨deliver sys e { x.live.world with inflight := pre ++ post },
        x.blocks ++ arrival x.live (.complete op sys e)⟩ := by
  have hs : Server.Step x.live (.complete op sys e)
      (deliver sys e { x.live.world with inflight := pre ++ post }) := .complete op sys e hl hops hr
  have settings := hs.settings hl.ne_fresh
  exact {
    ring := h.ring.step hs
    fresh := fun fresh => (deliver_ne_fresh _ _ _ fresh).elim
    oack := fun _ => settings ▸ h.oack hl.ne_fresh
    acked := fun hwrite => (h.stores hl hops hr hC hwrite).1
    kept := fun hl' hwrite => (h.stores hl hops hr hC hwrite).2 hl' }

theorem step {y : Upload} {label : Label} (h : Sound info request x) (hs : Step x label y)
    (hC : WritesAll x label) : Sound info request y := by
  cases hs with
  | mk taken =>
      cases taken with
      | start sys hf =>
          have none_ : arrival x.live (.start sys) = [] := rfl
          rw [none_, List.append_nil]
          exact h.started hf
      | complete op sys e hl hops hr => exact h.completed hl hops hr hC
      | @expire pre post hl hops =>
          have none_ : arrival x.live .expire = [] := rfl
          rw [none_, List.append_nil]
          exact ⟨h.ring.step (.expire hl hops), fun hf => (hl.ne_fresh hf).elim,
            h.oack, h.acked, h.kept⟩
      | @fill pre post slot offset length bytes hl hops room =>
          have none_ : arrival x.live (.fill bytes) = [] := rfl
          rw [none_, List.append_nil]
          exact ⟨h.ring.step (.fill bytes hl hops room), fun hf => (hl.ne_fresh hf).elim,
            h.oack, h.acked, h.kept⟩

end Sound

theorem sound_of_runs {info : ServerInfo} {request : PeerMessage} {x : Upload}
    (h : Runs WritesAll (boot info request) x) : Sound info request x := by
  induction h with
  | refl => exact .boot
  | tail _ hs ih =>
      obtain ⟨label, taken, hC⟩ := hs
      exact ih.step taken hC

/-! ## The output file -/

/-- Where a block is accepted, `write` fails or stores all of its payload in the file
the session has opened, or the acknowledgment cannot be sent. -/
def StoresInFile (x : Upload) : Label → Prop
  | .complete _ sys e => ∀ d ∈ x.live.world.accepted e, ∀ k ∈ sys.write,
      (x.live.world.HasFile ∧ (d.bytes.drop 4).length ≤ k) ∨ sys.calls.head? = some false
  | _ => True

instance (x : Upload) : ∀ label, Decidable (StoresInFile x label)
  | .complete _ sys e =>
      inferInstanceAs (Decidable (∀ d ∈ x.live.world.accepted e, ∀ k ∈ sys.write,
        (x.live.world.HasFile ∧ (d.bytes.drop 4).length ≤ k) ∨ sys.calls.head? = some false))
  | .start _ => isTrue trivial
  | .expire => isTrue trivial
  | .fill _ => isTrue trivial

theorem StoresInFile.writesAll {x : Upload} {label : Label} (h : StoresInFile x label) :
    WritesAll x label := by
  cases label with
  | complete op sys e => exact fun d k accepted wrote => (h d accepted k wrote).imp_left And.right
  | _ => trivial

/-- What a run says of the file of a session: it writes to no other, and where it has
none it acknowledges no block. -/
structure OnFile (x : Upload) : Prop where
  own : ∀ fd bytes, .wrote fd bytes ∈ x.live.world.log → fd = x.live.world.session.fileDescriptor
  unfiled : ¬x.live.world.HasFile → x.live.world.session.requestType = .write →
    (∀ n, .acked n ∈ x.live.world.io → n = 0) ∧
      (x.live.listening → x.live.world.storing.expected = 1)

namespace OnFile

variable {info : ServerInfo} {request : PeerMessage} {x : Upload}

theorem boot : OnFile (boot info request) where
  own fd bytes h := by cases h
  unfiled _ h := by cases h

theorem started {sys : Sys} {l : Live} (hs : Server.Step (Live.boot info request) (.start sys) l)
    (blocks : List Bytes) : OnFile ⟨l, blocks⟩ := by
  obtain ⟨io, expected⟩ := hs.greets
  refine ⟨fun fd bytes hm => (hs.writes_nothing fd bytes hm).elim,
    fun _ _ => ⟨fun n hn => ?_, fun _ => expected⟩⟩
  rcases io with io | io
  · rw [io] at hn
    cases hn
  · rw [io] at hn
    simpa using hn

/-- Without a file no block is taken in for good. -/
theorem unfiled_step {op : Op} {sys : Sys} {e : Event} {l : Live} (h : OnFile x)
    (sound : Sound info request x) (hs : Server.Step x.live (.complete op sys e) l)
    (hl : x.live.listening) (hC : StoresInFile x (.complete op sys e))
    (none_ : ¬x.live.world.HasFile) (write : x.live.world.session.requestType = .write) :
    (∀ n, .acked n ∈ l.world.io → n = 0) ∧ (l.listening → l.world.storing.expected = 1) := by
  obtain ⟨acked, expected⟩ := h.unfiled none_ write
  have expected := expected hl
  cases ha : x.live.world.accepted e with
  | none =>
      rcases hs.repeats sound.ring write (sound.oack hl.ne_fresh) ha with same | ⟨-, again⟩
      · refine ⟨fun n hn => acked n ?_, fun _ => ?_⟩
        · rwa [show l.world.io = x.live.world.io from congrArg Storing.io same] at hn
        · rw [same]
          exact expected
      · have io : l.world.io = x.live.world.io ++ [.acked (x.live.world.storing.expected - 1)] :=
          congrArg Storing.io again
        refine ⟨fun n hn => ?_, fun _ => ?_⟩
        · rw [io, expected] at hn
          rcases List.mem_append.mp hn with hn | hn
          · exact acked n hn
          · simpa using hn
        · rw [again]
          exact expected
  | some d =>
      obtain ⟨rfl, own, accepts⟩ := accepted_eq_some ha
      have unstored (c : Storing) : ¬Stores { x.live.world with sys := sys } d c := by
        rintro ⟨k, wrote, answered, -⟩
        rcases hC d ha k wrote with ⟨file, -⟩ | unsent
        · exact none_ file
        · have answered : sys.calls.headD true = true := answered
          rw [List.headD_eq_head?_getD, unsent] at answered
          cases answered
      obtain ⟨fails, listening⟩ := hs.stores own accepts
      refine ⟨fun n hn => ?_, fun hl' => (unstored _ (listening hl')).elim⟩
      rcases fails with ⟨bytes, io⟩ | stored
      · have io : l.world.io = x.live.world.io ++ [.stored bytes] := io
        rw [io] at hn
        exact acked n (by simpa using hn)
      · exact (unstored _ stored).elim

theorem step {y : Upload} {label : Label} (h : OnFile x) (sound : Sound info request x)
    (hs : Step x label y) (hC : StoresInFile x label) : OnFile y := by
  cases hs with
  | @mk l taken =>
      by_cases fresh : x.live.status = .fresh
      · obtain ⟨sys, rfl⟩ := taken.start_of_fresh fresh
        obtain rfl := sound.fresh fresh
        exact started taken _
      · obtain ⟨extra, log, later, -⟩ := taken.works fresh
        have settings := taken.settings fresh
        have file : l.world.session.fileDescriptor = x.live.world.session.fileDescriptor :=
          congrArg Settings.fileDescriptor settings
        have type : l.world.session.requestType = x.live.world.session.requestType :=
          congrArg Settings.requestType settings
        refine ⟨fun fd bytes hm => ?_, fun unfiled written => ?_⟩
        · rw [file]
          rcases List.mem_append.mp (log ▸ hm) with hm | hm
          · exact h.own fd bytes hm
          · exact later _ hm
        · have none_ : ¬x.live.world.HasFile :=
            fun has => unfiled ((taken.hasFile_iff fresh).mpr has)
          have write : x.live.world.session.requestType = .write := type.symm.trans written
          have hs := taken
          cases taken with
          | start sys hf => exact (fresh hf).elim
          | complete op sys e hl => exact h.unfiled_step sound hs hl hC none_ write
          | expire => exact h.unfiled none_ write
          | fill => exact h.unfiled none_ write

theorem of_runs (h : Runs StoresInFile (Upload.boot info request) x) : OnFile x := by
  have holds : Sound info request x ∧ OnFile x := by
    induction h with
    | refl => exact ⟨.boot, boot⟩
    | tail _ hs ih =>
        obtain ⟨label, hs, hC⟩ := hs
        exact ⟨ih.1.step hs hC.writesAll, ih.2.step ih.1 hs hC⟩
  exact holds.2

end OnFile

/-- In every run of a write session in which each block that is acknowledged is written
to the open file, and whole, what has been acknowledged is in that file. -/
theorem acknowledged_stored {info : ServerInfo} {request : PeerMessage} {x : Upload}
    (h : Runs StoresInFile (boot info request) x)
    (hwrite : x.live.world.session.requestType = .write) :
    AckedStored x.blocks x.live.world.fileIo := by
  have sound := sound_of_runs (Relation.ReflTransGen.mono (fun _ _ ⟨label, hs, hC⟩ =>
    ⟨label, hs, hC.writesAll⟩) _ _ h)
  have onFile := OnFile.of_runs h
  by_cases file : x.live.world.HasFile
  · rw [fileIo_eq_io file onFile.own]
    exact sound.acked hwrite
  · exact .of_unstored (onFile.unfiled file hwrite).1 fun i hi => eq_acked_of_mem_fileIo file hi

/-! ## Two uploads -/

/-- Take the steps of a schedule, as long as they meet `C`. -/
def replay (C : Upload → Label → Prop) [∀ x label, Decidable (C x label)] :
    List Label → Upload → Option Upload
  | [], x => some x
  | label :: labels, x =>
      if C x label then
        (perform x.live label).bind fun l => replay C labels ⟨l, x.blocks ++ arrival x.live label⟩
      else none

theorem replay_runs {C : Upload → Label → Prop} [∀ x label, Decidable (C x label)]
    {labels : List Label} {x y : Upload} (h : replay C labels x = some y) : Runs C x y := by
  induction labels generalizing x with
  | nil =>
      cases h
      exact .refl
  | cons label labels ih =>
      rw [replay] at h
      split at h
      next allowed =>
        obtain ⟨l, performed, rest⟩ := Option.bind_eq_some_iff.mp h
        exact .head ⟨label, .mk (perform_step performed), allowed⟩ (ih rest)
      next => cases h

/-- The client sends a block, of which `write` stores `k` bytes. -/
def receives (n : UInt16) (payload : Bytes) (k : ℕ) : Label :=
  .complete (.recv false) { write := some k }
    (.packetReceived (.ok ⟨someClient, (Packet.data n payload).bytes⟩))

/-- A full block, which comes twice, and one of three bytes. -/
def twoBlocks : List Label :=
  [.start fileOpens, receives 1 (List.replicate 512 65) 512, receives 1 (List.replicate 512 65) 512,
    receives 2 [1, 2, 3] 3]

/-- Both are stored once. -/
theorem two_blocks_stored :
    ∃ x, Runs StoresInFile (boot plainInfo (plainRequest Opcode.wrq "octet")) x ∧
      x.live.world.fileIo =
        [.acked 0, .stored (List.replicate 512 65), .acked 1, .stored [1, 2, 3], .acked 2] ∧
      AckedStored x.blocks x.live.world.fileIo := by
  have h : ((replay StoresInFile twoBlocks (boot plainInfo (plainRequest Opcode.wrq "octet"))).map
      fun x => decide (x.live.world.session.requestType = .write ∧ x.live.world.fileIo =
        [.acked 0, .stored (List.replicate 512 65), .acked 1, .stored [1, 2, 3], .acked 2])) =
          some true := by
    decide +kernel
  obtain ⟨x, hx, he⟩ := Option.map_eq_some_iff.mp h
  obtain ⟨write, io⟩ := of_decide_eq_true he
  have run := replay_runs hx
  exact ⟨x, run, io, acknowledged_stored run write⟩

/-- Of three bytes two are stored, and the block is acknowledged all the same. -/
theorem short_write_acknowledged :
    ¬∀ (info : ServerInfo) (request : PeerMessage) (x : Upload),
      Runs (fun _ _ => True) (boot info request) x →
        x.live.world.session.requestType = .write → AckedStored x.blocks x.live.world.fileIo := by
  intro all
  have h : ((replay (fun _ _ => True) [.start fileOpens, receives 1 [1, 2, 3] 2]
      (boot plainInfo (plainRequest Opcode.wrq "octet"))).map fun x =>
        decide (x.live.world.session.requestType = .write ∧ x.blocks = [[1, 2, 3]] ∧
          x.live.world.fileIo = [.acked 0, .stored [1, 2], .acked 1])) = some true := by
    decide +kernel
  obtain ⟨x, hx, he⟩ := Option.map_eq_some_iff.mp h
  obtain ⟨write, blocks, io⟩ := of_decide_eq_true he
  have stored := all _ _ x (replay_runs hx) write
  rw [blocks, io] at stored
  obtain ⟨-, -, content⟩ := stored [.acked 0, .stored [1, 2]] 1 [] rfl
  exact absurd content (by decide)

/-- In an unknown mode there is no file, and the block is acknowledged too. -/
example : ((replay (fun _ _ => True) [.start fileOpens, receives 1 [1, 2, 3] 3]
    (boot plainInfo (plainRequest Opcode.wrq "mail"))).map fun x =>
      decide (x.live.world.session.requestType = .write ∧ ¬x.live.world.HasFile ∧
        x.live.world.fileIo = [.acked 0, .acked 1])) = some true := by
  decide +kernel

end Upload

end Tftp.Server
