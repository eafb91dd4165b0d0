import Tftp.Client.Process
import Tftp.Client.OptionAck

/-!
# What lets an upload begin

`handle_put_request` goes on to `send_file` from every branch that only breaks
out of its switch: after an ACK of another block, and after an OACK whatever
became of it. It reads its buffer without a look at how much came in.
-/

namespace Tftp.Client

open Prog Act

/-! ## What a datagram is -/

def IsAckZero (d : Datagram) : Prop :=
  4 ≤ d.bytes.length ∧ readU16 d.bytes 0 = Opcode.ack ∧ readU16 d.bytes 2 = 0

def IsOack (d : Datagram) : Prop :=
  2 ≤ d.bytes.length ∧ readU16 d.bytes 0 = Opcode.oack

def Message.isData : Message → Bool
  | .packet (.data _ _) => true
  | _ => false

/-! ## The first answer -/

/-- The datagram lets the upload begin: an ACK of block 0, or an OACK that
`handle_oack_packet` accepted. -/
def Consents (w : World Requester) (d : Datagram) : Prop :=
  IsAckZero d ∨ (IsOack d ∧ w.request.useOptions = true ∧
    (handleOackPacket (w.request.bytesReceived d) (w.answeredBy d)).1 = .ok true)

/-- What is read as an ACK is one, of block 0; what is read as an OACK is one
that fits the request, and whose timeout could be set. -/
structure Proper (w : World Requester) (d : Datagram) : Prop where
  ack : readU16 (w.answeredBy d).request.recvBuffer 0 = Opcode.ack →
    4 ≤ d.bytes.length ∧ readU16 (w.answeredBy d).request.recvBuffer 2 = 0
  oack : readU16 (w.answeredBy d).request.recvBuffer 0 = Opcode.oack →
    w.request.useOptions = true → 2 ≤ d.bytes.length ∧
      ¬(w.answeredBy d).request.Unrequested (w.request.bytesReceived d) ∧
      ¬(w.answeredBy d).request.Resizes (w.request.bytesReceived d) ∧
      ((w.answeredBy d).request.Retimes (w.request.bytesReceived d) → w.answer = true)

/-- An OACK of a write request is accepted exactly when it fits the request. -/
theorem oack_accepted_iff {w : World Requester} {n : ℕ} (hput : w.request.requestType = .put) :
    (handleOackPacket n w).1 = .ok true ↔
      ¬w.request.Unrequested n ∧ ¬w.request.Resizes n ∧
        (w.request.Retimes n → w.answer = true) := by
  have outcome := handleOackPacket_outcome n w
  unfold wp at outcome
  generalize handleOackPacket n w = result at outcome ⊢
  have get_ne : w.request.requestType ≠ .get := by simp [hput]
  rcases result with ⟨o | b, t⟩
  · refine iff_of_false (by simp) fun ⟨requested, keeps, _⟩ => ?_
    cases outcome with
    | onStack _ resizes => exact keeps resizes
  · cases outcome with
    | unrequested _ _ unrequested =>
        exact iff_of_false (by simp) fun ⟨requested, _⟩ => requested unrequested
    | unmoved _ resizes get => exact (get_ne get).elim
    | untimed _ moved retimes answer =>
        refine iff_of_false (by simp) fun ⟨_, keeps, set⟩ => ?_
        rw [if_neg keeps, set retimes] at answer
        simp at answer
    | accepted requested moved set =>
        have keeps : ¬w.request.Resizes n := fun h => get_ne (moved h).1
        rw [if_neg keeps] at set
        exact iff_of_true rfl ⟨requested, keeps, set⟩

/-! ## Before the answer -/

/-- A client that waits for its first answer. -/
structure Waits {L : Type} (w : World L) : Prop where
  requestType : w.request.requestType = .put
  recvBufferSize : w.request.recvBufferSize = oackPacketMaxSize
  sent : ∀ m ∈ w.sent, m.2.isData = false

theorem Waits.requested {L : Type} {w t : World L} (h : Waits w) (ht : Requested w t) :
    Waits t := by
  obtain ⟨packet, hr, hs⟩ := ht.request
  refine ⟨by rw [hr]; exact h.requestType, by rw [hr]; exact h.recvBufferSize, ?_⟩
  rw [hs]
  intro m hm
  rcases List.mem_append.mp hm with hm | hm
  · exact h.sent m hm
  · rw [List.mem_singleton.mp hm]
    rfl

/-- A process whose client waits, if it still sends its request. -/
def Process.Waiting : Process → Prop
  | .requesting _ w => Waits w
  | _ => True

theorem waiting_enterSendFile (file : Bytes) (w : World Requester) :
    (enterSendFile file w).Waiting := by
  unfold enterSendFile
  split <;> trivial

theorem waiting_start (c : Call) (s : Sys) : (c.start s).Waiting := by
  apply Call.start_spec
  rw [begin, wp_bind, wp_require]
  refine ⟨fun _ => ?_, fun _ => trivial⟩
  cases hty : c.requestType with
  | get => exact wp_of_both (fun _ _ => trivial) fun _ _ => trivial
  | put => exact ⟨hty, by simp [World.enter, Call.request, hty], by simp [World.enter]⟩

theorem waiting_step (p : Process) (e : Event) (h : p.Waiting) : (p.step e).Waiting := by
  cases p with
  | requesting file w =>
      apply Process.step_requesting
      unfold requestRound
      rw [wp_bind]
      refine wp_mono (sendRequest_spec _) (fun _ t ht => ?_) fun _ _ _ => trivial
      have waits : Waits t := Waits.requested (w := w.on e.sys) ⟨h.1, h.2, h.3⟩ ht
      cases e.arrival with
      | failed => trivial
      | timeout =>
          rw [wp_bind, wp_request, wp_bind, wp_locals]
          exact wp_ite.mpr ⟨fun _ => trivial, fun _ => ⟨waits.1, waits.2, waits.3⟩⟩
      | datagram d =>
          rw [wp_bind, wp_modify, wp_bind, wp_request, wp_bind]
          refine wp_of_both (fun _ _ => ?_) fun _ _ => trivial
          exact waiting_enterSendFile _ _
  | receiving w =>
      apply Process.step_receiving
      exact wp_of_both (fun _ _ => trivial) fun _ _ => trivial
  | sending w =>
      apply Process.step_sending
      exact wp_of_both (fun _ _ => trivial) fun _ _ => trivial
  | ended o r sent => trivial

/-- In every run a client that has not been answered waits. -/
theorem waits_of_run {c : Call} {s : Sys} {events : List Event} {file : Bytes}
    {w : World Requester} (h : c.run s events = .requesting file w) : Waits w := by
  have waiting := c.run_invariant (waiting_start c s) waiting_step events
  rw [h] at waiting
  exact waiting

/-! ## What the first answer leads to -/

section

variable {w : World Requester} {d : Datagram}

theorem opcode_received (hw : Waits w) (h : 2 ≤ d.bytes.length) :
    readU16 (w.answeredBy d).request.recvBuffer 0 = readU16 d.bytes 0 := by
  apply Request.readU16_received
  rw [Request.bytesReceived, hw.recvBufferSize]
  simp only [oackPacketMaxSize]
  omega

theorem blockNumber_received (hw : Waits w) (h : 4 ≤ d.bytes.length) :
    readU16 (w.answeredBy d).request.recvBuffer 2 = readU16 d.bytes 2 := by
  apply Request.readU16_received
  rw [Request.bytesReceived, hw.recvBufferSize]
  simp only [oackPacketMaxSize]
  omega

/-- What is read as an ACK consents exactly when it is one of block 0. -/
theorem consents_ack (hw : Waits w)
    (h : readU16 (w.answeredBy d).request.recvBuffer 0 = Opcode.ack) :
    Consents w d ↔ 4 ≤ d.bytes.length ∧ readU16 (w.answeredBy d).request.recvBuffer 2 = 0 := by
  constructor
  · rintro (⟨long, -, zero⟩ | ⟨⟨long, oack⟩, -⟩)
    · exact ⟨long, (blockNumber_received hw long).trans zero⟩
    · rw [opcode_received hw long, oack] at h
      exact absurd h (by decide)
  · rintro ⟨long, zero⟩
    refine .inl ⟨long, ?_, ?_⟩
    · rw [← opcode_received hw (by omega), h]
    · rw [← blockNumber_received hw long, zero]

/-- What is read as an OACK consents exactly when it is one that fits the request. -/
theorem consents_oack (hw : Waits w) (huse : w.request.useOptions = true)
    (h : readU16 (w.answeredBy d).request.recvBuffer 0 = Opcode.oack) :
    Consents w d ↔ 2 ≤ d.bytes.length ∧
      ¬(w.answeredBy d).request.Unrequested (w.request.bytesReceived d) ∧
      ¬(w.answeredBy d).request.Resizes (w.request.bytesReceived d) ∧
      ((w.answeredBy d).request.Retimes (w.request.bytesReceived d) → w.answer = true) := by
  have accepted := oack_accepted_iff (w := w.answeredBy d) (n := w.request.bytesReceived d)
    hw.requestType
  constructor
  · rintro (⟨long, ack, -⟩ | ⟨⟨long, -⟩, -, ok⟩)
    · rw [opcode_received hw (by omega), ack] at h
      exact absurd h (by decide)
    · exact ⟨long, accepted.mp ok⟩
  · rintro ⟨long, fits⟩
    refine .inr ⟨⟨long, ?_⟩, huse, accepted.mpr fits⟩
    rw [← opcode_received hw long, h]

/-- Where `handle_put_request` goes on, it was right to exactly when the answer
is proper. Where it does not, it fails, unless an OACK crashed it. -/
theorem handleFirstAnswer_spec (hw : Waits w) :
    wp (handleFirstAnswer (w.request.bytesReceived d)) (fun _ _ => Consents w d ↔ Proper w d)
      (fun o t => (o = .returned false ∧ (∀ m ∈ t.sent, m.2.isData = false) ∧ Proper w d) ∨
        (o ≠ .returned false ∧ ¬Consents w d ∧ ¬Proper w d)) (w.answeredBy d) := by
  unfold handleFirstAnswer takeFirstAck
  rw [wp_bind, wp_request]
  refine wp_ite.mpr ⟨fun oack => ?_, fun notOack => ?_⟩
  · have notAck : readU16 (w.answeredBy d).request.recvBuffer 0 ≠ Opcode.ack := by
      rw [oack]
      decide
    refine wp_ite.mpr ⟨fun unused => ?_, fun used => ?_⟩
    · refine .inl ⟨rfl, hw.sent, ⟨fun h => (notAck h).elim, fun _ used => ?_⟩⟩
      exact absurd (unused.symm.trans used) (by decide)
    · have used : w.request.useOptions = true := eq_true_of_ne_false used
      have proper : Proper w d ↔ Consents w d := by
        rw [consents_oack hw used oack]
        exact ⟨fun h => h.oack oack used, fun h => ⟨fun h => (notAck h).elim, fun _ _ => h⟩⟩
      rw [wp_bind]
      refine wp_mono (handleOackPacket_outcome _ _) (fun _ _ _ => proper.symm) fun o t ho => ?_
      cases ho with
      | onStack _ resizes =>
          have refused : ¬Consents w d := by
            rw [consents_oack hw used oack]
            exact fun h => h.2.2.1 resizes
          exact .inr ⟨by decide, refused, fun h => refused (proper.mp h)⟩
  · refine wp_ite.mpr ⟨fun ack => ?_, fun notAck => ?_⟩
    · have proper : Consents w d ↔ Proper w d := by
        rw [consents_ack hw ack]
        exact ⟨fun h => ⟨fun _ => h, fun h => (notOack h).elim⟩, fun h => h.ack ack⟩
      refine wp_ite.mpr ⟨fun _ => proper, fun _ => ?_⟩
      exact wp_ite.mpr ⟨fun _ => proper, fun _ => proper⟩
    · have proper : Proper w d := ⟨fun h => (notAck h).elim, fun h => (notOack h).elim⟩
      exact wp_ite.mpr ⟨fun _ => .inl ⟨rfl, hw.sent, proper⟩,
        fun _ => .inl ⟨rfl, hw.sent, proper⟩⟩

end

/-- `send_file` is entered only with consent; without it the client has failed,
for good, and has sent no DATA packet. Here `w` waits for its first datagram,
which is `d`, and `asked` is its world once the request was sent. -/
structure OnlyWithConsent (file : Bytes) (w asked : World Requester) (sys : Sys) (d : Datagram) :
    Prop where
  entered : (requestRound (.datagram d) (w.on sys)).1 = .ok true → Consents asked d
  refused : ¬Consents asked d → ∀ later, ∃ r sent,
    ((Process.requesting file w).step ⟨.datagram d, sys⟩).run later =
      .ended (.returned false) r sent ∧ ∀ m ∈ sent, m.2.isData = false

/-- An upload begins only with consent exactly when the first answer is proper. -/
theorem upload_consented_iff {c : Call} {s : Sys} {events : List Event} {file : Bytes}
    {w asked : World Requester} (hrun : c.run s events = .requesting file w) {sys : Sys}
    (hsent : sendRequest (w.on sys) = (.ok (), asked)) (d : Datagram) :
    OnlyWithConsent file w asked sys d ↔ Proper asked d := by
  have waits : Waits asked := by
    have before := waits_of_run hrun
    have requested := sendRequest_spec (w.on sys)
    unfold wp at requested
    rw [hsent] at requested
    exact Waits.requested (w := w.on sys) ⟨before.1, before.2, before.3⟩ requested
  have round : requestRound (.datagram d) (w.on sys) =
      match handleFirstAnswer (asked.request.bytesReceived d) (asked.answeredBy d) with
      | (.ok _, t) => (.ok true, t)
      | (.error o, t) => (.error o, t) := by
    unfold requestRound
    rw [bind_apply, hsent]
    show (handleFirstAnswer (asked.request.bytesReceived d) >>= fun _ => pure true)
      (asked.answeredBy d) = _
    rw [bind_apply]
    generalize handleFirstAnswer (asked.request.bytesReceived d) (asked.answeredBy d) = result
    rcases result with ⟨o | _, t⟩
    · rfl
    · rfl
  have spec := handleFirstAnswer_spec (d := d) waits
  unfold wp at spec
  generalize handleFirstAnswer (asked.request.bytesReceived d) (asked.answeredBy d) = result
    at round spec
  rcases result with ⟨o | _, t⟩
  · have ended (later : List Event) :
        ((Process.requesting file w).step ⟨.datagram d, sys⟩).run later =
          .ended o t.request t.sent := by
      rw [Process.step, round]
      exact Process.run_ended _ _ _ later
    rcases spec with ⟨rfl, quiet, proper⟩ | ⟨ho, refused, improper⟩
    · refine iff_of_true ⟨fun h => ?_, fun _ later => ⟨_, _, ended later, quiet⟩⟩ proper
      rw [round] at h
      cases h
    · refine iff_of_false (fun h => ?_) improper
      obtain ⟨r, sent, he, -⟩ := h.refused refused []
      rw [ended] at he
      cases he
      exact ho rfl
  · have spec : Consents asked d ↔ Proper asked d := spec
    rw [← spec]
    have entered : (requestRound (.datagram d) (w.on sys)).1 = .ok true := by rw [round]
    exact ⟨fun h => h.entered entered, fun h => ⟨fun _ => h, fun n => (n h).elim⟩⟩

/-- Its client before the first answer. -/
def plainUpload.waiting : World Requester := { request := plainUpload.request, locals := {} }

def plainUpload.asked : World Requester := (sendRequest plainUpload.waiting).2

theorem ack_zero_consents :
    OnlyWithConsent [] plainUpload.waiting plainUpload.asked {} ⟨.inet 0 1069, [0, 4, 0, 0]⟩ := by
  have waits : plainUpload.run {} [] = .requesting [] plainUpload.waiting := rfl
  refine (upload_consented_iff waits rfl _).mpr ⟨?_, ?_⟩
  · exact fun _ => ⟨by decide, by decide⟩
  · exact fun h => absurd h (by decide)

/-- After an ACK of block 1 the upload begins. -/
theorem ack_one_begins_upload :
    ¬∀ (c : Call) (s : Sys) (events : List Event) (file : Bytes) (w asked : World Requester)
      (sys : Sys) (d : Datagram), c.run s events = .requesting file w →
      sendRequest (w.on sys) = (.ok (), asked) → OnlyWithConsent file w asked sys d := by
  intro h
  have consent := (h plainUpload {} [] [] plainUpload.waiting plainUpload.asked {}
    ⟨.inet 0 1069, [0, 4, 0, 1]⟩ rfl rfl).entered rfl
  rcases consent with ⟨-, -, zero⟩ | ⟨⟨-, oack⟩, -⟩
  · exact absurd zero (by decide)
  · exact absurd oack (by decide)

end Tftp.Client
