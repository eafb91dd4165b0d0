import Tftp.Client.Settings

/-!
# How often a client sends again

The loops of the client count the timeouts they answer with a retransmission.
That of `handle_put_request` counts right. That of `receive_packet` starts again
with every datagram, also with one that `receive_file` has no use for, and
`send_file` gives up one timeout late, or never when its counter wraps first.
-/

namespace Tftp.Client

open Prog Act

/-! ## Rounds -/

/-- What a round is for the count: a timeout, a datagram that is accepted as
progress, or neither. -/
inductive Round where
  | timeout
  | progress
  | other
deriving DecidableEq

namespace World

/-- `receive_file` takes the datagram as its first OACK, or as the block it
expects. -/
def Takes (w : World Receiver) (d : Datagram) : Prop :=
  let r := w.request.received d
  w.request.bytesReceived d ≠ 0 ∧
    sockaddrEquals (if w.locals.isFirstReceive then d.sender else r.serverAddr) d.sender ∧
    (readU16 r.recvBuffer 0 = Opcode.oack ∧ w.locals.isFirstReceive ∨
      readU16 r.recvBuffer 0 = Opcode.data ∧
        readU16 r.recvBuffer 2 = w.locals.expectedSequenceNumber)

/-- `send_file` takes the datagram as an ACK that moves its window. -/
def Acknowledged (w : World Sender) (d : Datagram) : Prop :=
  let r := w.request.received d
  sockaddrEquals r.serverAddr d.sender ∧ readU16 r.recvBuffer 0 = Opcode.ack ∧
    isInRange (readU16 r.recvBuffer 2) w.locals.windowBegin (w.locals.nextSequenceNumber - 1)

/-- `remaining_time` of `send_file` once the window is filled. -/
def remainingTime (w : World Sender) : ℚ :=
  w.locals.rto - (seconds w.ticked.clock - seconds w.locals.startTime)

instance (w : World Receiver) (d : Datagram) : Decidable (w.Takes d) := by
  unfold Takes; infer_instance

instance (w : World Sender) (d : Datagram) : Decidable (w.Acknowledged d) := by
  unfold Acknowledged; infer_instance

/-- The world in which a round of `send_file` waits. -/
def filled (w : World Sender) : World Sender := (fillWindow 65537 w).2

end World

/-- What a datagram is for the count. -/
def Round.of (taken : Prop) [Decidable taken] : Round := if taken then .progress else .other

namespace Process

def round (e : Event) : Process → Round
  | .requesting _ _ =>
      match e.arrival with
      | .timeout => .timeout
      | .datagram _ => .progress
      | .failed => .other
  | .receiving w =>
      match e.arrival with
      | .timeout => .timeout
      | .datagram d => .of (w.Takes d)
      | .failed => .other
  | .sending w =>
      let w := (w.on e.sys).filled
      if w.remainingTime ≤ 0 then .timeout
      else
        match e.arrival with
        | .timeout => .timeout
        | .datagram d => .of (w.Acknowledged d)
        | .failed => .other
  | .ended _ _ _ => .other

/-- What has been sent when a round waits. -/
def asked (e : Event) : Process → List (Address × Message)
  | .requesting _ w => (sendRequest (w.on e.sys)).2.sent
  | .receiving w => w.sent
  | .sending w => (w.on e.sys).filled.sent
  | .ended _ _ sent => sent

def hasEnded : Process → Bool
  | .ended _ _ _ => true
  | _ => false

end Process

/-! ## Runs with the count -/

/-- A client with the number of timeouts since the last datagram it accepted as
progress, and whether another datagram came after the first of them. -/
structure Attempt where
  process : Process
  timeouts : ℕ := 0
  disturbed : Bool := false

namespace Attempt

def step (x : Attempt) (e : Event) : Attempt :=
  let process := x.process.step e
  match x.process.round e with
  | .timeout => { x with process, timeouts := x.timeouts + 1 }
  | .progress => { process }
  | .other => { x with process, disturbed := x.disturbed || decide (0 < x.timeouts) }

/-- The condition on a round with `r` retries: `send_file` meets no timeout
after `r` retransmissions, and `receive_packet` none when a datagram that is no
progress came after the first of these. -/
def Meets (r : UInt8) (x : Attempt) (e : Event) : Prop :=
  x.process.round e = .timeout → x.timeouts = r.toNat →
    match x.process with
    | .receiving _ => x.disturbed = false
    | .sending _ => False
    | _ => True

def Runs (C : Attempt → Event → Prop) : Attempt → Attempt → Prop :=
  Relation.ReflTransGen fun x y => ∃ e, C x e ∧ y = x.step e

/-- A client that has not ended has met no more than `r` timeouts, and it ends
with the one that comes after these, without another retransmission. -/
structure Bounded (C : Attempt → Event → Prop) (r : UInt8) (x : Attempt) : Prop where
  within : x.process.hasEnded = false → x.timeouts ≤ r.toNat
  givesUp : ∀ e, C x e → x.process.round e = .timeout → x.timeouts = r.toNat →
    ∃ q, x.process.step e = .ended (.returned false) q (x.process.asked e)

end Attempt

/-! ## What the loops count -/

/-- The retries, and how many of them `receive_packet` has spent. -/
def World.spent (w : World Receiver) : UInt8 × UInt8 :=
  (w.request.retries, w.locals.retransmissions)

instance : Blind World.spent := ⟨fun _ _ _ _ => rfl⟩

theorem spent_handleOackPacket (n : ℕ) : Fixes World.spent (handleOackPacket n) := by
  refine .handleOackPacket (fun w t rest => ?_) n
  obtain ⟨⟨_, _, _, _, request⟩, locals⟩ := rest
  rw [World.spent, World.spent, request, locals]

theorem spent_sendAck (n : UInt16) : Fixes World.spent (sendAck n) :=
  .bind .request fun _ => .bind (.sendto _ _) fun _ => .modify fun _ => rfl

theorem spent_receiveOack (n : ℕ) : Fixes World.spent (receiveOack n) :=
  .bind .request fun _ => .bind .locals fun _ => .ite (.pure _)
    (.bind (spent_handleOackPacket n) fun _ => .bind .request fun _ => .ite (.stop _)
      (.ite (.bind (.sendError _) fun _ => .stop _) (spent_sendAck _)))

theorem spent_receiveData (n : ℕ) : Fixes World.spent (receiveData n) := by
  have discard : Fixes World.spent discardOptions :=
    .bind .request fun _ => .ite (.bind (.modify fun _ => rfl) fun _ => .ite
      (.bind (.sendError _) fun _ => .bind (.modify fun _ => rfl) fun _ => .stop _)
      (.modify fun _ => rfl)) (.modify fun _ => rfl)
  have write (bytes : Bytes) : Fixes World.spent (fwrite bytes) :=
    .bind .sys fun _ => .bind (.modifyLocals fun _ => rfl) fun _ => .pure _
  have store (k : UInt16) (size : ℕ) : Fixes World.spent (storeBlock k size) :=
    .bind (.modifyLocals fun _ => rfl) fun _ => .bind .request fun _ => .ite (.stop _)
      (.bind (write _) fun _ => .ite
        (.bind .sys fun _ => .ite (.bind (.sendError _) fun _ => .stop _) (.stop _))
        (.bind (.modify fun _ => rfl) fun _ => .bind (spent_sendAck _) fun _ =>
          .ite (.stop _) (.pure _)))
  have rest (expected : UInt16) : Fixes World.spent (do
      let r ← Act.request
      let blockNumber := readU16 r.recvBuffer 2
      if blockNumber ≠ expected then retransmitLastPacketSent
      else storeBlock blockNumber (payloadSize n)) :=
    .bind .request fun _ => .ite .retransmitLastPacketSent (store _ _)
  exact .bind .locals fun _ => .ite (.bind discard fun _ => rest _) (rest _)

theorem spent_receivePacket (sender : Address) (n : ℕ) :
    Fixes World.spent (receivePacket sender n) := by
  have refuse (opcode : UInt16) : Fixes World.spent (refusePacket opcode) :=
    .bind .locals fun _ => .ite (.bind (.modify fun _ => rfl) fun _ => .stop _) (.stop _)
  exact .bind .request fun _ => .ite (.trySendto _ _) (.bind (.bind .request fun _ =>
    .ite (spent_receiveOack n) (.ite (spent_receiveData n) (refuse _))) fun _ =>
      .modifyLocals fun _ => rfl)

section

variable {w : World Receiver} {v : World Requester}

/-- Every datagram starts the count of `receive_packet` again. -/
theorem receiveDatagram_spent (d : Datagram) :
    wp (receiveDatagram d) (fun _ t => t.spent = (w.request.retries, 0)) (fun _ _ => True) w := by
  unfold receiveDatagram
  rw [wp_bind, wp_modify, wp_bind, wp_modifyLocals, wp_bind, wp_request, wp_bind, wp_locals]
  refine wp_ite.mpr ⟨fun _ => trivial, fun _ => wp_ite.mpr ⟨fun _ => ?_, fun _ => ?_⟩⟩
  · rw [wp_bind, wp_modify]
    exact (spent_receivePacket _ _).wp (fun _ _ ht => ht) fun _ _ _ => trivial
  · exact (spent_receivePacket _ _).wp (fun _ _ ht => ht) fun _ _ _ => trivial

/-- A timeout gives up exactly when the retries are spent. -/
theorem receiveRound_timeout :
    wp (receiveRound .timeout)
      (fun _ t => w.locals.retransmissions ≠ w.request.retries ∧
        t.spent = (w.request.retries, w.locals.retransmissions + 1))
      (fun o t => o = .returned false ∧ t.sent = w.sent) w := by
  unfold receiveRound
  rw [wp_bind, wp_request, wp_bind, wp_locals]
  refine wp_ite.mpr ⟨fun _ => ?_, fun left => ?_⟩
  · exact wp_ite.mpr ⟨fun _ => ⟨rfl, rfl⟩, fun _ => ⟨rfl, rfl⟩⟩
  · rw [wp_bind, wp_retransmitLastPacketSent]
    exact ⟨fun _ => ⟨left, rfl⟩, fun _ => ⟨rfl, rfl⟩⟩

theorem requestRound_timeout :
    wp (requestRound .timeout)
      (fun go t => go = false ∧ v.locals.retransmissions ≠ v.request.retries ∧
        t.request.retries = v.request.retries ∧
          t.locals.retransmissions = v.locals.retransmissions + 1)
      (fun o t => o = .returned false ∧ t.sent = (sendRequest v).2.sent) v := by
  unfold requestRound
  rw [wp_bind]
  refine wp_mono (wp_and (sendRequest_spec v) (wp_result sendRequest v)) ?_ ?_
  · rintro _ t ⟨asked, rfl⟩
    obtain ⟨packet, hr, -⟩ := asked.request
    have retries : (sendRequest v).2.request.retries = v.request.retries := by rw [hr]
    rw [wp_bind, wp_request, wp_bind, wp_locals, retries, asked.locals]
    refine wp_ite.mpr ⟨fun _ => ⟨rfl, rfl⟩, fun left => ⟨rfl, left, retries, ?_⟩⟩
    exact congrArg (fun l => l.retransmissions + 1) asked.locals
  · rintro o t ⟨⟨ho, -⟩, rfl⟩
    exact ⟨ho, rfl⟩

end

/-- The counter of the loop, where it has one that counts right. -/
def Process.Counts (r : UInt8) (timeouts : ℕ) (disturbed : Bool) : Process → Prop
  | .requesting _ w =>
      w.request.retries = r ∧ w.locals.retransmissions.toNat = timeouts ∧ timeouts ≤ r.toNat
  | .receiving w =>
      w.request.retries = r ∧ (disturbed = false → w.locals.retransmissions.toNat = timeouts) ∧
        timeouts ≤ r.toNat
  | .sending _ => timeouts ≤ r.toNat
  | .ended _ _ _ => True

/-- A counter below the retries does not wrap. -/
theorem count_succ {l r : UInt8} {n : ℕ} (hl : l.toNat = n) (hn : n ≤ r.toNat) (hne : l ≠ r) :
    (l + 1).toNat = n + 1 ∧ n + 1 ≤ r.toNat := by
  have different : l.toNat ≠ r.toNat := fun h => hne (UInt8.toNat_inj.mp h)
  have small := r.toNat_lt
  have next : (l + 1).toNat = (l.toNat + 1) % 2 ^ 8 := UInt8.toNat_add l 1
  rw [next, hl]
  omega

section

variable {r : UInt8} {n m : ℕ} {b c : Bool} {e : Event}

theorem counts_requesting {file : Bytes} {w : World Requester}
    (h : (Process.requesting file w).Counts r n b) (he : e.arrival = .timeout) :
    ((Process.requesting file w).step e).Counts r (n + 1) b := by
  obtain ⟨retries, counter, within⟩ := h
  apply Process.step_requesting
  rw [he]
  refine wp_mono requestRound_timeout ?_ fun _ _ _ => trivial
  rintro go t ⟨rfl, left, retries', spent⟩
  have left : w.locals.retransmissions ≠ r := retries ▸ left
  obtain ⟨next, below⟩ := count_succ counter within left
  exact ⟨retries'.trans retries, (congrArg UInt8.toNat spent).trans next, below⟩

/-- The first datagram ends the loop of `handle_put_request`. -/
theorem counts_answered {file : Bytes} {w : World Requester} {d : Datagram}
    (he : e.arrival = .datagram d) : ((Process.requesting file w).step e).Counts r 0 false := by
  apply Process.step_requesting
  rw [he]
  unfold requestRound
  rw [wp_bind]
  refine wp_of_both (fun _ t => ?_) fun _ _ => trivial
  rw [wp_bind, wp_modify, wp_bind, wp_request, wp_bind]
  refine wp_of_both (fun _ t => ?_) fun _ _ => trivial
  show (enterSendFile file t).Counts r 0 false
  unfold enterSendFile
  split
  · exact Nat.zero_le _
  · trivial

theorem counts_receiving {w : World Receiver} (h : (Process.receiving w).Counts r n b)
    (he : e.arrival = .timeout) (hb : n = r.toNat → b = false) :
    ((Process.receiving w).step e).Counts r (n + 1) b := by
  obtain ⟨retries, counter, within⟩ := h
  apply Process.step_receiving
  rw [he]
  refine wp_mono receiveRound_timeout ?_ fun _ _ _ => trivial
  rintro _ t ⟨left, spent⟩
  have left : w.locals.retransmissions ≠ r := retries ▸ left
  have retries' : t.request.retries = w.request.retries := congrArg Prod.fst spent
  have counter' : t.locals.retransmissions = w.locals.retransmissions + 1 := congrArg Prod.snd spent
  refine ⟨retries'.trans retries, fun calm => ?_, ?_⟩
  · rw [counter']
    exact (count_succ (counter calm) within left).1
  · -- at `r` timeouts the count of the loop is that of the run
    by_contra exceeded
    have full : n = r.toNat := by omega
    exact left (UInt8.toNat_inj.mp ((counter (hb full)).trans full))

/-- A datagram leaves the loop with a fresh counter; that is the count of the run
if it is progress, or if no timeout came before. -/
theorem counts_received {w : World Receiver} {d : Datagram}
    (h : (Process.receiving w).Counts r n b) (he : e.arrival = .datagram d) (hm : m ≤ n)
    (hc : c = false → m = 0) : ((Process.receiving w).step e).Counts r m c := by
  obtain ⟨retries, -, within⟩ := h
  apply Process.step_receiving
  rw [he]
  refine wp_mono (receiveDatagram_spent d) (fun _ t spent => ?_) fun _ _ _ => trivial
  have retries' : t.request.retries = w.request.retries := congrArg Prod.fst spent
  have counter : t.locals.retransmissions = 0 := congrArg Prod.snd spent
  refine ⟨retries'.trans retries, fun calm => ?_, hm.trans within⟩
  rw [counter, hc calm]
  rfl

theorem counts_failed {p : Process} (he : e.arrival = .failed)
    (hp : ∀ w, p ≠ .sending w) : (p.step e).Counts r n b := by
  cases p with
  | requesting file w =>
      apply Process.step_requesting
      rw [he]
      unfold requestRound
      rw [wp_bind]
      exact wp_of_both (fun _ _ => trivial) fun _ _ => trivial
  | receiving w =>
      apply Process.step_receiving
      rw [he]
      trivial
  | sending w => exact (hp w rfl).elim
  | ended o q sent => trivial

theorem counts_sending {w : World Sender} (hn : n ≤ r.toNat) :
    ((Process.sending w).step e).Counts r n b := by
  apply Process.step_sending
  exact wp_of_both (fun _ _ => hn) fun _ _ => trivial

end

namespace Attempt

variable {r : UInt8} {x y : Attempt} {e : Event}

/-- What holds in every state of a run. -/
def Counted (r : UInt8) (x : Attempt) : Prop := x.process.Counts r x.timeouts x.disturbed

theorem Counted.step (h : x.Counted r) (hC : Meets r x e) : (x.step e).Counted r := by
  obtain ⟨p, n, b⟩ := x
  obtain ⟨a, sys⟩ := e
  cases p with
  | requesting file w =>
      cases a with
      | timeout => exact counts_requesting h rfl
      | datagram d => exact counts_answered rfl
      | failed =>
          exact counts_failed (p := .requesting file w) (e := ⟨.failed, sys⟩) rfl fun _ h => by cases h
  | receiving w =>
      cases a with
      | timeout => exact counts_receiving h rfl (hC rfl)
      | failed =>
          exact counts_failed (p := .receiving w) (e := ⟨.failed, sys⟩) rfl fun _ h => by cases h
      | datagram d =>
          by_cases taken : w.Takes d
          · have progress : (Process.receiving w).round ⟨.datagram d, sys⟩ = .progress :=
              if_pos taken
            unfold Attempt.step
            rw [progress]
            exact counts_received h rfl (Nat.zero_le _) fun _ => rfl
          · have other : (Process.receiving w).round ⟨.datagram d, sys⟩ = .other := if_neg taken
            unfold Attempt.step
            rw [other]
            refine counts_received h rfl le_rfl fun calm => ?_
            have calm : b = false ∧ n = 0 := by simpa using calm
            exact calm.2
  | sending w =>
      have within : n ≤ r.toNat := h
      unfold Attempt.step
      cases hr : (Process.sending w).round ⟨a, sys⟩ with
      | timeout =>
          -- the condition leaves a retry
          have left : n ≠ r.toNat := fun full => hC hr full
          have below : n + 1 ≤ r.toNat := by omega
          exact counts_sending below
      | progress => exact counts_sending (Nat.zero_le _)
      | other => exact counts_sending within
  | ended o q sent => trivial

theorem Counted.bounded (h : x.Counted r) : Bounded (Meets r) r x where
  within running := by
    obtain ⟨p, n, b⟩ := x
    cases p with
    | requesting file w => exact h.2.2
    | receiving w => exact h.2.2
    | sending w => exact h
    | ended o q sent => cases running
  givesUp e hC he full := by
    obtain ⟨p, n, b⟩ := x
    obtain ⟨a, sys⟩ := e
    cases p with
    | requesting file w =>
        obtain ⟨retries, counter, -⟩ := h
        obtain rfl : a = .timeout := by
          cases a with
          | timeout => rfl
          | datagram d => cases he
          | failed => cases he
        have spent : w.locals.retransmissions = w.request.retries :=
          UInt8.toNat_inj.mp ((counter.trans full).trans (congrArg UInt8.toNat retries.symm))
        apply @Process.step_requesting fun p => ∃ q, p = .ended _ q _
        refine wp_mono requestRound_timeout (fun go t ht => ?_) fun o t ht => ?_
        · exact (ht.2.1 spent).elim
        · obtain ⟨rfl, sent⟩ := ht
          exact ⟨t.request, congrArg _ sent⟩
    | receiving w =>
        obtain ⟨retries, counter, -⟩ := h
        obtain rfl : a = .timeout := by
          cases a with
          | timeout => rfl
          | datagram d =>
              have round : Round.of (w.Takes d) = .timeout := he
              unfold Round.of at round
              split at round
              · cases round
              · cases round
          | failed => cases he
        have spent : w.locals.retransmissions = w.request.retries :=
          UInt8.toNat_inj.mp (((counter (hC rfl full)).trans full).trans
            (congrArg UInt8.toNat retries.symm))
        apply @Process.step_receiving fun p => ∃ q, p = .ended _ q _
        refine wp_mono receiveRound_timeout (fun _ t ht => ?_) fun o t ht => ?_
        · exact (ht.1 spent).elim
        · obtain ⟨rfl, sent⟩ := ht
          exact ⟨t.request, congrArg _ sent⟩
    | sending w => exact (hC he full).elim
    | ended o q sent => cases he

/-- The count a client starts with. -/
def start (c : Call) (s : Sys) : Attempt := { process := c.start s }

theorem counted_start (c : Call) (s : Sys) : (start c s).Counted c.retries := by
  apply Call.start_spec
  rw [begin, wp_bind, wp_require]
  refine ⟨fun _ => ?_, fun _ => trivial⟩
  cases hty : c.requestType with
  | put => exact ⟨rfl, rfl, Nat.zero_le _⟩
  | get =>
      rw [wp_bind]
      refine wp_mono (sendRequest_spec _) (fun _ t ht => ?_) fun _ _ _ => trivial
      obtain ⟨packet, hr, -⟩ := ht.request
      rw [wp_require]
      refine ⟨fun _ => ⟨?_, fun _ => rfl, Nat.zero_le _⟩, fun _ => trivial⟩
      show t.request.retries = _
      rw [hr]
      rfl

/-- In a run whose rounds meet the condition the client keeps the bound. -/
theorem bounded_of_runs {c : Call} {s : Sys} (h : Runs (Meets c.retries) (start c s) x) :
    Bounded (Meets c.retries) c.retries x := by
  have counted : x.Counted c.retries := by
    induction h with
    | refl => exact counted_start c s
    | tail _ hs ih =>
        obtain ⟨e, hC, rfl⟩ := hs
        exact ih.step hC
  exact counted.bounded

end Attempt

end Tftp.Client
