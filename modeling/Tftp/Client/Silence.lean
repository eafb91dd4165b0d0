import Tftp.Client.Parameters
import Tftp.Client.SendFile
import Tftp.Client.Retries
import Tftp.Lib.Runs

/-!
# Silence

A client that hears nothing any more gives up. The loops of a read and of the
write request answer as many timeouts as there are retries, that of `send_file` one
more, unless its counter wraps first. It does not come to its timeouts where its window
is empty at the end of the file: then it sends without an end.
-/

namespace Tftp.Client

open Prog Act

/-! ## What the loops have left -/

/-- The timeouts a client answers before it gives up. -/
def Process.patience : Process → ℕ
  | .requesting _ w => w.request.retries.toNat - w.locals.retransmissions.toNat
  | .receiving w => w.request.retries.toNat - w.locals.retransmissions.toNat
  | .sending w => w.request.retries.toNat + 1 - w.locals.retransmissions.toNat
  | .ended _ _ _ => 0

/-- No loop has counted more than it answers. -/
def Process.Patient (r : UInt8) : Process → Prop
  | .requesting _ w => w.request.retries = r ∧ w.locals.retransmissions.toNat ≤ r.toNat
  | .receiving w => w.request.retries = r ∧ w.locals.retransmissions.toNat ≤ r.toNat
  | .sending w => w.request.retries = r ∧ w.locals.retransmissions.toNat ≤ r.toNat + 1
  | .ended _ _ _ => True

/-- The client has returned, without success. -/
def Process.HasFailed (p : Process) : Prop := ∃ q sent, p = .ended (.returned false) q sent

/-- The window is empty, and no block is left to fill it: all of the file is acknowledged,
and `send_file` has not noticed. -/
def Sender.Drained (l : Sender) : Prop :=
  l.windowBegin = l.nextSequenceNumber ∧ l.endOfFile = true

def Process.Drained : Process → Prop
  | .sending w => w.locals.Drained
  | _ => False

instance (l : Sender) : Decidable l.Drained := by unfold Sender.Drained; infer_instance

instance : ∀ p : Process, Decidable p.Drained
  | .requesting _ _ => isFalse id
  | .receiving _ => isFalse id
  | .sending w => inferInstanceAs (Decidable w.locals.Drained)
  | .ended _ _ _ => isFalse id

/-- What `send_file` needs to answer a timeout. -/
def Process.Answers : Process → Prop
  | .sending w => Timed w ∧ ¬w.locals.Drained
  | _ => True

/-- A counter that goes on does not wrap. -/
theorem toNat_count {n r : UInt8} (h : n.toNat ≤ r.toNat) (hr : r.toNat < 255) :
    (n + 1).toNat = n.toNat + 1 := by
  rw [UInt8.toNat_add, UInt8.toNat_one]
  omega

theorem Process.Patient.patience_le {r : UInt8} {p : Process} (h : p.Patient r) :
    p.patience ≤ r.toNat + 1 := by
  cases p with
  | requesting file w =>
      show w.request.retries.toNat - _ ≤ _
      rw [h.1]
      omega
  | receiving w =>
      show w.request.retries.toNat - _ ≤ _
      rw [h.1]
      omega
  | sending w =>
      show w.request.retries.toNat + 1 - _ ≤ _
      rw [h.1]
      omega
  | ended o q sent => exact Nat.zero_le _

/-! ## send_file -/

/-- The retries and how many of them `send_file` has spent. -/
def World.tries (w : World Sender) : UInt8 × UInt8 := (w.request.retries, w.locals.retransmissions)

instance : Blind World.tries := ⟨fun _ _ _ _ => rfl⟩

section

variable {w : World Sender}

theorem fillWindow_tries (rounds : ℕ) : Fixes World.tries (fillWindow rounds) := by
  have timer : Fixes World.tries startTimer :=
    .bind .request fun _ => .bind .locals fun _ => .ite
      (.bind .clockGettime fun _ => .bind (.modifyLocals fun _ => rfl) fun _ =>
        .ite (.bind .clockGettime fun _ => .modifyLocals fun _ => rfl) (.pure _)) (.pure _)
  have next : Fixes World.tries sendNextPacket :=
    .bind .request fun _ => .bind .locals fun _ => .ite (.stop _) (.bind .require fun _ =>
      .bind (.modifyLocals fun _ => rfl) fun _ => .bind (.sendto _ _) fun _ =>
        .bind (.modify fun _ => rfl) fun _ => .bind timer fun _ => .modifyLocals fun _ => rfl)
  induction rounds with
  | zero => exact .stop _
  | succ rounds ih =>
      exact .bind .request fun _ => .bind .locals fun _ => .ite (.bind next fun _ => ih) (.pure _)

/-- A timeout is answered, and counted, as long as the count is within the retries. -/
theorem onTimeout_tries :
    wp onTimeout
      (fun _ t => w.locals.retransmissions ≤ w.request.retries ∧
        t.tries = (w.request.retries, w.locals.retransmissions + 1))
      (fun o _ => Unsuccessful o) w := by
  have again (rounds : ℕ) (i : UInt16) : Fixes World.tries (retransmitFrom rounds i) := by
    induction rounds generalizing i with
    | zero => exact .stop _
    | succ rounds ih =>
        exact .bind .request fun _ => .bind .locals fun _ => .ite
          (.ite (.stop _) (.bind (.sendto _ _) fun _ => ih _)) (.pure _)
  have rest : Fixes World.tries (do
      backOff
      restartClock
      retransmitWindow) :=
    .bind (.bind .request fun _ => .ite (.modifyLocals fun _ => rfl) (.pure _)) fun _ =>
      .bind (.bind .clockGettime fun _ => .modifyLocals fun _ => rfl) fun _ =>
        .bind .sys fun _ => .bind .locals fun _ => again _ _
  have counted : wp onTimeout (fun _ t => w.locals.retransmissions ≤ w.request.retries ∧
      t.tries = (w.request.retries, w.locals.retransmissions + 1)) (fun _ _ => True) w := by
    unfold onTimeout
    rw [wp_bind, wp_request, wp_bind, wp_locals]
    refine wp_ite.mpr ⟨fun _ => trivial, fun left => ?_⟩
    rw [wp_bind, wp_modifyLocals]
    exact rest.wp (fun _ t ht => ⟨UInt8.not_lt.mp left, ht⟩) fun _ _ _ => trivial
  exact wp_mono (wp_and counted (stopsIn_onTimeout w)) (fun _ _ h => h.1) fun _ _ h => h.2

/-! ### The window -/

/-- The two ends of the window. -/
def World.ends (w : World Sender) : UInt16 × UInt16 :=
  (w.locals.windowBegin, w.locals.nextSequenceNumber)

theorem sendNextPacket_ends :
    wp sendNextPacket
      (fun _ t => t.ends = (w.locals.windowBegin, w.locals.nextSequenceNumber + 1))
      (fun o _ => o ≠ .hang) w := by
  unfold sendNextPacket
  rw [wp_bind, wp_request, wp_bind, wp_locals]
  refine wp_ite.mpr ⟨fun _ => (by decide : Outcome.crash ≠ .hang), fun _ => ?_⟩
  rw [wp_bind, wp_require]
  refine ⟨fun _ => ?_, fun _ => by decide⟩
  rw [wp_bind, wp_modifyLocals, wp_bind, wp_sendto]
  refine ⟨fun _ => ?_, fun _ => by decide⟩
  rw [wp_bind, wp_modify, wp_bind]
  unfold startTimer
  rw [wp_bind, wp_request, wp_bind, wp_locals]
  refine wp_ite.mpr ⟨fun _ => ?_, fun _ => rfl⟩
  rw [wp_bind, wp_clockGettime, wp_bind, wp_modifyLocals]
  refine wp_ite.mpr ⟨fun _ => ?_, fun _ => rfl⟩
  rw [wp_bind, wp_clockGettime]
  exact rfl

/-- Where a block is outstanding or left, one is outstanding after the sending phase. -/
theorem fillWindow_ends (one : w.request.options.windowSize = 1) (left : ¬w.locals.Drained) :
    wp (fillWindow 65537) (fun _ v => v.locals.windowBegin ≠ v.locals.nextSequenceNumber)
      (fun o _ => o ≠ .hang) w := by
  by_cases full : w.locals.windowBegin ≠ w.locals.nextSequenceNumber
  · exact fillWindow_full one full 65536 full
  · have empty : w.locals.windowBegin = w.locals.nextSequenceNumber := not_not.mp full
    unfold fillWindow
    rw [wp_bind, wp_request, wp_bind, wp_locals]
    refine wp_ite.mpr ⟨fun _ => ?_, fun closed => (closed ⟨?_, ?_⟩).elim⟩
    · rw [wp_bind]
      refine wp_mono (wp_and sendNextPacket_ends (sendNextPacket_base _ w rfl)) ?_
        fun _ _ failed => failed.1
      rintro _ t ⟨ends, base⟩
      have one' : t.request.options.windowSize = 1 :=
        (congrArg (fun r => r.options.windowSize) base).trans one
      have full : t.locals.windowBegin ≠ t.locals.nextSequenceNumber := by
        rw [show t.locals.windowBegin = w.locals.windowBegin from congrArg Prod.fst ends,
          show t.locals.nextSequenceNumber = w.locals.nextSequenceNumber + 1 from
            congrArg Prod.snd ends, empty]
        simp
      exact fillWindow_full one' full 65535 full
    · exact eq_false_of_ne_true fun atEnd => left ⟨empty, atEnd⟩
    · rw [one, empty, isInRange_one]

/-- What is outstanding is sent again, and then the loop ends. -/
theorem retransmitFrom_ends (full : w.locals.windowBegin ≠ w.locals.nextSequenceNumber)
    {rounds : ℕ} {i : UInt16} (h : (w.locals.nextSequenceNumber - i).toNat < rounds) :
    wp (retransmitFrom rounds i) (fun _ t => t.locals = w.locals) (fun o _ => o ≠ .hang) w := by
  induction rounds generalizing w i with
  | zero => exact absurd h (Nat.not_lt_zero _)
  | succ rounds ih =>
      unfold retransmitFrom
      rw [wp_bind, wp_request, wp_bind, wp_locals]
      refine wp_ite.mpr ⟨fun inside => wp_ite.mpr
        ⟨fun _ => (by decide : Outcome.crash ≠ .hang), fun _ => ?_⟩, fun _ => rfl⟩
      rw [wp_bind, wp_sendto]
      refine ⟨fun _ => ?_, fun _ => by decide⟩
      have other : i ≠ w.locals.nextSequenceNumber :=
        Serial.ne_of_onArc full ((isInRange_iff _ _ _).mp inside)
      have here : Serial.OnArc i i (w.locals.nextSequenceNumber - 1) := by
        unfold Serial.OnArc
        rw [UInt16.sub_self]
        exact UInt16.zero_le
      have less := Serial.distance_lt other here
      refine ih ?_ ?_
      · exact full
      · exact lt_of_lt_of_le less (Nat.le_of_lt_succ h)

theorem onTimeout_ends (full : w.locals.windowBegin ≠ w.locals.nextSequenceNumber) :
    wp onTimeout (fun _ t => t.locals.windowBegin ≠ t.locals.nextSequenceNumber)
      (fun o _ => o ≠ .hang) w := by
  unfold onTimeout
  rw [wp_bind, wp_request, wp_bind, wp_locals]
  refine wp_ite.mpr ⟨fun _ => (by decide : Outcome.returned false ≠ .hang), fun _ => ?_⟩
  rw [wp_bind, wp_modifyLocals, wp_bind]
  refine wp_mono backOff_quiet (fun _ u quiet => ?_) fun _ _ never => never.elim
  have begins : u.locals.windowBegin = w.locals.windowBegin :=
    (congrArg Sender.windowBegin quiet.1 :)
  have next : u.locals.nextSequenceNumber = w.locals.nextSequenceNumber :=
    (congrArg Sender.nextSequenceNumber quiet.1 :)
  rw [← begins, ← next] at full
  unfold restartClock retransmitWindow
  rw [wp_bind, wp_bind, wp_clockGettime, wp_modifyLocals, wp_bind, wp_sys, wp_bind, wp_locals]
  generalize hv : ({ request := _, locals := _, sys := _, sent := _, clock := _ } : World Sender) = v
  have full : v.locals.windowBegin ≠ v.locals.nextSequenceNumber := by
    subst hv
    exact full
  have near := (v.locals.nextSequenceNumber - v.locals.windowBegin).toNat_lt
  have ends := @retransmitFrom_ends v full (v.sys.calls.length + 65537) v.locals.windowBegin
    (by omega)
  subst hv
  refine wp_mono ends (fun _ t ht => ?_) fun _ _ ho => ho
  rw [ht]
  exact full

/-- A round in which nothing comes in ends, and leaves a block outstanding. -/
theorem sendRound_ends (one : w.request.options.windowSize = 1) (left : ¬w.locals.Drained) :
    wp (sendRound .timeout) (fun _ t => ¬t.locals.Drained) (fun o _ => o ≠ .hang) w := by
  unfold sendRound
  rw [wp_bind]
  refine wp_mono (fillWindow_ends one left) (fun _ v full => ?_) fun _ _ ho => ho
  have answered {v : World Sender}
      (full : v.locals.windowBegin ≠ v.locals.nextSequenceNumber) :
      wp onTimeout (fun _ t => ¬t.locals.Drained) (fun o _ => o ≠ .hang) v :=
    wp_mono (onTimeout_ends full) (fun _ t full' drained => full' drained.1) fun _ _ ho => ho
  unfold awaitAnswer
  rw [wp_bind, wp_clockGettime, wp_bind, wp_locals]
  refine wp_ite.mpr ⟨fun _ => answered full, fun _ => ?_⟩
  rw [wp_bind, wp_require]
  exact ⟨fun _ => answered full, fun _ => by decide⟩

/-! ### The counter -/

/-- A round of `send_file` without a datagram. -/
theorem sendRound_timeout :
    wp (sendRound .timeout)
      (fun _ t => w.locals.retransmissions ≤ w.request.retries ∧
        t.tries = (w.request.retries, w.locals.retransmissions + 1))
      (fun o _ => Unsuccessful o) w := by
  unfold sendRound
  rw [wp_bind]
  refine wp_mono (wp_and (fillWindow_tries 65537 _ w rfl) (stopsIn_fillWindow 65537 w)) ?_ ?_
  · rintro _ v ⟨kept, -⟩
    have retries : v.request.retries = w.request.retries := congrArg Prod.fst kept
    have spent : v.locals.retransmissions = w.locals.retransmissions := congrArg Prod.snd kept
    rw [← retries, ← spent]
    unfold awaitAnswer
    rw [wp_bind, wp_clockGettime, wp_bind, wp_locals]
    refine wp_ite.mpr ⟨fun _ => onTimeout_tries, fun _ => ?_⟩
    rw [wp_bind, wp_require]
    exact ⟨fun _ => onTimeout_tries, fun _ => by decide⟩
  · rintro o v ⟨-, failed⟩
    exact failed

/-- What a round of `send_file` does to its counter. -/
structure World.Counts (w t : World Sender) : Prop where
  retries : t.request.retries = w.request.retries
  counter : t.locals.retransmissions = 0 ∨ t.locals.retransmissions = w.locals.retransmissions ∨
    w.locals.retransmissions ≤ w.request.retries ∧
      t.locals.retransmissions = w.locals.retransmissions + 1

/-- An ACK that is accepted starts the count again. -/
theorem onAck_tries :
    wp onAck (fun _ t => t.tries = (w.request.retries, 0) ∨ t.tries = w.tries) (fun _ _ => True)
      w := by
  have advances (n : UInt16) : Fixes World.tries (advanceWindow n) :=
    .bind (.modifyLocals fun _ => rfl) fun _ => .bind .locals fun _ => .ite
      (.bind .clockGettime fun _ => .modifyLocals fun _ => rfl) (.pure _)
  have sample (n : UInt16) : Fixes World.tries (takeSample n) :=
    .bind .request fun _ => .bind .locals fun _ => .ite
      (.bind .clockGettime fun _ => .modifyLocals fun _ => rfl) (.pure _)
  unfold onAck takeAck
  rw [wp_bind, wp_request, wp_bind, wp_locals]
  refine wp_ite.mpr ⟨fun _ => ?_, fun _ => .inr rfl⟩
  rw [wp_bind]
  refine (advances _).wp (fun _ v hv => ?_) fun _ _ _ => trivial
  have retries : v.request.retries = w.request.retries := congrArg Prod.fst hv
  rw [wp_bind, wp_modifyLocals, wp_bind]
  refine (sample _).wp (fun _ t ht => ?_) fun _ _ _ => trivial
  refine wp_ite.mpr ⟨fun _ => trivial, fun _ => .inl ?_⟩
  rw [← retries]
  exact ht

theorem sendRound_counts (a : Arrival) :
    wp (sendRound a) (fun _ t => w.Counts t) (fun _ _ => True) w := by
  have timeout {v : World Sender} (hv : v.tries = w.tries) :
      wp onTimeout (fun _ t => w.Counts t) (fun _ _ => True) v := by
    have retries : v.request.retries = w.request.retries := congrArg Prod.fst hv
    have spent : v.locals.retransmissions = w.locals.retransmissions := congrArg Prod.snd hv
    refine wp_mono onTimeout_tries ?_ fun _ _ _ => trivial
    rintro _ t ⟨left, tries⟩
    rw [retries, spent] at left tries
    exact ⟨congrArg Prod.fst tries, .inr (.inr ⟨left, congrArg Prod.snd tries⟩)⟩
  unfold sendRound
  rw [wp_bind]
  refine (fillWindow_tries 65537).wp (fun _ v hv => ?_) fun _ _ _ => trivial
  unfold awaitAnswer
  rw [wp_bind, wp_clockGettime, wp_bind, wp_locals]
  refine wp_ite.mpr ⟨fun _ => timeout hv, fun _ => ?_⟩
  rw [wp_bind, wp_require]
  refine ⟨fun _ => ?_, fun _ => trivial⟩
  cases a with
  | failed => trivial
  | timeout => exact timeout hv
  | datagram d =>
      unfold answerDatagram
      rw [wp_bind, wp_modify, wp_bind, wp_request]
      refine wp_ite.mpr ⟨fun _ => ?_, fun _ => wp_ite.mpr ⟨fun _ => ?_, fun _ => trivial⟩⟩
      · refine (Fixes.trySendto _ _ : Fixes World.tries _).wp (fun _ t ht => ?_) fun _ _ _ => trivial
        have same : t.tries = w.tries := ht.trans hv
        exact ⟨congrArg Prod.fst same, .inr (.inl (congrArg Prod.snd same))⟩
      · refine wp_mono onAck_tries (fun _ t ht => ?_) fun _ _ _ => trivial
        have retries : v.request.retries = w.request.retries := congrArg Prod.fst hv
        rcases ht with again | same
        · exact ⟨(congrArg Prod.fst again).trans retries, .inl (congrArg Prod.snd again)⟩
        · have same : t.tries = w.tries := same.trans hv
          exact ⟨congrArg Prod.fst same, .inr (.inl (congrArg Prod.snd same))⟩

end

/-! ## Every round -/

section

variable {r : UInt8} {p : Process} {e : Event}

/-- The answer to a write request does not change the retries. -/
theorem handleFirstAnswer_retries (n : ℕ) :
    Fixes (fun w : World Requester => w.request.retries) (handleFirstAnswer n) := by
  have blind : Blind (fun w : World Requester => w.request.retries) := ⟨fun _ _ _ _ => rfl⟩
  have oack : Fixes (fun w : World Requester => w.request.retries) (handleOackPacket n) := by
    refine .handleOackPacket (fun w t rest => ?_) n
    obtain ⟨_, _, _, _, request⟩ := rest.request
    rw [request]
  exact .bind .request fun _ => .ite (.ite (.stop _) (.bind oack fun _ => .pure _))
    (.ite (.ite (.pure _) (.ite (.modify fun _ => rfl) (.pure _)))
      (.ite (.bind (.modify fun _ => rfl) fun _ => .stop _) (.stop _)))

/-- The counter of a request is below the retries while it is counted on. -/
theorem patient_count {n : UInt8} (spent : n.toNat ≤ r.toNat) (left : n ≠ r) :
    (n + 1).toNat ≤ r.toNat := by
  obtain ⟨next, below⟩ := count_succ rfl spent left
  rw [next]
  exact below

theorem patient_requesting {file : Bytes} {w : World Requester}
    (h : (Process.requesting file w).Patient r) :
    ((Process.requesting file w).step e).Patient r := by
  obtain ⟨retries, spent⟩ := h
  obtain ⟨a, sys⟩ := e
  apply Process.step_requesting
  cases a with
  | failed =>
      unfold requestRound
      rw [wp_bind]
      exact wp_of_both (fun _ _ => trivial) fun _ _ => trivial
  | timeout =>
      refine wp_mono requestRound_timeout ?_ fun _ _ _ => trivial
      rintro go t ⟨rfl, left, retries', count⟩
      refine ⟨retries'.trans retries, ?_⟩
      rw [count]
      exact patient_count spent (retries ▸ left)
  | datagram d =>
      unfold requestRound
      rw [wp_bind]
      refine wp_mono (sendRequest_spec (w.on sys)) (fun _ v asked => ?_) fun _ _ _ => trivial
      obtain ⟨packet, request, -⟩ := asked.request
      have same : v.request.retries = r := by
        rw [request]
        exact retries
      rw [wp_bind, wp_modify, wp_bind, wp_request, wp_bind]
      refine (handleFirstAnswer_retries _).wp (fun _ t ht => ?_) fun _ _ _ => trivial
      have kept : t.request.retries = r := ht.trans same
      show (enterSendFile file t).Patient r
      unfold enterSendFile
      split
      · exact ⟨kept, Nat.zero_le _⟩
      · trivial

theorem patient_receiving {w : World Receiver} (h : (Process.receiving w).Patient r) :
    ((Process.receiving w).step e).Patient r := by
  obtain ⟨retries, spent⟩ := h
  obtain ⟨a, sys⟩ := e
  apply Process.step_receiving
  cases a with
  | failed => trivial
  | timeout =>
      refine wp_mono receiveRound_timeout ?_ fun _ _ _ => trivial
      rintro _ t ⟨left, count⟩
      have counter : t.locals.retransmissions = w.locals.retransmissions + 1 :=
        congrArg Prod.snd count
      refine ⟨(congrArg Prod.fst count).trans retries, ?_⟩
      rw [counter]
      exact patient_count spent (retries ▸ left)
  | datagram d =>
      refine wp_mono (receiveDatagram_spent d) (fun _ t count => ?_) fun _ _ _ => trivial
      have counter : t.locals.retransmissions = 0 := congrArg Prod.snd count
      refine ⟨(congrArg Prod.fst count).trans retries, ?_⟩
      rw [counter]
      exact Nat.zero_le _

theorem patient_sending {w : World Sender} (hr : r.toNat < 255)
    (h : (Process.sending w).Patient r) : ((Process.sending w).step e).Patient r := by
  obtain ⟨retries, spent⟩ := h
  apply Process.step_sending
  refine wp_mono (sendRound_counts e.arrival) ?_ fun _ _ _ => trivial
  rintro _ t ⟨retries', counter⟩
  refine ⟨retries'.trans retries, ?_⟩
  rcases counter with zero | same | ⟨left, next⟩
  · rw [zero]
    exact Nat.zero_le _
  · rw [same]
    exact spent
  · have left : w.locals.retransmissions.toNat ≤ r.toNat := retries ▸ UInt8.le_iff_toNat_le.mp left
    have next : t.locals.retransmissions = w.locals.retransmissions + 1 := next
    rw [next, toNat_count left hr]
    exact Nat.succ_le_succ left

theorem patient_step (hr : r.toNat < 255) (h : p.Patient r) : (p.step e).Patient r := by
  cases p with
  | requesting file w => exact patient_requesting h
  | receiving w => exact patient_receiving h
  | sending w => exact patient_sending hr h
  | ended o q sent => trivial

theorem patient_start (c : Call) (s : Sys) : (c.start s).Patient c.retries := by
  apply Call.start_spec
  rw [begin, wp_bind, wp_require]
  refine ⟨fun _ => ?_, fun _ => trivial⟩
  cases hty : c.requestType with
  | put => exact ⟨rfl, Nat.zero_le _⟩
  | get =>
      rw [wp_bind]
      refine wp_mono (sendRequest_spec _) (fun _ t asked => ?_) fun _ _ _ => trivial
      obtain ⟨packet, request, -⟩ := asked.request
      rw [wp_require]
      refine ⟨fun _ => ⟨?_, Nat.zero_le _⟩, fun _ => trivial⟩
      show t.request.retries = _
      rw [request]
      rfl

/-! ## Rounds without a datagram -/

/-- Patience was used up between `p` and `q`, or the client has failed. -/
def Process.TiresTo (p q : Process) : Prop :=
  q.HasFailed ∨ (q.Answers ∧ q.hasEnded = false) ∧ q.patience < p.patience

/-- A timeout uses up patience. -/
theorem silent_step (hr : r.toNat < 255) (h : p.Patient r) (answers : p.Answers)
    (he : e.arrival = .timeout) (running : p.hasEnded = false) : p.TiresTo (p.step e) := by
  obtain ⟨a, sys⟩ := e
  obtain rfl : a = .timeout := he
  cases p with
  | requesting file w =>
      obtain ⟨retries, spent⟩ := h
      apply Process.step_requesting
      refine wp_mono requestRound_timeout ?_ ?_
      · rintro go t ⟨rfl, left, retries', count⟩
        refine .inr ⟨⟨trivial, rfl⟩, ?_⟩
        have retries' : t.request.retries = r := retries'.trans retries
        have count : t.locals.retransmissions = w.locals.retransmissions + 1 := count
        obtain ⟨next, below⟩ := count_succ rfl spent (retries ▸ left)
        show t.request.retries.toNat - t.locals.retransmissions.toNat <
          w.request.retries.toNat - w.locals.retransmissions.toNat
        rw [retries', retries, count, next]
        omega
      · rintro o t ⟨rfl, -⟩
        exact .inl ⟨_, _, rfl⟩
  | receiving w =>
      obtain ⟨retries, spent⟩ := h
      apply Process.step_receiving
      refine wp_mono receiveRound_timeout ?_ ?_
      · rintro _ t ⟨left, count⟩
        refine .inr ⟨⟨trivial, rfl⟩, ?_⟩
        have retries' : t.request.retries = r := (congrArg Prod.fst count).trans retries
        have count : t.locals.retransmissions = w.locals.retransmissions + 1 :=
          congrArg Prod.snd count
        obtain ⟨next, below⟩ := count_succ rfl spent (retries ▸ left)
        show t.request.retries.toNat - t.locals.retransmissions.toNat <
          w.request.retries.toNat - w.locals.retransmissions.toNat
        rw [retries', retries, count, next]
        omega
      · rintro o t ⟨rfl, -⟩
        exact .inl ⟨_, _, rfl⟩
  | sending w =>
      obtain ⟨retries, spent⟩ := h
      apply Process.step_sending
      obtain ⟨timed, left⟩ := answers
      have timed : Timed (w.on sys) := ⟨timed.1, timed.2, timed.3, timed.4, timed.5⟩
      refine wp_mono (wp_and sendRound_timeout (wp_and (calm_sendRound .timeout _ timed)
        (sendRound_ends timed.windowSize left))) ?_ ?_
      · rintro _ t ⟨⟨left, count⟩, answers⟩
        refine .inr ⟨⟨answers, rfl⟩, ?_⟩
        have retries' : t.request.retries = r := (congrArg Prod.fst count).trans retries
        have count : t.locals.retransmissions = w.locals.retransmissions + 1 :=
          congrArg Prod.snd count
        have left : w.locals.retransmissions.toNat ≤ r.toNat :=
          retries ▸ UInt8.le_iff_toNat_le.mp left
        show t.request.retries.toNat + 1 - t.locals.retransmissions.toNat <
          w.request.retries.toNat + 1 - w.locals.retransmissions.toNat
        rw [retries', retries, count, toNat_count left hr]
        omega
      · rintro o t ⟨failed, noCrash, noHang⟩
        cases o with
        | crash => exact (noCrash rfl).elim
        | hang => exact (noHang rfl).elim
        | returned success =>
            cases success with
            | false => exact .inl ⟨_, _, rfl⟩
            | true => exact (failed rfl).elim
  | ended o q sent => cases running

end

def Process.Reads : Process → Prop
  | .receiving _ => True
  | .ended _ _ _ => True
  | _ => False

/-- A read never sends a file. -/
theorem reads_of_run {c : Call} (hc : c.requestType = .get) (s : Sys) (events : List Event) :
    (c.run s events).Reads := by
  refine Call.run_invariant ?_ (fun p e h => ?_) events
  · apply Call.start_spec
    refine wp_of_both (fun _ t => ?_) fun _ _ => trivial
    rw [hc]
    trivial
  · cases p with
    | requesting file w => exact h.elim
    | receiving w =>
        apply Process.step_receiving
        exact wp_of_both (fun _ _ => trivial) fun _ _ => trivial
    | sending w => exact h.elim
    | ended o r sent => trivial

/-- With options the client can answer its timeouts, unless its file is acknowledged as a
whole. -/
theorem answers_of_run {c : Call} (options : c.requestType = .put → c.options.isSome) (s : Sys)
    {events : List Event} (left : ¬(c.run s events).Drained) : (c.run s events).Answers := by
  cases hc : c.requestType with
  | get =>
      have read := reads_of_run hc s events
      generalize c.run s events = p at read
      cases p with
      | requesting file w => trivial
      | receiving w => trivial
      | sending w => exact read.elim
      | ended o r sent => trivial
  | put =>
      obtain ⟨o, ho⟩ := Option.isSome_iff_exists.mp (options hc)
      have sound := Call.run_invariant (sound_start ho s) sound_step events
      generalize c.run s events = p at sound left
      cases p with
      | requesting file w => trivial
      | receiving w => trivial
      | sending w => exact ⟨sound.2, left⟩
      | ended o r sent => trivial

/-- An upload with one retry, whose request and first block are answered. -/
def halfDone : List Event :=
  [ackZero, { arrival := .datagram ⟨.inet 0 1069, [0, 4, 0, 1]⟩ }]

end Tftp.Client
