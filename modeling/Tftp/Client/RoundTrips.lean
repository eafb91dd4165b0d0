import Tftp.RoundTrips
import Tftp.Client.Parameters
import Tftp.Client.Retries

/-!
# What send_file measures

The timer of the adaptive timeout is started with the packet that opens the
window, and a timeout cancels it. An ACK then takes a sample all the same: the
timer is not asked whether it is active.
-/

namespace Tftp.Client

open Prog Act AdaptiveTimeout Transmissions

/-- The number of a DATA packet that was sent. -/
def sentNumber : Address × Message → Option UInt16
  | (_, .packet (.data n _)) => some n
  | _ => none

/-- What `send_file` measures with, and the numbers of the packets it sent. -/
@[ext]
structure Timing where
  isAdaptive : Bool
  adaptiveTimeout : AdaptiveTimeout
  next : UInt16
  numbers : List UInt16

def World.timing (w : World Sender) : Timing where
  isAdaptive := w.request.options.useAdaptiveTimeout
  adaptiveTimeout := w.locals.adaptiveTimeout
  next := w.locals.nextSequenceNumber
  numbers := w.sent.filterMap sentNumber

namespace Timing

def estimate (c : Timing) : Estimate := c.adaptiveTimeout.estimate

/-- Packets go out. -/
def sends (c : Timing) (numbers : List UInt16) : Timing :=
  { c with numbers := c.numbers ++ numbers }

/-- The next block goes out, and opens the window. -/
def sendNext (c : Timing) (now : ℚ) : Timing :=
  { c with
    adaptiveTimeout :=
      if c.isAdaptive then
        { c.adaptiveTimeout.startTimer now with startingBlockNumber := c.next }
      else c.adaptiveTimeout
    next := c.next + 1
    numbers := c.numbers ++ [c.next] }

/-- A timeout cancels the timer, and packets are sent again. -/
def sendAgain (c : Timing) (numbers : List UInt16) : Timing :=
  { c with
    adaptiveTimeout :=
      if c.isAdaptive then c.adaptiveTimeout.cancelTimer.backoff else c.adaptiveTimeout
    numbers := c.numbers ++ numbers }

/-- An ACK of the window is accepted. -/
def acknowledge (c : Timing) (n : UInt16) (now : ℚ) : Timing :=
  { c with
    adaptiveTimeout :=
      if c.isAdaptive ∧ isInRange n c.adaptiveTimeout.startingBlockNumber (c.next - 1) then
        c.adaptiveTimeout.stopTimer now
      else c.adaptiveTimeout }

variable (c : Timing)

@[simp] theorem sends_nil : c.sends [] = c := by
  unfold sends
  rw [List.append_nil]

@[simp] theorem sends_sends (numbers more : List UInt16) :
    (c.sends numbers).sends more = c.sends (numbers ++ more) := by
  unfold sends
  rw [List.append_assoc]

theorem sendAgain_sends (more : List UInt16) : (c.sendAgain []).sends more = c.sendAgain more := by
  unfold sends sendAgain
  rw [List.append_nil]

theorem estimate_sends (numbers : List UInt16) : (c.sends numbers).estimate = c.estimate := rfl

theorem estimate_sendNext (now : ℚ) : (c.sendNext now).estimate = c.estimate := by
  unfold estimate sendNext
  dsimp only
  split <;> rfl

theorem estimate_sendAgain (numbers : List UInt16) :
    (c.sendAgain numbers).estimate = c.estimate := by
  unfold estimate sendAgain
  dsimp only
  split <;> rfl

end Timing

def World.estimate (w : World Sender) : Estimate := w.timing.estimate

instance : Blind World.estimate := ⟨fun _ _ _ _ => rfl⟩

/-- What was sent is more by a packet. -/
theorem sendto_timing {w : World Sender} (dest : Address) (m : Message) :
    wp (sendto dest m) (fun _ t => t.timing = w.timing.sends (sentNumber (dest, m)).toList)
      (fun _ t => t.timing = w.timing) w := by
  refine wp_sendto.mpr ⟨fun _ => ?_, fun _ => rfl⟩
  refine Timing.ext rfl rfl rfl ?_
  show (w.sent ++ [(dest, m)]).filterMap sentNumber = _ ++ _
  rw [List.filterMap_append]
  refine congrArg (_ ++ ·) ?_
  cases h : sentNumber (dest, m) with
  | none => rw [List.filterMap_cons_none h, List.filterMap_nil, Option.toList_none]
  | some n => rw [List.filterMap_cons_some h, List.filterMap_nil, Option.toList_some]

/-! ## The sending phase -/

section Sending

variable {w : World Sender}

theorem sendNextPacket_timing (hw : w.request.options.windowSize = 1)
    (opens : w.locals.windowBegin = w.locals.nextSequenceNumber) :
    wp sendNextPacket
      (fun _ t => t.timing = w.timing.sendNext (seconds t.clock) ∧
        t.settings = w.settings ∧ t.locals.windowBegin = w.locals.windowBegin)
      (fun _ t => t.estimate = w.estimate) w := by
  unfold sendNextPacket
  rw [wp_bind, wp_request, wp_bind, wp_locals]
  refine wp_ite.mpr ⟨fun zero => absurd (hw.symm.trans zero) (by decide), fun _ => ?_⟩
  rw [wp_bind, wp_require]
  refine ⟨fun _ => ?_, fun _ => rfl⟩
  rw [wp_bind, wp_modifyLocals, wp_bind, wp_sendto]
  refine ⟨fun _ => ?_, fun _ => rfl⟩
  rw [wp_bind, wp_modify, wp_bind]
  unfold startTimer
  rw [wp_bind, wp_request, wp_bind, wp_locals]
  refine wp_ite.mpr ⟨fun _ => ?_, fun closed => (closed opens).elim⟩
  rw [wp_bind, wp_clockGettime, wp_bind, wp_modifyLocals]
  have sends {v : World Sender} (dest : Address) (block : Bytes)
      (adaptive : v.request.options.useAdaptiveTimeout = w.request.options.useAdaptiveTimeout)
      (timer : v.locals.adaptiveTimeout = (w.timing.sendNext (seconds v.clock)).adaptiveTimeout)
      (next : v.locals.nextSequenceNumber = w.locals.nextSequenceNumber + 1)
      (sent : v.sent = w.sent ++ [(dest, .packet (.data w.locals.nextSequenceNumber block))]) :
      v.timing = w.timing.sendNext (seconds v.clock) := by
    refine Timing.ext adaptive timer next ?_
    show v.sent.filterMap sentNumber = _
    rw [sent, List.filterMap_append]
    rfl
  refine wp_ite.mpr ⟨fun adaptive => ?_, fun plain => ?_⟩
  · rw [wp_bind, wp_clockGettime]
    exact ⟨sends _ _ rfl (if_pos adaptive).symm rfl rfl, rfl, rfl⟩
  · exact ⟨sends _ _ rfl (if_neg plain).symm rfl rfl, rfl, rfl⟩

/-- An upload sends one block when its window is open, and else none. -/
theorem fillWindow_timing
    (hw : w.request.options.windowSize = 1 ∨ w.request.options.windowSize = 0) (rounds : ℕ) :
    wp (fillWindow rounds)
      (fun _ t => t.timing = w.timing ∨ t.timing = w.timing.sendNext (seconds t.clock))
      (fun _ t => t.estimate = w.estimate) w := by
  cases rounds with
  | zero => exact rfl
  | succ rounds =>
      unfold fillWindow
      rw [wp_bind, wp_request, wp_bind, wp_locals]
      refine wp_ite.mpr ⟨fun open_ => ?_, fun _ => .inl rfl⟩
      rw [wp_bind]
      rcases hw with one | zero
      · rw [one, isInRange_one] at open_
        refine wp_mono (sendNextPacket_timing one open_.2.symm) ?_ fun _ _ ht => ht
        rintro _ t ⟨timing, settings, begins⟩
        have estimate : t.estimate = w.estimate :=
          (congrArg Timing.estimate timing).trans (Timing.estimate_sendNext _ _)
        have size : t.request.options.windowSize = 1 :=
          (congrArg (fun s => s.options.windowSize) settings).trans one
        cases rounds with
        | zero => exact estimate
        | succ rounds =>
            unfold fillWindow
            rw [wp_bind, wp_request, wp_bind, wp_locals]
            refine wp_ite.mpr ⟨fun again => ?_, fun _ => .inr timing⟩
            -- the block that was sent fills the window
            rw [size, isInRange_one] at again
            have next : t.locals.nextSequenceNumber = w.locals.nextSequenceNumber + 1 :=
              congrArg Timing.next timing
            rw [next, begins, open_.2] at again
            simp at again
      · unfold sendNextPacket
        rw [wp_bind, wp_request, wp_bind, wp_locals]
        exact wp_ite.mpr ⟨fun _ => rfl, fun nonzero => (nonzero zero).elim⟩

end Sending

/-! ## The receiving phase -/

section Receiving

variable {v : World Sender}

theorem retransmitFrom_timing (rounds : ℕ) (i : UInt16) :
    wp (retransmitFrom rounds i)
      (fun _ t => ∃ more, t.timing = v.timing.sends more)
      (fun _ t => t.estimate = v.estimate) v := by
  induction rounds generalizing v i with
  | zero => exact rfl
  | succ rounds ih =>
      unfold retransmitFrom
      rw [wp_bind, wp_request, wp_bind, wp_locals]
      refine wp_ite.mpr ⟨fun _ => ?_, fun _ => ⟨[], ?_⟩⟩
      · refine wp_ite.mpr ⟨fun _ => rfl, fun _ => ?_⟩
        rw [wp_bind]
        refine wp_mono (sendto_timing _ _) (fun _ u sent => ?_) fun _ _ ht => congrArg Timing.estimate ht
        have estimate : u.estimate = v.estimate :=
          (congrArg Timing.estimate sent).trans (Timing.estimate_sends _ _)
        refine wp_mono (ih (v := u) (i + 1)) ?_ fun _ _ ht => ht.trans estimate
        rintro _ t ⟨more, timing⟩
        rw [sent, Timing.sends_sends] at timing
        exact ⟨_, timing⟩
      · exact (Timing.sends_nil _).symm

theorem onTimeout_timing :
    wp onTimeout (fun _ t => ∃ more, t.timing = v.timing.sendAgain more)
      (fun _ t => t.estimate = v.estimate) v := by
  unfold onTimeout
  rw [wp_bind, wp_request, wp_bind, wp_locals]
  refine wp_ite.mpr ⟨fun _ => rfl, fun _ => ?_⟩
  rw [wp_bind, wp_modifyLocals, wp_bind]
  refine wp_mono (Q := fun _ t => t.timing = v.timing.sendAgain []) (E := fun _ _ => False) ?_ ?_ fun _ _ h => h.elim
  · unfold backOff
    rw [wp_bind, wp_request]
    refine wp_ite.mpr ⟨fun adaptive => ?_, fun plain => ?_⟩
    · exact Timing.ext rfl (if_pos adaptive).symm rfl (List.append_nil _).symm
    · exact Timing.ext rfl (if_neg plain).symm rfl (List.append_nil _).symm
  · intro _ u backedOff
    unfold restartClock retransmitWindow
    rw [wp_bind, wp_bind, wp_clockGettime, wp_modifyLocals, wp_bind, wp_sys, wp_bind, wp_locals]
    have estimate : u.estimate = v.estimate :=
      (congrArg Timing.estimate backedOff).trans (Timing.estimate_sendAgain _ _)
    refine wp_mono (retransmitFrom_timing _ _) ?_ fun _ t ht => ht.trans estimate
    rintro _ t ⟨more, timing⟩
    have sent := congrArg (Timing.sends · more) backedOff
    exact ⟨more, (timing.trans sent).trans (Timing.sendAgain_sends _ _)⟩

/-- An ACK of the window is accepted. -/
def World.Samples (v : World Sender) (n : UInt16) (t : World Sender) : Prop :=
  t.timing = v.timing.acknowledge n (seconds t.clock)

theorem advanceWindow_timing (n : UInt16) :
    wp (advanceWindow n) (fun _ t => t.timing = v.timing) (fun _ _ => False) v := by
  unfold advanceWindow
  rw [wp_bind, wp_modifyLocals, wp_bind, wp_locals]
  refine wp_ite.mpr ⟨fun _ => ?_, fun _ => rfl⟩
  unfold restartClock
  rw [wp_bind, wp_clockGettime]
  exact rfl

theorem takeSample_timing (n : UInt16) :
    wp (takeSample n) (fun _ t => v.Samples n t) (fun _ _ => False) v := by
  unfold takeSample
  rw [wp_bind, wp_request, wp_bind, wp_locals]
  refine wp_ite.mpr ⟨fun covers => ?_, fun not => ?_⟩
  · rw [wp_bind, wp_clockGettime]
    exact Timing.ext rfl (if_pos covers).symm rfl rfl
  · exact Timing.ext rfl (if_neg not).symm rfl rfl

theorem onAck_timing {P : World Sender → Prop} (same : P v)
    (samples : ∀ t, isInRange (readU16 v.request.recvBuffer 2) v.locals.windowBegin
      (v.locals.nextSequenceNumber - 1) = true → v.Samples (readU16 v.request.recvBuffer 2) t → P t) :
    wp onAck (fun _ t => P t) (fun _ t => P t) v := by
  unfold onAck takeAck
  rw [wp_bind, wp_request, wp_bind, wp_locals]
  refine wp_ite.mpr ⟨fun inside => ?_, fun _ => same⟩
  rw [wp_bind]
  refine wp_mono (advanceWindow_timing _) (fun _ u timing => ?_) fun _ _ h => h.elim
  rw [wp_bind, wp_modifyLocals, wp_bind]
  refine wp_mono (takeSample_timing _) (fun _ t sampled => ?_) fun _ _ h => h.elim
  have sampled : P t := by
    refine samples t inside ?_
    unfold World.Samples at sampled ⊢
    rw [sampled]
    exact congrArg (Timing.acknowledge · _ _) timing
  exact wp_ite.mpr ⟨fun _ => sampled, fun _ => sampled⟩

/-- The number of an ACK. -/
def World.acknowledgedNumber (v : World Sender) (d : Datagram) : UInt16 :=
  readU16 (v.request.received d).recvBuffer 2

/-- What a round that waits makes of the timing: a timeout sends again, and an
ACK of the window may give a sample. -/
inductive Waited (v : World Sender) (a : Arrival) (t : World Sender) : Prop where
  | same : t.timing = v.timing → Waited v a t
  | again (more : List UInt16) : t.timing = v.timing.sendAgain more → Waited v a t
  | acknowledged (d : Datagram) : a = .datagram d → 0 < v.remainingTime → v.Acknowledged d →
      v.Samples (v.acknowledgedNumber d) t → Waited v a t

theorem awaitAnswer_timing (a : Arrival) :
    wp (awaitAnswer a) (fun _ t => Waited v a t)
      (fun _ t => Waited v a t ∨ t.estimate = v.estimate) v := by
  have timeout {u : World Sender} (hu : u.timing = v.timing) :
      wp onTimeout (fun _ t => Waited v a t) (fun _ t => Waited v a t ∨ t.estimate = v.estimate) u := by
    refine wp_mono onTimeout_timing ?_ fun _ _ ht => .inr (ht.trans (congrArg Timing.estimate hu))
    rintro _ t ⟨more, timing⟩
    rw [hu] at timing
    exact .again more timing
  unfold awaitAnswer
  rw [wp_bind, wp_clockGettime, wp_bind, wp_locals]
  refine wp_ite.mpr ⟨fun _ => timeout rfl, fun left => ?_⟩
  rw [wp_bind, wp_require]
  refine ⟨fun _ => ?_, fun _ => .inl (.same rfl)⟩
  cases a with
  | failed => exact .inl (.same rfl)
  | timeout => exact timeout rfl
  | datagram d =>
      unfold answerDatagram
      rw [wp_bind, wp_modify, wp_bind, wp_request]
      refine wp_ite.mpr ⟨fun _ => ?_, fun own => wp_ite.mpr ⟨fun ack => ?_, fun _ => .inl (.same rfl)⟩⟩
      · rw [handleUnexpectedPeer, wp_trySendto]
        refine ⟨fun _ => .same (Timing.ext rfl rfl rfl ?_), fun _ => .same rfl⟩
        show (v.sent ++ [_]).filterMap sentNumber = _
        rw [List.filterMap_append]
        exact List.append_nil _
      · refine wp_mono (onAck_timing (P := Waited v (.datagram d)) (.same rfl) ?_)
          (fun _ _ h => h) fun _ _ h => .inl h
        intro t inside sampled
        exact .acknowledged d rfl (not_le.mp left) ⟨eq_true_of_ne_false own, ack, inside⟩ sampled

/-- What the sending phase makes of the timing. -/
def World.Fills (w : World Sender) : Prop :=
  w.filled.timing = w.timing ∨ w.filled.timing = w.timing.sendNext (seconds w.filled.clock)

theorem World.Fills.estimate {w : World Sender} (h : w.Fills) : w.filled.estimate = w.estimate := by
  rcases h with same | sent
  · exact congrArg Timing.estimate same
  · exact (congrArg Timing.estimate sent).trans (Timing.estimate_sendNext _ _)

theorem World.Fills.isAdaptive {w : World Sender} (h : w.Fills) :
    w.filled.timing.isAdaptive = w.timing.isAdaptive := by
  rcases h with same | sent
  · exact congrArg Timing.isAdaptive same
  · exact (congrArg Timing.isAdaptive sent).trans rfl

theorem Waited.isAdaptive {a : Arrival} {t : World Sender} (h : Waited v a t) :
    t.timing.isAdaptive = v.timing.isAdaptive := by
  cases h with
  | same same => exact congrArg Timing.isAdaptive same
  | again more again => exact (congrArg Timing.isAdaptive again).trans rfl
  | acknowledged d _ _ _ sampled => exact (congrArg Timing.isAdaptive sampled).trans rfl

/-- A round waits once its window is filled. -/
theorem sendRound_timing {w : World Sender} (a : Arrival)
    (hw : w.request.options.windowSize = 1 ∨ w.request.options.windowSize = 0) :
    wp (sendRound a) (fun _ t => w.Fills ∧ Waited w.filled a t)
      (fun _ t => w.Fills ∧ Waited w.filled a t ∨ t.estimate = w.estimate) w := by
  unfold sendRound
  rw [wp_bind]
  refine wp_mono (wp_and (fillWindow_timing hw 65537) (wp_result (fillWindow 65537) w)) ?_ ?_
  · rintro _ v ⟨fills, rfl⟩
    have fills : w.Fills := fills
    refine wp_mono (awaitAnswer_timing a) (fun _ t ht => ⟨fills, ht⟩) fun _ t ht => ?_
    rcases ht with waited | estimate
    · exact .inl ⟨fills, waited⟩
    · exact .inr (estimate.trans fills.estimate)
  · rintro _ v ⟨estimate, -⟩
    exact .inr estimate

end Receiving

/-- The ACK is taken for a sample. -/
def World.Covers (v : World Sender) (d : Datagram) : Prop :=
  0 < v.remainingTime ∧ v.Acknowledged d ∧ v.request.options.useAdaptiveTimeout = true ∧
    isInRange (v.acknowledgedNumber d) v.locals.adaptiveTimeout.startingBlockNumber
      (v.locals.nextSequenceNumber - 1) = true

/-! ## Runs -/

/-- A client with the number of blocks it has sent for the first time, and all
its DATA packets: their positions and times. -/
structure Measured where
  process : Process
  blocks : ℕ := 0
  sends : List (ℕ × ℚ) := []

/-- The world of `send_file`. -/
def Process.sender : Process → Option (World Sender)
  | .sending w => some w
  | _ => none

theorem Process.sender_sending {p : Process} {w : World Sender} (h : p.sender = some w) :
    p = .sending w := by
  cases p with
  | sending v => exact congrArg Process.sending (Option.some.inj h)
  | _ => cases h

/-- What holds of the timer of a client. Nothing was sent before its loop. -/
def Process.Timekeeping (blocks : ℕ) (sends : List (ℕ × ℚ)) : Process → Prop
  | .requesting _ _ => blocks = 0 ∧ sends = []
  | .sending w => w.timing.isAdaptive = true →
      AdaptiveTimeout.Timekeeping w.timing.adaptiveTimeout w.timing.next blocks sends
  | _ => True

namespace Measured

def start (c : Call) (s : Sys) : Measured := { process := c.start s }

/-- How many blocks a round sends from `w` on until it waits in `v`. -/
def fresh (w v : World Sender) : ℕ := v.timing.numbers.length - w.timing.numbers.length

/-- They go out for the first time. -/
def firstSends (blocks : ℕ) (w v : World Sender) : List (ℕ × ℚ) :=
  (List.range (fresh w v)).map fun i => (blocks + 1 + i, seconds v.clock)

/-- Everything that goes out then until the round ends in `t` is sent again. -/
def laterSends (blocks : ℕ) (v t : World Sender) : List (ℕ × ℚ) :=
  (t.timing.numbers.drop v.timing.numbers.length).map fun n =>
    (Serial.latest blocks n, seconds t.clock)

def after (x : Measured) (p : Process) (w v t : World Sender) : Measured where
  process := p
  blocks := x.blocks + fresh w v
  sends := x.sends ++ firstSends x.blocks w v ++ laterSends (x.blocks + fresh w v) v t

def step (x : Measured) (e : Event) : Measured :=
  match x.process with
  | .sending w =>
      x.after (x.process.step e) w (w.on e.sys).filled (sendRound e.arrival (w.on e.sys)).2
  | _ => { x with process := x.process.step e }

/-- Karn's rule. A round leaves the estimate alone, or an ACK comes in that gives
a sample of a block sent once, with nothing sent again since. -/
def Karn (x : Measured) (e : Event) : Prop :=
  ∀ w, x.process = .sending w →
    let v := (w.on e.sys).filled
    let t := (sendRound e.arrival (w.on e.sys)).2
    t.estimate = w.estimate ∨ ∃ d, e.arrival = .datagram d ∧ v.Acknowledged d ∧
      Measures (x.step e).blocks (x.step e).sends (v.acknowledgedNumber d) (seconds t.clock)
        w.estimate t.estimate

/-- An ACK that is taken for a sample finds the timer active. -/
def Meets (x : Measured) (e : Event) : Prop :=
  ∀ w d, x.process = .sending w → e.arrival = .datagram d → (w.on e.sys).filled.Covers d →
    (w.on e.sys).filled.locals.adaptiveTimeout.isTimerActive = true

def Runs : Measured → Measured → Prop := Relation.ReflTransGen fun x y => ∃ e, y = x.step e

section

variable {x : Measured} {w v t : World Sender} {blocks : ℕ} {sends : List (ℕ × ℚ)} {a : Arrival}

/-- The sending phase times the block it sends. -/
theorem fills_timekeeping (h : Timekeeping w.timing.adaptiveTimeout w.timing.next blocks sends)
    (adaptive : w.timing.isAdaptive = true) (fills : w.Fills) :
    Timekeeping w.filled.timing.adaptiveTimeout w.filled.timing.next
      (blocks + fresh w w.filled) (sends ++ firstSends blocks w w.filled) := by
  unfold firstSends
  rcases fills with same | sent
  · have none_ : fresh w w.filled = 0 := by
      unfold fresh
      rw [same, Nat.sub_self]
    rw [none_, same, List.range_zero, List.map_nil, List.append_nil]
    exact h
  · have one : fresh w w.filled = 1 := by
      unfold fresh
      rw [sent]
      simp [Timing.sendNext]
    rw [one, sent]
    unfold Timing.sendNext
    rw [if_pos adaptive]
    exact h.sendTimed _

theorem laterSends_nil (h : t.timing.numbers = v.timing.numbers) : laterSends blocks v t = [] := by
  unfold laterSends
  rw [h, List.drop_length, List.map_nil]

/-- What comes after it times no block. -/
theorem waits_timekeeping
    (h : Timekeeping v.timing.adaptiveTimeout v.timing.next blocks sends)
    (adaptive : v.timing.isAdaptive = true) (waited : Waited v a t) :
    Timekeeping t.timing.adaptiveTimeout t.timing.next blocks (sends ++ laterSends blocks v t) := by
  cases waited with
  | same same =>
      rw [laterSends_nil (congrArg Timing.numbers same), List.append_nil, same]
      exact h
  | again more again =>
      have cancelled : t.timing.adaptiveTimeout.isTimerActive = false := by
        rw [again, Timing.sendAgain, if_pos adaptive]
        rfl
      have next : t.timing.next = v.timing.next := (congrArg Timing.next again).trans rfl
      rw [next]
      refine h.again cancelled ?_
      intro s hs
      obtain ⟨n, -, rfl⟩ := List.mem_map.mp hs
      exact Serial.latest_le _ _
  | acknowledged d _ _ _ sampled =>
      have sampled : t.timing = v.timing.acknowledge _ _ := sampled
      rw [laterSends_nil ((congrArg Timing.numbers sampled).trans rfl), List.append_nil, sampled]
      unfold Timing.acknowledge
      dsimp only
      split
      · exact h.stopped rfl
      · exact h

/-- An ACK of the window gives a sample of the block of an active timer. -/
theorem waits_karn (h : v.timing.isAdaptive = true →
      Timekeeping v.timing.adaptiveTimeout v.timing.next blocks sends)
    (active : ∀ d, a = .datagram d → v.Covers d → v.timing.adaptiveTimeout.isTimerActive = true)
    (waited : Waited v a t) :
    t.estimate = v.estimate ∨ ∃ d, a = .datagram d ∧ v.Acknowledged d ∧
      Measures blocks (sends ++ laterSends blocks v t) (v.acknowledgedNumber d) (seconds t.clock)
        v.estimate t.estimate := by
  cases waited with
  | same same => exact .inl (congrArg Timing.estimate same)
  | again more again =>
      exact .inl ((congrArg Timing.estimate again).trans (Timing.estimate_sendAgain _ _))
  | acknowledged d arrived left acknowledged sampled =>
      have sampled : t.timing = v.timing.acknowledge _ _ := sampled
      have estimate : t.estimate = (v.timing.acknowledge _ (seconds t.clock)).estimate :=
        congrArg Timing.estimate sampled
      rw [laterSends_nil ((congrArg Timing.numbers sampled).trans rfl), List.append_nil, estimate]
      unfold Timing.estimate Timing.acknowledge
      dsimp only
      split
      · rename_i covers
        obtain ⟨adaptive, arc⟩ := covers
        refine .inr ⟨d, arrived, acknowledged, ?_⟩
        exact (h adaptive).measures (active d arrived ⟨left, acknowledged, adaptive, arc⟩)
          ((isInRange_iff _ _ _).mp arc)
      · exact .inl rfl

end

/-- The window of a client that sends is one packet, or the first round ends it. -/
theorem windowSize_of_settings {w : World Sender}
    (h : (Process.sending w).Sound ∨ (Process.sending w).Zeroed) :
    w.request.options.windowSize = 1 ∨ w.request.options.windowSize = 0 := by
  rcases h with ⟨-, timed⟩ | zeroed
  · exact .inl timed.windowSize
  · have zeroed : w.request.options = .zero := zeroed
    rw [zeroed]
    exact .inr rfl

theorem settings_start (c : Call) (s : Sys) : (c.start s).Sound ∨ (c.start s).Zeroed := by
  cases hc : c.options with
  | some o => exact .inl (sound_start hc s)
  | none => exact .inr (zeroed_start hc s)

theorem settings_step {p : Process} (e : Event) (h : p.Sound ∨ p.Zeroed) :
    (p.step e).Sound ∨ (p.step e).Zeroed := by
  rcases h with sound | zeroed
  · exact .inl (sound_step p e sound)
  · exact .inr (zeroed_step p e zeroed)

/-- What holds between two rounds. -/
structure Sound (x : Measured) : Prop where
  settings : x.process.Sound ∨ x.process.Zeroed
  timed : x.process.Timekeeping x.blocks x.sends

variable {x : Measured} {e : Event}

theorem Sound.start (c : Call) (s : Sys) : (Measured.start c s).Sound := by
  refine ⟨settings_start c s, ?_⟩
  apply Call.start_spec (I := fun p => p.Timekeeping 0 [])
  refine wp_of_both (fun _ w => ?_) fun _ _ => trivial
  cases c.requestType with
  | put => exact ⟨rfl, rfl⟩
  | get => trivial

theorem timekeeping_requesting {file : Bytes} {w : World Requester} :
    ((Process.requesting file w).step e).Timekeeping 0 [] := by
  apply Process.step_requesting
  refine wp_of_both (fun go t => ?_) fun _ _ => trivial
  cases go with
  | false => exact ⟨rfl, rfl⟩
  | true =>
      show (enterSendFile file t).Timekeeping 0 []
      unfold enterSendFile
      split
      · intro _
        refine ⟨rfl, by simp, fun active => ?_⟩
        have inactive : (Sender.init t.request file t.sys.heap).adaptiveTimeout.isTimerActive = false := by
          unfold Sender.init
          dsimp only
          split <;> rfl
        exact absurd (active.symm.trans inactive) (by decide)
      · trivial

theorem Sound.step (h : x.Sound) : (x.step e).Sound := by
  obtain ⟨p, blocks, sends⟩ := x
  obtain ⟨settings, timed⟩ := h
  cases p with
  | requesting file w =>
      obtain ⟨rfl, rfl⟩ := timed
      exact ⟨settings_step e settings, timekeeping_requesting⟩
  | receiving w =>
      refine ⟨settings_step e settings, ?_⟩
      apply Process.step_receiving (I := fun p => p.Timekeeping blocks sends)
      exact wp_of_both (fun _ _ => trivial) fun _ _ => trivial
  | sending w =>
      refine ⟨settings_step e settings, ?_⟩
      apply Process.step_sending (I := fun p => p.Timekeeping _ _)
      have size := windowSize_of_settings settings
      refine wp_mono (wp_and (sendRound_timing (w := w.on e.sys) e.arrival size)
        (wp_result (sendRound e.arrival) (w.on e.sys))) ?_ fun _ _ _ => trivial
      rintro _ t ⟨⟨fills, waited⟩, rfl⟩ adaptive
      rw [waited.isAdaptive, fills.isAdaptive] at adaptive
      have filled := fills_timekeeping (w := w.on e.sys) (timed adaptive) adaptive fills
      exact waits_timekeeping filled (fills.isAdaptive.trans adaptive) waited
  | ended o r sent => exact ⟨.inl trivial, trivial⟩

/-- A round in which no ACK is taken for a sample without a timer keeps the rule. -/
theorem Sound.karn (h : x.Sound) (meets : x.Meets e) : x.Karn e := by
  obtain ⟨p, blocks, sends⟩ := x
  obtain ⟨settings, timed⟩ := h
  rintro w rfl
  have size := windowSize_of_settings settings
  have active (d : Datagram) (arrived : e.arrival = .datagram d) (covers : (w.on e.sys).filled.Covers d) :=
    meets w d rfl arrived covers
  have round := state_of_wp (P := fun t => (w.on e.sys).Fills ∧
      Waited (w.on e.sys).filled e.arrival t ∨ t.estimate = w.estimate)
    (wp_mono (sendRound_timing (w := w.on e.sys) e.arrival size) (fun _ _ ht => .inl ht)
      fun _ _ ht => ht)
  rcases round with ⟨fills, waited⟩ | estimate
  · have estimate : (w.on e.sys).filled.estimate = w.estimate := fills.estimate
    dsimp only
    rw [← estimate]
    refine waits_karn (fun adaptive => ?_) active waited
    have adaptive : w.timing.isAdaptive = true := fills.isAdaptive.symm.trans adaptive
    exact fills_timekeeping (w := w.on e.sys) (timed adaptive) adaptive fills
  · exact .inl estimate

theorem Sound.of_runs {c : Call} {s : Sys} (h : Runs (Measured.start c s) x) : x.Sound := by
  induction h with
  | refl => exact .start c s
  | tail _ hs ih =>
      obtain ⟨e, rfl⟩ := hs
      exact ih.step

end Measured

end Tftp.Client
