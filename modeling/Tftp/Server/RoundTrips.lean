import Tftp.RoundTrips
import Tftp.Server.Retries
import Tftp.Server.Storage

/-!
# What a read session measures

The timer of the adaptive timeout is started by `send_oack` and by
`on_data_available`, cancelled by `on_timeout` and stopped by an ACK. A sample is
that of a block sent once as long as no timeout sends the next block before its
turn: the block may already be in its slot, and the slot may count to the window.
-/

namespace Tftp.Server

open Prog Act AdaptiveTimeout Transmissions

/-- A packet that can be timed: a DATA packet or an OACK. -/
def Entry.transmission : Entry → Option Packet
  | .sent _ (.data n payload) => some (.data n payload)
  | .sent _ (.oack values) => some (.oack values)
  | _ => none

def World.transmissions (w : World) : List Packet := w.log.filterMap Entry.transmission

/-- What a session measures with, and what it sent. -/
structure Timing where
  isAdaptive : Bool
  adaptiveTimeout : AdaptiveTimeout
  next : UInt16
  transmissions : List Packet

def World.timing (w : World) : Timing where
  isAdaptive := w.session.isAdaptiveTimeoutActive
  adaptiveTimeout := w.session.adaptiveTimeout
  next := w.session.nextDataPacketToSend
  transmissions := w.transmissions

namespace Timing

def estimate (c : Timing) : Estimate := c.adaptiveTimeout.estimate

/-- Packets go out. -/
def sends (c : Timing) (packets : List Packet) : Timing :=
  { c with transmissions := c.transmissions ++ packets }

/-- The next block goes out at `now`, with the timer if that is free. -/
def sendNext (c : Timing) (now : ℚ) (packet : Packet) : Timing :=
  { c with
    adaptiveTimeout :=
      if c.isAdaptive && !c.adaptiveTimeout.isTimerActive then
        { c.adaptiveTimeout.startTimer now with startingBlockNumber := c.next }
      else c.adaptiveTimeout
    next := c.next + 1
    transmissions := c.transmissions ++ [packet] }

/-- A timeout cancels the timer, and packets are sent again. -/
def sendAgain (c : Timing) (packets : List Packet) : Timing :=
  { c with
    adaptiveTimeout :=
      if c.isAdaptive then c.adaptiveTimeout.cancelTimer.backoff else c.adaptiveTimeout
    transmissions := c.transmissions ++ packets }

/-- An ACK is accepted. -/
def acknowledge (c : Timing) (n : UInt16) (now : ℚ) : Timing :=
  { c with
    adaptiveTimeout :=
      if c.isAdaptive && c.adaptiveTimeout.isTimerActive &&
          isInRange n c.adaptiveTimeout.startingBlockNumber (c.next - 1) then
        c.adaptiveTimeout.stopTimer now
      else c.adaptiveTimeout }

variable (c : Timing)

@[simp] theorem sends_nil : c.sends [] = c := by
  unfold sends
  rw [List.append_nil]

@[simp] theorem sends_sends (packets more : List Packet) :
    (c.sends packets).sends more = c.sends (packets ++ more) := by
  unfold sends
  rw [List.append_assoc]

theorem estimate_sendNext (now : ℚ) (packet : Packet) :
    (c.sendNext now packet).estimate = c.estimate := by
  unfold estimate sendNext
  dsimp only
  split <;> rfl

end Timing

/-- More of the log is more of what was sent. -/
theorem timing_log (w : World) (e : Entry) :
    World.timing { w with log := w.log ++ [e] } = w.timing.sends e.transmission.toList := by
  unfold World.timing World.transmissions Timing.sends
  dsimp only
  rw [List.filterMap_append]
  cases h : e.transmission with
  | none => rw [List.filterMap_cons_none h, List.filterMap_nil, Option.toList_none]
  | some p => rw [List.filterMap_cons_some h, List.filterMap_nil, Option.toList_some]

instance : Detached World.timing where
  sys _ _ := rfl
  note w e he := by
    have none_ : e.transmission = none := by
      unfold Entry.transmission
      split
      · exact absurd he Bool.noConfusion
      · exact absurd he Bool.noConfusion
      · rfl
    rw [timing_log, none_, Option.toList_none, Timing.sends_nil]
  reports _ _ _ _ := rfl
  ring _ _ _ _ _ _ := rfl
  block _ _ _ _ := rfl

def World.estimate (w : World) : Estimate := w.timing.estimate

instance : Detached World.estimate where
  sys _ _ := rfl
  note _ _ _ := rfl
  reports _ _ _ _ := rfl
  ring _ _ _ _ _ _ := rfl
  block _ _ _ _ := rfl

instance : Unlogged World.estimate := ⟨fun _ _ => rfl⟩

abbrev KeepsTiming {α : Type} (x : Act α) : Prop := Fixes World.timing x

/-- A packet that is sent cannot be timed. -/
theorem sendto_timing (dest : Address) {packet : Packet}
    (h : (Entry.sent dest packet).transmission = none) : KeepsTiming (sendto dest packet) := by
  refine .bind .require fun _ => .update fun w => ?_
  rw [timing_log, h, Option.toList_none, Timing.sends_nil]

/-! ## The handlers -/

section Handlers

variable {w : World}

theorem sendNextBlock_timing :
    wp sendNextBlock
      (fun _ t => ∃ n payload, t.timing = w.timing.sendNext w.sys.clock (.data n payload))
      (fun _ t => t.estimate = w.estimate) w := by
  rw [sendNextBlock, wp_bind, wp_sys, wp_bind, wp_modify]
  generalize hv : ({ w with session := _ } : World) = v
  -- the timer is started before the packet is sent
  have started (n : UInt16) (payload : Bytes) :
      { v.timing.sends [.data n payload] with next := v.timing.next + 1 } =
        w.timing.sendNext w.sys.clock (.data n payload) := by
    subst hv
    unfold World.timing Timing.sendNext Timing.sends
    dsimp only
    split <;> rfl
  have estimate : v.estimate = w.estimate := by
    have same := congrArg Timing.estimate (started 0 [])
    rw [Timing.estimate_sendNext] at same
    exact same
  rw [wp_bind, wp_session, wp_bind]
  refine wp_mono (Q := fun packet t => t = v ∧ ∃ n payload, packet = .data n payload)
    (E := fun _ t => t = v) ?_ ?_ ?_
  · unfold getDataPacketInfo
    refine wp_ite.mpr ⟨fun _ => rfl, fun _ => ?_⟩
    cases v.session.dataPackets with
    | none => exact rfl
    | some slots => exact ⟨rfl, _, _, rfl⟩
  · rintro packet t ⟨rfl, n, payload, rfl⟩
    rw [wp_bind, wp_sendto]
    refine ⟨fun _ => ?_, fun _ => estimate⟩
    have sent := timing_log t.answered (.sent t.session.clientAddress (.data n payload))
    have ends {u : World} (hu : u.timing = World.timing { t.answered with
        log := t.answered.log ++ [.sent t.session.clientAddress (.data n payload)] }) :
        { u.timing with next := u.timing.next + 1 } = w.timing.sendNext w.sys.clock
          (.data n payload) := by
      rw [hu, sent]
      exact started n payload
    rw [wp_bind, wp_modify, wp_bind, wp_session, wp_ite]
    refine ⟨fun _ => ?_, fun _ => ⟨n, payload, ends rfl⟩⟩
    have arms : KeepsTiming submitTimeout := .submitTimeout
    refine wp_bind.mpr (wp_mono (arms _ _ rfl) (fun _ u hu => ⟨n, payload, ends hu⟩) fun _ u hu => ?_)
    exact (congrArg Timing.estimate (hu.trans sent)).trans estimate
  · rintro _ t rfl
    exact estimate

/-- What the retransmission loop sends are packets of the window. -/
def World.InWindow (w : World) (p : Packet) : Prop :=
  ∃ slots i payload, w.session.dataPackets = some slots ∧
    isInRange i w.session.windowBegin (w.session.nextDataPacketToSend - 1) = true ∧
      p = .data (slots (slotOf w.session i)).blockNumber payload

theorem retransmitWindow_timing (rounds : ℕ) (i : UInt16) :
    wp (retransmitWindow rounds i)
      (fun _ t => ∃ packets, t.timing = w.timing.sends packets ∧ ∀ p ∈ packets, w.InWindow p)
      (fun _ _ => True) w := by
  induction rounds generalizing w i with
  | zero => trivial
  | succ rounds ih =>
      rw [retransmitWindow, wp_bind, wp_session, wp_ite]
      refine ⟨fun inside => ?_, fun _ => ⟨[], (Timing.sends_nil _).symm, by simp⟩⟩
      rw [wp_bind]
      unfold getDataPacketInfo
      refine wp_ite.mpr ⟨fun _ => trivial, fun _ => ?_⟩
      cases hs : w.session.dataPackets with
      | none => trivial
      | some slots =>
          rw [wp_pure, wp_bind, wp_sendto]
          refine ⟨fun _ => wp_mono (ih (i + 1)) ?_ fun _ _ _ => trivial, fun _ => trivial⟩
          rintro _ t ⟨packets, timing, window⟩
          have sent := timing_log w.answered (.sent w.session.clientAddress
            (.data (slots (slotOf w.session i)).blockNumber
              ((slots (slotOf w.session i)).data.take (payloadSize w.session i).toNat)))
          have both := (congrArg (Timing.sends · packets) sent).trans (Timing.sends_sends _ _ _)
          refine ⟨_, timing.trans both, ?_⟩
          intro p hp
          rcases List.mem_append.mp hp with hp | hp
          · obtain rfl := List.mem_singleton.mp hp
            exact ⟨slots, i, _, hs, inside, rfl⟩
          · exact window p hp

/-- A timeout is answered with a retransmission. -/
def World.Answers (w : World) : Prop :=
  ¬w.session.retries ≤ w.session.currentRetransmission

/-- What a timeout sends again: the OACK until the options are acknowledged, and
then packets of the window of a read session. -/
def World.SentAgain (w : World) (p : Packet) : Prop :=
  (∃ values, p = .oack values) ∨
    w.session.optionsSettled = true ∧ w.session.requestType = .read ∧ w.InWindow p

theorem retransmit_timing (hoack : w.settings.OffersOack) :
    wp retransmit
      (fun _ t => ∃ packets, t.timing = w.timing.sends packets ∧ ∀ p ∈ packets, w.SentAgain p)
      (fun _ _ => True) w := by
  rw [retransmit, wp_bind, wp_session, wp_ite]
  refine ⟨fun _ => ?_, fun settled => wp_ite.mpr ⟨fun _ => ?_, fun isRead => ?_⟩⟩
  · cases hp : w.session.oackPacket with
    | none => trivial
    | some packet =>
        obtain ⟨values, rfl⟩ := hoack packet hp
        refine wp_sendto.mpr ⟨fun _ => ⟨[.oack values], timing_log w.answered _, ?_⟩, fun _ => trivial⟩
        intro p hp
        exact .inl ⟨values, List.mem_singleton.mp hp⟩
  · have acks : KeepsTiming (sendto w.session.clientAddress
        (.ack (w.session.expectedSequenceNumber - 1))) := sendto_timing _ rfl
    exact acks.wp fun _ _ ht => ⟨[], ht.trans (Timing.sends_nil _).symm, by simp⟩
  · have isRead : w.session.requestType = .read := by
      cases h : w.session.requestType with
      | read => rfl
      | write => exact (isRead h).elim
    refine wp_mono (retransmitWindow_timing _ _) ?_ fun _ _ _ => trivial
    rintro _ t ⟨packets, timing, window⟩
    exact ⟨packets, timing, fun p hp =>
      .inr ⟨eq_true_of_ne_false settled, isRead, window p hp⟩⟩

theorem onTimeout_timing (hoack : w.settings.OffersOack) :
    wp onTimeout
      (fun _ t => t.timing = w.timing ∨
        w.Answers ∧ ∃ packets, t.timing = w.timing.sendAgain packets ∧ ∀ p ∈ packets, w.SentAgain p)
      (fun _ _ => True) w := by
  have gives : KeepsTiming giveUp := .giveUp
  rw [onTimeout, wp_bind, wp_session, wp_ite]
  refine ⟨fun _ => gives.wp fun _ _ ht => .inl ht, fun left => ?_⟩
  rw [wp_bind, wp_modify, wp_bind, wp_modify, wp_bind, submitTimeout, wp_bind, wp_submit]
  refine ⟨fun _ => ?_, fun _ => trivial⟩
  rw [wp_modify]
  generalize hv : ({ session := _, sys := _, inflight := _, log := _ } : World) = v
  have backedOff (packets : List Packet) :
      v.timing.sends packets = w.timing.sendAgain packets := by
    subst hv
    unfold World.timing Timing.sendAgain Timing.sends
    dsimp only
    split <;> rfl
  have sendsAgain (p : Packet) (h : v.SentAgain p) : w.SentAgain p := by
    subst hv
    unfold World.SentAgain World.InWindow Session.optionsSettled slotOf at h ⊢
    dsimp only at h
    split at h <;> exact h
  have offers : v.settings = w.settings := by
    subst hv
    unfold World.settings Session.settings
    dsimp only
    split <;> rfl
  refine wp_mono (retransmit_timing (offers ▸ hoack)) ?_ fun _ _ _ => trivial
  rintro _ t ⟨packets, timing, again⟩
  exact .inr ⟨left, packets, timing.trans (backedOff packets), fun p hp => sendsAgain p (again p hp)⟩

theorem onTimeout_estimate : Fixes World.estimate onTimeout := by
  refine .bind .session fun _ => .ite .giveUp (.bind (.modify fun _ => rfl) fun _ =>
    .bind (.modify fun w => ?_) fun _ => .bind .submitTimeout fun _ => .retransmit)
  dsimp only
  split <;> rfl

/-- An ACK of the client stops the timer if it comes from its block on. -/
def World.Acknowledges (w : World) (d : Datagram) (c : Timing) : Prop :=
  w.control.IsAck d ∧ c = w.timing.acknowledge (readU16 d.bytes 2) w.sys.clock

theorem acceptAck_timing (n : UInt16) :
    wp (acceptAck n) (fun _ t => t.timing = w.timing.acknowledge n w.sys.clock)
      (fun _ t => t.timing = w.timing.acknowledge n w.sys.clock) w := by
  rw [acceptAck, wp_bind, wp_modify, wp_bind, wp_sys, wp_bind, wp_modify]
  generalize hv : ({ session := _, sys := _, inflight := _, log := _ } : World) = v
  have sampled : v.timing = w.timing.acknowledge n w.sys.clock := by
    subst hv
    unfold World.timing Timing.acknowledge
    dsimp only
    split <;> rfl
  have rest : KeepsTiming (do
      submitCancelTimeout
      let s ← session
      if s.windowBegin ≠ s.nextDataPacketToSend then submitTimeout else pure ()
      modify fun s =>
        { s with
          stats := { s.stats with packetsAcked := s.stats.packetsAcked + 1 }
          currentRetransmission := 0
          shouldClose := s.lastPacket = some n }) :=
    .bind .submitCancelTimeout fun _ => .bind .session fun _ =>
      .ite (.bind .submitTimeout fun _ => .modify fun _ => rfl) (.modify fun _ => rfl)
  rw [← sampled]
  exact rest _ v rfl

theorem onPacketReceived_timing (d : Datagram) :
    wp (onPacketReceived (.ok d)) (fun _ t => t.timing = w.timing ∨ w.Acknowledges d t.timing)
      (fun _ t => t.timing = w.timing ∨ w.Acknowledges d t.timing) w := by
  have quiet {x : Act Unit} (hx : KeepsTiming x) :
      wp x (fun _ t => t.timing = w.timing ∨ w.Acknowledges d t.timing)
        (fun _ t => t.timing = w.timing ∨ w.Acknowledges d t.timing) w :=
    wp_mono (hx _ w rfl) (fun _ _ ht => .inl ht) fun _ _ ht => .inl ht
  have block (n : UInt16) (data : Bytes) : KeepsTiming (acceptBlock n data) := by
    refine .bind .session fun _ => .bind .sys fun a => .bind (.update fun v => ?_) fun _ => ?_
    · exact (timing_log v _).trans (Timing.sends_nil _)
    · cases a.write with
      | none => exact .bind (.recordFailure _ _) fun _ => .stop _
      | some written =>
          exact .bind (.modify fun _ => rfl) fun _ => .bind (sendto_timing _ rfl) fun _ =>
            .modify fun _ => rfl
  rw [onPacketReceived, wp_bind, wp_session]
  refine wp_ite.mpr ⟨fun _ => .inl rfl, fun long => wp_ite.mpr ⟨fun _ => .inl rfl, fun _ =>
    wp_ite.mpr ⟨fun _ => quiet (.unknownTransferId _), fun own => ?_⟩⟩⟩
  refine wp_ite.mpr ⟨fun _ => quiet (.bind (.flag _ _ _ _) fun _ => .reportClientError _), fun _ =>
    wp_ite.mpr ⟨fun _ => ?_, fun _ => wp_ite.mpr ⟨fun ack => ?_, fun _ => quiet .unexpectedOpcode⟩⟩⟩
  · exact quiet (.bind .session fun _ => .ite (.bind (.modify fun _ => rfl) fun _ => block _ _)
      (.ite (.pure _) (block _ _)))
  · have isAck : w.control.IsAck d := ⟨not_lt.mp long, eq_true_of_ne_false own, ack.1⟩
    rw [onAck, wp_bind, wp_session, wp_ite]
    refine ⟨fun _ => ?_, fun _ => wp_ite.mpr ⟨fun _ => .inl rfl, fun _ => ?_⟩⟩
    all_goals
      rw [wp_bind, wp_modify]
      refine wp_mono (acceptAck_timing _) (fun _ t ht => ?_) fun _ t ht => ?_
    all_goals exact .inr ⟨isAck, ht⟩

theorem sendNextBlock_estimate : Fixes World.estimate sendNextBlock := by
  intro c w hw
  refine wp_mono sendNextBlock_timing ?_ fun _ t ht => ht.trans hw
  rintro _ t ⟨n, payload, timing⟩
  have same := (congrArg Timing.estimate timing).trans (Timing.estimate_sendNext _ _ _)
  exact same.trans hw

/-- A completed read sends the block, if it is whole, and else nothing. -/
theorem onDataAvailable_timing (r : Completion ℕ) :
    wp (onDataAvailable r)
      (fun _ t => t.timing = w.timing ∨
        ∃ n payload, t.timing = w.timing.sendNext w.sys.clock (.data n payload))
      (fun _ _ => True) w := by
  have sends : wp sendNextBlock (fun _ t => t.timing = w.timing ∨
      ∃ n payload, t.timing = w.timing.sendNext w.sys.clock (.data n payload))
      (fun _ _ => True) w := wp_mono sendNextBlock_timing (fun _ _ h => .inr h) fun _ _ _ => trivial
  unfold onDataAvailable
  rw [wp_bind, wp_session, wp_ite]
  refine ⟨fun _ => ?_, fun _ => sends⟩
  cases r with
  | error e =>
      have fails : KeepsTiming readFailure := .readFailure
      exact fails.wp fun _ _ ht => .inl ht
  | ok k =>
      have timing : KeepsTiming (createDataPackets k) := .createDataPackets k
      have clock : Fixes (fun w => w.sys) (createDataPackets k) := by
        refine .bind (.modify fun _ => rfl) fun _ => .bind .session fun s =>
          .bind (.bind .sys fun _ => .pure _) fun atEnd =>
            .ite (.bind (.modify fun _ => rfl) fun _ => .pure _) (.ite (.stop _) ?_)
        cases s.dataPackets with
        | none => exact .stop _
        | some slots => exact .bind (.modify fun _ => rfl) fun _ => .pure _
      refine wp_bind.mpr (wp_mono (wp_and (timing _ w rfl) (clock _ w rfl)) ?_ fun _ _ _ => trivial)
      rintro complete t ⟨same, sys⟩
      have sys : t.sys = w.sys := sys
      refine wp_ite.mpr ⟨fun _ => ?_, fun _ => .inl same⟩
      refine wp_mono sendNextBlock_timing ?_ fun _ _ _ => trivial
      rintro _ t' ⟨n, payload, sent⟩
      rw [same, sys] at sent
      exact .inr ⟨n, payload, sent⟩

/-- What an event that the session survives makes of its timing. -/
def World.Times (w : World) : Event → Timing → Prop
  | .dataAvailable _, c =>
      c = w.timing ∨ ∃ n payload, c = w.timing.sendNext w.sys.clock (.data n payload)
  | .timeout r, c => c = w.timing ∨ (¬w.control.IgnoresTimeout r ∧ w.Answers) ∧
      ∃ packets, c = w.timing.sendAgain packets ∧ ∀ p ∈ packets, w.SentAgain p
  | .packetReceived (.ok d), c => c = w.timing ∨ w.Acknowledges d c
  | _, c => c = w.timing

/-- What any event makes of the estimate. -/
def World.Estimates (w : World) (e : Event) (estimate : Estimate) : Prop :=
  estimate = w.estimate ∨
    ∃ d c, e = .packetReceived (.ok d) ∧ w.Acknowledges d c ∧ estimate = c.estimate

theorem dispatch_timing {e : Event} (he : e ≠ .start) (hoack : w.settings.OffersOack) :
    wp (dispatch e) (fun _ t => w.Times e t.timing) (fun _ _ => True) w := by
  have quiet {x : Act Unit} (hx : KeepsTiming x) :
      wp x (fun _ t => t.timing = w.timing) (fun _ _ => True) w := hx.wp fun _ _ ht => ht
  cases e with
  | start => exact (he rfl).elim
  | dataAvailable r =>
      rw [dispatch, wp_bind, wp_jobDone, wp_bind, wp_modify]
      exact onDataAvailable_timing r
  | timeout r =>
      refine wp_dispatch_timeout.mpr ⟨fun _ => .inl rfl, fun answered => ?_⟩
      refine wp_mono (onTimeout_timing (w := w.reaped) hoack) ?_ fun _ _ _ => trivial
      rintro _ t (same | ⟨left, again⟩)
      · exact .inl same
      · exact .inr ⟨⟨answered, left⟩, again⟩
  | timeoutRemoved r =>
      refine quiet (.bind .jobDone fun _ => ?_)
      cases r with
      | ok n => exact .pure _
      | error e => exact .ite (.stop _) (.pure _)
  | packetReceivedRemoved r =>
      refine quiet (.bind .jobDone fun _ => ?_)
      cases r with
      | ok n => exact .pure _
      | error e => exact .ite (.stop _) (.pure _)
  | packetReceived r =>
      cases r with
      | error e =>
          exact quiet (.bind .jobDone fun _ => .bind .session fun _ =>
            .ite (.pure _) (.ite (.pure _) (.stop _)))
      | ok d =>
          rw [dispatch, wp_bind, wp_jobDone, wp_bind, wp_session, wp_ite]
          refine ⟨fun _ => .inl rfl, fun _ => wp_bind.mpr ?_⟩
          refine wp_mono (onPacketReceived_timing (w := w.reaped) d) ?_ fun _ _ _ => trivial
          intro _ t ht
          have listens : KeepsTiming (do
              let s ← session
              if s.shouldClose then pure () else recvAsync) :=
            .bind .session fun _ => .ite (.pure _) .recvAsync
          refine listens.wp fun _ t' same => ?_
          rw [same]
          exact ht

theorem dispatch_estimate {e : Event} (he : e ≠ .start) :
    wp (dispatch e) (fun _ t => w.Estimates e t.estimate) (fun _ t => w.Estimates e t.estimate) w := by
  by_cases hd : ∃ d, e = .packetReceived (.ok d)
  · obtain ⟨d, rfl⟩ := hd
    have sampled (t : World) (ht : t.timing = w.timing ∨ w.Acknowledges d t.timing) :
        w.Estimates (.packetReceived (.ok d)) t.estimate := by
      rcases ht with same | ack
      · exact .inl (congrArg Timing.estimate same)
      · exact .inr ⟨d, _, rfl, ack, rfl⟩
    rw [dispatch, wp_bind, wp_jobDone, wp_bind, wp_session, wp_ite]
    refine ⟨fun _ => .inl rfl, fun _ => wp_bind.mpr ?_⟩
    refine wp_mono (onPacketReceived_timing (w := w.reaped) d) ?_ fun _ t ht => sampled t ht
    intro _ t ht
    have listens : Fixes World.estimate (do
        let s ← session
        if s.shouldClose then pure () else recvAsync) :=
      .bind .session fun _ => .ite (.pure _) .recvAsync
    refine wp_mono (listens _ t rfl) (fun _ t' same => ?_) fun _ t' same => ?_
    all_goals
      rw [same]
      exact sampled t ht
  · have keeps : Fixes World.estimate (dispatch e) :=
      .dispatch he sendNextBlock_estimate onTimeout_estimate fun d h => (hd ⟨d, h⟩).elim
    exact wp_mono (keeps _ w rfl) (fun _ _ ht => .inl ht) fun _ _ ht => .inl ht

/-- A session is ready to measure; with options, the OACK has gone out. -/
def Timing.Opens (now : ℚ) (c : Timing) : Prop :=
  c.next = 1 ∧ (c.adaptiveTimeout.isTimerActive = false ∧ c.transmissions = [] ∨
    (∃ values, c.transmissions = [.oack values]) ∧
      (c.adaptiveTimeout.isTimerActive = true →
        c.adaptiveTimeout.startingBlockNumber = 0 ∧ c.adaptiveTimeout.timer = now))

/-- The timing with the time of the call. -/
def World.timed (w : World) : Timing × ℚ := (w.timing, w.sys.clock)

instance : Quiet World.timed where
  calls _ _ := rfl
  note w e he := congrArg (·, w.sys.clock) (Quiet.note w e he : World.timing _ = _)
  reports _ _ _ := rfl

/-- A session that has not sent its OACK measures and sends nothing at `now`. -/
def Unused (now : ℚ) (c : Timing × ℚ) : Prop :=
  (c.1.next = 1 ∧ c.1.adaptiveTimeout.isTimerActive = false ∧ c.1.transmissions = []) ∧ c.2 = now

theorem start_unused (now : ℚ) : Keeps (fun w => Unused now w.timed) start := by
  refine start_keeps_view ?_
  rintro w s hs estimator ⟨⟨next, inactive, unsent⟩, clock⟩
  obtain ⟨_, _, _, _, _, _, _, _, _, _, _, _, _, _, _, _, _, rfl⟩ := hs
  refine ⟨⟨next, ?_, unsent⟩, clock⟩
  rcases estimator with same | initial
  · exact (congrArg isTimerActive same).trans inactive
  · exact congrArg isTimerActive initial

theorem sendOack_timing {now : ℚ} (h : Unused now w.timed) :
    wp sendOack (fun _ t => t.timing.Opens now) (fun _ _ => True) w := by
  obtain ⟨⟨next, inactive, unsent⟩, clock⟩ := h
  have inactive : w.session.adaptiveTimeout.isTimerActive = false := inactive
  rw [sendOack, wp_bind, wp_require]
  refine ⟨fun _ => ?_, fun _ => trivial⟩
  rw [wp_bind, wp_sys, wp_bind, wp_session, wp_bind, wp_modify]
  generalize optionsValues w.answered.session.options.storage _ = values
  generalize hv : ({ session := _, sys := _, inflight := _, log := _ } : World) = v
  obtain ⟨next, unsent, timer⟩ : v.timing.next = 1 ∧ v.timing.transmissions = [] ∧
      (v.timing.adaptiveTimeout.isTimerActive = true →
        v.timing.adaptiveTimeout.startingBlockNumber = 0 ∧ v.timing.adaptiveTimeout.timer = now) := by
    subst hv
    refine ⟨next, unsent, ?_⟩
    unfold World.timing
    dsimp only
    split
    · exact fun _ => ⟨rfl, clock⟩
    · exact fun active => absurd (active.symm.trans inactive) (by decide)
  have arms : KeepsTiming submitTimeout := .submitTimeout
  refine wp_bind.mpr (arms.wp fun _ t same => ?_)
  refine wp_sendto.mpr ⟨fun _ => ?_, fun _ => trivial⟩
  have sent := (timing_log t.answered (.sent w.answered.session.clientAddress (.oack values))).trans
    (congrArg (Timing.sends · [.oack values]) same)
  have only : (v.timing.sends [.oack values]).transmissions = [.oack values] := by
    rw [Timing.sends, unsent, List.nil_append]
  exact (congrArg (Timing.Opens now) sent).mpr ⟨next, .inr ⟨⟨values, only⟩, timer⟩⟩

theorem onStart_timing {now : ℚ} (h : Unused now w.timed) :
    wp onStart (fun _ t => t.timing.Opens now) (fun _ _ => True) w := by
  have quiet {x : Act Unit} (hx : KeepsTiming x) {t : World} (ht : t.timing.Opens now) :
      wp x (fun _ t' => t'.timing.Opens now) (fun _ _ => True) t := by
    refine hx.wp fun _ t' same => ?_
    rw [same]
    exact ht
  refine wp_bind.mpr (wp_mono (start_unused now w h) ?_ fun _ _ _ => trivial)
  intro _ t ht
  have opens : t.timing.Opens now := ⟨ht.1.1, .inl ht.1.2⟩
  rw [wp_bind, wp_session, wp_ite]
  refine ⟨fun _ => opens, fun _ => wp_ite.mpr ⟨fun _ => ?_, fun _ => wp_ite.mpr ⟨fun _ => ?_,
    fun _ => quiet .recvAsync opens⟩⟩⟩
  · refine wp_bind.mpr (wp_mono (sendOack_timing ht) ?_ fun _ _ _ => trivial)
    exact fun _ t' ht' => quiet .recvAsync ht'
  · have acks (dest : Address) : KeepsTiming (emit (.sent dest (.ack 0))) :=
      .update fun w => (timing_log w _).trans (Timing.sends_nil _)
    exact quiet (.bind .attempt fun _ => .ite (.bind (acks _) fun _ => .recvAsync) .recvAsync) opens

end Handlers

/-! ## Runs -/

/-- The answers of the system and the event of a call. -/
def Label.call : Label → Option (Sys × Event)
  | .start sys => some (sys, .start)
  | .complete _ sys e => some (sys, e)
  | _ => none

/-- A session with the number of blocks it has sent for the first time, and all
its transmissions: their positions and times. -/
structure Measured where
  live : Live
  blocks : ℕ := 0
  sends : List (ℕ × ℚ) := []

namespace Measured

def boot (info : ServerInfo) (request : PeerMessage) : Measured := { live := .boot info request }

/-- The position of a packet that is sent in a call: a completed read sends the
next block, and everything else was sent before. -/
def position (blocks : ℕ) : Event → Packet → ℕ
  | .dataAvailable _, .data _ _ => blocks + 1
  | _, .data n _ => Serial.latest (blocks + 1) n
  | _, _ => 0

/-- The session after a call, with the packets that went out in it. -/
def after (x : Measured) (sys : Sys) (e : Event) (l : Live) (packets : List Packet) : Measured where
  live := l
  blocks :=
    match e with
    | .dataAvailable _ => x.blocks + packets.length
    | _ => x.blocks
  sends := x.sends ++ packets.map fun p => (position x.blocks e p, sys.clock)

def follow (x : Measured) (label : Label) (l : Live) : Measured :=
  match label.call with
  | some (sys, e) =>
      x.after sys e l (l.world.transmissions.drop x.live.world.transmissions.length)
  | none => { x with live := l }

inductive Step : Measured → Label → Measured → Prop where
  | mk {x : Measured} {label : Label} {l : Live} : Server.Step x.live label l →
      Step x label (x.follow label l)

def Runs (C : Condition) : Measured → Measured → Prop :=
  Relation.ReflTransGen fun x y => ∃ label, Step x label y ∧ C x.live label

/-- Karn's rule. A call that follows the start leaves the estimate alone, or it
brings an ACK that gives a sample of a block sent once, with nothing sent again
since. -/
def Karn (x : Measured) (label : Label) (y : Measured) : Prop :=
  ∀ op sys e, label = .complete op sys e → y.live.world.estimate = x.live.world.estimate ∨
    ∃ d, e = .packetReceived (.ok d) ∧ x.live.world.control.IsAck d ∧
      Measures x.blocks x.sends (readU16 d.bytes 2) sys.clock x.live.world.estimate
        y.live.world.estimate

/-- A timeout of an adaptive session sends the next block before its turn. -/
def SendsAhead (w : World) (c : Completion ℕ) : Prop :=
  w.session.isAdaptiveTimeoutActive = true ∧ (¬w.control.IgnoresTimeout c ∧ w.Answers) ∧
    w.session.optionsSettled = true ∧ w.session.requestType = .read ∧
      ∃ payload, w.InWindow (.data w.session.nextDataPacketToSend payload)

/-- No timeout does. -/
def InTurn : Condition := fun l label =>
  ∀ op sys c, label = .complete op sys (.timeout c) → ¬SendsAhead l.world c

/-- A session between two calls. -/
structure Sound (info : ServerInfo) (request : PeerMessage) (x : Measured) : Prop where
  fresh : x.live.status = .fresh → x = boot info request
  oack : x.live.status ≠ .fresh → x.live.world.settings.OffersOack
  timed : x.live.listening → x.live.world.timing.isAdaptive = true →
    Timekeeping x.live.world.timing.adaptiveTimeout x.live.world.timing.next x.blocks x.sends

variable {info : ServerInfo} {request : PeerMessage} {x y : Measured}

theorem after_nil (sys : Sys) (e : Event) (l : Live) :
    x.after sys e l [] = { x with live := l } := by
  unfold after
  cases e <;> simp

/-- A packet of the window that is not the next one was sent before. -/
theorem position_sentAgain {w : World} {r : Completion ℕ} {p : Packet} {blocks : ℕ}
    (turn : ¬SendsAhead w r) (adaptive : w.session.isAdaptiveTimeoutActive = true)
    (answered : ¬w.control.IgnoresTimeout r ∧ w.Answers)
    (next : UInt16.ofNat (blocks + 1) = w.session.nextDataPacketToSend) (h : w.SentAgain p) :
    position blocks (.timeout r) p ≤ blocks := by
  rcases h with ⟨values, rfl⟩ | ⟨settled, isRead, window⟩
  · exact Nat.zero_le _
  · have earlier : ∀ payload, p ≠ .data w.session.nextDataPacketToSend payload := by
      rintro payload rfl
      exact turn ⟨adaptive, answered, settled, isRead, payload, window⟩
    obtain ⟨slots, i, payload, -, -, rfl⟩ := window
    refine Serial.latest_le_of_ne fun same => earlier payload ?_
    rw [same, next]

/-- What a call keeps of the timer. -/
theorem timed_after {w : World} {e : Event} {l : Live} (h : Timekeeping w.timing.adaptiveTimeout
      w.timing.next x.blocks x.sends) (times : w.Times e l.world.timing)
    (turn : ∀ r, e = .timeout r → ¬SendsAhead w r) (adaptive : l.world.timing.isAdaptive = true) :
    Timekeeping l.world.timing.adaptiveTimeout l.world.timing.next
      (x.after w.sys e l (l.world.transmissions.drop w.transmissions.length)).blocks
      (x.after w.sys e l (l.world.transmissions.drop w.transmissions.length)).sends := by
  have packets (ps : List Packet) (sent : l.world.timing.transmissions = w.transmissions ++ ps) :
      l.world.transmissions.drop w.transmissions.length = ps := by
    have sent : l.world.transmissions = w.transmissions ++ ps := sent
    rw [sent, List.drop_left]
  have unsent (sent : l.world.timing.transmissions = w.transmissions)
      (kept : Timekeeping l.world.timing.adaptiveTimeout l.world.timing.next x.blocks x.sends) :
      Timekeeping l.world.timing.adaptiveTimeout l.world.timing.next
        (x.after w.sys e l (l.world.transmissions.drop w.transmissions.length)).blocks
        (x.after w.sys e l (l.world.transmissions.drop w.transmissions.length)).sends := by
    rw [packets [] (sent.trans (List.append_nil _).symm), after_nil]
    exact kept
  have same (ht : l.world.timing = w.timing) :=
    unsent (congrArg Timing.transmissions ht) (by rw [ht]; exact h)
  cases e with
  | dataAvailable r =>
      rcases times with ht | ⟨n, payload, ht⟩
      · exact same ht
      · have adaptive : w.timing.isAdaptive = true :=
          (congrArg Timing.isAdaptive ht).symm.trans adaptive
        rw [packets _ (congrArg Timing.transmissions ht), ht]
        show Timekeeping (w.timing.sendNext w.sys.clock _).adaptiveTimeout (w.timing.next + 1)
          (x.blocks + 1) (x.sends ++ [(x.blocks + 1, w.sys.clock)])
        unfold Timing.sendNext
        dsimp only
        split
        · exact h.sendTimed _
        · exact h.send _
  | timeout r =>
      rcases times with ht | ⟨answered, ps, ht, again⟩
      · exact same ht
      · have adaptive : w.timing.isAdaptive = true :=
          (congrArg Timing.isAdaptive ht).symm.trans adaptive
        rw [packets _ (congrArg Timing.transmissions ht), ht]
        have cancelled : (w.timing.sendAgain ps).adaptiveTimeout.isTimerActive = false := by
          unfold Timing.sendAgain
          rw [if_pos adaptive]
          rfl
        refine h.again cancelled ?_
        intro s hs
        obtain ⟨p, hp, rfl⟩ := List.mem_map.mp hs
        exact position_sentAgain (turn r rfl) adaptive answered h.next (again p hp)
  | packetReceived r =>
      cases r with
      | error e => exact same times
      | ok d =>
          rcases times with ht | ⟨-, ht⟩
          · exact same ht
          · refine unsent (congrArg Timing.transmissions ht) ?_
            rw [ht]
            unfold Timing.acknowledge
            dsimp only
            split
            · exact h.stopped rfl
            · exact h
  | _ => exact same times

/-- The session after the first call. -/
theorem Sound.started (sys : Sys) :
    Sound info request ((boot info request).follow (.start sys)
      (deliver sys .start (Live.boot info request).world)) := by
  have unused : Unused sys.clock { (Live.boot info request).world with sys := sys }.timed :=
    ⟨⟨rfl, rfl, rfl⟩, rfl⟩
  have opens := (deliver_view (P := Timing.Opens sys.clock) (E := fun _ => True) sys .start
    (Live.boot info request).world (onStart_timing unused) fun _ _ => trivial).2
  refine ⟨fun fresh => (deliver_ne_fresh sys .start _ fresh).elim, ?_, ?_⟩
  · intro _ packet hp
    obtain ⟨oack, -⟩ := @deliver_acknowledges sys (Live.boot info request).world rfl rfl packet hp
    exact ⟨_, oack⟩
  · intro hl _
    obtain ⟨next, sent⟩ := opens hl
    have next : UInt16.ofNat (0 + 1) =
        (deliver sys .start (Live.boot info request).world).world.timing.next := next.symm
    rcases sent with ⟨inactive, unsent⟩ | ⟨⟨values, sent⟩, timer⟩
    · have unsent : (deliver sys .start (Live.boot info request).world).world.transmissions = [] :=
        unsent
      unfold follow after
      simp only [Label.call, unsent, List.drop_nil, List.map_nil, List.append_nil]
      exact ⟨next, by simp [boot], fun active => absurd (active.symm.trans inactive) (by decide)⟩
    · have sent : (deliver sys .start (Live.boot info request).world).world.transmissions =
          [.oack values] := sent
      have first : ((boot info request).follow (.start sys)
          (deliver sys .start (Live.boot info request).world)).sends = [(0, sys.clock)] := by
        unfold follow after
        simp only [Label.call, sent]
        rfl
      rw [first]
      refine ⟨next, by simp, fun active => ?_⟩
      obtain ⟨block, time⟩ := timer active
      refine ⟨0, Nat.zero_le _, block.symm, ?_⟩
      have fresh : Single ([] ++ [(0, sys.clock)]) 0 sys.clock := Single.fresh (by simp)
      exact (congrArg (Single _ 0) time).mpr fresh

theorem Sound.completed {pre post : List Op} {op : Op} {sys : Sys} {e : Event}
    (h : Sound info request x) (hl : x.live.listening) (hr : op.Reports e)
    (turn : ∀ r, e = .timeout r → ¬SendsAhead x.live.world r) :
    Sound info request (x.follow (.complete op sys e)
      (deliver sys e { x.live.world with inflight := pre ++ post })) := by
  have he : e ≠ .start := fun he => Op.not_reports_start (he ▸ hr)
  have offers := h.oack hl.ne_fresh
  have kept : (deliver sys e { x.live.world with inflight := pre ++ post }).world.settings =
      x.live.world.settings := deliver_settings he
  have times := (deliver_view (E := fun _ => True) sys e
    { x.live.world with inflight := pre ++ post }
    (dispatch_timing (w := { x.live.world with inflight := pre ++ post, sys := sys }) he offers)
    fun _ _ => trivial).2
  refine ⟨fun fresh => (deliver_ne_fresh sys e _ fresh).elim, fun _ => ?_, fun hl' adaptive => ?_⟩
  · exact (congrArg Settings.OffersOack kept).mpr offers
  · have was : x.live.world.timing.isAdaptive = true :=
      (congrArg Settings.isAdaptiveTimeoutActive kept).symm.trans adaptive
    exact timed_after (w := { x.live.world with inflight := pre ++ post, sys := sys })
      (h.timed hl was) (times hl') turn adaptive

theorem Sound.step {label : Label} (h : Sound info request x) (hs : Step x label y)
    (turn : InTurn x.live label) : Sound info request y := by
  obtain ⟨hs⟩ := hs
  cases hs with
  | start sys hf =>
      obtain rfl := h.fresh hf
      exact .started sys
  | complete op sys e hl hops hr =>
      exact h.completed hl hr fun r timeout => turn op sys r (timeout ▸ rfl)
  | expire hl hops => exact ⟨fun fresh => (hl.ne_fresh fresh).elim, h.oack, h.timed⟩
  | fill bytes hl hops hlen => exact ⟨fun fresh => (hl.ne_fresh fresh).elim, h.oack, h.timed⟩

theorem Sound.of_runs (h : Runs InTurn (boot info request) x) : Sound info request x := by
  induction h with
  | refl => exact ⟨fun _ => rfl, fun h => (h rfl).elim, fun h => (h.ne_fresh rfl).elim⟩
  | tail _ hs ih =>
      obtain ⟨label, hs, turn⟩ := hs
      exact ih.step hs turn

/-- A call that gives a sample measures a block sent once. -/
theorem Sound.karn {label : Label} (h : Sound info request x) (hs : Step x label y) :
    x.Karn label y := by
  obtain ⟨hs⟩ := hs
  rintro op sys e rfl
  cases hs with
  | @complete pre post _ _ _ hl hops hr =>
      have he : e ≠ .start := fun he => Op.not_reports_start (he ▸ hr)
      have estimates := (deliver_view sys e { x.live.world with inflight := pre ++ post }
        (dispatch_estimate (w := { x.live.world with inflight := pre ++ post, sys := sys }) he)
        fun _ h => h).1
      rcases estimates with same | ⟨d, c, rfl, ⟨isAck, rfl⟩, sampled⟩
      · exact .inl same
      · unfold Timing.estimate Timing.acknowledge at sampled
        dsimp only at sampled
        split at sampled
        · rename_i guard
          simp only [Bool.and_eq_true] at guard
          obtain ⟨⟨adaptive, active⟩, arc⟩ := guard
          refine .inr ⟨d, rfl, isAck, (congrArg (Measures _ _ _ _ _) sampled).mpr ?_⟩
          exact (h.timed hl adaptive).measures active ((isInRange_iff _ _ _).mp arc)
        · exact .inl sampled

/-- In a run whose timeouts send no block before its turn, every sample is that
of a block sent once. -/
theorem samples_of_runs {label : Label} (h : Runs InTurn (boot info request) x)
    (hs : Step x label y) : x.Karn label y := (Sound.of_runs h).karn hs

end Measured

end Tftp.Server
