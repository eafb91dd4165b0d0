import Tftp.Client.Settings

/-!
# The parameters of the data phase

A client given options runs the data phase with a block size of 8 at least, a
window and a positive timeout, whatever the server answers first. A client
given none takes the values of a zeroed structure into it.
-/

namespace Tftp.Client

open Prog Act

/-! ## What an OACK can set -/

theorem tftpParseOptions_inRange {memory : Bytes} {start n : ℕ} {o : OptionKind} {v : OptionValue}
    (ho : o ≠ .readType) (h : (tftpParseOptions memory start n {}).get o = some v) :
    o.InRange (strtoul (v.text memory)).value := by
  have none_ : ({} : OptionTable).get o = none := by cases o <;> rfl
  rw [tftpParseOptions, parseOptionsFrom_eq, foldl_recordOption_get, none_, Option.or_none] at h
  obtain ⟨nv, -, hv⟩ := List.mem_filterMap.mp (List.mem_of_getLast? h)
  split at hv
  · obtain ⟨-, same, range⟩ := optionValue_number ho hv
    exact same.symm ▸ range
  · cases hv

/-- A number an OACK acknowledges is one that the parser takes. -/
theorem Request.acknowledged_inRange {r : Request} {n k : ℕ} {o : OptionKind}
    (ho : o ≠ .readType) (ht : o = .timeout → r.keepsAdaptive n = false)
    (h : r.acknowledged n o = some k) : o.InRange k := by
  obtain ⟨v, hv, rfl⟩ := Option.map_eq_some_iff.mp h
  refine @tftpParseOptions_inRange _ 2 (n - 2) _ _ ho ?_
  unfold Request.keepsAdaptive at ht
  unfold acknowledgedOptions at hv ht
  dsimp only at hv ht
  split at hv
  · split at hv
    · rename_i listed adaptive
      rw [if_pos listed, if_pos adaptive] at ht
      rw [OptionTable.get_set, if_neg fun h => absurd (ht h) (by simp)] at hv
      exact hv
    · exact hv
  · exact hv

/-! ## Sound settings -/

/-- Settings a transfer can be run with. The window of an upload is one packet. -/
structure Settings.Sound (s : Settings) : Prop where
  blockSize : 8 ≤ s.options.blockSize.toNat
  windowSize : 1 ≤ s.options.windowSize.toNat
  timeoutS : 0 < s.options.timeoutS.toNat
  recvTimeout : 0 < s.recvTimeout.toNat
  upload : s.requestType = .put →
    s.options.windowSize = 1 ∧ s.options.active .windowsize = false

namespace Settings.Sound

variable {s : Settings}

theorem discard (h : s.Sound) (hty : s.requestType = .get) : s.discard.Sound where
  blockSize := show 8 ≤ defaultBlksize.toNat by decide
  windowSize := show 1 ≤ defaultWindowSize.toNat by decide
  timeoutS := show 0 < defaultTimeoutS.toNat by decide
  recvTimeout := h.recvTimeout
  upload hput := absurd (hty.symm.trans hput) (by decide)

theorem plain (h : s.Sound) : s.plain.Sound where
  blockSize := show 8 ≤ defaultBlksize.toNat by decide
  windowSize := h.windowSize
  timeoutS := show 0 < defaultTimeoutS.toNat by decide
  recvTimeout := h.recvTimeout
  upload := h.upload

end Settings.Sound

/-- An option that is required is in the range it has to be in. -/
theorem required_or_default {α : Type} {required : Bool} {value : Option α} {p : α → Bool}
    {d z : α} (hp : required = true → value.any p = true) (hd : p d = true) :
    p (if required then value.getD z else d) = true := by
  split
  · rename_i h
    cases value with
    | none => exact absurd (hp h) (by simp)
    | some a => exact hp h
  · exact hd

/-- Options given to the client are sound from the start. -/
theorem sound_request {c : Call} {o : ClientOptions} (ho : c.options = some o) :
    c.request.settings.Sound := by
  have options : c.request.settings.options = optionsInit c.requestType o := by
    simp [Call.request, Request.settings, requestOptions, ho]
  have timeout : 0 < (optionsInit c.requestType o).timeoutS.toNat := by
    have nonzero : ((optionsInit c.requestType o).timeoutS != 0) = true :=
      required_or_default (p := (· != 0)) (fun h => h) (by decide)
    exact Nat.pos_of_ne_zero fun h => by
      simp [UInt8.toNat_inj.mp (h.trans UInt8.toNat_zero.symm)] at nonzero
  have recvTimeout : c.request.settings.recvTimeout = (optionsInit c.requestType o).timeoutS := by
    simp [Call.request, Request.settings, requestOptions, ho]
  refine ⟨?_, ?_, options ▸ timeout, recvTimeout ▸ timeout, fun hput => ?_⟩
  · have inRange : (fun n : UInt16 => decide (8 ≤ n) && decide (n ≤ 65464))
        (optionsInit c.requestType o).blockSize = true :=
      required_or_default (p := fun n : UInt16 => decide (8 ≤ n) && decide (n ≤ 65464))
        (fun h => h) (by decide)
    rw [options]
    simp only [Bool.and_eq_true, decide_eq_true_eq, UInt16.le_iff_toNat_le] at inRange
    exact inRange.1
  · have nonzero : ((optionsInit c.requestType o).windowSize != 0) = true :=
      required_or_default (p := (· != 0)) (fun h => (Bool.and_eq_true_iff.mp h).1) (by decide)
    rw [options]
    exact Nat.pos_of_ne_zero fun h => by
      simp [UInt16.toNat_inj.mp (h.trans UInt16.toNat_zero.symm)] at nonzero
  · have hput : c.requestType = .put := hput
    have unwanted : o.isWindowSizeRequired c.requestType = false := by
      rw [hput, ClientOptions.isWindowSizeRequired]
      simp
    rw [options]
    exact ⟨if_neg (by simp [unwanted]), unwanted⟩

/-- An OACK that is accepted leaves them sound. -/
theorem sound_accept {r : Request} {n : ℕ} {heap : Bytes} (h : r.settings.Sound)
    (requested : ¬r.Unrequested n) : (r.accept n heap).settings.Sound := by
  have before : 0 < r.options.timeoutS.toUInt16.toUInt8.toNat := by
    rw [toUInt8_toUInt16]
    exact h.timeoutS
  have timeout : 0 < (r.takenTimeout n).toUInt8.toNat := by
    unfold Request.takenTimeout
    cases ha : r.keepsAdaptive n with
    | true => exact before
    | false =>
        cases hk : r.acknowledged n .timeout with
        | none => exact before
        | some k =>
            obtain ⟨low, high⟩ := Request.acknowledged_inRange (by decide) (fun _ => ha) hk
            simp
            omega
  have recvTimeout : 0 < (if r.Retimes n then (r.taken n).timeoutS else r.recvTimeout).toNat := by
    split
    · exact timeout
    · exact h.recvTimeout
  refine ⟨?_, ?_, timeout, recvTimeout, fun hput => ⟨?_, ?_⟩⟩
  · show 8 ≤ ((r.acknowledged n .blksize).elim r.options.blockSize UInt16.ofNat).toNat
    cases hk : r.acknowledged n .blksize with
    | none => exact h.blockSize
    | some k =>
        obtain ⟨low, high⟩ := Request.acknowledged_inRange (by decide) (by simp) hk
        simp
        omega
  · show 1 ≤ ((r.acknowledged n .windowsize).elim r.options.windowSize UInt16.ofNat).toNat
    cases hk : r.acknowledged n .windowsize with
    | none => exact h.windowSize
    | some k =>
        obtain ⟨low, high⟩ := Request.acknowledged_inRange (by decide) (by simp) hk
        simp
        omega
  · obtain ⟨window, unwanted⟩ := h.upload hput
    show (r.acknowledged n .windowsize).elim r.options.windowSize UInt16.ofNat = 1
    cases hk : r.acknowledged n .windowsize with
    | none => exact window
    | some k =>
        obtain ⟨v, hv, -⟩ := Option.map_eq_some_iff.mp hk
        refine (requested ⟨.windowsize, ?_, unwanted⟩).elim
        rw [OptionTable.isActive, hv]
        rfl
  · have listing : ¬(OptionKind.windowsize = .readType ∧
        (acknowledgedOptions r n).1.isActive .readType = false) := fun h => absurd h.1 (by decide)
    exact (if_neg (t := false) listing).trans (h.upload hput).2

/-- So does one of an upload that was not, when it did not crash. -/
theorem Oack.sound {L : Type} {w t : World L} {n : ℕ} {accepted : Bool}
    (ho : Oack w n (.ok accepted) t) (hput : w.request.requestType = .put)
    (h : w.request.settings.Sound) :
    t.request.settings.Sound ∧ t.request.requestType = .put := by
  have get_ne : w.request.requestType ≠ .get := by simp [hput]
  cases ho with
  | unrequested tsize reported _ hr =>
      rw [hr]
      exact ⟨⟨h.1, h.2, h.3, h.4, h.5⟩, hput⟩
  | unmoved _ _ get => exact (get_ne get).elim
  | untimed requested _ _ _ hr =>
      have sound : (w.request.accept n w.sys.heap).settings.Sound := sound_accept h requested
      rw [hr]
      exact ⟨⟨sound.1, sound.2, sound.3, h.4, fun hp => ⟨(sound.5 hp).1, (h.5 hp).2⟩⟩, hput⟩
  | accepted requested _ _ hr =>
      rw [hr]
      exact ⟨sound_accept h requested, hput⟩

/-! ## While the file is sent -/

theorem seconds_le {m n : ℕ} (h : m ≤ n) : seconds m ≤ seconds n := by
  exact div_le_div_of_nonneg_right (Nat.cast_le.mpr h) (by norm_num)

/-- The timeout of `send_file` is positive, and the clock does not run backwards. -/
structure Timed (w : World Sender) : Prop where
  windowSize : w.request.options.windowSize = 1
  rto : 0 < w.locals.rto
  adaptive : w.request.options.useAdaptiveTimeout = true → 0 < w.locals.adaptiveTimeout.rto
  smoothedRtt : 0 ≤ w.locals.adaptiveTimeout.smoothedRtt
  timer : w.locals.adaptiveTimeout.timer ≤ seconds w.clock

/-- The program keeps the timeout positive, and does not crash. -/
def Calm {α : Type} (x : Act Sender α) : Prop :=
  ∀ w, Timed w → wp x (fun _ t => Timed t) (fun o _ => o ≠ .crash) w

namespace Calm

variable {α β : Type}

theorem run {x : Act Sender α} {w : World Sender} (hx : Calm x) (hw : Timed w) :
    wp x (fun _ t => Timed t) (fun o _ => o ≠ .crash) w := hx w hw

theorem pure (a : α) : Calm (Pure.pure a) := fun _ h => h

theorem fail : Calm (fail : Act Sender α) := fun _ _ => wp_fail.mpr (by decide)

theorem stop {o : Outcome} (ho : o ≠ .crash) : Calm (Prog.stop o : Act Sender α) :=
  fun _ _ => ho

theorem request : Calm request := fun _ h => h

theorem locals : Calm locals := fun _ h => h

theorem sys : Calm sys := fun _ h => h

theorem bind {x : Act Sender α} {f : α → Act Sender β} (hx : Calm x) (hf : ∀ a, Calm (f a)) :
    Calm (x >>= f) := fun w hw =>
  wp_bind.mpr (wp_mono (hx w hw) (fun a t ht => hf a t ht) fun _ _ ho => ho)

theorem ite {p : Prop} [Decidable p] {x y : Act Sender α} (hx : Calm x) (hy : Calm y) :
    Calm (if p then x else y) := by
  split
  · exact hx
  · exact hy

theorem modify {f : Request → Request} (h : ∀ r, (f r).options = r.options) :
    Calm (modify f) := fun _ hw =>
  ⟨(congrArg Options.windowSize (h _)).trans hw.1, hw.2,
    fun ha => hw.3 ((congrArg Options.useAdaptiveTimeout (h _)).symm.trans ha), hw.4, hw.5⟩

/-- The timeouts are not touched. -/
theorem modifyLocals {f : Sender → Sender}
    (h : ∀ l, (f l).rto = l.rto ∧ (f l).adaptiveTimeout = l.adaptiveTimeout) :
    Calm (modifyLocals f) := by
  intro w hw
  obtain ⟨rto, adaptive⟩ := h w.locals
  refine ⟨hw.1, rto ▸ hw.2, fun ha => ?_, ?_, ?_⟩
  · exact adaptive ▸ hw.3 ha
  · exact adaptive ▸ hw.4
  · exact adaptive ▸ hw.5

theorem attempt : Calm attempt := fun _ hw => wp_attempt.mpr ⟨hw.1, hw.2, hw.3, hw.4, hw.5⟩

theorem require : Calm require := bind attempt fun _ => ite (pure _) fail

theorem sendto (dest : Address) (m : Message) : Calm (sendto dest m) :=
  bind require fun _ => fun _ hw => ⟨hw.1, hw.2, hw.3, hw.4, hw.5⟩

theorem trySendto (dest : Address) (m : Message) : Calm (trySendto dest m) :=
  bind attempt fun _ => ite (fun _ hw => ⟨hw.1, hw.2, hw.3, hw.4, hw.5⟩) (pure _)

theorem ticked {w : World Sender} (hw : Timed w) : Timed w.ticked :=
  ⟨hw.1, hw.2, hw.3, hw.4, hw.5.trans (seconds_le w.clock_le_ticked)⟩

theorem clockGettime : Calm clockGettime := fun _ hw => wp_clockGettime.mpr (ticked hw)

end Calm

theorem calm_startTimer : Calm startTimer := by
  have start (n : UInt16) (now : ℚ) (w : World Sender) (hw : Timed w)
      (hnow : now = seconds w.clock) : Timed { w with locals := { w.locals with
        adaptiveTimeout :=
          { w.locals.adaptiveTimeout.startTimer now with startingBlockNumber := n } } } :=
    ⟨hw.1, hw.2, hw.3, hw.4, hnow.le⟩
  refine .bind .request fun _ => .bind .locals fun _ => .ite (.bind .clockGettime fun _ =>
    .bind (.modifyLocals fun _ => ⟨rfl, rfl⟩) fun _ => .ite (fun w hw => ?_) (.pure _)) (.pure _)
  rw [wp_bind, wp_clockGettime]
  exact start _ _ _ (Calm.ticked hw) rfl

theorem calm_sendNextPacket : Calm sendNextPacket := by
  intro w hw
  unfold sendNextPacket
  rw [wp_bind, wp_request, wp_bind, wp_locals]
  refine wp_ite.mpr ⟨fun zero => ?_, fun _ => ?_⟩
  · exact absurd (hw.windowSize.symm.trans zero) (by decide)
  · refine Calm.run ?_ hw
    exact .bind .require fun _ => .bind (.modifyLocals fun _ => ⟨rfl, rfl⟩) fun _ =>
      .bind (.sendto _ _) fun _ => .bind (.modify fun _ => rfl) fun _ =>
        .bind calm_startTimer fun _ => .modifyLocals fun _ => ⟨rfl, rfl⟩

theorem calm_fillWindow (rounds : ℕ) : Calm (fillWindow rounds) := by
  induction rounds with
  | zero => exact .stop (by decide)
  | succ rounds ih =>
      exact .bind .request fun _ => .bind .locals fun _ =>
        .ite (.bind calm_sendNextPacket fun _ => ih) (.pure _)

/-- With a window of one packet every block has the first place. -/
theorem calm_retransmitFrom (rounds : ℕ) (i : UInt16) : Calm (retransmitFrom rounds i) := by
  induction rounds generalizing i with
  | zero => exact .stop (by decide)
  | succ rounds ih =>
      intro w hw
      unfold retransmitFrom
      rw [wp_bind, wp_request, wp_bind, wp_locals]
      refine wp_ite.mpr ⟨fun _ => ?_, fun _ => hw⟩
      refine wp_ite.mpr ⟨fun outside => ?_, fun _ => ?_⟩
      · rw [hw.windowSize] at outside
        rcases outside with zero | negative
        · exact absurd zero (by decide)
        · simp at negative
      · exact (Calm.bind (.sendto _ _) fun _ => ih _) w hw

theorem calm_restartClock : Calm restartClock :=
  .bind .clockGettime fun _ => .modifyLocals fun _ => ⟨rfl, rfl⟩

theorem calm_onTimeout : Calm onTimeout := by
  have backOff : Calm backOff := by
    intro w hw
    unfold backOff
    rw [wp_bind, wp_request]
    refine wp_ite.mpr ⟨fun adaptive => ?_, fun _ => hw⟩
    have positive := AdaptiveTimeout.rto_backoff_pos
      (t := w.locals.adaptiveTimeout.cancelTimer) (hw.adaptive adaptive)
    exact ⟨hw.1, positive, fun _ => positive, hw.4, hw.5⟩
  exact .bind .request fun _ => .bind .locals fun _ => .ite .fail
    (.bind (.modifyLocals fun _ => ⟨rfl, rfl⟩) fun _ => .bind backOff fun _ =>
      .bind calm_restartClock fun _ => .bind .sys fun _ => .bind .locals fun _ =>
        calm_retransmitFrom _ _)

theorem calm_onAck : Calm onAck := by
  have sample (n : UInt16) : Calm (takeSample n) := by
    intro w hw
    unfold takeSample
    rw [wp_bind, wp_request, wp_bind, wp_locals]
    refine wp_ite.mpr ⟨fun _ => ?_, fun _ => hw⟩
    rw [wp_bind, wp_clockGettime]
    have later := Calm.ticked hw
    have positive := AdaptiveTimeout.rto_stopTimer_pos later.smoothedRtt later.timer
    exact ⟨hw.1, positive, fun _ => positive,
      AdaptiveTimeout.smoothedRtt_stopTimer later.smoothedRtt later.timer, later.timer⟩
  have advance (n : UInt16) : Calm (advanceWindow n) :=
    .bind (.modifyLocals fun _ => ⟨rfl, rfl⟩) fun _ => .bind .locals fun _ =>
      .ite calm_restartClock (.pure _)
  exact .bind .request fun _ => .bind .locals fun _ => .ite (.bind (advance _) fun _ =>
    .bind (.modifyLocals fun _ => ⟨rfl, rfl⟩) fun _ => .bind (sample _) fun _ =>
      .ite (.stop (by decide)) (.pure _)) (.pure _)

theorem calm_awaitAnswer (a : Arrival) : Calm (awaitAnswer a) := by
  refine .bind .clockGettime fun _ => .bind .locals fun _ =>
    .ite calm_onTimeout (.bind .require fun _ => ?_)
  cases a with
  | failed => exact .fail
  | timeout => exact calm_onTimeout
  | datagram d =>
      exact .bind (.modify fun _ => rfl) fun _ => .bind .request fun _ =>
        .ite (.trySendto _ _) (.ite calm_onAck .fail)

theorem calm_sendRound (a : Arrival) : Calm (sendRound a) :=
  .bind (calm_fillWindow _) fun _ => calm_awaitAnswer a

/-! ## Runs -/

/-- The transfer is in its data phase. -/
def Process.InDataPhase : Process → Prop
  | .receiving w => w.locals.isFirstReceive = false
  | .sending _ => True
  | _ => False

/-- The parameters in force can be used: the receive timeout is that of the
socket while a file is received, and `rto` while one is sent, when moreover no
remainder by zero is near. -/
def Process.Usable : Process → Prop
  | .receiving w => 8 ≤ w.request.options.blockSize.toNat ∧
      1 ≤ w.request.options.windowSize.toNat ∧ 0 < w.request.recvTimeout.toNat
  | .sending w => (8 ≤ w.request.options.blockSize.toNat ∧
      1 ≤ w.request.options.windowSize.toNat ∧ 0 < w.locals.rto) ∧
      ∀ e r sent, (Process.sending w).step e ≠ .ended .crash r sent
  | _ => True

/-- The settings of a client are sound in each of its phases. -/
def Process.Sound : Process → Prop
  | .requesting _ w => w.request.settings.Sound ∧ w.request.requestType = .put
  | .receiving w => w.request.settings.Sound ∧ w.request.requestType = .get
  | .sending w => w.request.settings.Sound ∧ Timed w
  | .ended _ _ _ => True

theorem sound_start {c : Call} {o : ClientOptions} (ho : c.options = some o) (s : Sys) :
    (c.start s).Sound := by
  have sound := sound_request ho
  apply Call.start_spec
  rw [begin, wp_bind, wp_require]
  refine ⟨fun _ => ?_, fun _ => trivial⟩
  cases hty : c.requestType with
  | put => exact ⟨sound, hty⟩
  | get =>
      rw [wp_bind]
      refine wp_mono (sendRequest_spec _) (fun _ t ht => ?_) fun _ _ _ => trivial
      obtain ⟨packet, hr, -⟩ := ht.request
      rw [wp_require]
      refine ⟨fun _ => ?_, fun _ => trivial⟩
      show t.request.settings.Sound ∧ t.request.requestType = .get
      rw [hr]
      exact ⟨sound, hty⟩

theorem timed_init {w : World Requester} {file heap : Bytes} (h : w.request.settings.Sound)
    (hput : w.request.requestType = .put) :
    Timed (w.answered.enter (Sender.init w.request file heap)) := by
  have timeoutS : (0 : ℚ) < w.request.options.timeoutS.toNat := Nat.cast_pos.mpr h.timeoutS
  have first : (0 : ℚ) < AdaptiveTimeout.init.rto := by norm_num [AdaptiveTimeout.init]
  have measured (t : AdaptiveTimeout) (ht : t = .init ∨ t = {}) :
      t.smoothedRtt = 0 ∧ t.timer = 0 := by
    rcases ht with rfl | rfl
    · exact ⟨rfl, rfl⟩
    · exact ⟨rfl, rfl⟩
  obtain ⟨smoothed, timer⟩ := measured (Sender.init w.request file heap).adaptiveTimeout (by
    unfold Sender.init
    dsimp only
    split
    · exact .inl rfl
    · exact .inr rfl)
  refine ⟨(h.upload hput).1, ?_, fun adaptive => ?_, smoothed.ge, ?_⟩
  · show 0 < (Sender.init w.request file heap).rto
    unfold Sender.init
    dsimp only
    split
    · exact first
    · exact timeoutS
  · show 0 < (Sender.init w.request file heap).adaptiveTimeout.rto
    have adaptive : w.request.options.useAdaptiveTimeout = true := adaptive
    simpa only [Sender.init, adaptive, if_true] using first
  · exact timer.trans_le (div_nonneg (Nat.cast_nonneg _) (by norm_num))

theorem sound_step (p : Process) (e : Event) (h : p.Sound) : (p.step e).Sound := by
  cases p with
  | requesting file w =>
      obtain ⟨sound, hput⟩ := h
      apply Process.step_requesting
      refine wp_mono (requestRound_settles e.arrival (w.on e.sys)) (fun go t ht => ?_)
        fun _ _ _ => trivial
      cases go with
      | false =>
          have same : t.request.settings = w.request.settings := ht
          have type : t.request.requestType = w.request.requestType :=
            congrArg Settings.requestType same
          exact ⟨same ▸ sound, type.trans hput⟩
      | true =>
          obtain ⟨asked, d, ha, ht⟩ := ht
          obtain ⟨packet, hr, -⟩ := ha.request
          have before : asked.request.settings = w.request.settings := by rw [hr]; rfl
          have answered : t.request.settings.Sound ∧ t.request.requestType = .put := by
            cases ht with
            | same hs =>
                have same := hs.trans before
                exact ⟨same ▸ sound, (congrArg Settings.requestType same).trans hput⟩
            | ack _ hs =>
                rw [before] at hs
                exact ⟨hs ▸ sound.plain, (congrArg Settings.requestType hs).trans hput⟩
            | oack accepted _ ho =>
                have kept : (asked.answeredBy d).request.settings = w.request.settings := before
                exact ho.sound ((congrArg Settings.requestType kept).trans hput) (kept ▸ sound)
          show (enterSendFile file t).Sound
          unfold enterSendFile
          split
          · exact ⟨answered.1, timed_init answered.1 answered.2⟩
          · trivial
  | receiving w =>
      obtain ⟨sound, hget⟩ := h
      apply Process.step_receiving
      refine wp_mono (receiveRound_settles e.arrival (w.on e.sys)) (fun _ t ht => ?_)
        fun _ _ _ => trivial
      cases ht with
      | same hs =>
          exact ⟨hs ▸ sound, (congrArg Settings.requestType hs).trans hget⟩
      | oack d heap _ _ requested hs =>
          have accepted : (((w.on e.sys).request.answeredBy d).accept
              ((w.on e.sys).request.bytesReceived d) heap).settings.Sound :=
            sound_accept sound requested
          exact ⟨hs ▸ accepted, (congrArg Settings.requestType hs).trans hget⟩
      | data _ _ hs =>
          exact ⟨hs ▸ sound.discard hget, (congrArg Settings.requestType hs).trans hget⟩
  | sending w =>
      obtain ⟨sound, timed⟩ := h
      apply Process.step_sending
      have timed : Timed (w.on e.sys) := ⟨timed.1, timed.2, timed.3, timed.4, timed.5⟩
      have kept := fixes_sendRound e.arrival _ (w.on e.sys) rfl
      refine wp_mono (wp_and kept (calm_sendRound e.arrival _ timed)) (fun _ t ht => ?_)
        fun _ _ _ => trivial
      have same : t.request.settings = w.request.settings := ht.1
      exact ⟨same ▸ sound, ht.2⟩
  | ended o r sent => trivial

/-- A sound client has usable parameters. -/
theorem Process.Sound.usable {p : Process} (h : p.Sound) : p.Usable := by
  cases p with
  | receiving w =>
      obtain ⟨sound, -⟩ := h
      exact ⟨sound.blockSize, sound.windowSize, sound.recvTimeout⟩
  | sending w =>
      obtain ⟨sound, timed⟩ := h
      refine ⟨⟨sound.blockSize, sound.windowSize, timed.rto⟩, fun e => ?_⟩
      apply Process.step_sending (I := fun p => ∀ r sent, p ≠ .ended .crash r sent)
      have timed : Timed (w.on e.sys) := ⟨timed.1, timed.2, timed.3, timed.4, timed.5⟩
      refine wp_mono (calm_sendRound e.arrival _ timed) (fun _ t _ r sent he => ?_)
        fun o t ho r sent he => ?_
      · cases he
      · cases he
        exact ho rfl
  | _ => trivial

/-! ## Without options -/

/-- A client without options: the timeout of its socket, and the size of the
blocks it sends, are zero. -/
def Process.Zeroed : Process → Prop
  | .requesting _ w => w.request.settings.useOptions = false ∧
      w.request.settings.options = .zero
  | .receiving w => w.request.settings.recvTimeout = 0 ∧
      (w.locals.isFirstReceive = true → w.request.settings.options = .zero)
  | .sending w => w.request.settings.options = .zero
  | .ended _ _ _ => True

/-- Nothing was requested, so an OACK that is accepted sets no timeout. -/
theorem recvTimeout_zero {r : Request} {n : ℕ} {heap : Bytes} (hz : r.options = .zero)
    (ht : r.recvTimeout = 0) (requested : ¬r.Unrequested n) :
    (r.accept n heap).settings.recvTimeout = 0 := by
  have keeps : ¬r.Retimes n := by
    have unset : r.acknowledged n .timeout = none := by
      rw [Request.acknowledged, OptionTable.number, Option.map_eq_none_iff]
      by_contra hv
      refine requested ⟨.timeout, Option.isSome_iff_ne_none.mpr hv, ?_⟩
      rw [hz]
      rfl
    rw [Request.Retimes, Request.takenTimeout, unset, not_not]
    exact ite_self _
  exact (if_neg keeps).trans ht

theorem zeroed_start {c : Call} (hc : c.options = none) (s : Sys) : (c.start s).Zeroed := by
  have zero : c.request.settings.options = .zero := by
    simp [Call.request, Request.settings, requestOptions, hc]
  have unused : c.request.settings.useOptions = false := by
    simp [Call.request, Request.settings, requestOptions, hc]
  have timeout : c.request.settings.recvTimeout = 0 := by
    simp [Call.request, Request.settings, requestOptions, hc, Options.zero]
  apply Call.start_spec
  rw [begin, wp_bind, wp_require]
  refine ⟨fun _ => ?_, fun _ => trivial⟩
  cases hty : c.requestType with
  | put => exact ⟨unused, zero⟩
  | get =>
      rw [wp_bind]
      refine wp_mono (sendRequest_spec _) (fun _ t ht => ?_) fun _ _ _ => trivial
      obtain ⟨packet, hr, -⟩ := ht.request
      rw [wp_require]
      refine ⟨fun _ => ?_, fun _ => trivial⟩
      show t.request.settings.recvTimeout = 0 ∧ (_ → t.request.settings.options = .zero)
      rw [hr]
      exact ⟨timeout, fun _ => zero⟩

theorem zeroed_step (p : Process) (e : Event) (h : p.Zeroed) : (p.step e).Zeroed := by
  cases p with
  | requesting file w =>
      obtain ⟨unused, zero⟩ := h
      apply Process.step_requesting
      refine wp_mono (requestRound_settles e.arrival (w.on e.sys)) (fun go t ht => ?_)
        fun _ _ _ => trivial
      cases go with
      | false =>
          have same : t.request.settings = w.request.settings := ht
          show t.request.settings.useOptions = false ∧ t.request.settings.options = .zero
          rw [same]
          exact ⟨unused, zero⟩
      | true =>
          obtain ⟨asked, d, ha, ht⟩ := ht
          obtain ⟨packet, hr, -⟩ := ha.request
          have before : asked.request.settings = w.request.settings := by rw [hr]; rfl
          have unasked : asked.request.useOptions = false :=
            (congrArg Settings.useOptions before).trans unused
          have answered : t.request.settings.options = .zero := by
            cases ht with
            | same hs => rw [hs, before, zero]
            | ack used => exact absurd (unasked.symm.trans used) (by decide)
            | oack _ used => exact absurd (unasked.symm.trans used) (by decide)
          show (enterSendFile file t).Zeroed
          unfold enterSendFile
          split
          · exact answered
          · trivial
  | receiving w =>
      obtain ⟨timeout, zero⟩ := h
      apply Process.step_receiving
      refine wp_mono (receiveRound_settles e.arrival (w.on e.sys)) (fun _ t ht => ?_)
        fun _ _ _ => trivial
      cases ht with
      | same hs hf =>
          show t.request.settings.recvTimeout = 0 ∧ (_ → t.request.settings.options = .zero)
          rw [hs]
          exact ⟨timeout, fun first => zero (hf.symm.trans first)⟩
      | oack d heap first hf requested hs =>
          show t.request.settings.recvTimeout = 0 ∧ (_ → t.request.settings.options = .zero)
          rw [hs]
          refine ⟨recvTimeout_zero (zero first) timeout requested, fun h => ?_⟩
          exact absurd (hf.symm.trans h) (by decide)
      | data first hf hs =>
          show t.request.settings.recvTimeout = 0 ∧ (_ → t.request.settings.options = .zero)
          rw [hs]
          exact ⟨timeout, fun h => absurd (hf.symm.trans h) (by decide)⟩
  | sending w =>
      apply Process.step_sending
      refine wp_mono (fixes_sendRound e.arrival _ (w.on e.sys) rfl) (fun _ t ht => ?_)
        fun _ _ _ => trivial
      exact (congrArg Settings.options ht).trans h
  | ended o r sent => trivial

/-- An ACK of block 0. -/
def ackZero : Event := { arrival := .datagram ⟨.inet 0 1069, [0, 4, 0, 0]⟩ }

end Tftp.Client
