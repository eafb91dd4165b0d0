import Tftp.Client.Process
import Tftp.Client.OptionAck

/-!
# The options in force

What a transfer is run with is settled by the first answer of the server: by an
OACK that is accepted, or by a DATA packet or an ACK without one. Nothing that
comes later changes it.
-/

namespace Tftp.Client

open Prog Act

/-- What a client runs a transfer with. -/
structure Settings where
  requestType : RequestType
  useOptions : Bool
  options : Options
  recvTimeout : UInt8

def Request.settings (r : Request) : Settings where
  requestType := r.requestType
  useOptions := r.useOptions
  options := r.options
  recvTimeout := r.recvTimeout

/-! ## Views a program leaves alone -/

/-- The program leaves the view `π` of the world as it is. -/
def Fixes {L γ α : Type} (π : World L → γ) (x : Act L α) : Prop := ∀ c, Keeps (fun w => π w = c) x

/-- The view reads neither the answers of the system, nor what was sent, nor
the clock. -/
class Blind {L γ : Type} (π : World L → γ) : Prop where
  blind : ∀ (w : World L) (sys : Sys) (sent : List (Address × Message)) (clock : ℕ),
    π { w with sys := sys, sent := sent, clock := clock } = π w

namespace Fixes

variable {L γ α β : Type} {π : World L → γ}

theorem pure (a : α) : Fixes π (Pure.pure a) := fun _ => Keeps.pure a

theorem stop (o : Outcome) : Fixes π (Prog.stop o : Act L α) := fun _ => Keeps.stop o

theorem request : Fixes π request := fun _ => Keeps.gets _

theorem locals : Fixes π locals := fun _ => Keeps.gets _

theorem sys : Fixes π sys := fun _ => Keeps.gets _

theorem bind {x : Act L α} {f : α → Act L β} (hx : Fixes π x) (hf : ∀ a, Fixes π (f a)) :
    Fixes π (x >>= f) := fun c => Keeps.bind (hx c) fun a => hf a c

theorem ite {p : Prop} [Decidable p] {x y : Act L α} (hx : Fixes π x) (hy : Fixes π y) :
    Fixes π (if p then x else y) := fun c => Keeps.ite (hx c) (hy c)

theorem modify {f : Request → Request}
    (h : ∀ w : World L, π { w with request := f w.request } = π w) : Fixes π (modify f) :=
  fun _ w hw => (h w).trans hw

theorem modifyLocals {f : L → L} (h : ∀ w : World L, π { w with locals := f w.locals } = π w) :
    Fixes π (modifyLocals f) := fun _ w hw => (h w).trans hw

/-- A view of what an OACK leaves alone. -/
theorem handleOackPacket (h : ∀ w t : World L, LeavesRest w t → π t = π w) (n : ℕ) :
    Fixes π (handleOackPacket n) := fun _ w hw =>
  wp_mono (LeavesRest.handleOackPacket n w) (fun _ t rest => (h w t rest).trans hw)
    fun _ t crashed => (h w t crashed.2).trans hw

/-- What a program with a fixed view leaves. -/
theorem wp {x : Act L α} {Q : α → World L → Prop} {E : Outcome → World L → Prop} {w : World L}
    (hx : Fixes π x) (hQ : ∀ a t, π t = π w → Q a t) (hE : ∀ o t, π t = π w → E o t) :
    Prog.wp x Q E w :=
  wp_mono (hx _ w rfl) hQ hE

section

variable [Blind π]

theorem emit (dest : Address) (m : Message) : Fixes π (emit dest m) :=
  fun _ w hw => (Blind.blind w w.sys _ w.clock).trans hw

theorem attempt : Fixes π attempt := fun _ w hw =>
  wp_attempt.mpr ((Blind.blind w _ w.sent w.clock).trans hw)

theorem clockGettime : Fixes π clockGettime := fun _ w hw =>
  wp_clockGettime.mpr ((Blind.blind w _ w.sent _).trans hw)

theorem require : Fixes π require := bind attempt fun _ => ite (pure _) (stop _)

theorem sendto (dest : Address) (m : Message) : Fixes π (sendto dest m) :=
  bind require fun _ => emit _ _

theorem trySendto (dest : Address) (m : Message) : Fixes π (trySendto dest m) :=
  bind attempt fun _ => ite (emit _ _) (pure _)

theorem retransmitLastPacketSent : Fixes π (retransmitLastPacketSent : Act L Unit) :=
  bind request fun _ => sendto _ _

theorem sendError (p : Packet) : Fixes π (sendError p : Act L Unit) :=
  bind request fun _ => trySendto _ _

end

end Fixes

/-! ## Receiving a file -/

/-- The settings, and whether they are still open. -/
def World.standing (w : World Receiver) : Settings × Bool :=
  (w.request.settings, w.locals.isFirstReceive)

instance : Blind World.standing := ⟨fun _ _ _ _ => rfl⟩

theorem fixes_sendAck (n : UInt16) : Fixes World.standing (sendAck n) :=
  .bind .request fun _ => .bind (.sendto _ _) fun _ => .modify fun _ => rfl

theorem fixes_fwrite (bytes : Bytes) : Fixes World.standing (fwrite bytes) :=
  .bind .sys fun _ => .bind (.modifyLocals fun _ => rfl) fun _ => .pure _

/-- The settings after a DATA packet that no OACK came before. -/
def Settings.discard (s : Settings) : Settings :=
  { s with
    useOptions := false
    options := { s.options with
      windowSize := defaultWindowSize
      blockSize := defaultBlksize
      timeoutS := defaultTimeoutS
      useAdaptiveTimeout := false
      useTsize := false } }

/-- How a round leaves the settings; `first` is whether they are still open. -/
inductive Settled (w : World Receiver) (first : Bool) (t : World Receiver) : Prop where
  | same : t.request.settings = w.request.settings → first = w.locals.isFirstReceive →
      Settled w first t
  | oack (d : Datagram) (heap : Bytes) : w.locals.isFirstReceive = true → first = false →
      ¬(w.request.answeredBy d).Unrequested (w.request.bytesReceived d) →
      t.request.settings =
        ((w.request.answeredBy d).accept (w.request.bytesReceived d) heap).settings →
      Settled w first t
  | data : w.locals.isFirstReceive = true → first = false →
      t.request.settings = w.request.settings.discard → Settled w first t

theorem Settled.congr {w t u : World Receiver} {first : Bool} (h : Settled w first t)
    (hu : u.request.settings = t.request.settings) : Settled w first u := by
  cases h with
  | same hs hf => exact .same (hu.trans hs) hf
  | oack d heap hf hf' requested hs => exact .oack d heap hf hf' requested (hu.trans hs)
  | data hf hf' hs => exact .data hf hf' (hu.trans hs)

/-- How a round that ends the loop leaves them. -/
structure Stopped (w : World Receiver) (o : Outcome) (t : World Receiver) : Prop where
  later : w.locals.isFirstReceive = false → t.request.settings = w.request.settings
  completed : o = .returned true → Settled w false t

theorem Stopped.failed {w t : World Receiver} {o : Outcome} (ho : o ≠ .returned true)
    (h : t.request.settings = w.request.settings) : Stopped w o t :=
  ⟨fun _ => h, fun h => (ho h).elim⟩

section

variable {n : ℕ} {v : World Receiver}

/-- An OACK that comes first and is acknowledged was accepted. -/
theorem receiveOack_first (hv : v.locals.isFirstReceive = true) :
    wp (receiveOack n) (fun _ t => ¬v.request.Unrequested n ∧
        ∃ heap, t.request.settings = (v.request.accept n heap).settings)
      (fun o _ => o ≠ .returned true) v := by
  unfold receiveOack
  rw [wp_bind, wp_request, wp_bind, wp_locals]
  refine wp_ite.mpr ⟨fun h => absurd (h.symm.trans hv) (by decide), fun _ => ?_⟩
  rw [wp_bind]
  refine wp_mono (handleOackPacket_outcome n v) (fun accepted t ht => ?_) fun o t ht => ?_
  · rw [wp_bind, wp_request]
    refine wp_ite.mpr ⟨fun _ => by simp, fun ok => ?_⟩
    obtain rfl : accepted = true := eq_true_of_ne_false ok
    cases ht with
    | accepted requested _ _ hr =>
        refine wp_ite.mpr ⟨fun _ => ?_, fun _ => ?_⟩
        · rw [wp_bind, wp_sendError]
          exact ⟨fun _ => by simp, fun _ => by simp⟩
        · rw [wp_sendAck]
          refine ⟨fun _ => ⟨requested, v.sys.heap, ?_⟩, fun _ => by simp⟩
          rw [← hr]
          rfl
  · cases ht with
    | onStack => decide

/-- A first DATA packet discards the options, or ends a listing. -/
theorem discardOptions_settings :
    wp discardOptions
      (fun _ t => t.request.settings = v.request.settings.discard ∧ t.locals = v.locals)
      (fun o _ => o ≠ .returned true) v := by
  unfold discardOptions
  rw [wp_bind, wp_request]
  refine wp_ite.mpr ⟨fun _ => ?_, fun unused => ?_⟩
  · rw [wp_bind, wp_modify]
    refine wp_ite.mpr ⟨fun _ => ?_, fun _ => ⟨rfl, rfl⟩⟩
    rw [wp_bind, wp_sendError]
    exact ⟨fun _ => by simp, fun _ => by simp⟩
  · refine ⟨?_, rfl⟩
    have unused : v.request.useOptions = false := eq_false_of_ne_true unused
    simp only [Request.settings, Settings.discard, unused]

theorem fixes_storeBlock (k : UInt16) (size : ℕ) : Fixes World.standing (storeBlock k size) :=
  .bind (.modifyLocals fun _ => rfl) fun _ => .bind .request fun _ => .ite (.stop _)
    (.bind (fixes_fwrite _) fun _ => .ite
      (.bind .sys fun _ => .ite (.bind (.sendError _) fun _ => .stop _) (.stop _))
      (.bind (.modify fun _ => rfl) fun _ => .bind (fixes_sendAck _) fun _ =>
        .ite (.stop _) (.pure _)))

/-- A DATA packet discards the options if it comes first, and else leaves them. -/
theorem receiveData_settings :
    wp (receiveData n)
      (fun _ t => t.request.settings =
        if v.locals.isFirstReceive then v.request.settings.discard else v.request.settings)
      (fun o t => (v.locals.isFirstReceive = false → t.request.settings = v.request.settings) ∧
        (o = .returned true → t.request.settings =
          if v.locals.isFirstReceive then v.request.settings.discard else v.request.settings))
      v := by
  unfold receiveData
  rw [wp_bind, wp_locals]
  refine wp_ite.mpr ⟨fun first => ?_, fun later => ?_⟩
  · rw [wp_bind, if_pos first]
    refine wp_mono discardOptions_settings (fun _ t ht => ?_) fun o t ho => ?_
    · refine Fixes.wp (π := World.standing) (.bind .request fun _ =>
        .ite .retransmitLastPacketSent (fixes_storeBlock _ _)) (fun _ u hu => ?_) fun o u hu => ?_
      · exact (congrArg Prod.fst hu).trans ht.1
      · exact ⟨fun h => absurd (h.symm.trans first) (by decide),
          fun _ => (congrArg Prod.fst hu).trans ht.1⟩
    · exact ⟨fun h => absurd (h.symm.trans first) (by decide), fun h => (ho h).elim⟩
  · rw [if_neg later]
    refine Fixes.wp (π := World.standing) (.bind .request fun _ =>
      .ite .retransmitLastPacketSent (fixes_storeBlock _ _)) (fun _ u hu => ?_) fun o u hu => ?_
    · exact congrArg Prod.fst hu
    · exact ⟨fun _ => congrArg Prod.fst hu, fun _ => congrArg Prod.fst hu⟩

/-- How the switch leaves the settings of a client that was given a datagram. -/
theorem switchOpcode_settles {w : World Receiver} {d : Datagram}
    (hfirst : v.locals.isFirstReceive = w.locals.isFirstReceive)
    (hv : w.locals.isFirstReceive = true → v.request = w.request.answeredBy d)
    (hs : v.request.settings = w.request.settings) :
    wp (switchOpcode (w.request.bytesReceived d))
      (fun _ t => Settled w false t) (fun o t => Stopped w o t) v := by
  unfold switchOpcode
  rw [wp_bind, wp_request]
  refine wp_ite.mpr ⟨fun _ => ?_, fun _ => wp_ite.mpr ⟨fun _ => ?_, fun _ => ?_⟩⟩
  · cases hf : w.locals.isFirstReceive with
    | true =>
        refine wp_mono (receiveOack_first (hfirst.trans hf)) (fun _ t ht => ?_) fun o t ho => ?_
        · rw [hv hf] at ht
          obtain ⟨requested, heap, settings⟩ := ht
          exact .oack d heap hf rfl requested settings
        · exact ⟨fun h => absurd (h.symm.trans hf) (by decide), fun h => (ho h).elim⟩
    | false =>
        unfold receiveOack
        rw [wp_bind, wp_request, wp_bind, wp_locals]
        refine wp_ite.mpr ⟨fun _ => .same hs hf.symm, fun h => (h (hfirst.trans hf)).elim⟩
  · have settled (t : World Receiver) (ht : t.request.settings =
        if v.locals.isFirstReceive then v.request.settings.discard else v.request.settings) :
        Settled w false t := by
      rw [hfirst, hs] at ht
      cases hf : w.locals.isFirstReceive with
      | true => exact .data hf rfl (ht.trans (if_pos hf))
      | false => exact .same (ht.trans (if_neg (by simp [hf]))) hf.symm
    refine wp_mono receiveData_settings (fun _ t ht => settled t ht) fun o t ht => ?_
    exact ⟨fun h => (ht.1 (hfirst.trans h)).trans hs, fun h => settled t (ht.2 h)⟩
  · unfold refusePacket
    rw [wp_bind, wp_locals]
    exact wp_ite.mpr ⟨fun _ => .failed (by decide) hs, fun _ => .failed (by decide) hs⟩

/-- How a packet leaves them. -/
theorem receivePacket_settles {w : World Receiver} {d : Datagram}
    (hfirst : v.locals.isFirstReceive = w.locals.isFirstReceive)
    (hv : w.locals.isFirstReceive = true → v.request = w.request.answeredBy d)
    (hs : v.request.settings = w.request.settings) :
    wp (receivePacket d.sender (w.request.bytesReceived d))
      (fun _ t => Settled w t.locals.isFirstReceive t) (fun o t => Stopped w o t) v := by
  unfold receivePacket
  rw [wp_bind, wp_request]
  refine wp_ite.mpr ⟨fun _ => ?_, fun _ => ?_⟩
  · rw [handleUnexpectedPeer, wp_trySendto]
    exact ⟨fun _ => .same hs hfirst, fun _ => .same hs hfirst⟩
  · rw [wp_bind]
    exact wp_mono (switchOpcode_settles hfirst hv hs) (fun _ _ ht => ht.congr rfl) fun _ _ ht => ht

/-- How a round leaves the settings. -/
theorem receiveRound_settles (a : Arrival) (w : World Receiver) :
    wp (receiveRound a) (fun _ t => Settled w t.locals.isFirstReceive t)
      (fun o t => Stopped w o t) w := by
  cases a with
  | failed => exact .failed (by decide) rfl
  | timeout =>
      unfold receiveRound
      rw [wp_bind, wp_request, wp_bind, wp_locals]
      refine wp_ite.mpr ⟨fun _ => ?_, fun _ => ?_⟩
      · exact wp_ite.mpr ⟨fun _ => .failed (by decide) rfl, fun _ => .failed (by decide) rfl⟩
      · rw [wp_bind, wp_retransmitLastPacketSent]
        exact ⟨fun _ => .same rfl rfl, fun _ => .failed (by decide) rfl⟩
  | datagram d =>
      unfold receiveRound receiveDatagram
      rw [wp_bind, wp_modify, wp_bind, wp_modifyLocals, wp_bind, wp_request, wp_bind, wp_locals]
      refine wp_ite.mpr ⟨fun _ => .failed (by decide) rfl, fun _ => ?_⟩
      refine wp_ite.mpr ⟨fun _ => ?_, fun later => ?_⟩
      · exact receivePacket_settles (w := w) rfl (fun _ => rfl) rfl
      · exact receivePacket_settles (w := w) rfl (fun h => (later h).elim) rfl

end

/-! ## Sending a file -/

/-- The settings of a client that sends. -/
def World.settings {L : Type} (w : World L) : Settings := w.request.settings

instance {L : Type} : Blind (World.settings (L := L)) := ⟨fun _ _ _ _ => rfl⟩

theorem fixes_fillWindow (rounds : ℕ) : Fixes World.settings (fillWindow rounds) := by
  have timer : Fixes World.settings startTimer :=
    .bind .request fun _ => .bind .locals fun _ => .ite
      (.bind .clockGettime fun _ => .bind (.modifyLocals fun _ => rfl) fun _ =>
        .ite (.bind .clockGettime fun _ => .modifyLocals fun _ => rfl) (.pure _)) (.pure _)
  have next : Fixes World.settings sendNextPacket :=
    .bind .request fun _ => .bind .locals fun _ => .ite (.stop _) (.bind .require fun _ =>
      .bind (.modifyLocals fun _ => rfl) fun _ => .bind (.sendto _ _) fun _ =>
        .bind (.modify fun _ => rfl) fun _ => .bind timer fun _ => .modifyLocals fun _ => rfl)
  induction rounds with
  | zero => exact .stop _
  | succ rounds ih =>
      exact .bind .request fun _ => .bind .locals fun _ => .ite (.bind next fun _ => ih) (.pure _)

theorem fixes_retransmitFrom (rounds : ℕ) (i : UInt16) :
    Fixes World.settings (retransmitFrom rounds i) := by
  induction rounds generalizing i with
  | zero => exact .stop _
  | succ rounds ih =>
      exact .bind .request fun _ => .bind .locals fun _ => .ite
        (.ite (.stop _) (.bind (.sendto _ _) fun _ => ih _)) (.pure _)

theorem fixes_awaitAnswer (a : Arrival) : Fixes World.settings (awaitAnswer a) := by
  have clock : Fixes World.settings restartClock :=
    .bind .clockGettime fun _ => .modifyLocals fun _ => rfl
  have timeout : Fixes World.settings onTimeout :=
    .bind .request fun _ => .bind .locals fun _ => .ite (.stop _)
      (.bind (.modifyLocals fun _ => rfl) fun _ =>
        .bind (.bind .request fun _ => .ite (.modifyLocals fun _ => rfl) (.pure _)) fun _ =>
          .bind clock fun _ => .bind .sys fun _ => .bind .locals fun _ =>
            fixes_retransmitFrom _ _)
  have ack : Fixes World.settings onAck := by
    have advance (n : UInt16) : Fixes World.settings (advanceWindow n) :=
      .bind (.modifyLocals fun _ => rfl) fun _ => .bind .locals fun _ => .ite clock (.pure _)
    have sample (n : UInt16) : Fixes World.settings (takeSample n) :=
      .bind .request fun _ => .bind .locals fun _ =>
        .ite (.bind .clockGettime fun _ => .modifyLocals fun _ => rfl) (.pure _)
    exact .bind .request fun _ => .bind .locals fun _ => .ite (.bind (advance _) fun _ =>
      .bind (.modifyLocals fun _ => rfl) fun _ => .bind (sample _) fun _ =>
        .ite (.stop _) (.pure _)) (.pure _)
  refine .bind .clockGettime fun _ => .bind .locals fun _ => .ite timeout
    (.bind .require fun _ => ?_)
  cases a with
  | failed => exact .stop _
  | timeout => exact timeout
  | datagram d =>
      exact .bind (.modify fun _ => rfl) fun _ => .bind .request fun _ =>
        .ite (.trySendto _ _) (.ite ack (.stop _))

/-- No round of `send_file` changes the settings. -/
theorem fixes_sendRound (a : Arrival) : Fixes World.settings (sendRound a) :=
  .bind (fixes_fillWindow _) fun _ => fixes_awaitAnswer a

/-! ## The answer to a write request -/

/-- The settings after an ACK of block 0. -/
def Settings.plain (s : Settings) : Settings :=
  { s with
    useOptions := false
    options := { s.options with
      blockSize := defaultBlksize
      timeoutS := defaultTimeoutS
      useTsize := false } }

/-- How the first answer leaves the settings of a client that goes on to send. -/
inductive Answered (w : World Requester) (d : Datagram) (t : World Requester) : Prop where
  | same : t.request.settings = w.request.settings → Answered w d t
  | ack : w.request.useOptions = true → t.request.settings = w.request.settings.plain →
      Answered w d t
  | oack (accepted : Bool) : w.request.useOptions = true →
      Oack (w.answeredBy d) (w.request.bytesReceived d) (.ok accepted) t → Answered w d t

theorem handleFirstAnswer_settings (w : World Requester) (d : Datagram) :
    wp (handleFirstAnswer (w.request.bytesReceived d)) (fun _ t => Answered w d t)
      (fun _ _ => True) (w.answeredBy d) := by
  unfold handleFirstAnswer takeFirstAck
  rw [wp_bind, wp_request]
  refine wp_ite.mpr ⟨fun _ => wp_ite.mpr ⟨fun _ => trivial, fun used => ?_⟩, fun _ =>
    wp_ite.mpr ⟨fun _ => wp_ite.mpr ⟨fun _ => .same rfl, fun _ => ?_⟩, fun _ => ?_⟩⟩
  · rw [wp_bind]
    exact wp_mono (handleOackPacket_outcome _ _)
      (fun b t ht => .oack b (eq_true_of_ne_false used) ht) fun _ _ _ => trivial
  · exact wp_ite.mpr ⟨fun used => .ack used rfl, fun _ => .same rfl⟩
  · exact wp_ite.mpr ⟨fun _ => trivial, fun _ => trivial⟩

/-- A client that goes on waiting has the settings it had. Before it goes on to
send, `asked` is its world once the request was sent. -/
theorem requestRound_settles (a : Arrival) (w : World Requester) :
    wp (requestRound a)
      (fun go t => if go then ∃ asked d, Requested w asked ∧ Answered asked d t
        else t.request.settings = w.request.settings)
      (fun _ _ => True) w := by
  unfold requestRound
  rw [wp_bind]
  refine wp_mono (sendRequest_spec w) (fun _ asked ha => ?_) fun _ _ _ => trivial
  obtain ⟨packet, hr, -⟩ := ha.request
  have kept : asked.request.settings = w.request.settings := by rw [hr]; rfl
  cases a with
  | failed => trivial
  | timeout =>
      rw [wp_bind, wp_request, wp_bind, wp_locals]
      exact wp_ite.mpr ⟨fun _ => trivial, fun _ => kept⟩
  | datagram d =>
      rw [wp_bind, wp_modify, wp_bind, wp_request, wp_bind]
      exact wp_mono (handleFirstAnswer_settings asked d) (fun _ t ht => ⟨asked, d, ha, ht⟩)
        fun _ _ _ => trivial

/-! ## Runs -/

/-- The settings are still those of the request. -/
def Process.Fresh (s : Settings) : Process → Prop
  | .requesting _ w => w.request.settings = s
  | .receiving w => w.locals.isFirstReceive = true → w.request.settings = s
  | _ => True

theorem fresh_start (c : Call) (s : Sys) : (c.start s).Fresh c.request.settings := by
  apply Call.start_spec
  rw [begin, wp_bind, wp_require]
  refine ⟨fun _ => ?_, fun _ => trivial⟩
  cases hty : c.requestType with
  | put => exact rfl
  | get =>
      rw [wp_bind]
      refine wp_mono (sendRequest_spec _) (fun _ t ht => ?_) fun _ _ _ => trivial
      obtain ⟨packet, hr, -⟩ := ht.request
      rw [wp_require]
      refine ⟨fun _ _ => ?_, fun _ => trivial⟩
      show t.request.settings = _
      rw [hr]
      rfl

theorem fresh_step (s : Settings) (p : Process) (e : Event) (h : p.Fresh s) :
    (p.step e).Fresh s := by
  cases p with
  | requesting file w =>
      apply Process.step_requesting
      refine wp_mono (requestRound_settles e.arrival (w.on e.sys)) (fun go t ht => ?_)
        fun _ _ _ => trivial
      cases go with
      | false => exact ht.trans h
      | true =>
          show (enterSendFile file t).Fresh s
          unfold enterSendFile
          split <;> trivial
  | receiving w =>
      apply Process.step_receiving
      refine wp_mono (receiveRound_settles e.arrival (w.on e.sys)) (fun _ t ht first => ?_)
        fun _ _ _ => trivial
      cases ht with
      | same hs hf => exact hs.trans (h (hf.symm.trans first))
      | oack _ _ _ hf => exact absurd (first.symm.trans hf) (by decide)
      | data _ hf => exact absurd (first.symm.trans hf) (by decide)
  | sending w =>
      apply Process.step_sending
      exact wp_of_both (fun _ _ => trivial) fun _ _ => trivial
  | ended o r sent => trivial

/-- In every run the settings are those of the request until they are settled. -/
theorem fresh_of_run (c : Call) (s : Sys) (events : List Event) :
    (c.run s events).Fresh c.request.settings :=
  c.run_invariant (fresh_start c s) (fresh_step _) events

end Tftp.Client
