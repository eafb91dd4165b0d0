import Tftp.Server.Closing
import Tftp.Server.Transfer

/-!
# How often a session sends again

`on_timeout` counts the timeouts it answers with a retransmission, and gives up
when it has answered as many as there are retries. A packet that the session
accepts starts the count again, and nothing else does.
-/

namespace Tftp.Server

open Prog Act

/-- The retries, and how many of them are spent. -/
structure Patience where
  retries : UInt8
  currentRetransmission : UInt8

namespace Patience

def restart (p : Patience) : Patience := { p with currentRetransmission := 0 }

def spend (p : Patience) : Patience :=
  { p with currentRetransmission := p.currentRetransmission + 1 }

end Patience

namespace World

def patience (w : World) : Patience := ⟨w.session.retries, w.session.currentRetransmission⟩

/-- An ACK that moves the window, or ends the wait for one of an OACK. -/
def TakesAck (w : World) (d : Datagram) : Prop :=
  w.session.requestType = .read ∧ w.control.IsAck d ∧
    (w.session.optionsSettled = false ∧ readU16 d.bytes 2 = 0 ∨
      isInRange (readU16 d.bytes 2) w.session.windowBegin (w.session.nextDataPacketToSend - 1))

/-- A datagram that the session accepts as progress. -/
def Progresses (w : World) (d : Datagram) : Prop :=
  w.session.shouldClose = false ∧ (w.IsOwn d ∧ w.Accepts d ∨ w.TakesAck d)

instance (w : World) (d : Datagram) : Decidable (w.Progresses d) := by
  unfold Progresses TakesAck; infer_instance

end World

instance : Detached World.patience where
  sys _ _ := rfl
  note _ _ _ := rfl
  reports _ _ _ _ := rfl
  ring _ _ _ _ _ _ := rfl
  block _ _ _ _ := rfl

instance : Unlogged World.patience := ⟨fun _ _ => rfl⟩

instance (c : Control) (r : Completion ℕ) : Decidable (c.IgnoresTimeout r) := by
  unfold Control.IgnoresTimeout; infer_instance

/-! ## The handlers -/

section Handlers

variable {w : World}

theorem sendNextBlock_patience : Fixes World.patience sendNextBlock := by
  refine .bind .sys fun _ => .bind (.modify fun w => ?_) fun _ => .bind .session fun s =>
    .bind (.getDataPacketInfo _ _ _) fun packet => .bind (.sendto _ _) fun _ =>
      .bind (.modify fun _ => rfl) fun _ => .bind .session fun _ =>
        .ite (.bind .submitTimeout fun _ => .modify fun _ => rfl) (.modify fun _ => rfl)
  split <;> rfl

theorem onStart_patience : Fixes World.patience onStart := by
  have begins : Fixes World.patience start := by
    refine start_fixes fun w s hs => ?_
    obtain ⟨_, _, _, _, _, _, _, _, _, _, _, _, _, _, _, _, _, rfl⟩ := hs
    rfl
  have oack : Fixes World.patience sendOack :=
    .bind .require fun _ => .bind .sys fun _ => .bind .session fun _ =>
      .bind (.modify fun _ => rfl) fun _ => .bind .submitTimeout fun _ => .sendto _ _
  exact .bind begins fun _ => .bind .session fun _ => .ite (.pure _)
    (.ite (.bind oack fun _ => .recvAsync) (.ite (.bind .attempt fun _ =>
      .ite (.bind (.emit _) fun _ => .recvAsync) .recvAsync) .recvAsync))

/-- Giving up sends an ERROR at most. -/
theorem giveUp_silent :
    wp giveUp (fun _ t => t.session.shouldClose ∧ w.Silent t) (fun _ t => w.Silent t) w := by
  simp only [giveUp, recvAsyncCancel, setMaxRetransmissionsError, sendErrorPacket, errorPacketInit,
    recordFailure, sendto, wp_bind, wp_modify, wp_update, wp_session, wp_emit, wp_require, wp_pure]
  refine ⟨fun _ => ⟨fun _ => ⟨fun _ => ⟨fun _ => ⟨rfl, ?_⟩, fun _ => ?_⟩, fun _ => ?_⟩, fun _ => ?_⟩,
    fun _ => ?_⟩
  · exact ⟨_, List.append_assoc _ _ _, by simp [Entry.isTransfer]⟩
  · exact ⟨_, rfl, by simp [Entry.isTransfer]⟩
  · exact ⟨_, rfl, by simp [Entry.isTransfer]⟩
  · exact .of_log rfl
  · exact .of_log rfl

theorem onTimeout_givesUp (spent : w.session.retries ≤ w.session.currentRetransmission) :
    wp onTimeout (fun _ t => t.session.shouldClose ∧ w.Silent t) (fun _ t => w.Silent t) w := by
  rw [onTimeout, wp_bind, wp_session, if_pos spent]
  exact giveUp_silent

theorem onTimeout_spends (left : ¬w.session.retries ≤ w.session.currentRetransmission) :
    wp onTimeout (fun _ t => t.patience = w.patience.spend) (fun _ _ => True) w := by
  have keeps : Fixes World.patience (do
      submitTimeout
      retransmit) := .bind .submitTimeout fun _ => .retransmit
  rw [onTimeout, wp_bind, wp_session, if_neg left, wp_bind, wp_modify, wp_bind, wp_modify]
  refine keeps.wp fun _ t ht => ht.trans ?_
  unfold World.patience
  dsimp only
  split <;> rfl

theorem acceptBlock_patience (n : UInt16) (data : Bytes) :
    wp (acceptBlock n data) (fun _ t => t.patience = w.patience.restart) (fun _ _ => True) w := by
  rw [acceptBlock, wp_bind, wp_session, wp_bind, wp_sys, wp_bind, wp_emit]
  cases w.sys.write with
  | none =>
      rw [wp_bind, wp_recordFailure]
      trivial
  | some written =>
      rw [wp_bind, wp_modify, wp_bind, wp_sendto]
      exact ⟨fun _ => rfl, fun _ => trivial⟩

theorem acceptAck_patience (n : UInt16) :
    wp (acceptAck n) (fun _ t => t.patience = w.patience.restart) (fun _ _ => True) w := by
  rw [acceptAck, wp_bind, wp_modify, wp_bind, wp_sys, wp_bind, wp_modify]
  generalize hv : ({ session := _, sys := _, inflight := _, log := _ } : World) = v
  have kept : v.patience = w.patience := by
    subst hv
    unfold World.patience
    dsimp only
    split <;> rfl
  have ends {t : World} (ht : t.patience = v.patience) :
      { t.patience with currentRetransmission := 0 } = w.patience.restart := by
    rw [ht, kept]
    rfl
  rw [wp_bind]
  refine (Fixes.submitCancelTimeout : Fixes World.patience _).wp fun _ t ht => ?_
  rw [wp_bind, wp_session, wp_ite]
  refine ⟨fun _ => ?_, fun _ => ends ht⟩
  rw [wp_bind]
  exact (Fixes.submitTimeout : Fixes World.patience _).wp fun _ t' ht' => ends (ht'.trans ht)

/-- A datagram restarts the count exactly when it is progress. -/
theorem onPacketReceived_patience {d : Datagram} (hopen : w.session.shouldClose = false) :
    wp (onPacketReceived (.ok d))
      (fun _ t => t.patience = if w.Progresses d then w.patience.restart else w.patience)
      (fun _ _ => True) w := by
  have other {x : Act Unit} (hx : Fixes World.patience x) (hn : ¬w.Progresses d) :
      wp x (fun _ t => t.patience = if w.Progresses d then w.patience.restart else w.patience)
        (fun _ _ => True) w := by
    rw [if_neg hn]
    exact hx.wp fun _ _ ht => ht
  have foreign (hn : ¬(4 ≤ d.bytes.length ∧ sockaddrEquals d.sender w.session.clientAddress)) :
      ¬w.Progresses d := by
    rintro ⟨-, ⟨own, -⟩ | ⟨-, own, -⟩⟩
    · exact hn own.2
    · exact hn ⟨own.1, own.2.1⟩
  rw [onPacketReceived, wp_bind, wp_session]
  refine wp_ite.mpr ⟨fun short => ?_, fun long => wp_ite.mpr ⟨fun notInet => ?_, fun inet =>
    wp_ite.mpr ⟨fun stranger => ?_, fun own => ?_⟩⟩⟩
  · exact other (.pure _) (foreign fun h => absurd short (not_lt.mpr h.1))
  · refine other (.pure _) (foreign fun h => ?_)
    obtain ⟨-, inet⟩ := sockaddrEquals_iff.mp h.2
    exact absurd (inet.symm.trans notInet) (by decide)
  · exact other (.unknownTransferId _) (foreign fun h => absurd (stranger.symm.trans h.2) (by decide))
  · have own : 4 ≤ d.bytes.length ∧ sockaddrEquals d.sender w.session.clientAddress :=
      ⟨not_lt.mp long, eq_true_of_ne_false own⟩
    have accepted {x : Act Unit} (hp : w.Progresses d)
        (hx : wp x (fun _ t => t.patience = w.patience.restart) (fun _ _ => True) w) :
        wp x (fun _ t => t.patience = if w.Progresses d then w.patience.restart else w.patience)
          (fun _ _ => True) w := by
      rw [if_pos hp]
      exact hx
    refine wp_ite.mpr ⟨fun error => ?_, fun _ => wp_ite.mpr ⟨fun data => ?_, fun notData =>
      wp_ite.mpr ⟨fun ack => ?_, fun notAck => ?_⟩⟩⟩
    · refine other (.bind (.flag _ _ _ _) fun _ => .reportClientError _) ?_
      rintro ⟨-, ⟨-, data, -⟩ | ⟨-, ⟨-, -, ack⟩, -⟩⟩
      · exact absurd (error.symm.trans data) (by decide)
      · exact absurd (error.symm.trans ack) (by decide)
    · have progress (h : w.session.optionsSettled = false ∧ readU16 d.bytes 2 = 1 ∨
          readU16 d.bytes 2 = w.session.expectedSequenceNumber) : w.Progresses d :=
        ⟨hopen, .inl ⟨⟨hopen, own⟩, data.1, data.2, h⟩⟩
      rw [onData, wp_bind, wp_session, wp_ite]
      refine ⟨fun pending => ?_, fun settled => wp_ite.mpr ⟨fun unexpected => ?_, fun expected => ?_⟩⟩
      · refine accepted (progress (.inl pending)) ?_
        rw [wp_bind, wp_modify]
        exact acceptBlock_patience _ _
      · refine other (.pure _) ?_
        rintro ⟨-, ⟨-, -, -, first | next⟩ | ⟨-, ⟨-, -, ack⟩, -⟩⟩
        · exact settled first
        · exact unexpected next
        · exact absurd (data.1.symm.trans ack) (by decide)
      · exact accepted (progress (.inr (not_not.mp expected))) (acceptBlock_patience _ _)
    · have progress (h : w.session.optionsSettled = false ∧ readU16 d.bytes 2 = 0 ∨
          isInRange (readU16 d.bytes 2) w.session.windowBegin
            (w.session.nextDataPacketToSend - 1)) : w.Progresses d :=
        ⟨hopen, .inr ⟨ack.2, ⟨own.1, own.2, ack.1⟩, h⟩⟩
      rw [onAck, wp_bind, wp_session, wp_ite]
      refine ⟨fun pending => ?_, fun settled => wp_ite.mpr ⟨fun outside => ?_, fun inside => ?_⟩⟩
      · refine accepted (progress (.inl pending)) ?_
        rw [wp_bind, wp_modify]
        exact acceptAck_patience _
      · refine other (.pure _) ?_
        rintro ⟨-, ⟨-, data, -⟩ | ⟨-, -, first | inside⟩⟩
        · exact absurd (ack.1.symm.trans data) (by decide)
        · exact settled first
        · exact absurd (outside.symm.trans inside) (by decide)
      · refine accepted (progress (.inr (eq_true_of_ne_false inside))) ?_
        rw [wp_bind, wp_modify]
        exact acceptAck_patience _
    · refine other .unexpectedOpcode ?_
      rintro ⟨-, ⟨-, data, write, -⟩ | ⟨read, ⟨-, -, ack⟩, -⟩⟩
      · exact notData ⟨data, write⟩
      · exact notAck ⟨ack, read⟩

/-- What an event leaves of the patience of a session that does not give up. -/
def World.patienceAfter (w : World) : Event → Patience
  | .timeout c => if w.control.IgnoresTimeout c then w.patience else w.patience.spend
  | .packetReceived (.ok d) => if w.Progresses d then w.patience.restart else w.patience
  | _ => w.patience

theorem dispatch_patience {e : Event} (he : e ≠ .start)
    (left : ∀ c, e = .timeout c → ¬w.control.IgnoresTimeout c →
      ¬w.session.retries ≤ w.session.currentRetransmission) :
    wp (dispatch e) (fun _ t => t.patience = w.patienceAfter e) (fun _ _ => True) w := by
  have quiet {x : Act Unit} (hx : Fixes World.patience x) :
      wp x (fun _ t => t.patience = w.patience) (fun _ _ => True) w := hx.wp fun _ _ ht => ht
  cases e with
  | start => exact (he rfl).elim
  | timeout c =>
      refine wp_dispatch_timeout.mpr ⟨fun ignored => (if_pos ignored).symm, fun answered => ?_⟩
      rw [World.patienceAfter, if_neg answered]
      exact onTimeout_spends (w := w.reaped) (left c rfl answered)
  | dataAvailable r =>
      exact quiet (.bind .jobDone fun _ => .bind (.flag _ _ _ _) fun _ =>
        .onDataAvailable sendNextBlock_patience r)
  | timeoutRemoved r =>
      refine quiet (.bind .jobDone fun _ => ?_)
      cases r with
      | ok n => exact .pure _
      | error e => exact .ite (.stop _) (.pure _)
  | packetReceivedRemoved r =>
      refine quiet (.bind .jobDone fun _ => ?_)
      cases r with
      | ok n => exact .pure _
      | error e => exact .ite (.stop _) (.pure _)
  | packetReceived r =>
      cases r with
      | error e =>
          exact quiet (.bind .jobDone fun _ => .bind .session fun _ =>
            .ite (.pure _) (.ite (.pure _) (.stop _)))
      | ok d =>
          rw [dispatch, wp_bind, wp_jobDone, wp_bind, wp_session, wp_ite]
          refine ⟨fun closing => ?_, fun isOpen => ?_⟩
          · have closing : ¬w.Progresses d := by
              rintro ⟨isOpen, -⟩
              exact absurd (isOpen.symm.trans closing) (by decide)
            exact (if_neg closing).symm
          · have received := onPacketReceived_patience (w := w.reaped) (d := d)
              (eq_false_of_ne_true isOpen)
            have listens : Fixes World.patience (do
                let s ← session
                if s.shouldClose then pure () else recvAsync) :=
              .bind .session fun _ => .ite (.pure _) .recvAsync
            refine wp_bind.mpr (wp_mono received ?_ fun _ _ _ => trivial)
            exact fun _ t ht => listens.wp fun _ t' ht' => ht'.trans ht

end Handlers

/-! ## Calls -/

section Calls

variable {sys : Sys} {w : World}

theorem deliver_givesUp {c : Completion ℕ} (hc : ¬w.control.IgnoresTimeout c)
    (spent : w.session.retries ≤ w.session.currentRetransmission) :
    w.Silent (deliver sys (.timeout c) w).world ∧
      ((deliver sys (.timeout c) w).listening →
        (deliver sys (.timeout c) w).world.session.shouldClose) := by
  refine deliver_spec (P := fun l => w.Silent l.world ∧ (l.listening → l.world.session.shouldClose)) ?_
  refine wp_bind.mpr (wp_dispatch_timeout.mpr ⟨fun ignored => (hc ignored).elim, fun _ =>
    wp_mono (onTimeout_givesUp spent) ?_ ?_⟩)
  · rintro _ t ⟨closing, silent⟩
    -- nothing is read ahead
    rw [wp_bind, wp_fetchData_idle (shouldFetch_of_closing closing)]
    refine wp_finish.mpr ⟨fun _ => ⟨?_, fun _ => closing⟩, fun _ => ⟨silent, fun _ => closing⟩⟩
    exact silent.trans ⟨_, rfl, closingEntries_silent _⟩
  · intro a t silent
    refine ⟨silent, fun hl => ?_⟩
    cases a <;> simp [Live.listening, Abort.status] at hl

theorem deliver_patience {e : Event} (he : e ≠ .start)
    (left : ∀ c, e = .timeout c → ¬w.control.IgnoresTimeout c →
      ¬w.session.retries ≤ w.session.currentRetransmission)
    (hl : (deliver sys e w).listening) :
    (deliver sys e w).world.patience = w.patienceAfter e := by
  have rest : Fixes World.patience (do
      fetchData
      finish) := .bind .fetchData fun _ => .finish
  refine deliver_returns (P := fun t => t.patience = _) ?_ hl
  refine wp_bind.mpr (wp_mono (dispatch_patience (w := { w with sys := sys }) he left) ?_
    fun _ _ _ => trivial)
  exact fun _ t ht => rest.wp fun _ t' ht' => ht'.trans ht

end Calls

/-! ## Runs -/

/-- A session with the number of timeouts it has answered since the last packet
it accepted. -/
structure Attempt where
  live : Live
  timeouts : ℕ

namespace Attempt

def boot (info : ServerInfo) (request : PeerMessage) : Attempt := ⟨Live.boot info request, 0⟩

/-- That number after a step. -/
def timeoutsAfter (x : Attempt) : Label → ℕ
  | .complete _ _ (.timeout c) =>
      if x.live.world.control.IgnoresTimeout c then x.timeouts else x.timeouts + 1
  | .complete _ _ (.packetReceived (.ok d)) =>
      if x.live.world.Progresses d then 0 else x.timeouts
  | _ => x.timeouts

inductive Step : Attempt → Label → Attempt → Prop where
  | mk {x : Attempt} {label : Label} {l : Live} : Server.Step x.live label l →
      Step x label ⟨l, x.timeoutsAfter label⟩

def Runs : Attempt → Attempt → Prop := Relation.ReflTransGen fun x y => ∃ label, Step x label y

/-- As long as the session is not closing it has answered no more than `r`
timeouts, and the one that comes after these makes it close, which sends
nothing of the transfer. -/
structure Bounded (r : UInt8) (x : Attempt) : Prop where
  within : x.live.listening → x.live.world.session.shouldClose = false → x.timeouts ≤ r.toNat
  givesUp : ∀ op sys c y, Step x (.complete op sys (.timeout c)) y →
    ¬x.live.world.control.IgnoresTimeout c → x.timeouts = r.toNat →
      x.live.world.Silent y.live.world ∧ (y.live.listening → y.live.world.session.shouldClose)

/-- The count of the session is that of the run. -/
structure Counted (info : ServerInfo) (request : PeerMessage) (x : Attempt) : Prop where
  fresh : x.live.status = .fresh → x = boot info request
  retries : x.live.listening → x.live.world.session.retries = info.retries
  timeouts : x.live.listening → x.live.world.session.shouldClose = false →
    x.timeouts = x.live.world.session.currentRetransmission.toNat
  within : x.live.listening → x.live.world.session.shouldClose = false →
    x.timeouts ≤ info.retries.toNat

variable {info : ServerInfo} {request : PeerMessage} {x y : Attempt}

/-- The two counts move together while retries are left. -/
theorem timeoutsAfter_eq {op : Op} {sys : Sys} {e : Event}
    (counted : x.timeouts = x.live.world.session.currentRetransmission.toNat)
    (within : x.timeouts ≤ x.live.world.session.retries.toNat)
    (left : ∀ c, e = .timeout c → ¬x.live.world.control.IgnoresTimeout c →
      ¬x.live.world.session.retries ≤ x.live.world.session.currentRetransmission) :
    x.timeoutsAfter (.complete op sys e) =
        (x.live.world.patienceAfter e).currentRetransmission.toNat ∧
      x.timeoutsAfter (.complete op sys e) ≤ x.live.world.session.retries.toNat := by
  cases e with
  | timeout c =>
      unfold timeoutsAfter World.patienceAfter
      dsimp only
      by_cases ignored : x.live.world.control.IgnoresTimeout c
      · rw [if_pos ignored, if_pos ignored]
        exact ⟨counted, within⟩
      · rw [if_neg ignored, if_neg ignored]
        have below := left c rfl ignored
        rw [UInt8.le_iff_toNat_le, ← counted] at below
        -- the counter of the session does not wrap below a retry that is left
        have small := x.live.world.session.retries.toNat_lt
        have next : x.live.world.patience.spend.currentRetransmission.toNat =
            (x.live.world.session.currentRetransmission.toNat + 1) % 2 ^ 8 := UInt8.toNat_add _ 1
        rw [next, ← counted]
        omega
  | packetReceived r =>
      cases r with
      | error e => exact ⟨counted, within⟩
      | ok d =>
          unfold timeoutsAfter World.patienceAfter
          dsimp only
          by_cases progress : x.live.world.Progresses d
          · rw [if_pos progress, if_pos progress]
            exact ⟨rfl, Nat.zero_le _⟩
          · rw [if_neg progress, if_neg progress]
            exact ⟨counted, within⟩
  | start => exact ⟨counted, within⟩
  | dataAvailable r => exact ⟨counted, within⟩
  | timeoutRemoved r => exact ⟨counted, within⟩
  | packetReceivedRemoved r => exact ⟨counted, within⟩

namespace Counted

theorem boot : Counted info request (boot info request) where
  fresh _ := rfl
  retries h := by simp [Live.listening, Attempt.boot, Live.boot] at h
  timeouts h := by simp [Live.listening, Attempt.boot, Live.boot] at h
  within h := by simp [Live.listening, Attempt.boot, Live.boot] at h

theorem started {sys : Sys} (h : Counted info request x) (hf : x.live.status = .fresh) :
    Counted info request ⟨deliver sys .start x.live.world, x.timeouts⟩ := by
  obtain rfl := h.fresh hf
  have patience (hl : (deliver sys .start (Live.boot info request).world).listening) :
      (deliver sys .start (Live.boot info request).world).world.patience = ⟨info.retries, 0⟩ := by
    have keeps : Fixes World.patience (handleEvent .start) :=
      .bind onStart_patience fun _ => .bind .fetchData fun _ => .finish
    exact deliver_returns (P := fun t => t.patience = ⟨info.retries, 0⟩)
      (keeps.wp fun _ _ ht => ht) hl
  constructor
  · exact fun fresh => (deliver_ne_fresh _ _ _ fresh).elim
  · exact fun hl => congrArg Patience.retries (patience hl)
  · exact fun hl _ => congrArg (fun p => p.currentRetransmission.toNat) (patience hl).symm
  · exact fun _ _ => Nat.zero_le _

/-- The timeouts the session counts are those it answers. -/
theorem completed {pre post : List Op} {op : Op} {sys : Sys} {e : Event}
    (h : Counted info request x) (hl : x.live.listening)
    (hops : x.live.world.inflight = pre ++ op :: post) (hr : op.Reports e) :
    Counted info request ⟨deliver sys e { x.live.world with inflight := pre ++ post },
      x.timeoutsAfter (.complete op sys e)⟩ := by
  have hs : Server.Step x.live (.complete op sys e)
      (deliver sys e { x.live.world with inflight := pre ++ post }) := .complete op sys e hl hops hr
  have notStart : e ≠ .start := fun he => Op.not_reports_start (he ▸ hr)
  have settings := hs.settings hl.ne_fresh
  have counts (hl' : (deliver sys e { x.live.world with inflight := pre ++ post }).listening)
      (hopen : (deliver sys e
        { x.live.world with inflight := pre ++ post }).world.session.shouldClose = false) :
      x.timeoutsAfter (.complete op sys e) = (deliver sys e
        { x.live.world with inflight := pre ++ post }).world.session.currentRetransmission.toNat ∧
      x.timeoutsAfter (.complete op sys e) ≤ info.retries.toNat := by
    have wasOpen : x.live.world.session.shouldClose = false :=
      deliver_open (w := { x.live.world with inflight := pre ++ post }) notStart hl' hopen
    have left (c : Completion ℕ) (he : e = .timeout c)
        (answered : ¬x.live.world.control.IgnoresTimeout c) :
        ¬x.live.world.session.retries ≤ x.live.world.session.currentRetransmission := by
      rintro none_
      subst he
      have closing := (deliver_givesUp (w := { x.live.world with inflight := pre ++ post })
        answered none_).2 hl'
      exact absurd (hopen.symm.trans closing) (by decide)
    have patience := deliver_patience (w := { x.live.world with inflight := pre ++ post })
      notStart left hl'
    have within := (h.within hl wasOpen).trans_eq (congrArg UInt8.toNat (h.retries hl).symm)
    have moved := @timeoutsAfter_eq _ op sys e (h.timeouts hl wasOpen) within left
    rw [h.retries hl] at moved
    have current := congrArg (fun p => p.currentRetransmission.toNat) patience
    exact ⟨moved.1.trans current.symm, moved.2⟩
  constructor
  · exact fun fresh => (deliver_ne_fresh _ _ _ fresh).elim
  · exact fun _ => (congrArg Settings.retries settings).trans (h.retries hl)
  · exact fun hl' hopen => (counts hl' hopen).1
  · exact fun hl' hopen => (counts hl' hopen).2

theorem step {label : Label} (h : Counted info request x) (hs : Step x label y) :
    Counted info request y := by
  cases hs with
  | mk taken =>
      cases taken with
      | start sys hf => exact h.started hf
      | complete op sys e hl hops hr => exact h.completed hl hops hr
      | expire hl hops =>
          exact ⟨fun hf => (hl.ne_fresh hf).elim, h.retries, h.timeouts, h.within⟩
      | fill bytes hl hops room =>
          exact ⟨fun hf => (hl.ne_fresh hf).elim, h.retries, h.timeouts, h.within⟩

theorem bounded (h : Counted info request x) : Bounded info.retries x where
  within := h.within
  givesUp op sys c y hs answered spent := by
    cases hs with
    | mk taken =>
        cases taken with
        | complete op sys e hl hops hr =>
            have isOpen : x.live.world.session.shouldClose = false :=
              eq_false_of_ne_true fun closing => answered (.inr (.inl closing))
            have none_ : x.live.world.session.retries ≤
                x.live.world.session.currentRetransmission := by
              rw [h.retries hl, UInt8.le_iff_toNat_le, ← h.timeouts hl isOpen, spent]
            exact deliver_givesUp answered none_

end Counted

/-- A session with `r` retries answers at most `r` timeouts with a
retransmission before it accepts a packet, and gives up at the next one. -/
theorem bounded_of_runs (h : Runs (boot info request) x) : Bounded info.retries x := by
  have counted : Counted info request x := by
    induction h with
    | refl => exact .boot
    | tail _ hs ih =>
        obtain ⟨label, taken⟩ := hs
        exact ih.step taken
  exact counted.bounded

end Attempt

end Tftp.Server
