import Tftp.Server.Control

/-!
# Counting the operations in flight

`pending_jobs` is one byte. Every submission counts and every completion is
uncounted first, so the byte is always the number of operations in flight
reduced modulo 256. It is the number itself exactly as long as at most 255
operations are in flight; the session closes on the byte.
-/

namespace Tftp.Server

namespace Control

/-- The byte agrees with the number of operations in flight, up to wrap. -/
def Counted (c : Control) : Prop := c.pendingJobs = UInt8.ofNat c.inflight.length

theorem uint8_ofNat_succ (n : ℕ) : UInt8.ofNat (n + 1) = UInt8.ofNat n + 1 := by
  rw [← UInt8.toNat_inj, UInt8.toNat_add]
  simp

@[simp] theorem length_removeTimer (ops : List Op) : (removeTimer ops).length = ops.length := by
  induction ops using removeTimer.induct with
  | case1 => rfl
  | case2 ops => rfl
  | case3 op ops h ih =>
      rw [removeTimer]
      · simp [ih]
      · exact h

@[simp] theorem length_cancelRecv (ops : List Op) : (cancelRecv ops).length = ops.length := by
  induction ops using cancelRecv.induct with
  | case1 => rfl
  | case2 _ ops => rfl
  | case3 op ops h ih =>
      rw [cancelRecv]
      · simp [ih]
      · exact h

namespace Counted

variable {c : Control}

theorem submit (h : c.Counted) (op : Op) : (c.submit op).Counted := by
  simp_all [Counted, Control.submit, uint8_ofNat_succ]

theorem arm (h : c.Counted) : c.arm.Counted := h.submit (.timeout .armed)

theorem disarm (h : c.Counted) : c.disarm.Counted := by
  simp_all [Counted, Control.disarm, Control.submit, uint8_ofNat_succ]

theorem giveUp (h : c.Counted) : c.giveUp.Counted := by
  simp_all [Counted, Control.giveUp, Control.close, Control.submit, uint8_ofNat_succ]

theorem listen (h : c.Counted) : c.listen.Counted := by
  unfold Control.listen
  split
  · exact h
  · exact h.submit _

theorem acceptAck (h : c.Counted) (n : UInt16) : (c.acceptAck n).Counted := by
  have moved : { c with windowBegin := n + 1 }.disarm.Counted := disarm h
  unfold Control.acceptAck ackMoved
  dsimp only
  split
  · exact arm moved
  · exact moved

theorem sendNext (h : c.Counted) (short : Bool) : (c.sendNext short).Counted := by
  unfold Control.sendNext
  dsimp only
  split
  · exact arm h
  · exact h

theorem fetch (h : c.Counted) (op : Op) : (c.fetch op).Counted := by
  unfold Control.fetch
  split
  · exact h.submit op
  · exact h

theorem receives (h : c.Counted) {d : Datagram} {c' : Control} (hr : c.Receives d c') :
    c'.Counted := by
  cases hr with
  | ignored => exact h
  | closed => exact h
  | optionsAck =>
      have settled : { c with optionsPending := false }.Counted := h
      exact settled.acceptAck 0
  | ack => exact h.acceptAck _
  | data => exact h

/-- An operation leaves the ring and is uncounted. -/
theorem reap {pre post : List Op} {op : Op} (h : c.Counted)
    (hops : c.inflight = pre ++ op :: post) :
    { c with inflight := pre ++ post }.reap.Counted := by
  have hlen : c.inflight.length = (pre ++ post).length + 1 := by
    rw [hops]
    simp
    omega
  rw [Counted, hlen, uint8_ofNat_succ] at h
  simp [Counted, Control.reap, h]

theorem takes {e : Event} {c' : Control} (he : e ≠ .start) (h : c.reap.Counted)
    (ht : c.Takes e c') : c'.Counted := by
  cases e with
  | start => exact (he rfl).elim
  | timeout r =>
      rcases ht with ⟨-, rfl⟩ | ⟨-, rfl | rfl⟩
      · exact h
      · exact h.giveUp
      · exact h.arm
  | timeoutRemoved r => exact ht ▸ h
  | packetReceivedRemoved r => exact ht ▸ h
  | packetReceived r =>
      rcases ht with ⟨-, rfl⟩ | ⟨-, d, c₁, -, hr, rfl⟩
      · exact h
      · exact (h.receives hr).listen
  | dataAvailable r =>
      have h : { c.reap with isFetchingData := false }.Counted := h
      rcases ht with ⟨e, -, rfl⟩ | rfl | ⟨short, rfl⟩
      · exact h
      · exact h
      · exact h.sendNext short

theorem start {c' : Control} (hc : c.Untouched) (ht : c.Takes .start c') : c'.Counted := by
  obtain ⟨c₁, h₁, rfl⟩ := ht hc
  have h₁ : c₁.Counted := by simp [Counted, h₁.inflight, h₁.pendingJobs]
  unfold started
  split
  · exact h₁
  · split
    · exact h₁.arm.submit _
    · exact h₁.submit _

end Counted

end Control

/-- What holds of a session between two calls. -/
structure Accounted (l : Live) : Prop where
  fresh : l.status = .fresh → l.world.control.Untouched
  counted : l.listening → l.world.control.Counted
  closed : l.listening → (l.status = .closed ↔
    l.world.control.shouldClose ∧ l.world.control.pendingJobs = 0)

namespace Accounted

theorem boot (info : ServerInfo) (request : PeerMessage) : Accounted (Live.boot info request) where
  fresh _ := ⟨rfl, rfl, rfl, rfl, rfl, rfl, rfl⟩
  counted h := by simp [Live.listening, Live.boot] at h
  closed h := by simp [Live.listening, Live.boot] at h

theorem delivered {P : Control → Prop} {l : Live} (h : l.Ends P) (hfresh : l.status ≠ .fresh)
    (hc : ∀ c', P c' → c'.Counted) : Accounted l where
  fresh hf := (hfresh hf).elim
  counted hl := by
    obtain ⟨c₁, ht, -, op, -, hc'⟩ := (h hl).1
    rw [hc']
    exact (hc c₁ ht).fetch op
  closed hl := (h hl).2

/-- The moves of the system between calls replace one operation by another. -/
theorem between {l l' : Live} {ops : List Op} (h : Accounted l) (hl : l.listening)
    (hs : l'.status = l.status) (hc : l'.world.control = { l.world.control with inflight := ops })
    (hlen : ops.length = l.world.inflight.length) : Accounted l' where
  fresh hf := (hl.ne_fresh (hs ▸ hf)).elim
  counted _ := by
    have counted := h.counted hl
    simp only [Control.Counted, hc, hlen]
    exact counted
  closed _ := by
    rw [hs, hc]
    exact h.closed hl

theorem step {l l' : Live} {label : Label} (h : Accounted l) (hs : Step l label l') :
    Accounted l' := by
  cases hs with
  | start sys hf =>
      exact delivered (deliver_control _ _ _) (deliver_ne_fresh _ _ _) fun _ ht =>
        Control.Counted.start (h.fresh hf) ht
  | complete op sys e hl hops hr =>
      refine delivered (deliver_control _ _ _) (deliver_ne_fresh _ _ _) fun _ ht => ?_
      refine Control.Counted.takes ?_ ((h.counted hl).reap hops) ht
      rintro rfl
      exact Op.not_reports_start hr
  | expire hl hops => exact h.between hl rfl rfl (by simp [hops])
  | fill bytes hl hops _ => exact h.between hl rfl rfl (by simp [hops])

end Accounted

/-- Any sequence of steps. -/
def anySteps : Condition := fun _ _ => True

theorem accounted_of_runs {C : Condition} {info : ServerInfo} {request : PeerMessage} {l : Live}
    (h : Runs C (Live.boot info request) l) : Accounted l :=
  h.invariant (fun _ _ _ h hs _ => h.step hs) (Accounted.boot info request)

/-- The session has returned `TFTP_SESSION_STATE_CLOSED` at most once, with
nothing in flight, and returns it as soon as it is closing with nothing in
flight. -/
structure ClosesOnce (l : Live) : Prop where
  drained : l.status = .closed → l.world.inflight = []
  final : l.status = .closed → ∀ label l', ¬Step l label l'
  prompt : l.world.session.shouldClose → l.world.inflight = [] → l.status = .closed

theorem Step.of_drained {l l' : Live} {label : Label} (hs : Step l label l')
    (h : l.world.inflight = []) : l.status = .fresh := by
  cases hs with
  | start sys hf => exact hf
  | complete op sys e hl hops hr => simp [h] at hops
  | expire hl hops => simp [h] at hops
  | fill bytes hl hops _ => simp [h] at hops

/-- In every reachable state the counter is the number of operations in
flight, and the session closes once and with none in flight, exactly when at
most 255 operations are in flight. -/
theorem pendingJobs_exact_iff {info : ServerInfo} {request : PeerMessage} {l : Live}
    (h : Runs anySteps (Live.boot info request) l) (hl : l.listening) :
    l.world.session.pendingJobs.toNat = l.world.inflight.length ∧ ClosesOnce l ↔
      l.world.inflight.length ≤ 255 := by
  have acc := accounted_of_runs h
  have counted : l.world.session.pendingJobs = UInt8.ofNat l.world.inflight.length :=
    acc.counted hl
  have closed : l.status = .closed ↔
      l.world.session.shouldClose ∧ l.world.session.pendingJobs = 0 := acc.closed hl
  constructor
  · rintro ⟨exact_, -⟩
    have hlt := l.world.session.pendingJobs.toNat_lt
    omega
  · intro few
    have exact_ : l.world.session.pendingJobs.toNat = l.world.inflight.length := by
      rw [counted, UInt8.toNat_ofNat']
      omega
    have drained (hc : l.status = .closed) : l.world.inflight = [] := by
      rw [(closed.mp hc).2] at exact_
      exact List.length_eq_zero_iff.mp exact_.symm
    refine ⟨exact_, drained, fun hc label l' hs => ?_, fun hclose hnone => closed.mpr ⟨hclose, ?_⟩⟩
    · have fresh := hs.of_drained (drained hc)
      simp [hc] at fresh
    · rw [counted, hnone]
      rfl

/-- A client that acknowledges block 0 over and over, and then gives up,
makes the session close while 256 operations are in flight. -/
theorem closed_with_operations_in_flight :
    ∃ l, Runs anySteps (Live.boot plainInfo (plainRequest Opcode.rrq "octet")) l ∧
      l.status = .closed ∧ l.world.session.pendingJobs = 0 ∧ l.world.inflight.length = 256 := by
  have h : ((replay
      (.start fileOpens :: List.replicate 255 (arrival (.ack 0)) ++ [arrival (.error 0 [])])
      (Live.boot plainInfo (plainRequest Opcode.rrq "octet"))).map fun l =>
        (l.status, l.world.session.pendingJobs, l.world.inflight.length)) =
      some (.closed, 0, 256) := by
    decide +kernel
  obtain ⟨l, hl, he⟩ := Option.map_eq_some_iff.mp h
  simp only [Prod.mk.injEq] at he
  exact ⟨l, replay_runs hl fun _ _ _ => trivial, he⟩

/-- After the request is handled a receive and a read are in flight. -/
theorem pendingJobs_exact_started :
    (deliver fileOpens .start
      (Live.boot plainInfo (plainRequest Opcode.rrq "octet")).world).world.session.pendingJobs.toNat
      = 2 := by
  have hrun : Runs anySteps (Live.boot plainInfo (plainRequest Opcode.rrq "octet"))
      (deliver fileOpens .start (Live.boot plainInfo (plainRequest Opcode.rrq "octet")).world) :=
    .single ⟨.start fileOpens, .start fileOpens rfl, trivial⟩
  exact ((pendingJobs_exact_iff hrun (.inl (by decide +kernel))).mpr (by decide +kernel)).1.trans
    (by decide +kernel)

end Tftp.Server
