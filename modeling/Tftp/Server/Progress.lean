import Tftp.Server.Ring
import Tftp.Server.Start

/-!
# A session is never left waiting for its peer

A session between two calls waits for the operations it has in flight. All of
them complete by themselves but one: a receive that was not cancelled
completes only when the peer sends something. `Timed` and `Drained` are what
keeps some other operation in flight; each fails in one place of the source,
and `NoStall` excludes the two.
-/

namespace Tftp.Server

/-- The operation completes without any further datagram of the peer. -/
def Op.Bound (op : Op) : Prop := op ≠ .recv false

/-- A timeout in flight that was not removed. -/
def Op.isTicking : Op → Bool
  | .timeout .removed => false
  | .timeout _ => true
  | _ => false

namespace Control

/-- A session that waits for its peer has a timeout in flight. -/
def Timed (c : Control) : Prop :=
  c.shouldClose = false →
    (c.windowBegin ≠ c.nextDataPacketToSend ∨ c.optionsPending ∨ c.requestType = .write ∨
      c.lastPacket ≠ none) →
    c.isTimerActive ∧ ∃ op ∈ c.inflight, op.isTicking

/-- A closing session does not wait for its peer. -/
def Drained (c : Control) : Prop := c.shouldClose → .recv false ∉ c.inflight

/-! ## What the moves keep -/

namespace Timed

variable {c : Control}

theorem ticks : ∃ op ∈ c.arm.inflight, op.isTicking :=
  ⟨.timeout .armed, List.mem_append_right _ (by simp), rfl⟩

theorem arm : c.arm.Timed := fun _ _ => ⟨rfl, ticks⟩

theorem submit (h : c.Timed) (op : Op) : (c.submit op).Timed := fun hc hw => by
  obtain ⟨active, timer, hm, ht⟩ := h hc hw
  exact ⟨active, timer, List.mem_append_left _ hm, ht⟩

theorem of_closing (h : c.shouldClose) : c.Timed := fun hc => by simp [h] at hc

theorem remove {pre post : List Op} {op : Op} (h : c.Timed)
    (hops : c.inflight = pre ++ op :: post) (hop : op.isTicking = false) :
    { c with inflight := pre ++ post }.reap.Timed := fun hc hw => by
  obtain ⟨active, timer, hm, ht⟩ := h hc hw
  refine ⟨active, timer, ?_, ht⟩
  rw [hops] at hm
  simp only [reap, List.mem_append, List.mem_cons] at hm ⊢
  rcases hm with hm | rfl | hm
  · exact .inl hm
  · simp [hop] at ht
  · exact .inr hm

theorem listen (h : c.Timed) : c.listen.Timed := by
  unfold Control.listen
  split
  · exact h
  · exact h.submit _

theorem fetch (h : c.Timed) (op : Op) : (c.fetch op).Timed := by
  unfold Control.fetch
  split
  · exact h.submit op
  · exact h

theorem replace {c : Control} {pre post : List Op} {op op' : Op} (h : c.Timed)
    (hops : c.inflight = pre ++ op :: post) (ht : op'.isTicking = op.isTicking) :
    { c with inflight := pre ++ op' :: post }.Timed := fun hc hw => by
  obtain ⟨active, timer, hm, hticks⟩ := h hc hw
  rw [hops] at hm
  simp only [List.mem_append, List.mem_cons] at hm
  rcases hm with hm | rfl | hm
  · exact ⟨active, timer, by simp [hm], hticks⟩
  · exact ⟨active, op', by simp, ht.trans hticks⟩
  · exact ⟨active, timer, by simp [hm], hticks⟩

end Timed

/-- With one receive in flight, none is left to wait for the peer. -/
theorem cancelRecv_cancels {ops : List Op} (h : ops.countP Op.isRecv ≤ 1) :
    .recv false ∉ cancelRecv ops := by
  induction ops using cancelRecv.induct with
  | case1 => simp [cancelRecv]
  | case2 b ops =>
      rw [List.countP_cons_of_pos rfl] at h
      have none_ := List.countP_eq_zero.mp (Nat.le_zero.mp (Nat.le_of_succ_le_succ h))
      simp only [cancelRecv, List.mem_cons, not_or]
      exact ⟨by simp, fun hm => none_ _ hm rfl⟩
  | case3 op ops hne ih =>
      rw [cancelRecv]
      · simp only [List.countP_cons] at h
        simp only [List.mem_cons, not_or]
        exact ⟨fun he => hne _ he.symm, ih (by omega)⟩
      · exact hne

theorem not_mem_of_no_receives {ops : List Op} (h : ops.countP Op.isRecv = 0) :
    .recv false ∉ ops := fun hm => List.countP_eq_zero.mp h _ hm rfl

namespace Drained

variable {c : Control} {pre post : List Op} {op : Op}

theorem of_open (h : c.shouldClose = false) : c.Drained := fun hc => by simp [h] at hc

theorem of_no_receives (h : c.inflight.countP Op.isRecv = 0) : c.Drained :=
  fun _ => not_mem_of_no_receives h

theorem submit (h : c.Drained) (hop : op ≠ .recv false) : (c.submit op).Drained := fun hc hm => by
  simp only [Control.submit, List.mem_append, List.mem_singleton] at hm
  rcases hm with hm | he
  · exact h hc hm
  · exact hop he.symm

theorem giveUp (h : c.Tidy) : c.giveUp.Drained := by
  refine submit (fun _ => ?_) (by decide)
  exact cancelRecv_cancels h.receives

theorem listen (h : c.Drained) : c.listen.Drained := by
  unfold Control.listen
  split
  · exact h
  · rename_i open_
    exact of_open (by simpa [Control.submit] using open_)

theorem fetch (h : c.Drained) (hop : op.isFetch) : (c.fetch op).Drained := by
  have hne : op ≠ .recv false := by rintro rfl; simp [Op.isFetch] at hop
  unfold Control.fetch
  split
  · exact h.submit hne
  · exact h

/-- Fewer operations in flight. -/
theorem remove (h : c.Drained) (hops : c.inflight = pre ++ op :: post) :
    { c with inflight := pre ++ post }.reap.Drained := fun hc hm => by
  refine h hc ?_
  rw [hops]
  simp only [reap, List.mem_append, List.mem_cons] at hm ⊢
  tauto

/-- Putting another operation in the place of one. -/
theorem replace {op' : Op} (h : c.Drained) (hops : c.inflight = pre ++ op :: post)
    (hne : op' ≠ .recv false) : { c with inflight := pre ++ op' :: post }.Drained := fun hc hm => by
  refine h hc ?_
  rw [hops]
  simp only [List.mem_append, List.mem_cons] at hm ⊢
  rcases hm with hm | he | hm
  · exact .inl hm
  · exact (hne he.symm).elim
  · exact .inr (.inr hm)

end Drained

/-- The window moves: what is left of it is timed, and nothing is left only
when a read follows or the session closes. -/
theorem acceptAck_timed {c : Control} {n : UInt16} (h : c.Tidy) (hread : c.requestType = .read)
    (hp : c.optionsPending → n ≠ 0) : (c.acceptAck n).Timed := by
  unfold acceptAck ackMoved
  dsimp only
  split
  · exact fun _ _ => ⟨rfl, Timed.ticks⟩
  · rename_i empty
    intro hc hw
    have next : n + 1 = c.nextDataPacketToSend := not_not.mp empty
    exfalso
    rcases hw with hw | hw | hw | hw
    · exact hw next
    · refine hp hw ?_
      have one := (h.pending hw hread).1
      grind
    · exact absurd (hread.symm.trans hw) (by decide)
    · obtain ⟨p, hlast⟩ := Option.ne_none_iff_exists'.mp hw
      have same : n = p := by grind [h.last p hlast]
      subst same
      exact absurd hlast (of_decide_eq_false hc)

/-- The block that was read is waited for. -/
theorem sendNext_alive {c : Control} (ht : c.Timed) (hd : c.Drained) (short : Bool) :
    (c.sendNext short).Timed ∧ (c.sendNext short).Drained := by
  unfold sendNext
  dsimp only
  split
  · refine ⟨fun _ _ => ⟨rfl, Timed.ticks⟩, ?_⟩
    exact Drained.submit (c := { c with
      lastPacket := if short then some c.nextDataPacketToSend else c.lastPacket })
      hd (show Op.timeout .armed ≠ .recv false by decide)
  · rename_i waiting
    exact ⟨fun hc _ => ht hc (.inl waiting), hd⟩

/-! ## The event handler -/

/-- What the completion of an operation says about it. A timeout that was
removed is the one that reports its cancellation, and no read fails while a
receive waits for the peer. -/
structure Lawful (c : Control) (op : Op) (e : Event) : Prop where
  reports : op.Reports e
  removed : ∀ r, e = .timeout r → (op = .timeout .removed ↔
    r = .error ENOENT ∨ r = .error ECANCELED)
  read : ∀ n, e = .dataAvailable (.error n) → .recv false ∉ c.inflight

theorem receives_alive {c c' : Control} {d : Datagram} (h : c.Tidy) (ht : c.Timed)
    (hopen : c.shouldClose = false) (hr : c.inflight.countP Op.isRecv = 0) (hrec : c.Receives d c') :
    c'.listen.Timed ∧ c'.listen.Drained := by
  have drained {c₁ : Control} (h₁ : c₁.inflight.countP Op.isRecv = 0) : c₁.listen.Drained :=
    (Drained.of_no_receives h₁).listen
  cases hrec with
  | ignored => exact ⟨ht.listen, drained hr⟩
  | closed => exact ⟨(Timed.of_closing rfl).listen, drained hr⟩
  | optionsAck hread =>
      exact ⟨(acceptAck_timed (h.settle hread) hread (fun hp' => by simp at hp')).listen,
        drained ((Tidy.receives_acceptAck _ _).trans hr)⟩
  | ack hread _ hn _ =>
      exact ⟨(acceptAck_timed h hread fun hp h0 => hn ⟨hp, h0⟩).listen,
        drained ((Tidy.receives_acceptAck _ _).trans hr)⟩
  | data p b hwrite =>
      exact ⟨Timed.listen fun _ _ => ht hopen (.inr (.inr (.inl hwrite))), drained hr⟩

theorem takes_alive {c c' : Control} {pre post : List Op} {op : Op} {e : Event} (h : c.Tidy)
    (ht : c.Timed) (hd : c.Drained) (hops : c.inflight = pre ++ op :: post) (hl : c.Lawful op e)
    (htakes : { c with inflight := pre ++ post }.Takes e c') : c'.Timed ∧ c'.Drained := by
  have hrep := hl.reports
  have drained := hd.remove hops
  cases e with
  | start => exact (Op.not_reports_start hrep).elim
  | timeout r =>
      cases op with
      | timeout state =>
          have tidy := h.remove hops rfl
          rcases htakes with ⟨hign, rfl⟩ | ⟨-, rfl | rfl⟩
          · refine ⟨fun hc hw => ?_, drained⟩
            rcases hign with hcanceled | hclosing | hinactive
            · cases (hl.removed r rfl).mpr hcanceled
              exact ht.remove hops rfl hc hw
            · exact absurd (hclosing.symm.trans hc) (by decide)
            · exact absurd (hinactive.symm.trans (ht hc hw).1) (by decide)
          · exact ⟨.of_closing rfl, .giveUp tidy⟩
          · exact ⟨.arm, drained.submit (show Op.timeout .armed ≠ .recv false by decide)⟩
      | _ => exact hrep.elim
  | timeoutRemoved r =>
      cases op with
      | timeoutRemove => exact htakes ▸ ⟨ht.remove hops rfl, drained⟩
      | _ => exact hrep.elim
  | packetReceivedRemoved r =>
      cases op with
      | cancel => exact htakes ▸ ⟨ht.remove hops rfl, drained⟩
      | _ => exact hrep.elim
  | packetReceived r =>
      cases op with
      | recv b =>
          have timed := ht.remove hops rfl
          rcases htakes with ⟨-, rfl⟩ | ⟨hopen, d, c₁, -, hrec, rfl⟩
          · exact ⟨timed, drained⟩
          · exact receives_alive (h.remove hops rfl) timed hopen (h.no_receives hops) hrec
      | _ => exact hrep.elim
  | dataAvailable r =>
      have hticks : op.isTicking = false := by cases op <;> first | rfl | exact hrep.elim
      have timed : { { c with inflight := pre ++ post }.reap with isFetchingData := false }.Timed :=
        ht.remove hops hticks
      rcases htakes with ⟨n, rfl, rfl⟩ | rfl | ⟨short, rfl⟩
      · have no_recv := hl.read n rfl
        rw [hops] at no_recv
        refine ⟨.of_closing rfl, fun _ hm => no_recv ?_⟩
        simp only [close, reap, List.mem_append, List.mem_cons] at hm ⊢
        tauto
      · exact ⟨timed, drained⟩
      · exact sendNext_alive timed drained short

/-- The next block is being read unless the session waits for something else. -/
theorem fetching_of_idle {c : Control} (h : c.shouldFetch = false) (hopen : c.shouldClose = false)
    (hread : c.requestType = .read) (hsettled : c.optionsPending = false)
    (hlast : c.lastPacket = none) (hempty : c.windowBegin = c.nextDataPacketToSend) :
    c.isFetchingData := by
  by_contra reading
  have idle : c.isFetchingData = false := by simpa using reading
  have start : isInRange c.nextDataPacketToSend c.nextDataPacketToSend
      (c.nextDataPacketToSend + c.windowSize - 1) := by
    simp [isInRange_iff, Serial.OnArc]
  have room : c.shouldFetch := by
    simp [shouldFetch, hread, hopen, hsettled, hlast, idle, hempty, start]
  exact absurd (room.symm.trans h) (by decide)

/-- What holds between two calls of the event handler, and what it says about
waiting: some operation in flight completes by itself. -/
theorem bound_of_alive {c : Control} (h : c.Tidy) (ht : c.Timed) (hd : c.Drained)
    (hf : c.shouldFetch = false) (hcount : c.Counted)
    (hidle : ¬(c.shouldClose ∧ c.pendingJobs = 0)) : ∃ op ∈ c.inflight, op.Bound := by
  by_cases closing : c.shouldClose
  · have some_ : c.inflight ≠ [] := by
      rintro none_
      refine hidle ⟨closing, ?_⟩
      rw [hcount, none_]
      rfl
    obtain ⟨op, hm⟩ := List.exists_mem_of_ne_nil _ some_
    exact ⟨op, hm, fun he => hd closing (he ▸ hm)⟩
  · have hopen : c.shouldClose = false := by simpa using closing
    by_cases waits : c.windowBegin ≠ c.nextDataPacketToSend ∨ c.optionsPending ∨
        c.requestType = .write ∨ c.lastPacket ≠ none
    · obtain ⟨-, op, hm, hticks⟩ := ht hopen waits
      refine ⟨op, hm, ?_⟩
      rintro rfl
      simp [Op.isTicking] at hticks
    · simp only [not_or, not_not, Bool.not_eq_true] at waits
      obtain ⟨hempty, hsettled, hread, hlast⟩ := waits
      have fetching : c.isFetchingData :=
        fetching_of_idle hf hopen (by cases hty : c.requestType <;> simp_all) hsettled hlast hempty
      have fetches := h.fetches
      rw [if_pos fetching] at fetches
      obtain ⟨op, hm, hop⟩ := List.countP_pos_iff.mp (by omega : 0 < c.inflight.countP Op.isFetch)
      refine ⟨op, hm, ?_⟩
      rintro rfl
      simp [Op.isFetch] at hop

/-- A session just started waits for nothing, for the acknowledgment of its
options, or for the first block. -/
theorem started_alive {c : Control} (h : c.Untouched)
    (hw : c.shouldClose = false → c.requestType = .write → c.optionsPending) :
    c.started.Timed ∧ c.started.Drained := by
  unfold started
  split
  · rename_i closing
    exact ⟨.of_closing closing, .of_no_receives (by simp [h.inflight])⟩
  · rename_i hopen
    have isOpen : c.shouldClose = false := by simpa using hopen
    split
    · exact ⟨Timed.arm.submit _, .of_open isOpen⟩
    · rename_i settled
      refine ⟨fun hc hwait => ?_, .of_open isOpen⟩
      exfalso
      rcases hwait with hb | hp | hty | hl
      · exact hb (h.windowBegin.trans h.nextDataPacketToSend.symm)
      · exact settled hp
      · exact settled (hw hc hty)
      · exact hl h.lastPacket

end Control

/-! ## Runs -/

/-- The session is not a write session without options, completions say what
happened, and no read fails while a receive waits for the peer. -/
def NoStall : Condition := fun l label =>
  match label with
  | .start sys => isRequestValid l.world.session → l.world.session.opcodeType = .write →
      OffersOptions l.world.session sys.file
  | .complete op _ e => l.world.control.Lawful op e
  | .expire => True
  | .fill _ => True

/-- The invariants of a session between two calls. -/
structure Progressing (l : Live) : Prop where
  settled : Settled l
  timed : l.listening → l.world.control.Timed
  drained : l.listening → l.world.control.Drained

namespace Progressing

theorem boot (info : ServerInfo) (request : PeerMessage) :
    Progressing (Live.boot info request) where
  settled := .boot _ _
  timed h := by simp [Live.listening, Live.boot] at h
  drained h := by simp [Live.listening, Live.boot] at h

theorem delivered {P : Control → Prop} {l : Live} (hs : Settled l) (h : l.Ends P)
    (hP : ∀ c, P c → c.Timed ∧ c.Drained) : Progressing l := by
  have ends (hl : l.listening) : l.world.control.Timed ∧ l.world.control.Drained := by
    obtain ⟨c, hc, -, op, hop, he⟩ := (h hl).1
    obtain ⟨timed, drained⟩ := hP c hc
    rw [he]
    exact ⟨timed.fetch op, drained.fetch hop⟩
  exact ⟨hs, fun hl => (ends hl).1, fun hl => (ends hl).2⟩

theorem step {l l' : Live} {label : Label} (h : Progressing l) (hs : Step l label l')
    (hC : NoStall l label) : Progressing l' := by
  have settled := h.settled.step hs
  cases hs with
  | start sys hf =>
      refine delivered (P := fun c => ∃ c₁ : Control, (c₁.Untouched ∧ (c₁.shouldClose = false →
        c₁.requestType = .write → c₁.optionsPending)) ∧ c = c₁.started) settled
          (deliver_ends ?_) ?_
      · refine onStart_moves ?_
        exact Prog.wp_mono (Prog.wp_and (start_untouched _ (h.settled.fresh hf)) (start_pending hC))
          (fun _ _ h => h) fun _ _ _ => trivial
      · rintro _ ⟨c₁, ⟨untouched, pending⟩, rfl⟩
        exact Control.started_alive untouched pending
  | complete op sys e hl hops hr =>
      exact delivered settled (deliver_control _ _ _) fun _ ht =>
        Control.takes_alive (h.settled.tidy hl) (h.timed hl) (h.drained hl) hops hC ht
  | expire hl hops =>
      exact ⟨settled, fun _ => (h.timed hl).replace hops rfl,
        fun _ => (h.drained hl).replace hops (by decide)⟩
  | fill bytes hl hops _ =>
      exact ⟨settled, fun _ => (h.timed hl).replace hops rfl,
        fun _ => (h.drained hl).replace hops (by simp)⟩

end Progressing

/-- A session that returned `TFTP_SESSION_STATE_IDLE` has an operation in
flight that completes without any further datagram, in every run in which no
write session is started without options and no read fails while a receive
waits for the peer. -/
theorem idle_session_has_bound_op {info : ServerInfo} {request : PeerMessage} {l : Live}
    (h : Runs NoStall (Live.boot info request) l) (hl : l.status = .idle) :
    ∃ op ∈ l.world.inflight, op.Bound := by
  have acc := accounted_of_runs h
  have prog : Progressing l := h.invariant (fun _ _ _ h hs hC => h.step hs hC) (.boot _ _)
  have listening : l.listening := .inl hl
  refine Control.bound_of_alive (prog.settled.tidy listening) (prog.timed listening)
    (prog.drained listening) (prog.settled.fetched listening) (acc.counted listening) fun hc => ?_
  exact absurd (hl.symm.trans ((acc.closed listening).mpr hc)) (by decide)

/-- A write request without options leaves nothing in flight but the receive. -/
theorem write_session_waits_for_peer :
    ∃ l, Runs anySteps (Live.boot plainInfo (plainRequest Opcode.wrq "octet")) l ∧
      l.status = .idle ∧ l.world.inflight = [.recv false] := by
  have h : ((replay [.start fileOpens]
      (Live.boot plainInfo (plainRequest Opcode.wrq "octet"))).map fun l =>
        (l.status, l.world.inflight)) = some (.idle, [.recv false]) := by
    decide +kernel
  obtain ⟨l, hl, he⟩ := Option.map_eq_some_iff.mp h
  simp only [Prod.mk.injEq] at he
  exact ⟨l, replay_runs hl fun _ _ _ => trivial, he⟩

/-- After a read request the read of the first block is in flight. -/
theorem started_read_has_bound_op :
    ∃ op ∈ (deliver fileOpens .start
      (Live.boot plainInfo (plainRequest Opcode.rrq "octet")).world).world.inflight, op.Bound := by
  have isRead : ¬(sessionInit plainInfo (plainRequest Opcode.rrq "octet")).opcodeType = .write := by
    decide +kernel
  have hrun : Runs NoStall (Live.boot plainInfo (plainRequest Opcode.rrq "octet"))
      (deliver fileOpens .start (Live.boot plainInfo (plainRequest Opcode.rrq "octet")).world) :=
    .single ⟨.start fileOpens, .start fileOpens rfl, fun _ hw => (isRead hw).elim⟩
  exact idle_session_has_bound_op hrun (by decide +kernel)

end Tftp.Server
