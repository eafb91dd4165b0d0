import Tftp.Server.Accounting

/-!
# The flags of a session and its operations in flight

In every run the flags of a session agree with its operations in flight: one
read at most, exactly while `is_fetching_data` is set, and one receive at most.
A session that waits for the acknowledgment of its options has sent nothing.
Between two calls the read-ahead has run, so a session whose window has room
is reading.
-/

namespace Tftp.Server

namespace Control

/-- The flags agree with the operations in flight and with the window. -/
structure Tidy (c : Control) : Prop where
  pending : c.optionsPending → c.requestType = .read →
    c.nextDataPacketToSend = 1 ∧ c.lastPacket = none
  last : ∀ p, c.lastPacket = some p → c.nextDataPacketToSend = p + 1
  fetches : c.inflight.countP Op.isFetch = if c.isFetchingData then 1 else 0
  fetching : c.isFetchingData → c.requestType = .read ∧ c.optionsPending = false ∧
    c.lastPacket = none
  receives : c.inflight.countP Op.isRecv ≤ 1

/-! ## What the start settles -/

/-- The request, the client and the size of the window stay. -/
structure SameSession (c c' : Control) : Prop where
  requestType : c'.requestType = c.requestType
  clientAddress : c'.clientAddress = c.clientAddress
  windowSize : c'.windowSize = c.windowSize

namespace SameSession

variable {c c' c'' : Control}

theorem refl (c : Control) : c.SameSession c := ⟨rfl, rfl, rfl⟩

theorem trans (h : c.SameSession c') (h' : c'.SameSession c'') : c.SameSession c'' :=
  ⟨h'.1.trans h.1, h'.2.trans h.2, h'.3.trans h.3⟩

theorem acceptAck (c : Control) (n : UInt16) : c.SameSession (c.acceptAck n) := by
  unfold Control.acceptAck ackMoved
  dsimp only
  split <;> exact ⟨rfl, rfl, rfl⟩

theorem listen (c : Control) : c.SameSession c.listen := by
  unfold Control.listen
  split <;> exact ⟨rfl, rfl, rfl⟩

theorem sendNext (c : Control) (short : Bool) : c.SameSession (c.sendNext short) := by
  unfold Control.sendNext
  dsimp only
  split <;> exact ⟨rfl, rfl, rfl⟩

theorem receives {d : Datagram} (h : c.Receives d c') : c.SameSession c' := by
  cases h with
  | ignored => exact .refl c
  | closed => exact ⟨rfl, rfl, rfl⟩
  | optionsAck =>
      have settled : c.SameSession { c with optionsPending := false } := ⟨rfl, rfl, rfl⟩
      exact settled.trans (acceptAck _ _)
  | ack => exact acceptAck _ _
  | data => exact ⟨rfl, rfl, rfl⟩

theorem takes {e : Event} (he : e ≠ .start) (h : c.Takes e c') : c.SameSession c' := by
  cases e with
  | start => exact (he rfl).elim
  | timeout r => rcases h with ⟨-, rfl⟩ | ⟨-, rfl | rfl⟩ <;> exact ⟨rfl, rfl, rfl⟩
  | timeoutRemoved r => exact h ▸ ⟨rfl, rfl, rfl⟩
  | packetReceivedRemoved r => exact h ▸ ⟨rfl, rfl, rfl⟩
  | packetReceived r =>
      rcases h with ⟨-, rfl⟩ | ⟨-, d, c₁, -, hrec, rfl⟩
      · exact ⟨rfl, rfl, rfl⟩
      · have reaped : c.SameSession c.reap := ⟨rfl, rfl, rfl⟩
        exact (reaped.trans (receives hrec)).trans (listen c₁)
  | dataAvailable r =>
      rcases h with ⟨n, -, rfl⟩ | rfl | ⟨short, rfl⟩
      · exact ⟨rfl, rfl, rfl⟩
      · exact ⟨rfl, rfl, rfl⟩
      · have reaped : c.SameSession { c.reap with isFetchingData := false } := ⟨rfl, rfl, rfl⟩
        exact reaped.trans (sendNext _ short)

end SameSession

/-! ## Removing timers and receives -/

theorem countP_removeTimer {p : Op → Bool} (h : ∀ s, p (.timeout s) = false) (ops : List Op) :
    (removeTimer ops).countP p = ops.countP p := by
  induction ops using removeTimer.induct with
  | case1 => rfl
  | case2 ops => simp [removeTimer, h]
  | case3 op ops hne ih =>
      rw [removeTimer]
      · simp [List.countP_cons, ih]
      · exact hne

theorem countP_cancelRecv {p : Op → Bool} (h : ∀ b, p (.recv b) = p (.recv true)) (ops : List Op) :
    (cancelRecv ops).countP p = ops.countP p := by
  induction ops using cancelRecv.induct with
  | case1 => rfl
  | case2 b ops => simp [cancelRecv, List.countP_cons, h b]
  | case3 op ops hne ih =>
      rw [cancelRecv]
      · simp [List.countP_cons, ih]
      · exact hne

theorem countP_snoc {p : Op → Bool} {op : Op} (h : p op = false) (ops : List Op) :
    (ops ++ [op]).countP p = ops.countP p := by
  simp [h]

theorem countP_split {p : Op → Bool} {op : Op} (pre post : List Op) :
    (pre ++ op :: post).countP p = (pre ++ post).countP p + if p op then 1 else 0 := by
  simp [List.countP_cons]
  omega

/-! ## What the moves keep -/

namespace Tidy

variable {c : Control} {pre post : List Op} {op : Op}

theorem remove (h : c.Tidy) (hops : c.inflight = pre ++ op :: post) (hop : op.isFetch = false) :
    { c with inflight := pre ++ post }.reap.Tidy where
  pending := h.pending
  last := h.last
  fetches := by
    have fetches := h.fetches
    rw [hops, countP_split, hop, if_neg Bool.false_ne_true, Nat.add_zero] at fetches
    exact fetches
  fetching := h.fetching
  receives := by
    have receives := h.receives
    rw [hops, countP_split] at receives
    exact (Nat.le_add_right _ _).trans receives

/-- The read is the only one in flight. -/
theorem removeFetch (h : c.Tidy) (hops : c.inflight = pre ++ op :: post) (hop : op.isFetch) :
    { { c with inflight := pre ++ post }.reap with isFetchingData := false }.Tidy ∧
      c.isFetchingData := by
  have fetches := h.fetches
  have receives := h.receives
  rw [hops, countP_split] at fetches receives
  have fetching : c.isFetchingData := by
    by_contra hn
    simp [hop, hn] at fetches
  refine ⟨⟨h.pending, h.last, ?_, fun hn => by simp at hn, ?_⟩, fetching⟩
  · simpa [reap, hop, fetching] using fetches
  · exact (Nat.le_add_right _ _).trans receives

/-- Removing the receive in flight leaves none. -/
theorem no_receives {b : Bool} (h : c.Tidy) (hops : c.inflight = pre ++ .recv b :: post) :
    (pre ++ post).countP Op.isRecv = 0 := by
  have receives := h.receives
  rw [hops, countP_split] at receives
  exact Nat.le_zero.mp (Nat.le_of_succ_le_succ receives)

theorem submit (h : c.Tidy) (hf : op.isFetch = false) (hr : op.isRecv = false) :
    (c.submit op).Tidy where
  pending := h.pending
  last := h.last
  fetches := (countP_snoc hf _).trans h.fetches
  fetching := h.fetching
  receives := (countP_snoc hr _).trans_le h.receives

theorem arm (h : c.Tidy) : c.arm.Tidy := by
  have armed : (c.submit (.timeout .armed)).Tidy := h.submit rfl rfl
  exact ⟨armed.pending, armed.last, armed.fetches, armed.fetching, armed.receives⟩

theorem disarm (h : c.Tidy) : c.disarm.Tidy := by
  have removed : { c with inflight := removeTimer c.inflight }.Tidy :=
    ⟨h.pending, h.last, (countP_removeTimer (fun _ => rfl) _).trans h.fetches, h.fetching,
      (countP_removeTimer (fun _ => rfl) _).trans_le h.receives⟩
  have disarmed : ({ c with inflight := removeTimer c.inflight }.submit .timeoutRemove).Tidy :=
    removed.submit rfl rfl
  exact ⟨disarmed.pending, disarmed.last, disarmed.fetches, disarmed.fetching, disarmed.receives⟩

theorem giveUp (h : c.Tidy) : c.giveUp.Tidy := by
  refine submit ?_ rfl rfl
  exact ⟨h.pending, h.last, (countP_cancelRecv (fun _ => rfl) _).trans h.fetches, h.fetching,
    (countP_cancelRecv (fun _ => rfl) _).trans_le h.receives⟩

theorem closes (h : c.Tidy) (b : Bool) : { c with shouldClose := b }.Tidy :=
  ⟨h.pending, h.last, h.fetches, h.fetching, h.receives⟩

theorem listen (h : c.Tidy) (hr : c.inflight.countP Op.isRecv = 0) : c.listen.Tidy := by
  unfold Control.listen
  split
  · exact h
  · refine ⟨h.pending, h.last, (countP_snoc rfl _).trans h.fetches, h.fetching, ?_⟩
    simp [Control.submit, hr, Op.isRecv]

theorem fetch (h : c.Tidy) (hop : op.isFetch) : (c.fetch op).Tidy := by
  have hr : op.isRecv = false := by cases op <;> first | rfl | simp [Op.isFetch] at hop
  unfold Control.fetch
  split
  · rename_i room
    simp only [shouldFetch, Bool.and_eq_true, Bool.not_eq_true', decide_eq_true_eq,
      Option.isNone_iff_eq_none] at room
    obtain ⟨⟨⟨⟨⟨hread, hidle⟩, -⟩, hsettled⟩, hlast⟩, -⟩ := room
    refine ⟨h.pending, h.last, ?_, fun _ => ⟨hread, hsettled, hlast⟩,
      (countP_snoc hr _).trans_le h.receives⟩
    have fetches := h.fetches
    simp [Control.submit, List.countP_append, fetches, hidle, hop]
  · exact h

/-- The window moves, and a receive can follow. -/
theorem acceptAck (h : c.Tidy) (n : UInt16) : (c.acceptAck n).Tidy := by
  have moved : { c with windowBegin := n + 1 }.Tidy :=
    ⟨h.pending, h.last, h.fetches, h.fetching, h.receives⟩
  unfold Control.acceptAck ackMoved
  dsimp only
  split
  · exact moved.disarm.arm.closes _
  · exact moved.disarm.closes _

theorem receives_acceptAck (c : Control) (n : UInt16) :
    (c.acceptAck n).inflight.countP Op.isRecv = c.inflight.countP Op.isRecv := by
  have disarmed : ({ c with windowBegin := n + 1 }.disarm).inflight.countP Op.isRecv =
      c.inflight.countP Op.isRecv :=
    (countP_snoc rfl _).trans (countP_removeTimer (fun _ => rfl) _)
  unfold Control.acceptAck ackMoved
  dsimp only
  split
  · exact (countP_snoc rfl _).trans disarmed
  · exact disarmed

theorem settle (h : c.Tidy) (hread : c.requestType = .read) :
    { c with optionsPending := false }.Tidy :=
  ⟨fun hp => by simp at hp, h.last, h.fetches,
    fun hf => ⟨hread, rfl, (h.fetching hf).2.2⟩, h.receives⟩

theorem writeTo (h : c.Tidy) (hwrite : c.requestType = .write) (pending closing : Bool) :
    { c with optionsPending := pending, shouldClose := closing }.Tidy := by
  have isWrite : c.requestType ≠ .read := by simp [hwrite]
  exact ⟨fun _ hread => (isWrite hread).elim, h.last, h.fetches,
    fun hf => (isWrite (h.fetching hf).1).elim, h.receives⟩

/-- The block that was read goes out. -/
theorem sendNext (h : c.Tidy) (hf : c.isFetchingData = false) (hp : c.optionsPending = false)
    (hl : c.lastPacket = none) (short : Bool) : (c.sendNext short).Tidy := by
  have last (p : UInt16) : (if short then some c.nextDataPacketToSend else c.lastPacket) = some p →
      c.nextDataPacketToSend + 1 = p + 1 := by
    cases short
    · simp [hl]
    · simp only [if_true, Option.some.injEq]
      rintro rfl
      rfl
  unfold Control.sendNext
  dsimp only
  split
  · have armed := h.arm
    exact ⟨fun hp' => by simp [Control.arm, Control.submit, hp] at hp', last, armed.fetches,
      fun hf' => by simp [Control.arm, Control.submit, hf] at hf', armed.receives⟩
  · exact ⟨fun hp' => by simp [hp] at hp', last, h.fetches, fun hf' => by simp [hf] at hf',
      h.receives⟩

/-- Putting an operation of the same kind in the place of another. -/
theorem replace {op' : Op} (h : c.Tidy) (hops : c.inflight = pre ++ op :: post)
    (hf : op'.isFetch = op.isFetch) (hr : op'.isRecv = op.isRecv) :
    { c with inflight := pre ++ op' :: post }.Tidy where
  pending := h.pending
  last := h.last
  fetches := by
    rw [countP_split, hf, ← countP_split, ← hops]
    exact h.fetches
  fetching := h.fetching
  receives := by
    rw [countP_split, hr, ← countP_split, ← hops]
    exact h.receives

theorem receive {c' : Control} {d : Datagram} (h : c.Tidy)
    (hr : c.inflight.countP Op.isRecv = 0) (hrec : c.Receives d c') : c'.listen.Tidy := by
  cases hrec with
  | ignored => exact h.listen hr
  | closed => exact (h.closes true).listen hr
  | optionsAck hread => exact ((h.settle hread).acceptAck 0).listen ((receives_acceptAck _ _).trans hr)
  | ack => exact (h.acceptAck _).listen ((receives_acceptAck _ _).trans hr)
  | data p b hwrite => exact (h.writeTo hwrite p b).listen hr

theorem takes {c' : Control} {e : Event} (h : c.Tidy) (hops : c.inflight = pre ++ op :: post)
    (hrep : op.Reports e) (htakes : { c with inflight := pre ++ post }.Takes e c') : c'.Tidy := by
  cases e with
  | start => exact (Op.not_reports_start hrep).elim
  | timeout r =>
      have tidy := h.remove hops (by cases op <;> first | rfl | exact hrep.elim)
      rcases htakes with ⟨-, rfl⟩ | ⟨-, rfl | rfl⟩
      · exact tidy
      · exact tidy.giveUp
      · exact tidy.arm
  | timeoutRemoved r =>
      exact htakes ▸ h.remove hops (by cases op <;> first | rfl | exact hrep.elim)
  | packetReceivedRemoved r =>
      exact htakes ▸ h.remove hops (by cases op <;> first | rfl | exact hrep.elim)
  | packetReceived r =>
      cases op with
      | recv b =>
          have tidy := h.remove hops rfl
          rcases htakes with ⟨-, rfl⟩ | ⟨-, d, c₁, -, hrec, rfl⟩
          · exact tidy
          · exact tidy.receive (h.no_receives hops) hrec
      | _ => exact hrep.elim
  | dataAvailable r =>
      obtain ⟨tidy, fetching⟩ := h.removeFetch hops (by cases op <;> first | rfl | exact hrep.elim)
      rcases htakes with ⟨n, rfl, rfl⟩ | rfl | ⟨short, rfl⟩
      · exact tidy.closes true
      · exact tidy
      · obtain ⟨-, settled, last⟩ := h.fetching fetching
        exact tidy.sendNext rfl settled last short

theorem of_untouched (h : c.Untouched) : c.Tidy where
  pending _ _ := ⟨h.nextDataPacketToSend, h.lastPacket⟩
  last := by simp [h.lastPacket]
  fetches := by simp [h.inflight, h.isFetchingData]
  fetching := by simp [h.isFetchingData]
  receives := by simp [h.inflight]

theorem started (h : c.Untouched) : c.started.Tidy := by
  have tidy := of_untouched h
  have none_ : c.inflight.countP Op.isRecv = 0 := by simp [h.inflight]
  unfold Control.started
  split
  · exact tidy
  · rename_i hopen
    split
    · have listening := tidy.arm.listen ((countP_snoc rfl _).trans none_)
      rwa [Control.listen, if_neg (show ¬c.arm.shouldClose from hopen)] at listening
    · have listening := tidy.listen none_
      rwa [Control.listen, if_neg hopen] at listening

end Tidy

/-- After the read-ahead there is nothing left to read ahead. -/
theorem shouldFetch_fetch (c : Control) (op : Op) : (c.fetch op).shouldFetch = false := by
  unfold fetch
  split
  · simp [shouldFetch]
  · rename_i room
    simpa using room

end Control

/-! ## Runs -/

/-- The flags of a session between two calls. -/
structure Settled (l : Live) : Prop where
  fresh : l.status = .fresh → l.world.control.Untouched
  tidy : l.listening → l.world.control.Tidy
  fetched : l.listening → l.world.control.shouldFetch = false

namespace Settled

theorem boot (info : ServerInfo) (request : PeerMessage) : Settled (Live.boot info request) where
  fresh := (Accounted.boot info request).fresh
  tidy h := by simp [Live.listening, Live.boot] at h
  fetched h := by simp [Live.listening, Live.boot] at h

theorem delivered {P : Control → Prop} {l : Live} (h : l.Ends P) (hfresh : l.status ≠ .fresh)
    (hP : ∀ c, P c → c.Tidy) : Settled l where
  fresh hf := (hfresh hf).elim
  tidy hl := by
    obtain ⟨c, hc, -, op, hop, he⟩ := (h hl).1
    rw [he]
    exact (hP c hc).fetch hop
  fetched hl := by
    obtain ⟨c, hc, -, op, hop, he⟩ := (h hl).1
    rw [he]
    exact c.shouldFetch_fetch op

theorem step {l l' : Live} {label : Label} (h : Settled l) (hs : Step l label l') :
    Settled l' := by
  cases hs with
  | start sys hf =>
      refine delivered (deliver_control _ _ _) (deliver_ne_fresh _ _ _) fun _ ht => ?_
      obtain ⟨c₁, untouched, rfl⟩ := ht (h.fresh hf)
      exact .started untouched
  | complete op sys e hl hops hr =>
      exact delivered (deliver_control _ _ _) (deliver_ne_fresh _ _ _) fun _ ht =>
        (h.tidy hl).takes hops hr ht
  | expire hl hops =>
      exact ⟨fun hf => (hl.ne_fresh hf).elim,
        fun _ => (h.tidy hl).replace hops rfl rfl, fun _ => h.fetched hl⟩
  | fill bytes hl hops _ =>
      exact ⟨fun hf => (hl.ne_fresh hf).elim,
        fun _ => (h.tidy hl).replace hops rfl rfl, fun _ => h.fetched hl⟩

end Settled

end Tftp.Server
