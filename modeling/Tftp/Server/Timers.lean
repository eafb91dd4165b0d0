import Tftp.Server.Retransmit
import Tftp.Server.Progress

/-!
# Timers in flight

All timeouts of a session share one event and one flag. A timeout in flight is
followed here by a mark: it is current while no timeout was armed and no
removal submitted after it. As long as nothing is armed while an expired
timeout still waits for its completion, at most one timeout in flight was not
removed, and a completion that makes `on_timeout` run is that of the current
one.
-/

namespace Tftp.Server

open Prog Act

/-! ## Marks -/

/-- The mark of an operation just submitted, and what it does to the others. -/
def mark (marks : List Bool) (op : Op) : List Bool :=
  (if op.isTimeout then marks.map fun _ => false else marks) ++ [true]

/-- The marks of `ops`, whose first operations have `marks` and whose others
were submitted since. -/
def followed (marks : List Bool) (ops : List Op) : List Bool :=
  (ops.drop marks.length).foldl mark marks

@[simp] theorem length_mark (marks : List Bool) (op : Op) :
    (mark marks op).length = marks.length + 1 := by
  unfold mark
  split <;> simp

theorem followed_of_length {marks : List Bool} {ops : List Op}
    (h : ops.length = marks.length) : followed marks ops = marks := by
  rw [followed, List.drop_of_length_le h.le, List.foldl_nil]

theorem followed_snoc {marks : List Bool} {ops : List Op} (h : marks.length ≤ ops.length)
    (op : Op) : followed marks (ops ++ [op]) = mark (followed marks ops) op := by
  rw [followed, List.drop_append_of_le_length h, List.foldl_append]
  rfl

/-- The marks agree with the timeouts in flight. -/
structure OneLive (active : Bool) (ops : List Op) (marks : List Bool) : Prop where
  length : marks.length = ops.length
  one : ops.countP Op.isTicking ≤ 1
  armed : .timeout .armed ∈ ops → active
  current : active → ∀ p ∈ ops.zip marks, p.1.isTicking → p.2

theorem isTicking_iff (op : Op) :
    op.isTicking ↔ op = .timeout .armed ∨ op = .timeout .expired := by
  cases op with
  | timeout s => cases s <;> simp [Op.isTicking]
  | _ => simp [Op.isTicking]

theorem not_ticking_of_other {op : Op} (h : op.isTimeout = false) : op.isTicking = false := by
  cases op <;> first | rfl | simp [Op.isTimeout] at h

/-- A cancel changes receives only. -/
theorem mem_zip_cancelRecv {ops : List Op} {marks : List Bool} {p : Op × Bool}
    (hm : p ∈ (cancelRecv ops).zip marks) (ht : p.1.isTicking) : p ∈ ops.zip marks := by
  induction ops using cancelRecv.induct generalizing marks with
  | case1 => exact hm
  | case2 b ops =>
      cases marks with
      | nil => simp at hm
      | cons mark marks =>
          rw [cancelRecv, List.zip_cons_cons, List.mem_cons] at hm
          rcases hm with rfl | hm
          · simp [Op.isTicking] at ht
          · exact List.mem_cons_of_mem _ hm
  | case3 op ops hne ih =>
      rw [cancelRecv] at hm
      · cases marks with
        | nil => simp at hm
        | cons mark marks =>
            rw [List.zip_cons_cons, List.mem_cons] at hm ⊢
            exact hm.imp_right fun hm => ih hm
      · exact hne

/-- A removal takes the armed timeout, if there is one. -/
theorem removeTimer_ticking {ops : List Op} (h : ops.countP Op.isTicking ≤ 1) {op : Op}
    (hm : op ∈ removeTimer ops) (ht : op.isTicking) : op = .timeout .expired ∧ op ∈ ops := by
  induction ops using removeTimer.induct with
  | case1 => simp [removeTimer] at hm
  | case2 ops =>
      rw [List.countP_cons_of_pos rfl] at h
      have none_ := List.countP_eq_zero.mp (Nat.le_zero.mp (Nat.le_of_succ_le_succ h))
      simp only [removeTimer, List.mem_cons] at hm
      rcases hm with rfl | hm
      · simp [Op.isTicking] at ht
      · exact (none_ _ hm ht).elim
  | case3 op' ops hne ih =>
      rw [removeTimer] at hm
      · rcases List.mem_cons.mp hm with rfl | hm
        · rcases (isTicking_iff _).mp ht with rfl | rfl
          · exact (hne rfl).elim
          · exact ⟨rfl, List.mem_cons_self⟩
        · have fewer : ops.countP Op.isTicking ≤ 1 := by
            rw [List.countP_cons] at h
            omega
          obtain ⟨he, hm'⟩ := ih fewer hm
          exact ⟨he, List.mem_cons_of_mem _ hm'⟩
      · exact hne

theorem countP_removeTimer_le (ops : List Op) :
    (removeTimer ops).countP Op.isTicking ≤ ops.countP Op.isTicking := by
  induction ops using removeTimer.induct with
  | case1 => exact le_rfl
  | case2 ops =>
      simp [removeTimer, List.countP_cons, Op.isTicking]
  | case3 op ops hne ih =>
      rw [removeTimer]
      · simp only [List.countP_cons]
        omega
      · exact hne

namespace OneLive

variable {active : Bool} {ops pre post : List Op} {op : Op} {marks fs gs : List Bool} {f : Bool}

/-- A completion takes its operation and its mark. -/
theorem remove (h : OneLive active (pre ++ op :: post) (fs ++ f :: gs))
    (hlen : fs.length = pre.length) : OneLive active (pre ++ post) (fs ++ gs) where
  length := by
    have length := h.length
    simp only [List.length_append, List.length_cons] at length ⊢
    omega
  one := by
    have one := h.one
    rw [Control.countP_split] at one
    exact (Nat.le_add_right _ _).trans one
  armed hm := by
    refine h.armed ?_
    simp only [List.mem_append, List.mem_cons] at hm ⊢
    tauto
  current ha p hp ht := by
    refine h.current ha p ?_ ht
    rw [List.zip_append hlen.symm] at hp ⊢
    simp only [List.zip_cons_cons, List.mem_append, List.mem_cons] at hp ⊢
    tauto

theorem split (h : OneLive active (pre ++ op :: post) marks) :
    ∃ fs f gs, marks = fs ++ f :: gs ∧ fs.length = pre.length := by
  have length := h.length
  rw [List.length_append, List.length_cons] at length
  have some_ : marks.drop pre.length ≠ [] := by
    intro he
    have short := List.drop_eq_nil_iff.mp he
    omega
  obtain ⟨f, gs, hd⟩ := List.exists_cons_of_ne_nil some_
  refine ⟨marks.take pre.length, f, gs, ?_, ?_⟩
  · rw [← hd, List.take_append_drop]
  · rw [List.length_take]
    omega

/-- An operation changes in place. -/
theorem replace {op' : Op} (h : OneLive active (pre ++ op :: post) marks)
    (ht : op'.isTicking = op.isTicking) (ha : op' = .timeout .armed → op = .timeout .armed) :
    OneLive active (pre ++ op' :: post) marks := by
  obtain ⟨fs, f, gs, rfl, hfs⟩ := h.split
  refine ⟨?_, ?_, fun hm => ?_, fun hactive p hp hticks => ?_⟩
  · rw [h.length]
    simp
  · rw [Control.countP_split, ht, ← Control.countP_split]
    exact h.one
  · refine h.armed ?_
    simp only [List.mem_append, List.mem_cons] at hm ⊢
    rcases hm with hm | he | hm
    · exact .inl hm
    · exact .inr (.inl (ha he.symm).symm)
    · exact .inr (.inr hm)
  · have current := h.current hactive
    rw [List.zip_append hfs.symm, List.zip_cons_cons] at hp current
    rcases List.mem_append.mp hp with hp | hp
    · exact current p (List.mem_append_left _ hp) hticks
    · rcases List.mem_cons.mp hp with rfl | hp
      · exact current (op, f) (List.mem_append_right _ List.mem_cons_self) (ht ▸ hticks)
      · exact current p (List.mem_append_right _ (List.mem_cons_of_mem _ hp)) hticks

/-- If it was a timeout not removed, it was the only one. -/
theorem none_left (h : OneLive active (pre ++ op :: post) marks) (ht : op.isTicking) :
    ∀ op' ∈ pre ++ post, ¬op'.isTicking := by
  have one := h.one
  rw [Control.countP_split, if_pos ht] at one
  exact List.countP_eq_zero.mp (by omega)

/-- An operation of another kind is submitted. -/
theorem submit (h : OneLive active ops marks) (hop : op.isTimeout = false) :
    OneLive active (ops ++ [op]) (mark marks op) := by
  have other := not_ticking_of_other hop
  have marked : mark marks op = marks ++ [true] := by simp [mark, hop]
  refine ⟨?_, ?_, fun hm => ?_, fun ha p hp ht => ?_⟩
  · simp [h.length]
  · rw [Control.countP_snoc other]
    exact h.one
  · rcases List.mem_append.mp hm with hm | hm
    · exact h.armed hm
    · rw [← List.mem_singleton.mp hm] at hop
      simp [Op.isTimeout] at hop
  · rw [marked, List.zip_append h.length.symm] at hp
    rcases List.mem_append.mp hp with hp | hp
    · exact h.current ha p hp ht
    · rw [List.mem_singleton.mp hp]

/-- A timeout is armed where none is left. -/
theorem arm (hlen : marks.length = ops.length) (hnone : ∀ op ∈ ops, ¬op.isTicking) :
    OneLive true (ops ++ [.timeout .armed]) (mark marks (.timeout .armed)) := by
  have count : ops.countP Op.isTicking = 0 := List.countP_eq_zero.mpr hnone
  refine ⟨?_, ?_, fun _ => rfl, fun _ p hp ht => ?_⟩
  · simp [hlen]
  · rw [List.countP_append, count]
    decide
  · have marked : mark marks (.timeout .armed) = marks.map (fun _ => false) ++ [true] := by
      simp [mark, Op.isTimeout]
    rw [marked, List.zip_append (by simp [hlen])] at hp
    rcases List.mem_append.mp hp with hp | hp
    · exact (hnone _ (List.of_mem_zip hp).1 ht).elim
    · rw [List.mem_singleton.mp hp]

/-- A removal leaves the flag down and at most an expired timeout. -/
theorem disarm (h : OneLive active ops marks) :
    OneLive false (removeTimer ops ++ [.timeoutRemove]) (mark marks .timeoutRemove) := by
  refine ⟨?_, ?_, fun hm => ?_, fun ha => by simp at ha⟩
  · simp [h.length]
  · rw [Control.countP_snoc rfl]
    exact (countP_removeTimer_le ops).trans h.one
  · exfalso
    rcases List.mem_append.mp hm with hm | hm
    · exact absurd (removeTimer_ticking h.one hm rfl).1 (by decide)
    · exact absurd (List.mem_singleton.mp hm) (by decide)

/-- Without an expired timeout it leaves none. -/
theorem none_after_disarm (h : OneLive active ops marks) (he : .timeout .expired ∉ ops) :
    ∀ op ∈ removeTimer ops ++ [.timeoutRemove], ¬op.isTicking := by
  intro op hm ht
  rcases List.mem_append.mp hm with hm | hm
  · obtain ⟨rfl, hm'⟩ := removeTimer_ticking h.one hm ht
    exact he hm'
  · rw [List.mem_singleton.mp hm] at ht
    simp [Op.isTicking] at ht

theorem cancelRecv (h : OneLive active ops marks) :
    OneLive active (cancelRecv ops) marks where
  length := by simp [h.length]
  one := (Control.countP_cancelRecv (fun _ => rfl) ops).trans_le h.one
  armed hm := by
    have count : (Server.cancelRecv ops).count (.timeout .armed) = ops.count (.timeout .armed) :=
      Control.countP_cancelRecv (fun _ => rfl) ops
    exact h.armed (List.count_pos_iff.mp (count ▸ List.count_pos_iff.mpr hm))
  current ha p hp ht := h.current ha p (mem_zip_cancelRecv hp ht) ht

end OneLive

/-! ## What the moves keep -/

/-- What the session sends when this read completes. -/
def Session.SendsBlock (s : Session) (sys : Sys) (r : Completion ℕ) : Prop :=
  s.mode = .octet → ∃ k, r = .ok k ∧ ¬(k < s.blockSize.toNat ∧ sys.atEndOfFile = false)

namespace Control

/-- An accepted ACK after which blocks are left to wait for. -/
def RearmsOn (c : Control) (d : Datagram) : Prop :=
  c.requestType = .read ∧ c.shouldClose = false ∧ c.IsAck d ∧
    ¬(c.optionsPending ∧ readU16 d.bytes 2 = 0) ∧
    isInRange (readU16 d.bytes 2) c.windowBegin (c.nextDataPacketToSend - 1) ∧
    readU16 d.bytes 2 + 1 ≠ c.nextDataPacketToSend

/-- An ACK of the block that is being read, accepted because the window is
empty. -/
def AcksUnread (c : Control) (d : Datagram) : Prop :=
  c.AcksNothing d ∧ c.isFetchingData ∧ readU16 d.bytes 2 = c.nextDataPacketToSend

/-- The timeouts of a session, of which `marks` tell the operations that were
in flight when the call began. -/
structure Ticks (c : Control) (marks : List Bool) : Prop where
  live : OneLive c.isTimerActive c.inflight (followed marks c.inflight)
  length : marks.length ≤ c.inflight.length
  needed : c.TimerNeeded
  behind : c.isFetchingData → c.windowBegin ≠ c.nextDataPacketToSend + 1

namespace Ticks

variable {c c' : Control} {marks : List Bool} {op : Op}

theorem submit (h : c.Ticks marks) (hop : op.isTimeout = false) : (c.submit op).Ticks marks where
  live := by
    have live := h.live.submit hop
    rw [← followed_snoc h.length] at live
    exact live
  length := h.length.trans (by simp [Control.submit])
  needed := h.needed
  behind := h.behind

/-- A timeout is armed for a window that is not empty, or for the options. -/
theorem arm (h : c.Ticks marks) (hnone : ∀ op ∈ c.inflight, ¬op.isTicking)
    (hneeded : c.arm.TimerNeeded) : c.arm.Ticks marks where
  live := by
    have live := OneLive.arm h.live.length hnone
    rw [← followed_snoc h.length] at live
    exact live
  length := h.length.trans (by simp [Control.arm, Control.submit])
  needed := hneeded
  behind := h.behind

theorem close (h : c.Ticks marks) (b : Bool) : { c with shouldClose := b }.Ticks marks :=
  ⟨h.live, h.length, h.needed, h.behind⟩

theorem listen (h : c.Ticks marks) : c.listen.Ticks marks := by
  unfold Control.listen
  split
  · exact h
  · exact h.submit rfl

theorem fetchesTo (h : c.Ticks marks) (hf : c.FetchesTo c') : c'.Ticks marks := by
  obtain ⟨hsize, op, hop, rfl⟩ := hf
  have other : op.isTimeout = false := by cases op <;> first | rfl | simp [Op.isFetch] at hop
  unfold Control.fetch
  split
  · rename_i fetches
    have submitted := h.submit other
    refine ⟨submitted.live, submitted.length, h.needed, fun _ => ?_⟩
    have width := hsize fetches
    -- the read-ahead runs only when the next block is within the window
    simp only [shouldFetch, Bool.and_eq_true] at fetches
    exact Serial.ne_succ_of_distance_lt
      (Serial.distance_lt_of_onArc width ((isInRange_iff _ _ _).mp fetches.2))
  · exact h

/-- The retries are exhausted. -/
theorem giveUp (h : c.Ticks marks) (hlen : c.inflight.length = marks.length) :
    c.giveUp.Ticks marks := by
  have cancelled : ({ c with inflight := cancelRecv c.inflight }.close).Ticks marks := by
    refine ⟨?_, ?_, h.needed, h.behind⟩
    · have live := h.live.cancelRecv
      rw [followed_of_length hlen] at live
      change OneLive c.isTimerActive (cancelRecv c.inflight) (followed marks (cancelRecv c.inflight))
      rwa [followed_of_length (by simp [hlen])]
    · change marks.length ≤ (cancelRecv c.inflight).length
      simp [hlen]
  exact cancelled.submit rfl

/-- An accepted ACK cancels the timeout. It may arm another only where none has
expired. -/
theorem acceptAck {n : UInt16} (live : OneLive c.isTimerActive c.inflight marks)
    (hexpired : n + 1 ≠ c.nextDataPacketToSend → .timeout .expired ∉ c.inflight)
    (hbehind : c.isFetchingData → n ≠ c.nextDataPacketToSend) :
    (c.acceptAck n).Ticks marks := by
  have hlen := live.length.symm
  have behind : c.isFetchingData → n + 1 ≠ c.nextDataPacketToSend + 1 := fun hf he =>
    hbehind hf (by simpa using he)
  have disarmed : ({ c with windowBegin := n + 1 }.disarm).Ticks marks := by
    refine ⟨?_, ?_, fun ha => by simp [Control.disarm] at ha, behind⟩
    · change OneLive false (removeTimer c.inflight ++ [.timeoutRemove])
        (followed marks (removeTimer c.inflight ++ [.timeoutRemove]))
      rw [followed_snoc (by simp [hlen]), followed_of_length (by simp [hlen])]
      exact live.disarm
    · change marks.length ≤ (removeTimer c.inflight ++ [Op.timeoutRemove]).length
      simp [hlen]
  have needed := TimerNeeded.acceptAck c n
  unfold Control.acceptAck ackMoved at needed ⊢
  dsimp only at needed ⊢
  split
  · rename_i hne
    rw [if_pos hne] at needed
    exact (disarmed.arm (live.none_after_disarm (hexpired hne)) needed).close _
  · exact disarmed.close _

/-- What a datagram leaves in flight. -/
theorem receives {d : Datagram} (h : c.Ticks marks) (hlen : c.inflight.length = marks.length)
    (ht : c.Tidy) (hexpired : c.RearmsOn d → .timeout .expired ∉ c.inflight)
    (hunread : ¬c.AcksUnread d) (hopen : c.shouldClose = false) (hr : c.Receives d c') :
    c'.Ticks marks := by
  have needed := h.needed.receives hr
  have live := h.live
  rw [followed_of_length hlen] at live
  cases hr with
  | ignored => exact h
  | closed => exact h.close true
  | data p closing hwrite => exact ⟨h.live, h.length, needed, h.behind⟩
  | optionsAck hread _ hp h0 =>
      refine acceptAck (c := { c with optionsPending := false }) live (fun hne => ?_) fun hf => ?_
      · -- nothing was sent, so no block is left to wait for
        exact (hne (ht.pending hp hread).1.symm).elim
      · exact absurd ((ht.fetching hf).2.1.symm.trans hp) (by decide)
  | ack hread hack hn hrange =>
      refine acceptAck live (fun hne => hexpired ⟨hread, hopen, hack, hn, hrange, hne⟩) fun hf => ?_
      by_cases he : c.windowBegin = c.nextDataPacketToSend
      · exact fun hunsent => hunread ⟨⟨hread, hopen, hack, hn, he⟩, hf, hunsent⟩
      · exact Serial.ne_of_onArc he ((isInRange_iff _ _ _).mp hrange)

/-- A block that goes out into an empty window arms a timeout where none has
expired. -/
theorem sendNext (h : c.Ticks marks) (hf : c.isFetchingData = false) (hread : c.requestType = .read)
    (hp : c.optionsPending = false) (hroom : c.windowBegin ≠ c.nextDataPacketToSend + 1)
    (hexpired : c.windowBegin = c.nextDataPacketToSend → .timeout .expired ∉ c.inflight)
    (short : Bool) : (c.sendNext short).Ticks marks := by
  have needed := TimerNeeded.sendNext hroom short
  have idle : ∀ c₁ : Control, c₁.isFetchingData = c.isFetchingData →
      c₁.isFetchingData → c₁.windowBegin ≠ c₁.nextDataPacketToSend + 1 := by
    intro c₁ he hf₁
    exact absurd (hf₁.symm.trans (he.trans hf)) (by decide)
  unfold Control.sendNext at needed ⊢
  dsimp only at needed ⊢
  split
  · rename_i empty
    have inactive : c.isTimerActive = false := by
      by_contra ha
      rcases h.needed (by simpa using ha) hread with hp' | hne
      · exact absurd (hp.symm.trans hp') (by decide)
      · exact hne empty
    have none_ : ∀ op ∈ c.inflight, ¬op.isTicking := by
      intro op hm ht
      rcases (isTicking_iff _).mp ht with rfl | rfl
      · exact absurd ((h.live.armed hm).symm.trans inactive) (by decide)
      · exact hexpired empty hm
    rw [if_pos empty] at needed
    have live := OneLive.arm h.live.length none_
    rw [← followed_snoc h.length] at live
    exact ⟨live, h.length.trans (by simp [Control.arm, Control.submit]), needed, idle _ rfl⟩
  · rename_i hne
    rw [if_neg hne] at needed
    exact ⟨h.live, h.length, needed, idle _ rfl⟩

/-- The session starts with at most the timeout of its OACK. -/
theorem started (h : c.Untouched) : c.started.Ticks [] := by
  have ticks : c.Ticks [] := by
    refine ⟨?_, Nat.zero_le _, fun ha => ?_, fun hf => ?_⟩
    · rw [h.inflight]
      exact ⟨rfl, by simp, by simp, by simp⟩
    · simp [h.isTimerActive] at ha
    · simp [h.isFetchingData] at hf
  unfold Control.started
  split
  · exact ticks
  · split
    · rename_i pending
      refine (ticks.arm (by simp [h.inflight]) fun _ _ => ?_).submit rfl
      exact .inl pending
    · exact ticks.submit rfl

/-- What a completion leaves in flight. -/
theorem takes {pre post : List Op} {e : Event} {fs gs : List Bool} {f : Bool}
    (h : c.Ticks (fs ++ f :: gs)) (hlen : c.inflight.length = (fs ++ f :: gs).length)
    (hfs : fs.length = pre.length) (ht : c.Tidy) (hops : c.inflight = pre ++ op :: post)
    (hrep : op.Reports e)
    (htimeout : ∀ r, e = .timeout r → ¬(r = .error ENOENT ∨ r = .error ECANCELED) →
      op = .timeout .expired)
    (hack : ∀ d, e = .packetReceived (.ok d) →
      (c.RearmsOn d → .timeout .expired ∉ c.inflight) ∧ ¬c.AcksUnread d)
    (hdata : ∀ r, e = .dataAvailable r → c'.nextDataPacketToSend ≠ c.nextDataPacketToSend →
      c.windowBegin = c.nextDataPacketToSend → .timeout .expired ∉ c.inflight)
    (htakes : { c with inflight := pre ++ post }.Takes e c') : c'.Ticks (fs ++ gs) := by
  have live := h.live
  rw [followed_of_length hlen, hops] at live
  have removed := live.remove hfs
  have shorter : (pre ++ post).length = (fs ++ gs).length := removed.length.symm
  have fewer : .timeout .expired ∉ c.inflight → .timeout .expired ∉ pre ++ post := by
    rw [hops]
    simp only [List.mem_append, List.mem_cons, not_or]
    tauto
  have reaped : { c with inflight := pre ++ post }.reap.Ticks (fs ++ gs) := by
    refine ⟨?_, shorter.ge, h.needed, h.behind⟩
    change OneLive c.isTimerActive (pre ++ post) (followed (fs ++ gs) (pre ++ post))
    rw [followed_of_length shorter]
    exact removed
  cases e with
  | start => exact (Op.not_reports_start hrep).elim
  | timeout r =>
      rcases htakes with ⟨-, rfl⟩ | ⟨hn, rfl | rfl⟩
      · exact reaped
      · exact reaped.giveUp shorter
      · -- the timeout that expired was the only one
        have expired := htimeout r rfl fun hr => hn (.inl hr)
        refine reaped.arm (live.none_left (expired ▸ rfl)) fun _ hread => ?_
        refine h.needed ?_ hread
        simpa using fun hidle => hn (.inr (.inr hidle))
  | timeoutRemoved r => exact htakes ▸ reaped
  | packetReceivedRemoved r => exact htakes ▸ reaped
  | packetReceived r =>
      rcases htakes with ⟨-, rfl⟩ | ⟨hopen, d, c₁, rfl, hrec, rfl⟩
      · exact reaped
      · obtain ⟨hexpired, hunread⟩ := hack d rfl
        have tidy := ht.remove hops (by cases op <;> first | rfl | exact hrep.elim)
        exact (reaped.receives shorter tidy (fun hr => fewer (hexpired hr)) hunread hopen
          hrec).listen
  | dataAvailable r =>
      obtain ⟨-, fetching⟩ := ht.removeFetch hops (by cases op <;> first | rfl | exact hrep.elim)
      obtain ⟨hread, settled, -⟩ := ht.fetching fetching
      have idle : { { c with inflight := pre ++ post }.reap with isFetchingData := false }.Ticks
          (fs ++ gs) :=
        ⟨reaped.live, reaped.length, h.needed, fun hf => by simp at hf⟩
      rcases htakes with ⟨n, -, rfl⟩ | rfl | ⟨short, rfl⟩
      · exact idle.close true
      · exact idle
      · refine idle.sendNext rfl hread settled (h.behind fetching) (fun empty => ?_) short
        refine fewer (hdata r rfl ?_ empty)
        have next (c₁ : Control) : (c₁.sendNext short).nextDataPacketToSend =
            c₁.nextDataPacketToSend + 1 := by
          unfold Control.sendNext
          dsimp only
          split <;> rfl
        rw [next]
        simp [Control.reap]

end Ticks

end Control

/-! ## Runs -/

/-- A session with the marks of its operations in flight. -/
structure Timeline where
  live : Live
  current : List Bool

namespace Timeline

def boot (info : ServerInfo) (request : PeerMessage) : Timeline := ⟨Live.boot info request, []⟩

/-- A call that found operations with `marks` in flight. -/
def after (marks : List Bool) (l : Live) : Timeline := ⟨l, followed marks l.world.inflight⟩

/-- A step, with what it does to the marks. -/
inductive Step : Timeline → Label → Timeline → Prop where
  | start {t : Timeline} (sys : Sys) :
      t.live.status = .fresh →
      Step t (.start sys) (after t.current (deliver sys .start t.live.world))
  | complete {t : Timeline} {pre post : List Op} {fs gs : List Bool} {f : Bool} (op : Op) (sys : Sys)
      (e : Event) :
      t.live.listening → t.live.world.inflight = pre ++ op :: post → op.Reports e →
      t.current = fs ++ f :: gs → fs.length = pre.length →
      Step t (.complete op sys e)
        (after (fs ++ gs) (deliver sys e { t.live.world with inflight := pre ++ post }))
  | expire {t : Timeline} {l' : Live} :
      Server.Step t.live .expire l' → Step t .expire ⟨l', t.current⟩
  | fill {t : Timeline} {l' : Live} (bytes : Bytes) :
      Server.Step t.live (.fill bytes) l' → Step t (.fill bytes) ⟨l', t.current⟩

/-- A run with marks all of whose steps meet `C`. -/
def Runs (C : Condition) : Timeline → Timeline → Prop :=
  Relation.ReflTransGen fun t t' => ∃ label, Step t label t' ∧ C t.live label

/-- Take one step of a schedule with its marks, if it can be taken. -/
def perform (t : Timeline) : Label → Option Timeline
  | .start sys =>
      (Server.perform t.live (.start sys)).map fun l => after t.current l
  | .complete op sys e =>
      if t.live.world.inflight.idxOf op < t.current.length then
        (Server.perform t.live (.complete op sys e)).map fun l =>
          after (t.current.eraseIdx (t.live.world.inflight.idxOf op)) l
      else none
  | label => (Server.perform t.live label).map fun l => ⟨l, t.current⟩

theorem perform_step {t t' : Timeline} {label : Label} (h : perform t label = some t') :
    Step t label t' := by
  cases label with
  | start sys =>
      obtain ⟨l, hl, rfl⟩ := Option.map_eq_some_iff.mp h
      cases Server.perform_step hl with
      | start _ hf => exact .start sys hf
  | complete op sys e =>
      simp only [perform, Option.ite_none_right_eq_some] at h
      obtain ⟨hlt, h⟩ := h
      obtain ⟨l, hl, rfl⟩ := Option.map_eq_some_iff.mp h
      simp only [Server.perform, Option.ite_none_right_eq_some, Option.some.injEq] at hl
      obtain ⟨⟨hl, hmem, hr⟩, rfl⟩ := hl
      obtain ⟨pre, post, hpre, hops, herase⟩ := List.exists_erase_eq hmem
      rw [herase]
      have hidx : t.live.world.inflight.idxOf op = pre.length := by
        rw [hops, List.idxOf_append_of_notMem hpre, List.idxOf_cons_self, Nat.add_zero]
      rw [hidx] at hlt ⊢
      rw [List.eraseIdx_eq_take_drop_succ]
      refine .complete (f := t.current[pre.length]) op sys e hl hops hr ?_ ?_
      · rw [List.getElem_cons_drop, List.take_append_drop]
      · rw [List.length_take]
        omega
  | expire =>
      obtain ⟨l, hl, rfl⟩ := Option.map_eq_some_iff.mp h
      exact .expire (Server.perform_step hl)
  | fill bytes => simp [perform, Server.perform] at h

/-- Run a schedule through with its marks. -/
def replay : List Label → Timeline → Option Timeline
  | [], t => some t
  | label :: labels, t => (perform t label).bind (replay labels)

theorem replay_runs {C : Condition} {labels : List Label} {t t' : Timeline}
    (h : replay labels t = some t') (hC : ∀ l label, label ∈ labels → C l label) :
    Runs C t t' := by
  induction labels generalizing t with
  | nil =>
      cases h
      exact .refl
  | cons label labels ih =>
      obtain ⟨t₁, h₁, h₂⟩ := Option.bind_eq_some_iff.mp h
      exact .head ⟨label, perform_step h₁, hC _ _ (by simp)⟩
        (ih h₂ fun l label hm => hC l label (by simp [hm]))

end Timeline

/-- Nothing is armed while an expired timeout waits for its completion: no
accepted ACK leaves blocks to wait for, and no block goes out into an empty
window. No ACK names the block that is being read. A timeout completes once it
has expired or was removed, and says which. -/
def TimersApart : Condition := fun l label =>
  match label with
  | .complete _ _ (.packetReceived (.ok d)) =>
      (l.world.control.RearmsOn d → .timeout .expired ∉ l.world.inflight) ∧
        ¬l.world.control.AcksUnread d
  | .complete _ sys (.dataAvailable r) =>
      l.world.session.SendsBlock sys r →
        l.world.session.windowBegin = l.world.session.nextDataPacketToSend →
        .timeout .expired ∉ l.world.inflight
  | .complete op _ (.timeout r) =>
      op ≠ .timeout .armed ∧
        (op = .timeout .removed ↔ r = .error ENOENT ∨ r = .error ECANCELED)
  | _ => True

/-- The next block changes only when one goes out. -/
theorem sendsBlock_of_next {w : World} {r : Completion ℕ} :
    wp (dispatch (.dataAvailable r)) (fun _ w' =>
      w'.control.nextDataPacketToSend ≠ w.control.nextDataPacketToSend →
        w.session.SendsBlock w.sys r) (fun _ _ => True) w := by
  have stays {x : Act Unit} (hx : KeepsBuffer x) (v : World) (hv : v.buffer = w.buffer) :
      wp x (fun _ w' => w'.control.nextDataPacketToSend ≠ w.control.nextDataPacketToSend →
        w.session.SendsBlock w.sys r) (fun _ _ => True) v :=
    hx.wp fun _ t ht hne => (hne (congrArg Buffer.nextDataPacketToSend (ht.trans hv))).elim
  by_cases hmode : w.session.mode = .octet
  · rw [dispatch, wp_bind, wp_jobDone, wp_bind, wp_modify]
    cases r with
    | error e =>
        unfold onDataAvailable
        rw [wp_bind, wp_session]
        refine wp_ite.mpr ⟨fun _ => stays readFailure_source.buffer _ rfl, fun h => (h hmode).elim⟩
    | ok k =>
        refine wp_mono (onDataAvailable_spec ?_ k) ?_ fun _ _ _ => trivial
        · exact hmode
        rintro _ t (⟨-, hb, -⟩ | ⟨hcomplete, -⟩) hne
        · exact (hne (congrArg Buffer.nextDataPacketToSend hb)).elim
        · exact fun _ => ⟨k, rfl, hcomplete⟩
  · exact wp_of_forall fun _ _ _ hm => (hmode hm).elim

/-- The timeouts of a session between two calls. -/
structure Timeline.Ticking (t : Timeline) : Prop where
  settled : Settled t.live
  fresh : t.live.status = .fresh → t.current = []
  ticks : t.live.listening → t.live.world.control.Ticks t.current ∧
    t.live.world.inflight.length = t.current.length

namespace Timeline.Ticking

theorem boot (info : ServerInfo) (request : PeerMessage) : (boot info request).Ticking where
  settled := .boot _ _
  fresh _ := rfl
  ticks h := by simp [Live.listening, Timeline.boot, Live.boot] at h

/-- The marks at the end of a call are those of the operations then in flight. -/
theorem delivered {marks : List Bool} {l : Live} {P : Control → Prop} (hs : Settled l)
    (hfresh : l.status ≠ .fresh) (h : l.Ends P) (hP : ∀ c, P c → c.Ticks marks) :
    (after marks l).Ticking where
  settled := hs
  fresh hf := (hfresh hf).elim
  ticks hl := by
    obtain ⟨c, hc, hfetch⟩ := (h hl).1
    have ticks := (hP c hc).fetchesTo hfetch
    have length : l.world.inflight.length = (followed marks l.world.inflight).length :=
      ticks.live.length.symm
    refine ⟨⟨?_, length.ge, ticks.needed, ticks.behind⟩, length⟩
    have live := ticks.live
    change OneLive l.world.control.isTimerActive l.world.inflight
      (followed (followed marks l.world.inflight) l.world.inflight)
    rwa [followed_of_length length]

theorem oneLive {t : Timeline} (h : t.Ticking) (hl : t.live.listening) :
    OneLive t.live.world.control.isTimerActive t.live.world.inflight t.current := by
  obtain ⟨ticks, length⟩ := h.ticks hl
  have live := ticks.live
  change OneLive _ t.live.world.inflight (followed t.current t.live.world.inflight) at live
  rwa [followed_of_length length] at live

theorem replace {t : Timeline} {pre post : List Op} {op op' : Op} (h : t.Ticking)
    (hl : t.live.listening) (hops : t.live.world.inflight = pre ++ op :: post)
    (ht : op'.isTicking = op.isTicking) (ha : op' = .timeout .armed → op = .timeout .armed) :
    { t.live.world.control with inflight := pre ++ op' :: post }.Ticks t.current ∧
      (pre ++ op' :: post).length = t.current.length := by
  obtain ⟨ticks, -⟩ := h.ticks hl
  have live := h.oneLive hl
  rw [hops] at live
  have changed := live.replace ht ha
  have length' : (pre ++ op' :: post).length = t.current.length := changed.length.symm
  refine ⟨⟨?_, length'.ge, ticks.needed, ticks.behind⟩, length'⟩
  change OneLive t.live.world.control.isTimerActive (pre ++ op' :: post)
    (followed t.current (pre ++ op' :: post))
  rw [followed_of_length length']
  exact changed

theorem step {t t' : Timeline} {label : Label} (h : t.Ticking) (hs : Timeline.Step t label t')
    (hC : TimersApart t.live label) : t'.Ticking := by
  cases hs with
  | start sys hf =>
      refine delivered (h.settled.step (.start sys hf)) (deliver_ne_fresh _ _ _)
        (deliver_control _ _ _) ?_
      rintro _ ht
      obtain ⟨c₁, untouched, rfl⟩ := ht (h.settled.fresh hf)
      rw [h.fresh hf]
      exact .started untouched
  | @complete pre post fs gs f op sys e hl hops hr hcur hfs =>
      obtain ⟨ticks, length⟩ := h.ticks hl
      rw [hcur] at ticks length
      refine delivered (h.settled.step (.complete op sys e hl hops hr)) (deliver_ne_fresh _ _ _)
        (P := fun c' => { t.live.world.control with inflight := pre ++ post }.Takes e c' ∧
          ∀ r, e = .dataAvailable r →
            c'.nextDataPacketToSend ≠ t.live.world.control.nextDataPacketToSend →
              t.live.world.session.SendsBlock sys r) (deliver_ends ?_) ?_
      · cases e with
        | dataAvailable r =>
            refine wp_mono (wp_and (dispatch_moves _ _) sendsBlock_of_next) ?_ fun _ _ _ => trivial
            rintro _ t' ⟨htakes, hsends⟩
            exact ⟨htakes, fun r' he => by cases he; exact hsends⟩
        | _ => exact wp_mono (dispatch_moves _ _) (fun _ _ ht => ⟨ht, by simp⟩) fun _ _ _ => trivial
      · rintro c' ⟨htakes, hsends⟩
        refine ticks.takes length hfs (h.settled.tidy hl) hops hr ?_ ?_ ?_ htakes
        · intro r he hne
          subst he
          obtain ⟨harmed, hremoved⟩ := hC
          cases op with
          | timeout state =>
              cases state with
              | armed => exact (harmed rfl).elim
              | expired => rfl
              | removed => exact (hne (hremoved.mp rfl)).elim
          | _ => exact hr.elim
        · intro d he
          subst he
          exact hC
        · intro r he hne
          subst he
          exact hC (hsends r rfl hne)
  | expire hs =>
      have settled := h.settled.step hs
      cases hs with
      | expire hl hops =>
          exact ⟨settled, fun hf => (hl.ne_fresh hf).elim,
            fun _ => h.replace hl hops rfl (fun he => by simp at he)⟩
  | fill bytes hs =>
      have settled := h.settled.step hs
      cases hs with
      | fill _ hl hops _ =>
          exact ⟨settled, fun hf => (hl.ne_fresh hf).elim,
            fun _ => h.replace hl hops rfl (fun he => by simp at he)⟩

end Timeline.Ticking

/-- A run with marks. -/
theorem Timeline.ticking_of_runs {info : ServerInfo} {request : PeerMessage} {t : Timeline}
    (h : Timeline.Runs TimersApart (Timeline.boot info request) t) : t.Ticking := by
  induction h with
  | refl => exact .boot info request
  | tail _ hs ih =>
      obtain ⟨label, hs, hC⟩ := hs
      exact ih.step hs hC

/-- Every run in which timeouts are kept apart can be followed with marks. -/
theorem Timeline.of_runs {info : ServerInfo} {request : PeerMessage} {l : Live}
    (h : Server.Runs TimersApart (Live.boot info request) l) :
    ∃ marks, Timeline.Runs TimersApart (Timeline.boot info request) ⟨l, marks⟩ := by
  induction h with
  | refl => exact ⟨[], .refl⟩
  | tail _ hs ih =>
      obtain ⟨marks, runs⟩ := ih
      obtain ⟨label, hs, hC⟩ := hs
      have ticking := Timeline.ticking_of_runs runs
      cases hs with
      | start sys hf => exact ⟨_, runs.tail ⟨_, .start sys hf, hC⟩⟩
      | @complete pre post op sys e hl hops hr =>
          have live := ticking.oneLive hl
          dsimp only at live
          rw [hops] at live
          obtain ⟨fs, f, gs, hcur, hfs⟩ := live.split
          exact ⟨_, runs.tail ⟨_, .complete op sys e hl hops hr hcur hfs, hC⟩⟩
      | expire hl hops => exact ⟨marks, runs.tail ⟨_, .expire (.expire hl hops), hC⟩⟩
      | fill bytes hl hops hlen =>
          exact ⟨marks, runs.tail ⟨_, .fill bytes (.fill bytes hl hops hlen), hC⟩⟩

/-- `on_timeout` runs unless the completion is ignored. -/
theorem wp_dispatch_timeout {Q : Unit → World → Prop} {E : Abort → World → Prop} {w : World}
    {r : Completion ℕ} : wp (dispatch (.timeout r)) Q E w ↔
      (w.control.IgnoresTimeout r → Q () w.reaped) ∧
        (¬w.control.IgnoresTimeout r → wp onTimeout Q E w.reaped) := by
  simp only [dispatch, wp_bind, wp_jobDone, wp_session, wp_ite, wp_pure]
  unfold Control.IgnoresTimeout
  constructor
  · rintro ⟨removed, others⟩
    refine ⟨?_, fun h => (others (not_or.mp h).1).2 (not_or.mp h).2⟩
    by_cases hr : r = .error ENOENT ∨ r = .error ECANCELED
    · exact fun _ => removed hr
    · exact fun h => (others hr).1 (h.resolve_left hr)
  · rintro ⟨ignored, runs⟩
    exact ⟨fun h => ignored (.inl h), fun h => ⟨fun h' => ignored (.inr h'), fun h' =>
      runs (not_or.mpr ⟨h, h'⟩)⟩⟩

/-- In every run in which timeouts are kept apart at most one timeout in flight
was not removed, and a completion with which `on_timeout` runs is that of the
timeout armed last, which nothing was submitted to remove. -/
theorem single_live_timer {info : ServerInfo} {request : PeerMessage} {t : Timeline}
    (h : Timeline.Runs TimersApart (Timeline.boot info request) t) (hl : t.live.listening) :
    t.live.world.inflight.countP Op.isTicking ≤ 1 ∧
      ∀ pre op post sys r, t.live.world.inflight = pre ++ op :: post → op.Reports (.timeout r) →
        TimersApart t.live (.complete op sys (.timeout r)) →
        ¬t.live.world.control.IgnoresTimeout r →
          op = .timeout .expired ∧ t.current[pre.length]? = some true := by
  have live := (Timeline.ticking_of_runs h).oneLive hl
  refine ⟨live.one, ?_⟩
  intro pre op post sys r hops hr hC runs
  simp only [Control.IgnoresTimeout, not_or] at runs
  obtain ⟨⟨hne, hne'⟩, -, hactive⟩ := runs
  have expired : op = .timeout .expired := by
    obtain ⟨harmed, hremoved⟩ := hC
    cases op with
    | timeout state =>
        cases state with
        | armed => exact (harmed rfl).elim
        | expired => rfl
        | removed => exact (not_or.mpr ⟨hne, hne'⟩ (hremoved.mp rfl)).elim
    | _ => exact hr.elim
  refine ⟨expired, ?_⟩
  rw [hops] at live
  obtain ⟨fs, f, gs, hcur, hfs⟩ := live.split
  have current := live.current (by simpa using hactive) (op, f) ?_ (expired ▸ rfl)
  · rw [hcur, ← hfs, List.getElem?_append_right le_rfl]
    simpa using current
  · rw [hcur, List.zip_append hfs.symm]
    exact List.mem_append_right _ List.mem_cons_self

/-- The timeout of block 1 expires and ACK 1 is taken before its completion.
The removal finds nothing to remove, block 2 arms a second timeout, and the
completion of the first one makes `on_timeout` run. -/
theorem stale_timeout_runs :
    ∃ t, Timeline.Runs anySteps (Timeline.boot plainInfo (plainRequest Opcode.rrq "octet")) t ∧
      t.live.listening ∧ t.live.world.inflight.countP Op.isTicking = 2 ∧
      ∃ post, t.live.world.inflight = .timeout .expired :: post ∧
        TimersApart t.live (.complete (.timeout .expired) {} (.timeout (.error ETIME))) ∧
        ¬t.live.world.control.IgnoresTimeout (.error ETIME) ∧ t.current[0]? = some false := by
  have h : ((Timeline.replay [.start fileOpens,
      .complete (.read 0 0 512 none) {} (.dataAvailable (.ok 512)), .expire, arrival (.ack 1),
      .complete .timeoutRemove {} (.timeoutRemoved (.error ENOENT)),
      .complete (.read 0 0 512 none) {} (.dataAvailable (.ok 512))]
      (Timeline.boot plainInfo (plainRequest Opcode.rrq "octet"))).map fun t =>
        decide (t.live.status = .idle ∧ t.live.world.session.shouldClose = false ∧
          t.live.world.session.isTimerActive ∧ t.live.world.inflight =
            [.timeout .expired, .recv false, .timeout .armed] ∧
          t.current = [false, false, true])) = some true := by
    decide +kernel
  obtain ⟨t, ht, he⟩ := Option.map_eq_some_iff.mp h
  obtain ⟨hs, hopen, hactive, hops, hcur⟩ := of_decide_eq_true he
  refine ⟨t, Timeline.replay_runs ht fun _ _ _ => trivial, .inl hs, ?_, _, hops,
    ⟨by decide, by decide⟩, ?_, ?_⟩
  · rw [hops]
    decide
  · rintro (hr | hclosed | hidle)
    · exact absurd hr (by decide)
    · exact absurd (hopen.symm.trans hclosed) (by decide)
    · exact absurd (hactive.symm.trans hidle) (by decide)
  · rw [hcur]
    rfl

/-- Block 1 is sent and its timeout expires. -/
theorem expired_timeout_is_current :
    ∃ t, Timeline.Runs TimersApart (Timeline.boot plainInfo (plainRequest Opcode.rrq "octet")) t ∧
      t.live.world.inflight.countP Op.isTicking ≤ 1 ∧
      t.live.world.inflight = [.recv false, .timeout .expired] ∧ t.current[1]? = some true := by
  have h₁ : ((Timeline.replay [.start fileOpens]
      (Timeline.boot plainInfo (plainRequest Opcode.rrq "octet"))).map fun t =>
        decide (.timeout .expired ∉ t.live.world.inflight)) = some true := by
    decide +kernel
  obtain ⟨t₁, ht₁, he₁⟩ := Option.map_eq_some_iff.mp h₁
  have h : (((Timeline.replay [.start fileOpens]
      (Timeline.boot plainInfo (plainRequest Opcode.rrq "octet"))).bind
      (Timeline.replay [.complete (.read 0 0 512 none) {} (.dataAvailable (.ok 3)), .expire])).map
      fun t => decide (t.live.status = .idle ∧ t.live.world.session.shouldClose = false ∧
          t.live.world.session.isTimerActive ∧
          t.live.world.inflight = [.recv false, .timeout .expired])) = some true := by
    decide +kernel
  rw [ht₁, Option.bind_some] at h
  obtain ⟨t, ht, he⟩ := Option.map_eq_some_iff.mp h
  obtain ⟨hs, hopen, hactive, hops⟩ := of_decide_eq_true he
  obtain ⟨t₂, ht₂, ht⟩ := Option.bind_eq_some_iff.mp ht
  have hrun : Timeline.Runs TimersApart
      (Timeline.boot plainInfo (plainRequest Opcode.rrq "octet")) t := by
    have started := Timeline.replay_runs (C := TimersApart) ht₁ fun _ _ hm => by
      rw [List.mem_singleton.mp hm]
      trivial
    refine started.trans (.head ⟨_, Timeline.perform_step ht₂, fun _ _ => of_decide_eq_true he₁⟩ ?_)
    refine Timeline.replay_runs ht fun _ _ hm => ?_
    rw [List.mem_singleton.mp hm]
    trivial
  obtain ⟨one, current⟩ := single_live_timer hrun (.inl hs)
  refine ⟨t, hrun, one, hops, ?_⟩
  refine (current [.recv false] (.timeout .expired) [] {} (.error ETIME) hops trivial
    ⟨by decide, by decide⟩ ?_).2
  rintro (hr | hclosed | hidle)
  · exact absurd hr (by decide)
  · exact absurd (hopen.symm.trans hclosed) (by decide)
  · exact absurd (hactive.symm.trans hidle) (by decide)

end Tftp.Server
