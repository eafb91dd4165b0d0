import Tftp.Server.Rules

/-!
# The control skeleton of a session

What a session does next depends on few of its fields: the window, the three
flags, the last packet and the operations in flight. `Control` keeps these and
forgets packet contents, statistics, buffers and the round-trip estimator. On
it a call of the event handler is a short relation, `Control.Takes`, followed
by the read-ahead, and `deliver_control` shows that the handler of the source
refines it.
-/

namespace Tftp.Server

open Prog Act

structure Control where
  requestType : RequestType
  clientAddress : Address
  optionsPending : Bool
  isTimerActive : Bool
  isFetchingData : Bool
  shouldClose : Bool
  windowBegin : UInt16
  nextDataPacketToSend : UInt16
  windowSize : UInt16
  lastPacket : Option UInt16
  inflight : List Op
  pendingJobs : UInt8

/-- The skeleton of a session together with its operations in flight. -/
def World.control (w : World) : Control where
  requestType := w.session.requestType
  clientAddress := w.session.clientAddress
  optionsPending := !w.session.optionsSettled
  isTimerActive := w.session.isTimerActive
  isFetchingData := w.session.isFetchingData
  shouldClose := w.session.shouldClose
  windowBegin := w.session.windowBegin
  nextDataPacketToSend := w.session.nextDataPacketToSend
  windowSize := w.session.windowSize
  lastPacket := w.session.lastPacket
  inflight := w.inflight
  pendingJobs := w.session.pendingJobs

namespace Control

/-! ## Moves of the skeleton -/

/-- An operation is put in the ring and counted. -/
def submit (c : Control) (op : Op) : Control :=
  { c with inflight := c.inflight ++ [op], pendingJobs := c.pendingJobs + 1 }

def arm (c : Control) : Control := { c.submit (.timeout .armed) with isTimerActive := true }

def disarm (c : Control) : Control :=
  { { c with inflight := removeTimer c.inflight }.submit .timeoutRemove with
    isTimerActive := false }

def close (c : Control) : Control := { c with shouldClose := true }

/-- The retries are exhausted: close and cancel the pending receive. -/
def giveUp (c : Control) : Control :=
  { c with inflight := cancelRecv c.inflight }.close.submit .cancel

/-- A receive follows every datagram that does not close the session. -/
def listen (c : Control) : Control := if c.shouldClose then c else c.submit (.recv false)

/-- What follows the move of the window to the block after `n`. -/
def ackMoved (c : Control) (n : UInt16) : Control :=
  let c := c.disarm
  let c := if c.windowBegin ≠ c.nextDataPacketToSend then c.arm else c
  { c with shouldClose := c.lastPacket = some n }

def acceptAck (c : Control) (n : UInt16) : Control := { c with windowBegin := n + 1 }.ackMoved n

/-- The next block goes out; a `short` one is the last. -/
def sendNext (c : Control) (short : Bool) : Control :=
  let c := { c with lastPacket := if short then some c.nextDataPacketToSend else c.lastPacket }
  let c := if c.windowBegin = c.nextDataPacketToSend then c.arm else c
  { c with nextDataPacketToSend := c.nextDataPacketToSend + 1 }

def shouldFetch (c : Control) : Bool :=
  c.requestType = .read && !c.isFetchingData && !c.shouldClose && !c.optionsPending &&
    c.lastPacket.isNone &&
    isInRange c.nextDataPacketToSend c.windowBegin (c.windowBegin + c.windowSize - 1)

def fetch (c : Control) (op : Op) : Control :=
  if c.shouldFetch then { c.submit op with isFetchingData := true } else c

/-- An ACK of the session's own client. -/
def IsAck (c : Control) (d : Datagram) : Prop :=
  4 ≤ d.bytes.length ∧ sockaddrEquals d.sender c.clientAddress ∧
    readU16 d.bytes 0 = Opcode.ack

instance (c : Control) (d : Datagram) : Decidable (c.IsAck d) := by
  unfold IsAck; infer_instance

/-- What a datagram can do to a session that is not closing. -/
inductive Receives (c : Control) (d : Datagram) : Control → Prop where
  | ignored : Receives c d c
  | closed : Receives c d c.close
  | optionsAck : c.requestType = .read → c.IsAck d → c.optionsPending → readU16 d.bytes 2 = 0 →
      Receives c d ({ c with optionsPending := false }.acceptAck 0)
  | ack : c.requestType = .read → c.IsAck d → ¬(c.optionsPending ∧ readU16 d.bytes 2 = 0) →
      isInRange (readU16 d.bytes 2) c.windowBegin (c.nextDataPacketToSend - 1) →
      Receives c d (c.acceptAck (readU16 d.bytes 2))
  | data (pending closing : Bool) : c.requestType = .write →
      Receives c d { c with optionsPending := pending, shouldClose := closing }

/-- What a session looks like before its first operation is submitted. -/
structure Untouched (c : Control) : Prop where
  isTimerActive : c.isTimerActive = false
  isFetchingData : c.isFetchingData = false
  windowBegin : c.windowBegin = 1
  nextDataPacketToSend : c.nextDataPacketToSend = 1
  lastPacket : c.lastPacket = none
  inflight : c.inflight = []
  pendingJobs : c.pendingJobs = 0

/-- A session that does not close at once submits a receive, and a timeout
when it waits for the acknowledgment of its options. -/
def started (c : Control) : Control :=
  if c.shouldClose then c else (if c.optionsPending then c.arm else c).submit (.recv false)

/-- A completion is uncounted before it is looked at. -/
def reap (c : Control) : Control := { c with pendingJobs := c.pendingJobs - 1 }

/-- A timeout that was removed, or whose session no longer waits for one. -/
def IgnoresTimeout (c : Control) (r : Completion ℕ) : Prop :=
  (r = .error ENOENT ∨ r = .error ECANCELED) ∨ c.shouldClose ∨ c.isTimerActive = false

/-- The `switch` of the event handler. -/
def Takes (c : Control) : Event → Control → Prop
  | .start, c' => c.Untouched → ∃ c₁ : Control, c₁.Untouched ∧ c' = c₁.started
  | .timeout r, c' =>
      c.IgnoresTimeout r ∧ c' = c.reap ∨
      ¬c.IgnoresTimeout r ∧ (c' = c.reap.giveUp ∨ c' = c.reap.arm)
  | .timeoutRemoved _, c' => c' = c.reap
  | .packetReceivedRemoved _, c' => c' = c.reap
  | .packetReceived r, c' =>
      (c.shouldClose ∨ r = .error ECANCELED) ∧ c' = c.reap ∨
      c.shouldClose = false ∧ ∃ d c₁, r = .ok d ∧ c.reap.Receives d c₁ ∧ c' = c₁.listen
  | .dataAvailable r, c' =>
      let c := { c.reap with isFetchingData := false }
      (∃ e, r = .error e ∧ c' = c.close) ∨ c' = c ∨ ∃ short, c' = c.sendNext short

end Control

/-! ## Programs that leave the skeleton alone -/

instance : Blind World.control := ⟨fun _ _ => rfl, fun _ _ _ => rfl, fun _ _ _ _ => rfl⟩

instance : Unlogged World.control := ⟨fun _ _ => rfl⟩

/-- The program does not touch the skeleton. -/
abbrev Unmoved {α : Type} (x : Act α) : Prop := Fixes World.control x

theorem createDataPackets_unmoved (n : ℕ) : Unmoved (createDataPackets n) := by
  refine .bind (.modify fun _ => rfl) fun _ => .bind .session fun s =>
    .bind (.bind .sys fun _ => .pure _) fun atEnd =>
      .ite (.bind (.modify fun _ => rfl) fun _ => .pure _) (.ite (.stop _) ?_)
  cases s.dataPackets with
  | none => exact .stop _
  | some slots => exact .bind (.modify fun _ => rfl) fun _ => .pure _

/-! ## The effect of each handler -/

/-- A run that returns ends with a skeleton related to the one it began with. -/
def Moves {α : Type} (x : Act α) (R : Control → Control → Prop) : Prop :=
  ∀ w, wp x (fun _ w' => R w.control w'.control) (fun _ _ => True) w

namespace Moves

variable {α β : Type} {R : Control → Control → Prop}

theorem after {x : Act α} {f : α → Act β} (hx : Unmoved x) (hf : ∀ a, Moves (f a) R) :
    Moves (x >>= f) R := fun _ => wp_bind.mpr <| hx.wp fun a t ht => ht ▸ hf a t

theorem ite {p : Prop} [Decidable p] {x y : Act α} (hx : Moves x R) (hy : Moves y R) :
    Moves (if p then x else y) R := by
  split
  · exact hx
  · exact hy

theorem mono {x : Act α} {R' : Control → Control → Prop} (hx : Moves x R)
    (h : ∀ c c', R c c' → R' c c') : Moves x R' := fun w =>
  wp_mono (hx w) (fun _ _ ht => h _ _ ht) fun _ _ _ => trivial

theorem of_unmoved {x : Act α} (hx : Unmoved x) (h : ∀ c, R c c) : Moves x R := fun _ =>
  hx.wp fun _ _ ht => ht ▸ h _

theorem stop (e : Abort) : Moves (Prog.stop e : Act α) R := fun _ => trivial

/-- An update of the session, seen on the skeleton, comes first. -/
theorem update (g : Control → Control) (R : Control → Control → Prop)
    {f : Session → Session} {k : Unit → Act β}
    (hf : ∀ w : World, { w with session := f w.session }.control = g w.control)
    (hk : Moves (k ()) R) : Moves (modify f >>= k) fun c c' => R (g c) c' := by
  intro w
  have h := hk { w with session := f w.session }
  rw [hf w] at h
  exact wp_bind.mpr h

theorem before {x : Act α} {f : α → Act β} (hx : Moves x R) (hf : ∀ a, Unmoved (f a)) :
    Moves (x >>= f) R := fun w => wp_bind.mpr <|
  wp_mono (hx w) (fun a _ ht => (hf a).wp fun _ _ ht' => ht' ▸ ht) fun _ _ _ => trivial

end Moves

theorem recvAsync_moves : Moves recvAsync fun c c' => c' = c.submit (.recv false) := by
  intro w
  simp [recvAsync, World.control, Control.submit, Session.optionsSettled]

theorem submitTimeout_moves : Moves submitTimeout fun c c' => c' = c.arm := by
  intro w
  simp [submitTimeout, World.control, Control.arm, Control.submit, Session.optionsSettled]

theorem giveUp_moves : Moves giveUp fun c c' => c' = c.giveUp := by
  intro w
  simp only [giveUp, recvAsyncCancel, wp_bind, wp_modify, wp_require, wp_update]
  refine ⟨fun _ => ?_, fun _ => trivial⟩
  refine (Fixes.setMaxRetransmissionsError : Unmoved _).wp fun _ t ht => ?_
  refine (Fixes.sendErrorPacket _ : Unmoved _).wp fun _ t' ht' => ?_
  rw [ht', ht]
  rfl

/-- `on_timeout` ends the session or arms the timer again. -/
theorem onTimeout_moves : Moves onTimeout fun c c' => c' = c.giveUp ∨ c' = c.arm := by
  have rearm : Moves (do submitTimeout; retransmit) fun c c' => c' = c.arm :=
    submitTimeout_moves.before fun _ => Fixes.retransmit
  refine .after .session fun s => .ite (giveUp_moves.mono fun _ _ => .inl)
    (.after (.modify fun _ => rfl) fun _ => .after (.modify fun w => ?_) fun _ =>
      rearm.mono fun _ _ => .inr)
  split <;> rfl

theorem sendNextBlock_moves :
    Moves sendNextBlock fun c c' => ∃ short, c' = c.sendNext short := by
  refine .after .sys fun a => .after (.modify fun w => ?_) fun _ => .after .session fun s =>
    .after (Fixes.getDataPacketInfo _ _ _) fun packet => .after (.sendto _ _) fun _ => ?_
  · split <;> rfl
  · intro w
    by_cases short : w.session.lastBlockSize < w.session.blockSize <;>
      by_cases empty : w.session.windowBegin = w.session.nextDataPacketToSend <;>
      simp [short, empty, submitTimeout, World.control, Session.optionsSettled, Control.sendNext,
        Control.arm, Control.submit]

/-- `on_data_available` closes after a failed read, waits for the rest of the
block, or sends it. -/
theorem onDataAvailable_moves (r : Completion ℕ) :
    Moves (onDataAvailable r) fun c c' =>
      (∃ e, r = .error e ∧ c' = c.close) ∨ c' = c ∨ ∃ short, c' = c.sendNext short := by
  have send : Moves sendNextBlock fun c c' =>
      (∃ e, r = .error e ∧ c' = c.close) ∨ c' = c ∨ ∃ short, c' = c.sendNext short :=
    sendNextBlock_moves.mono fun _ _ h => .inr (.inr h)
  refine .after .session fun s => .ite ?_ send
  cases r with
  | error e =>
      intro w
      simp only [readFailure, wp_bind, wp_modify, wp_recordFailure, wp_session]
      exact (Fixes.sendErrorPacket _ : Unmoved _).wp fun _ t ht => .inl ⟨e, rfl, ht⟩
  | ok n =>
      exact .after (createDataPackets_unmoved n) fun _ =>
        .ite send (.of_unmoved (.pure _) fun _ => .inr (.inl rfl))

theorem acceptAck_moves (n : UInt16) : Moves (acceptAck n) fun c c' => c' = c.acceptAck n := by
  refine .update (fun c => { c with windowBegin := n + 1 }) (fun c c' => c' = c.ackMoved n)
    (fun _ => rfl) (.after .sys fun a => .after (.modify fun w => ?_) fun _ => ?_)
  · dsimp only
    split <;> rfl
  · intro w
    by_cases empty : w.session.windowBegin = w.session.nextDataPacketToSend <;>
      simp [empty, submitCancelTimeout, submitTimeout, World.control, Session.optionsSettled,
        Control.ackMoved, Control.disarm, Control.arm, Control.submit]

/-- A block that is accepted may close the session. -/
theorem acceptBlock_moves (n : UInt16) (data : Bytes) :
    Moves (acceptBlock n data) fun c c' => ∃ b, c' = { c with shouldClose := b } := by
  refine .after .session fun s => .after .sys fun a => .after (.emit _) fun _ => ?_
  cases a.write with
  | none => exact .after (.recordFailure _ _) fun _ => .stop _
  | some written =>
      refine .after (.modify fun _ => rfl) fun _ => .after (.sendto _ _) fun _ w => ?_
      exact ⟨_, rfl⟩

theorem onData_moves (packet : Bytes) :
    Moves (onData packet) fun c c' =>
      ∃ p b, c' = { c with optionsPending := p, shouldClose := b } := by
  refine .after .session fun s => .ite ?_ (.ite (.of_unmoved (.pure _) fun c => ⟨_, _, rfl⟩) ?_)
  · refine .mono (.update (fun c => { c with optionsPending := false }) _ (fun w => ?_)
      (acceptBlock_moves _ _)) ?_
    · simp [World.control, Session.optionsSettled]
    · rintro c _ ⟨b, rfl⟩
      exact ⟨false, b, rfl⟩
  · refine (acceptBlock_moves _ _).mono ?_
    rintro c _ ⟨b, rfl⟩
    exact ⟨c.optionsPending, b, rfl⟩

theorem onAck_moves (packet : Bytes) :
    Moves (onAck packet) fun c c' =>
      c' = c ∨
      (c.optionsPending ∧ readU16 packet 2 = 0 ∧
        c' = { c with optionsPending := false }.acceptAck 0) ∨
      (¬(c.optionsPending ∧ readU16 packet 2 = 0) ∧
        isInRange (readU16 packet 2) c.windowBegin (c.nextDataPacketToSend - 1) ∧
        c' = c.acceptAck (readU16 packet 2)) := by
  intro w
  simp only [onAck, wp_bind, wp_session, wp_ite, wp_modify]
  refine ⟨?_, fun hn => ⟨fun _ => .inl rfl, fun hr => ?_⟩⟩
  · rintro ⟨hp, h0⟩
    refine wp_mono (acceptAck_moves _ _) (fun _ t ht => .inr (.inl ⟨?_, h0, ?_⟩))
      fun _ _ _ => trivial
    · simp [World.control, hp]
    · rw [ht, h0]
      simp [World.control, Session.optionsSettled]
  · refine wp_mono (acceptAck_moves _ _) (fun _ t ht => .inr (.inr ⟨?_, ?_, ht⟩))
      fun _ _ _ => trivial
    · simpa [World.control] using hn
    · simpa [World.control] using hr

section Ack

variable {w : World} {d : Datagram} {Q : Unit → World → Prop} {E : Abort → World → Prop}

/-- An ACK reaches the ACK case of a read session. -/
theorem wp_onPacketReceived_ack (hread : w.session.requestType = .read) (hack : w.control.IsAck d) :
    wp (onPacketReceived (.ok d)) Q E w ↔ wp (onAck d.bytes) Q E w := by
  obtain ⟨hlen, hown, hop⟩ := hack
  have own : sockaddrEquals d.sender w.session.clientAddress = true := hown
  obtain ⟨he, hinet⟩ := sockaddrEquals_iff.mp own
  have inet : d.sender.isInet = true := he ▸ hinet
  have long : ¬d.bytes.length < 4 := by omega
  have notError : ¬Opcode.ack = Opcode.error := by decide
  have notData : ¬Opcode.ack = Opcode.data := by decide
  rw [onPacketReceived, wp_bind, wp_session]
  dsimp only
  rw [if_neg long, if_neg (by simp [inet]), if_neg (by simp [own]), hop, if_neg notError,
    if_neg (fun h => notData h.1), if_pos ⟨rfl, hread⟩]

/-- An ACK outside the accepted range is dropped. -/
theorem wp_onAck_outside (hn : ¬(w.session.optionsSettled = false ∧ readU16 d.bytes 2 = 0))
    (hrange : isInRange (readU16 d.bytes 2) w.session.windowBegin
      (w.session.nextDataPacketToSend - 1) = false) :
    wp (onAck d.bytes) Q E w ↔ Q () w := by
  rw [onAck, wp_bind, wp_session]
  dsimp only
  rw [if_neg hn, if_pos hrange, wp_pure]

end Ack

/-- A datagram the session looks at moves the skeleton as `Receives` says. -/
theorem onPacketReceived_moves (d : Datagram) :
    Moves (onPacketReceived (.ok d)) fun c c' => c.Receives d c' := by
  intro w
  simp only [onPacketReceived, wp_bind, wp_session, wp_ite]
  refine ⟨fun _ => .ignored, fun hlen => ⟨fun _ => .ignored, fun _ => ⟨fun _ => ?_, fun hown =>
    ⟨fun _ => ?_, fun _ => ⟨fun hdata => ?_, fun _ => ⟨fun hack => ?_, fun _ => ?_⟩⟩⟩⟩⟩⟩
  · exact (Fixes.unknownTransferId _ : Unmoved _).wp fun _ t ht => ht ▸ .ignored
  · exact (Fixes.reportClientError _ : Unmoved _).wp fun _ t ht => ht ▸ .closed
  · refine wp_mono (onData_moves _ w) ?_ fun _ _ _ => trivial
    rintro _ t ⟨p, b, ht⟩
    exact ht ▸ .data p b hdata.2
  · have own : w.control.IsAck d := ⟨by omega, by simpa [World.control] using hown, hack.1⟩
    refine wp_mono (onAck_moves _ w) ?_ fun _ _ _ => trivial
    rintro _ t (ht | ⟨hp, h0, ht⟩ | ⟨hn, hr, ht⟩)
    · exact ht ▸ .ignored
    · exact ht ▸ .optionsAck hack.2 own hp h0
    · exact ht ▸ .ack hack.2 own hn hr
  · simp only [unexpectedOpcode, wp_bind, wp_modify, wp_recordFailure, wp_session]
    exact (Fixes.sendErrorPacket _ : Unmoved _).wp fun _ t ht => ht ▸ .closed

/-- The read-ahead of either mode: without a window it never returns. -/
def SubmitsFetch (c c' : Control) : Prop :=
  c.windowSize ≠ 0 ∧ ∃ op, op.isFetch ∧ c' = c.submit op

/-- Both read-aheads first divide by the window size. -/
theorem submitsFetch_of_moves {x : Session → Act Unit}
    (h : ∀ s, Moves (x s) fun c c' => ∃ op, op.isFetch ∧ c' = c.submit op) :
    Moves (do
      let s ← session
      if s.windowSize = 0 then Prog.stop .crash else x s) SubmitsFetch := by
  intro w
  rw [wp_bind, wp_session, wp_ite]
  exact ⟨fun _ => trivial, fun hw => wp_mono (h _ w) (fun _ _ ht => ⟨hw, ht⟩) fun _ _ _ => trivial⟩

theorem fetchDataOctetAsync_moves : Moves fetchDataOctetAsync SubmitsFetch := by
  refine submitsFetch_of_moves fun s => .after (.modify fun _ => rfl) fun _ => ?_
  intro w
  simp [World.control, Control.submit, Session.optionsSettled, Op.isFetch]

theorem fetchDataNetasciiAsync_moves : Moves fetchDataNetasciiAsync SubmitsFetch := by
  refine submitsFetch_of_moves fun s => ?_
  cases s.dataPackets with
  | none =>
      exact .after (Fixes.readByte _) fun answer => .ite (.stop _)
        (.before (.after (.recordFailure _ _) fun _ => .stop _) fun _ => .pure _)
  | some slots =>
      refine .after (Fixes.netasciiLoop _ _ _ _) fun block => .after (.modify fun _ => rfl)
        fun _ w => ?_
      simp [World.control, Control.submit, Session.optionsSettled, Op.isFetch]

theorem control_shouldFetch (w : World) : w.control.shouldFetch = shouldFetchData w.session := by
  simp [Control.shouldFetch, shouldFetchData, World.control]
  rfl

/-- After every event the next block is fetched if there is room for it. -/
def Control.FetchesTo (c c' : Control) : Prop :=
  (c.shouldFetch → c.windowSize ≠ 0) ∧ ∃ op, op.isFetch ∧ c' = c.fetch op

theorem fetchData_moves : Moves fetchData Control.FetchesTo := by
  intro w
  rw [fetchData, wp_bind, wp_session, wp_ite]
  refine ⟨fun h => ?_, fun h => ⟨fun h' => ?_, .nop, rfl, ?_⟩⟩
  · have submitted : Moves (if w.session.mode = .octet then fetchDataOctetAsync
        else fetchDataNetasciiAsync) SubmitsFetch :=
      .ite fetchDataOctetAsync_moves fetchDataNetasciiAsync_moves
    refine wp_mono (Moves.update (fun c => { c with isFetchingData := true }) _ (fun _ => rfl)
      submitted w) ?_ fun _ _ _ => trivial
    rintro _ t ⟨hw, op, hop, ht⟩
    refine ⟨fun _ => hw, op, hop, ?_⟩
    rw [ht, Control.fetch, control_shouldFetch, if_pos h]
    rfl
  · exact (h (control_shouldFetch w ▸ h')).elim
  · rw [Control.fetch, control_shouldFetch, if_neg h]

/-- The session is closed when it is closing and its counter is zero. -/
theorem finish_spec (w : World) :
    wp finish (fun state w' => w'.control = w.control ∧
      (state = .closed ↔ w.control.shouldClose ∧ w.control.pendingJobs = 0))
      (fun _ _ => True) w := by
  simp only [finish, wp_bind, wp_session, wp_ite, wp_modify]
  refine ⟨fun h => ?_, fun h => ⟨rfl, ?_⟩⟩
  · simp [closeSession, World.control, Session.optionsSettled, h]
  · simp [World.control] at h ⊢
    tauto

/-- The session once its statistics are complete. -/
def Session.reported (s : Session) : Session :=
  { s with stats := { s.stats with retransmits := s.totalRetransmissions } }

/-- What the close of the session logs. -/
def Session.closingEntries (s : Session) : List Entry :=
  (if s.info.hasStatsCallback then [.reported s.reported.stats] else []) ++
    ((if s.fileDescriptor ≠ -1 then [.closed s.fileDescriptor] else []) ++
      if s.sockfd ≠ -1 then [.closed s.sockfd] else [])

/-- A call closes the session when it is closing and its counter is zero. -/
theorem wp_finish {Q : SessionState → World → Prop} {E : Abort → World → Prop} {w : World} :
    wp finish Q E w ↔
      (w.session.shouldClose ∧ w.session.pendingJobs = 0 → Q .closed
        { w with session := w.session.reported, log := w.log ++ w.session.closingEntries }) ∧
      (¬(w.session.shouldClose ∧ w.session.pendingJobs = 0) → Q .idle w) := by
  rw [finish, wp_bind, wp_session, wp_ite]
  refine and_congr (imp_congr_right fun _ => ?_) Iff.rfl
  by_cases hcb : w.session.info.hasStatsCallback <;>
    by_cases hfd : w.session.fileDescriptor = -1 <;> by_cases hsk : w.session.sockfd = -1 <;>
      simp [closeSession, Session.closingEntries, Session.reported, hcb, hfd, hsk]

/-- No block is fetched when there is no room for one. -/
theorem wp_fetchData_idle {Q : Unit → World → Prop} {E : Abort → World → Prop} {w : World}
    (h : w.control.shouldFetch = false) : wp fetchData Q E w ↔ Q () w := by
  have idle : ¬shouldFetchData w.session = true := by rw [← control_shouldFetch, h]; decide
  rw [fetchData, wp_bind, wp_session, if_neg idle, wp_pure]

/-! ## The event handler -/

/-- A call is its event, the read-ahead and the end. -/
theorem wp_handleEvent {Q : SessionState → World → Prop} {E : Abort → World → Prop} {e : Event}
    {w : World} : wp (handleEvent e) Q E w ↔
      wp (do
        dispatch e
        fetchData) (fun _ t => wp finish Q E t) E w := by
  simp only [handleEvent, wp_bind]

/-- The world after a completion is uncounted. -/
def World.reaped (w : World) : World :=
  { w with session := { w.session with pendingJobs := w.session.pendingJobs - 1 } }

theorem wp_jobDone {Q : Unit → World → Prop} {E : Abort → World → Prop} {w : World} :
    wp jobDone Q E w ↔ Q () w.reaped := Iff.rfl

theorem reaped_moves {α : Type} {x : Act α} (h : Unmoved x) (w : World) :
    wp x (fun _ w' => w'.control = w.control.reap) (fun _ _ => True) w.reaped :=
  h.wp fun _ _ ht => ht

theorem listen_moves : Moves (do
    let s ← session
    if s.shouldClose then pure () else recvAsync) fun c c' => c' = c.listen := by
  intro w
  rw [wp_bind, wp_session, wp_ite]
  refine ⟨fun h => ?_, fun h => wp_mono (recvAsync_moves w) (fun _ t ht => ?_) fun _ _ _ => trivial⟩
  · exact (if_pos h).symm
  · exact ht.trans (if_neg h).symm

/-! ## The start of a session -/

/-- The fields option parsing may change. -/
def SetsOptions (s s' : Session) : Prop :=
  ∃ blockSize timeout windowSize adaptive options,
    s' = { s with
      blockSize := blockSize
      timeout := timeout
      windowSize := windowSize
      isAdaptiveTimeoutActive := adaptive
      options := options }

theorem SetsOptions.refl (s : Session) : SetsOptions s s := ⟨_, _, _, _, _, rfl⟩

theorem SetsOptions.trans {a b c : Session} (h : SetsOptions a b) (h' : SetsOptions b c) :
    SetsOptions a c := by
  obtain ⟨_, _, _, _, _, rfl⟩ := h
  obtain ⟨_, _, _, _, _, rfl⟩ := h'
  exact ⟨_, _, _, _, _, rfl⟩

theorem applyOption_sets (fileSize : Option ℕ) (s : Session) (o : OptionKind) :
    SetsOptions s (applyOption fileSize s o) := by
  unfold applyOption
  cases s.options.recognized.get o with
  | none => exact .refl s
  | some v =>
      cases o with
      | blksize => exact ⟨_, _, _, _, _, rfl⟩
      | timeout =>
          dsimp only
          split <;> exact ⟨_, _, _, _, _, rfl⟩
      | tsize =>
          cases fileSize with
          | none => exact ⟨_, _, _, _, _, rfl⟩
          | some size => cases v <;> exact ⟨_, _, _, _, _, rfl⟩
      | windowsize => exact ⟨_, _, _, _, _, rfl⟩
      | readType => exact ⟨_, _, _, _, _, rfl⟩

theorem parseOptions_sets (fileSize : Option ℕ) (s : Session) :
    SetsOptions s (parseOptions fileSize s) := by
  have fold (kinds : List OptionKind) (s : Session) :
      SetsOptions s (kinds.foldl (applyOption fileSize) s) := by
    induction kinds generalizing s with
    | nil => exact .refl s
    | cons o kinds ih => exact (applyOption_sets fileSize s o).trans (ih _)
  refine SetsOptions.trans ?_ (fold _ _)
  exact ⟨_, _, _, _, _, rfl⟩

theorem allocateBuffers_unmoved : Unmoved allocateBuffers :=
  .bind .require fun _ => .bind .sys fun _ => .bind (.modify fun _ => rfl) fun _ =>
    .bind .require fun _ => .modify fun _ => rfl

section Start

/-! `start` may close the session, decides about the options, and sets the type
of the request and the client. It keeps what does not depend on these. -/

variable {P : Control → Prop} (close : ∀ c, P c → P c.close)
  (options : ∀ c pending n, P c → P { c with optionsPending := pending, windowSize := n })
  (request : ∀ c ty client pending, P c →
    P { c with requestType := ty, clientAddress := client, optionsPending := pending })

include close in
theorem prepareTransfer_keeps : Keeps (fun w => P w.control) prepareTransfer := by
  refine .bind (Fixes.modify fun w => ?_).keeps fun _ => .bind allocateBuffers_unmoved.keeps
    fun _ => .bind Fixes.session.keeps fun _ =>
      .ite (.bind (Fixes.sendErrorPacket _).keeps fun _ w hw => close _ hw) (Keeps.pure _)
  split <;> rfl

include close options in
theorem startTransfer_keeps : Keeps (fun w => P w.control) startTransfer := by
  have prepare := prepareTransfer_keeps close
  refine .bind Fixes.session.keeps fun s => .ite prepare (.bind Fixes.queryFileSize.keeps
    fun size => .bind (fun w hw => ?_) fun _ => .bind (Fixes.modify fun _ => rfl).keeps fun _ =>
      prepare)
  obtain ⟨_, _, n, _, o, h⟩ := parseOptions_sets size w.session
  rw [wp_modify, h]
  exact options _ (!{ w.session with options := o }.optionsSettled) n hw

include close options in
theorem openFile_keeps : Keeps (fun w => P w.control) openFile :=
  .bind Fixes.session.keeps fun _ => .bind Fixes.sys.keeps fun _ =>
    .bind (Fixes.modify fun _ => rfl).keeps fun _ => .bind (Fixes.sessionFileInit _ _ _).keeps fun _ =>
      .bind (Fixes.modify fun _ => rfl).keeps fun _ =>
        .ite (Keeps.pure _) (startTransfer_keeps close options)

include request in
theorem readRequest_keeps : Keeps (fun w => P w.control) readRequest := by
  refine .bind (fun w hw => request _ w.session.opcodeType w.session.clientAddress _ hw) fun _ =>
    .bind (.bind Fixes.sys.keeps fun a => ?_) fun _ => .bind (Fixes.modify fun _ => rfl).keeps
      fun _ => .bind (fun w hw => ?_) fun _ => (Fixes.modify fun _ => rfl).keeps
  · cases a.socket with
    | none => exact Keeps.stop _
    | some fd =>
        exact .bind (Fixes.emit _).keeps fun _ w hw =>
          request _ w.session.requestType w.session.requestArgs.peerAddr _ hw
  · exact request _ w.session.requestType w.session.clientAddress false hw

include close options request in
theorem start_keeps : Keeps (fun w => P w.control) start :=
  .bind Fixes.session.keeps fun _ => .ite (fun _ hw => close _ hw)
    (.bind (readRequest_keeps request) fun _ => .bind Fixes.session.keeps fun _ =>
      .ite (Fixes.recordFailure _ _).keeps (openFile_keeps close options))

end Start

/-- The start of a session submits nothing by itself. -/
theorem start_untouched : Keeps (fun w => w.control.Untouched) start :=
  start_keeps (fun _ h => ⟨h.1, h.2, h.3, h.4, h.5, h.6, h.7⟩)
    (fun _ _ _ h => ⟨h.1, h.2, h.3, h.4, h.5, h.6, h.7⟩)
    fun _ _ _ _ h => ⟨h.1, h.2, h.3, h.4, h.5, h.6, h.7⟩

theorem sendOack_moves : Moves sendOack fun c c' => c' = c.arm :=
  .after .require fun _ => .after .sys fun _ => .after .session fun _ =>
    .after (.modify fun _ => rfl) fun _ => submitTimeout_moves.before fun _ => .sendto _ _

/-- What `start` establishes is the state from which the session is started. -/
theorem onStart_moves {P : Control → Prop} {w : World}
    (h : wp start (fun _ t => P t.control) (fun _ _ => True) w) :
    wp onStart (fun _ w' => ∃ c₁, P c₁ ∧ w'.control = c₁.started) (fun _ _ => True) w := by
  refine wp_bind.mpr (wp_mono h (fun _ t ht => ?_) fun _ _ _ => trivial)
  rw [wp_bind, wp_session, wp_ite]
  refine ⟨fun h => ⟨_, ht, (if_pos h).symm⟩, fun h => ?_⟩
  have open_ : t.control.shouldClose = false := by simpa [World.control] using h
  refine wp_ite.mpr ⟨fun hp => ?_, fun hp => ?_⟩
  · have pending : t.control.optionsPending := by simpa [World.control] using hp
    refine wp_bind.mpr (wp_mono (sendOack_moves t) (fun _ t₁ h₁ => ?_) fun _ _ _ => trivial)
    refine wp_mono (recvAsync_moves t₁) (fun _ t₂ h₂ => ⟨_, ht, ?_⟩) fun _ _ _ => trivial
    simp [Control.started, open_, pending, h₂, h₁]
  · have settled : t.control.optionsPending = false := by simpa [World.control] using hp
    have listens : Moves (if t.session.requestType = .write then do
          if ← Act.attempt then emit (.sent t.session.clientAddress (.ack 0)) else pure ()
          recvAsync
        else recvAsync) fun c c' => c' = c.submit (.recv false) :=
      .ite (.after .attempt fun _ => .ite (.after (.emit _) fun _ => recvAsync_moves)
        recvAsync_moves) recvAsync_moves
    refine wp_mono (listens t) (fun _ t₂ h₂ => ⟨_, ht, ?_⟩) fun _ _ _ => trivial
    simp [Control.started, open_, settled, h₂]

/-- The `switch` of the event handler refines `Control.Takes`. -/
theorem dispatch_moves (e : Event) : Moves (dispatch e) fun c c' => c.Takes e c' := by
  intro w
  cases e with
  | start =>
      by_cases hw : w.control.Untouched
      · exact wp_mono (onStart_moves (wp_mono (start_untouched w hw) (fun _ _ h => h)
          fun _ _ _ => trivial)) (fun _ _ h _ => h) fun _ _ _ => trivial
      · exact wp_of_forall fun _ _ h => absurd h hw
  | timeout r =>
      simp only [dispatch, wp_bind, wp_jobDone, wp_session, wp_ite, wp_pure]
      refine ⟨fun h => .inl ⟨.inl h, rfl⟩, fun h => ⟨fun h' => .inl ⟨.inr h', rfl⟩, fun h' => ?_⟩⟩
      refine wp_mono (onTimeout_moves _) (fun _ t ht => .inr ⟨?_, ht⟩) fun _ _ _ => trivial
      exact not_or.mpr ⟨h, h'⟩
  | timeoutRemoved r =>
      refine wp_bind.mpr (wp_jobDone.mpr (reaped_moves ?_ w))
      cases r with
      | ok n => exact .pure _
      | error e => exact .ite (.stop _) (.pure _)
  | packetReceived r =>
      simp only [dispatch, wp_bind, wp_jobDone, wp_session, wp_ite, wp_pure]
      refine ⟨fun h => .inl ⟨.inl h, rfl⟩, fun h => ?_⟩
      cases r with
      | error e => exact wp_ite.mpr ⟨fun he => .inl ⟨.inr (he ▸ rfl), rfl⟩, fun _ => trivial⟩
      | ok d =>
          refine wp_bind.mpr (wp_mono (onPacketReceived_moves d _) (fun _ t ht => ?_)
            fun _ _ _ => trivial)
          refine wp_mono (listen_moves t) (fun _ t' ht' => .inr ⟨?_, d, _, rfl, ht, ht'⟩)
            fun _ _ _ => trivial
          simpa [World.control, World.reaped] using h
  | packetReceivedRemoved r =>
      refine wp_bind.mpr (wp_jobDone.mpr (reaped_moves ?_ w))
      cases r with
      | ok n => exact .pure _
      | error e => exact .ite (.stop _) (.pure _)
  | dataAvailable r =>
      simp only [dispatch, wp_bind, wp_jobDone, wp_modify]
      exact onDataAvailable_moves r _

/-- The end of every call: the read-ahead runs after what `dispatch` did, and
the session is closed when it is closing and its counter is zero. -/
def Control.Ends (P : Control → Prop) (c' : Control) (closed : Prop) : Prop :=
  (∃ c₁, P c₁ ∧ c₁.FetchesTo c') ∧ (closed ↔ c'.shouldClose ∧ c'.pendingJobs = 0)

theorem handleEvent_ends {P : Control → Prop} {e : Event} {w : World}
    (h : wp (dispatch e) (fun _ t => P t.control) (fun _ _ => True) w) :
    wp (handleEvent e) (fun state w' => w'.control.Ends P (state = .closed))
      (fun _ _ => True) w := by
  refine wp_bind.mpr (wp_mono h (fun _ w₁ h₁ => ?_) fun _ _ _ => trivial)
  refine wp_bind.mpr (wp_mono (fetchData_moves w₁) ?_ fun _ _ _ => trivial)
  rintro _ w₂ h₂
  refine wp_mono (finish_spec w₂) ?_ fun _ _ _ => trivial
  rintro state w₃ ⟨h₃, hc⟩
  rw [← h₃] at h₂ hc
  exact ⟨⟨_, h₁, h₂⟩, hc⟩

/-- A call that returns a state, seen from its worker. -/
def Live.Ends (P : Control → Prop) (l : Live) : Prop :=
  l.listening → l.world.control.Ends P (l.status = .closed)

theorem deliver_ends {P : Control → Prop} {sys : Sys} {e : Event} {w : World}
    (h : wp (dispatch e) (fun _ t => P t.control) (fun _ _ => True) { w with sys := sys }) :
    (deliver sys e w).Ends P := by
  refine deliver_spec ?_
  refine wp_mono (handleEvent_ends h) (fun state w' hw _ => ⟨hw.1, ?_⟩) fun a _ _ h => ?_
  · refine Iff.trans ?_ hw.2
    cases state <;> simp [SessionState.status]
  · cases a <;> simp [Live.listening, Abort.status] at h

/-- The event handler refines its skeleton. -/
theorem deliver_control (sys : Sys) (e : Event) (w : World) :
    (deliver sys e w).Ends (w.control.Takes e) :=
  deliver_ends (dispatch_moves e _)

end Tftp.Server
