import Tftp.Server.Ring

/-!
# The sender's window

Block numbers wrap, so the window of a read session is followed here by the
positions that `window_begin` and `next_data_packet_to_send` have reached,
counted from the first block on. The range that decides which ACK is accepted
ends just before the next block; for an empty window it is the whole circle.
As long as no ACK finds the window empty, the window never holds more than
`window_size` blocks, and an ACK of none of them is ignored.
-/

namespace Tftp.Server

open Prog Act

/-! ## Positions -/

/-- A session with the positions of its window. -/
structure Tracked where
  live : Live
  windowBegin : ℕ
  nextDataPacketToSend : ℕ

namespace Tracked

def boot (info : ServerInfo) (request : PeerMessage) : Tracked := ⟨Live.boot info request, 1, 1⟩

/-- The positions move on by as much as the numbers do. A number that moved
back would put its position a full turn ahead. -/
def follow (t : Tracked) (l : Live) : Tracked where
  live := l
  windowBegin := Serial.advance t.windowBegin t.live.world.session.windowBegin
    l.world.session.windowBegin
  nextDataPacketToSend := Serial.advance t.nextDataPacketToSend
    t.live.world.session.nextDataPacketToSend l.world.session.nextDataPacketToSend

/-- A run whose positions are followed. -/
def Runs (C : Condition) : Tracked → Tracked → Prop :=
  Relation.ReflTransGen fun t t' =>
    ∃ label l', Step t.live label l' ∧ C t.live label ∧ t' = t.follow l'

/-- The ACK of block number `n` names a block that was sent and not yet
acknowledged. -/
def Outstanding (t : Tracked) (n : UInt16) : Prop :=
  ∃ k, t.windowBegin ≤ k ∧ k < t.nextDataPacketToSend ∧ UInt16.ofNat k = n

/-- The window holds between none and `window_size` blocks. -/
structure WithinWindow (t : Tracked) : Prop where
  windowBegin : UInt16.ofNat t.windowBegin = t.live.world.session.windowBegin
  nextDataPacketToSend :
    UInt16.ofNat t.nextDataPacketToSend = t.live.world.session.nextDataPacketToSend
  le : t.windowBegin ≤ t.nextDataPacketToSend
  size : t.nextDataPacketToSend ≤ t.windowBegin + t.live.world.session.windowSize.toNat

end Tracked

namespace Control

/-- The window, with room for the block that is being read. -/
structure InWindow (c : Control) (b n : ℕ) : Prop where
  windowBegin : UInt16.ofNat b = c.windowBegin
  next : UInt16.ofNat n = c.nextDataPacketToSend
  le : b ≤ n
  size : n ≤ b + c.windowSize.toNat
  room : c.isFetchingData → n < b + c.windowSize.toNat
  pending : c.optionsPending → c.requestType = .read → c.windowBegin = c.nextDataPacketToSend

/-- The window follows a move of the skeleton. -/
def Follows (c c' : Control) (b n : ℕ) : Prop :=
  c'.InWindow (Serial.advance b c.windowBegin c'.windowBegin)
    (Serial.advance n c.nextDataPacketToSend c'.nextDataPacketToSend)

/-- An ACK that is accepted because the window is empty. -/
def AcksNothing (c : Control) (d : Datagram) : Prop :=
  c.requestType = .read ∧ c.shouldClose = false ∧ c.IsAck d ∧
    ¬(c.optionsPending ∧ readU16 d.bytes 2 = 0) ∧ c.windowBegin = c.nextDataPacketToSend

@[simp] theorem windowBegin_ackMoved (c : Control) (n : UInt16) :
    (c.ackMoved n).windowBegin = c.windowBegin := by
  unfold ackMoved
  dsimp only
  split <;> rfl

@[simp] theorem next_ackMoved (c : Control) (n : UInt16) :
    (c.ackMoved n).nextDataPacketToSend = c.nextDataPacketToSend := by
  unfold ackMoved
  dsimp only
  split <;> rfl

@[simp] theorem windowSize_ackMoved (c : Control) (n : UInt16) :
    (c.ackMoved n).windowSize = c.windowSize := by
  unfold ackMoved
  dsimp only
  split <;> rfl

@[simp] theorem isFetchingData_ackMoved (c : Control) (n : UInt16) :
    (c.ackMoved n).isFetchingData = c.isFetchingData := by
  unfold ackMoved
  dsimp only
  split <;> rfl

@[simp] theorem optionsPending_ackMoved (c : Control) (n : UInt16) :
    (c.ackMoved n).optionsPending = c.optionsPending := by
  unfold ackMoved
  dsimp only
  split <;> rfl

namespace InWindow

variable {c c' : Control} {b n : ℕ}

/-- The number of blocks in the window is less than a full turn. -/
theorem near (h : c.InWindow b n) : n - b < 65536 := by
  have size := h.size
  have hlt := c.windowSize.toNat_lt
  omega

theorem listen (h : c.InWindow b n) : c.listen.InWindow b n := by
  unfold Control.listen
  split
  · exact h
  · exact ⟨h.windowBegin, h.next, h.le, h.size, h.room, h.pending⟩

/-- The read-ahead runs only when there is room. -/
theorem fetchesTo (h : c.InWindow b n) (hf : c.FetchesTo c') : c'.InWindow b n := by
  obtain ⟨hsize, op, -, rfl⟩ := hf
  unfold Control.fetch
  split
  · rename_i fetches
    refine ⟨h.windowBegin, h.next, h.le, h.size, fun _ => ?_, h.pending⟩
    have positive : 0 < c.windowSize.toNat :=
      Nat.pos_of_ne_zero fun h0 => hsize fetches (UInt16.toNat_inj.mp h0)
    have room : Serial.OnArc c.nextDataPacketToSend c.windowBegin
        (c.windowBegin + c.windowSize - 1) := by
      simp only [shouldFetch, Bool.and_eq_true] at fetches
      exact (isInRange_iff _ _ _).mp fetches.2
    rw [← h.next, ← h.windowBegin, ← UInt16.ofNat_toNat (x := c.windowSize)] at room
    exact (Serial.onArc_window h.le h.near positive c.windowSize.toNat_lt).mp room
  · exact h

/-- An ACK that meets a window moves its begin to just after a block of it. -/
theorem acceptAck (h : c.InWindow b n) {k : ℕ} (hb : b ≤ k) (hn : k < n) (hp : c.optionsPending = false) :
    (c.acceptAck (UInt16.ofNat k)).InWindow
      (Serial.advance b c.windowBegin (UInt16.ofNat k + 1)) n := by
  have near := h.near
  rw [← h.windowBegin, Serial.advance_after hb (by omega)]
  unfold Control.acceptAck
  refine ⟨?_, ?_, hn, ?_, fun hf => ?_, fun hp' => ?_⟩
  · simp [Serial.ofNat_succ]
  · simpa using h.next
  · have size := h.size
    simp
    omega
  · have room := h.room (by simpa using hf)
    simp
    omega
  · simp [hp] at hp'

/-- A move that leaves the window alone. -/
theorem follows_of_eq (h : c.InWindow b n) (hb : c'.windowBegin = c.windowBegin)
    (hn : c'.nextDataPacketToSend = c.nextDataPacketToSend) (hw : c'.windowSize = c.windowSize)
    (hf : c'.isFetchingData → c.isFetchingData)
    (hp : c'.optionsPending → c'.requestType = .read → c.optionsPending ∧ c.requestType = .read) :
    c.Follows c' b n := by
  unfold Follows
  rw [hb, hn, Serial.advance_self, Serial.advance_self]
  refine ⟨hb ▸ h.windowBegin, hn ▸ h.next, h.le, hw ▸ h.size, fun hf' => hw ▸ h.room (hf hf'),
    fun hp' hr => ?_⟩
  rw [hb, hn]
  exact h.pending (hp hp' hr).1 (hp hp' hr).2

/-- A datagram moves the window only by the blocks it acknowledges. -/
theorem receives {d : Datagram} (h : c.InWindow b n) (ht : c.Tidy) (hc : ¬c.AcksNothing d)
    (hopen : c.shouldClose = false) (hr : c.Receives d c') : c.Follows c' b n := by
  cases hr with
  | ignored => exact h.follows_of_eq rfl rfl rfl id fun hp hr => ⟨hp, hr⟩
  | closed => exact h.follows_of_eq rfl rfl rfl id fun hp hr => ⟨hp, hr⟩
  | data p closing hwrite =>
      exact h.follows_of_eq rfl rfl rfl id fun _ hread => absurd (hread.symm.trans hwrite) (by decide)
  | optionsAck hread _ hp h0 =>
      -- nothing was sent yet, so the window stays where it is
      have begins : c.windowBegin = 0 + 1 := (h.pending hp hread).trans (ht.pending hp hread).1
      refine h.follows_of_eq ?_ ?_ ?_ (fun hf => ?_) fun hp' _ => ?_
      · rw [Control.acceptAck, windowBegin_ackMoved]
        exact begins.symm
      · simp [Control.acceptAck]
      · simp [Control.acceptAck]
      · simpa [Control.acceptAck] using hf
      · simp [Control.acceptAck] at hp'
  | ack hread hack hn hrange =>
      have hne : c.windowBegin ≠ c.nextDataPacketToSend := fun he =>
        hc ⟨hread, hopen, hack, hn, he⟩
      have settled : c.optionsPending = false := by
        by_contra hp
        exact hne (h.pending (by simpa using hp) hread)
      have some_ : b < n := by
        refine lt_of_le_of_ne h.le ?_
        rintro rfl
        exact hne (h.windowBegin.symm.trans h.next)
      rw [isInRange_iff, ← h.windowBegin, ← h.next] at hrange
      obtain ⟨k, hbk, hkn, hk⟩ := Serial.exists_of_onArc some_ hrange
      have moved := h.acceptAck hbk hkn settled
      unfold Follows
      rw [← hk]
      simpa [Control.acceptAck] using moved

/-- A block goes out only when it was being read, so there is room for it. -/
theorem sendNext (h : c.InWindow b n) (hf : c.isFetchingData) (hp : c.optionsPending = false)
    (short : Bool) :
    c.Follows ({ c with isFetchingData := false }.sendNext short) b n := by
  have moved (c₁ : Control) (hb : c₁.windowBegin = c.windowBegin)
      (hn : c₁.nextDataPacketToSend = c.nextDataPacketToSend + 1) (hw : c₁.windowSize = c.windowSize)
      (hf' : c₁.isFetchingData = false) (hp' : c₁.optionsPending = false) : c.Follows c₁ b n := by
    unfold Follows
    rw [hb, hn, Serial.advance_self, Serial.advance_succ]
    refine ⟨hb ▸ h.windowBegin, ?_, h.le.trans (Nat.le_succ n), hw ▸ h.room hf, ?_, ?_⟩
    · rw [Serial.ofNat_succ, h.next, hn]
    · simp [hf']
    · simp [hp']
  unfold Control.sendNext
  dsimp only
  split
  · exact moved _ rfl rfl rfl rfl hp
  · exact moved _ rfl rfl rfl rfl hp

theorem takes {pre post : List Op} {op : Op} {e : Event} (h : c.InWindow b n) (ht : c.Tidy)
    (hops : c.inflight = pre ++ op :: post) (hrep : op.Reports e)
    (hc : ∀ d, e = .packetReceived (.ok d) → ¬c.AcksNothing d)
    (htakes : { c with inflight := pre ++ post }.Takes e c') : c.Follows c' b n := by
  have kept (c₁ : Control) (hb : c₁.windowBegin = c.windowBegin)
      (hn : c₁.nextDataPacketToSend = c.nextDataPacketToSend) (hw : c₁.windowSize = c.windowSize)
      (hf : c₁.isFetchingData → c.isFetchingData) (hp : c₁.optionsPending = c.optionsPending)
      (hr : c₁.requestType = c.requestType) : c.Follows c₁ b n :=
    h.follows_of_eq hb hn hw hf fun hp' hr' => ⟨hp ▸ hp', hr ▸ hr'⟩
  cases e with
  | start => exact (Op.not_reports_start hrep).elim
  | timeout r =>
      rcases htakes with ⟨-, rfl⟩ | ⟨-, rfl | rfl⟩ <;> exact kept _ rfl rfl rfl id rfl rfl
  | timeoutRemoved r => exact htakes ▸ kept _ rfl rfl rfl id rfl rfl
  | packetReceivedRemoved r => exact htakes ▸ kept _ rfl rfl rfl id rfl rfl
  | packetReceived r =>
      rcases htakes with ⟨-, rfl⟩ | ⟨hopen, d, c₁, rfl, hrec, rfl⟩
      · exact kept _ rfl rfl rfl id rfl rfl
      · have tidy := ht.remove hops (by cases op <;> first | rfl | exact hrep.elim)
        have inWindow : { c with inflight := pre ++ post }.reap.InWindow b n :=
          ⟨h.windowBegin, h.next, h.le, h.size, h.room, h.pending⟩
        have followed := inWindow.receives tidy (hc d rfl) hopen hrec
        have listened := InWindow.listen followed
        unfold Follows
        have hb : c₁.listen.windowBegin = c₁.windowBegin := by
          unfold Control.listen
          split <;> rfl
        have hn : c₁.listen.nextDataPacketToSend = c₁.nextDataPacketToSend := by
          unfold Control.listen
          split <;> rfl
        rw [hb, hn]
        exact listened
  | dataAvailable r =>
      obtain ⟨-, fetching⟩ := ht.removeFetch hops (by cases op <;> first | rfl | exact hrep.elim)
      rcases htakes with ⟨e, -, rfl⟩ | rfl | ⟨short, rfl⟩
      · exact kept _ rfl rfl rfl (fun hf => by simp [Control.close] at hf) rfl rfl
      · exact kept _ rfl rfl rfl (fun hf => by simp at hf) rfl rfl
      · have inWindow : { c with inflight := pre ++ post }.reap.InWindow b n :=
          ⟨h.windowBegin, h.next, h.le, h.size, h.room, h.pending⟩
        exact inWindow.sendNext fetching (ht.fetching fetching).2.1 short

/-- A session starts with an empty window. -/
theorem started (h : c.Untouched) : c.started.InWindow 1 1 := by
  have empty : c.InWindow 1 1 :=
    ⟨h.windowBegin.symm, h.nextDataPacketToSend.symm, le_rfl, Nat.le_add_right _ _,
      fun hf => by simp [h.isFetchingData] at hf,
      fun _ _ => h.windowBegin.trans h.nextDataPacketToSend.symm⟩
  unfold Control.started
  split
  · exact empty
  · split
    · exact ⟨empty.windowBegin, empty.next, empty.le, empty.size, empty.room, empty.pending⟩
    · exact ⟨empty.windowBegin, empty.next, empty.le, empty.size, empty.room, empty.pending⟩

end InWindow

end Control

/-! ## Runs -/

/-- No ACK but the one that answers an OACK finds the window of a read session
empty. -/
def AckMeetsWindow : Condition := fun l label =>
  match label with
  | .complete _ _ (.packetReceived (.ok d)) => ¬l.world.control.AcksNothing d
  | _ => True

/-- The window of a session between two calls. -/
structure Tracked.Windowed (t : Tracked) : Prop where
  settled : Settled t.live
  fresh : t.live.status = .fresh → t.windowBegin = 1 ∧ t.nextDataPacketToSend = 1
  inWindow : t.live.listening → t.live.world.control.InWindow t.windowBegin t.nextDataPacketToSend

namespace Tracked.Windowed

theorem boot (info : ServerInfo) (request : PeerMessage) : (Tracked.boot info request).Windowed where
  settled := .boot _ _
  fresh _ := ⟨rfl, rfl⟩
  inWindow h := by simp [Live.listening, Tracked.boot, Live.boot] at h

theorem delivered {t : Tracked} {l' : Live} {P : Control → Prop} (hs : Settled l')
    (hfresh : l'.status ≠ .fresh) (h : l'.Ends P)
    (hP : ∀ c', P c' → t.live.world.control.Follows c' t.windowBegin t.nextDataPacketToSend) :
    (t.follow l').Windowed where
  settled := hs
  fresh hf := (hfresh hf).elim
  inWindow hl := by
    obtain ⟨c₁, hc, hfetch⟩ := (h hl).1
    have window := (hP c₁ hc).fetchesTo hfetch
    obtain ⟨-, op, -, he⟩ := hfetch
    have hb : l'.world.control.windowBegin = c₁.windowBegin := by
      rw [he, Control.fetch]
      split <;> rfl
    have hn : l'.world.control.nextDataPacketToSend = c₁.nextDataPacketToSend := by
      rw [he, Control.fetch]
      split <;> rfl
    rw [← hb, ← hn] at window
    exact window

theorem step {t : Tracked} {l' : Live} {label : Label} (h : t.Windowed)
    (hs : Step t.live label l') (hC : AckMeetsWindow t.live label) : (t.follow l').Windowed := by
  have settled := h.settled.step hs
  obtain ⟨live, b, n⟩ := t
  cases hs with
  | start sys hf =>
      refine delivered settled (deliver_ne_fresh _ _ _) (deliver_control _ _ _) fun c' ht => ?_
      have untouched := h.settled.fresh hf
      obtain ⟨c₁, h₁, rfl⟩ := ht untouched
      obtain ⟨rfl, rfl⟩ : b = 1 ∧ n = 1 := h.fresh hf
      have started := Control.InWindow.started h₁
      unfold Control.Follows
      rw [untouched.windowBegin, untouched.nextDataPacketToSend, ← started.windowBegin,
        ← started.next]
      exact started
  | complete op sys e hl hops hr =>
      refine delivered settled (deliver_ne_fresh _ _ _) (deliver_control _ _ _) fun c' ht => ?_
      refine (h.inWindow hl).takes (h.settled.tidy hl) hops hr ?_ ht
      rintro d rfl
      exact hC
  | expire hl hops =>
      refine ⟨settled, fun hf => (hl.ne_fresh hf).elim, fun _ => ?_⟩
      have window := h.inWindow hl
      simp only [follow, Serial.advance_self]
      exact ⟨window.windowBegin, window.next, window.le, window.size, window.room, window.pending⟩
  | fill bytes hl hops _ =>
      refine ⟨settled, fun hf => (hl.ne_fresh hf).elim, fun _ => ?_⟩
      have window := h.inWindow hl
      simp only [follow, fillSlot, Serial.advance_self]
      exact ⟨window.windowBegin, window.next, window.le, window.size, window.room, window.pending⟩

end Tracked.Windowed

theorem windowed_of_runs {info : ServerInfo} {request : PeerMessage} {t : Tracked}
    (h : Tracked.Runs AckMeetsWindow (Tracked.boot info request) t) : t.Windowed := by
  induction h with
  | refl => exact .boot _ _
  | tail _ hs ih =>
      obtain ⟨label, l', hs, hC, rfl⟩ := hs
      exact ih.step hs hC

/-! ## Acknowledgments of nothing -/

def Op.isTimeout : Op → Bool
  | .timeout _ => true
  | .timeoutRemove => true
  | _ => false

/-- Nothing of the session changes but the count of its operations; a session
that closes only completes its statistics. -/
structure LeavesAlone (l l' : Live) : Prop where
  session : l'.world.session =
    { l.world.session with
      pendingJobs := l'.world.session.pendingJobs
      stats := l'.world.session.stats }
  stats : l'.world.session.stats = l.world.session.stats ∨
    l'.status = .closed ∧ l.world.session.shouldClose ∧ l'.world.session.stats =
      { l.world.session.stats with retransmits := l.world.session.totalRetransmissions }
  timers : l'.world.inflight.filter Op.isTimeout = l.world.inflight.filter Op.isTimeout

/-- What an ignored datagram leaves: a receive may follow it. -/
structure World.Listens (w w' : World) : Prop where
  session : w'.session = { w.session with pendingJobs := w'.session.pendingJobs }
  timers : w'.inflight.filter Op.isTimeout = w.inflight.filter Op.isTimeout

theorem recvAsync_listens (w : World) :
    wp recvAsync (fun _ w' => w.Listens w') (fun _ w' => w.Listens w') w := by
  simp only [recvAsync, wp_bind, wp_submit, wp_modify]
  exact ⟨fun _ => ⟨rfl, by simp [Op.isTimeout]⟩, fun _ => ⟨rfl, rfl⟩⟩

theorem dispatch_ignores {w : World} {d : Datagram} (hread : w.session.requestType = .read)
    (hack : w.control.IsAck d)
    (hignored : w.session.shouldClose = false →
      ¬(w.session.optionsSettled = false ∧ readU16 d.bytes 2 = 0) ∧
      isInRange (readU16 d.bytes 2) w.session.windowBegin (w.session.nextDataPacketToSend - 1) =
        false) :
    wp (dispatch (.packetReceived (.ok d))) (fun _ w' => w.Listens w') (fun _ w' => w.Listens w')
      w := by
  simp only [dispatch, wp_bind, wp_jobDone, wp_session, wp_ite, wp_pure]
  refine ⟨fun _ => ⟨rfl, rfl⟩, fun hopen => ?_⟩
  obtain ⟨hn, hrange⟩ := hignored (by simpa [World.reaped] using hopen)
  refine (wp_onPacketReceived_ack (w := w.reaped) hread hack).mpr ?_
  refine (wp_onAck_outside (w := w.reaped) hn hrange).mpr ?_
  refine ⟨fun _ => ⟨rfl, rfl⟩, fun _ => ?_⟩
  exact wp_mono (recvAsync_listens w.reaped) (fun _ _ h => ⟨h.session, h.timers⟩)
    fun _ _ h => ⟨h.session, h.timers⟩

theorem World.Listens.shouldFetch {w w' : World} (h : w.Listens w') :
    w'.control.shouldFetch = w.control.shouldFetch := by
  rw [control_shouldFetch, control_shouldFetch, h.session]
  rfl

theorem ignored_leavesAlone {l : Live} {pre post : List Op} {op : Op} {sys : Sys} {d : Datagram}
    (hops : l.world.inflight = pre ++ op :: post) (hop : op.isTimeout = false)
    (hread : l.world.session.requestType = .read) (hack : l.world.control.IsAck d)
    (hidle : l.world.control.shouldFetch = false)
    (hignored : l.world.session.shouldClose = false →
      ¬(l.world.session.optionsSettled = false ∧ readU16 d.bytes 2 = 0) ∧
      isInRange (readU16 d.bytes 2) l.world.session.windowBegin
        (l.world.session.nextDataPacketToSend - 1) = false) :
    LeavesAlone l
      (deliver sys (.packetReceived (.ok d)) { l.world with inflight := pre ++ post }) := by
  have timers : (pre ++ post).filter Op.isTimeout = l.world.inflight.filter Op.isTimeout := by
    simp [hops, hop]
  refine deliver_spec (wp_bind.mpr (wp_mono (dispatch_ignores hread hack hignored) ?_ ?_))
  · rintro _ w' h
    have same : w'.session = { l.world.session with pendingJobs := w'.session.pendingJobs } :=
      h.session
    have idle : w'.control.shouldFetch = false := h.shouldFetch.trans hidle
    refine wp_bind.mpr ((wp_fetchData_idle idle).mpr (wp_finish.mpr ⟨fun hc => ?_, fun _ => ?_⟩))
    · have hc := hc.1
      rw [same] at hc
      refine ⟨?_, .inr ⟨rfl, hc, ?_⟩, h.timers.trans timers⟩
      · dsimp only [Session.reported]
        rw [same]
      · dsimp only [Session.reported]
        rw [same]
    · refine ⟨?_, .inl ?_, h.timers.trans timers⟩
      · dsimp only
        rw [same]
      · dsimp only
        rw [same]
  · intro abort w' h
    have same : w'.session = { l.world.session with pendingJobs := w'.session.pendingJobs } :=
      h.session
    refine ⟨?_, .inl ?_, h.timers.trans timers⟩
    · dsimp only
      rw [same]
    · dsimp only
      rw [same]

/-- In every run in which no ACK but the one that answers an OACK finds the
window empty, the window of a read session holds between none and
`window_size` blocks, its begin never moves back or past the next block, and
an ACK that names none of its blocks changes nothing. -/
theorem window_invariant {info : ServerInfo} {request : PeerMessage} {t : Tracked}
    (h : Tracked.Runs AckMeetsWindow (Tracked.boot info request) t) (hl : t.live.listening)
    (hread : t.live.world.session.requestType = .read) :
    t.WithinWindow ∧
      ∀ op sys d l', Step t.live (.complete op sys (.packetReceived (.ok d))) l' →
        AckMeetsWindow t.live (.complete op sys (.packetReceived (.ok d))) →
        t.live.world.control.IsAck d → ¬t.Outstanding (readU16 d.bytes 2) →
        ¬(t.live.world.session.optionsSettled = false ∧ readU16 d.bytes 2 = 0) →
        LeavesAlone t.live l' := by
  have windowed := windowed_of_runs h
  have window := windowed.inWindow hl
  refine ⟨⟨window.windowBegin, window.next, window.le, window.size⟩, ?_⟩
  intro op sys d l' hs hC hack hnone hn
  cases hs with
  | complete _ _ _ hl hops hr =>
      refine ignored_leavesAlone hops (by cases op <;> first | rfl | exact hr.elim) hread hack
        (windowed.settled.fetched hl) fun hopen => ⟨hn, ?_⟩
      by_contra hrange
      have notEmpty : t.live.world.control.windowBegin ≠
          t.live.world.control.nextDataPacketToSend := fun he =>
        hC ⟨hread, hopen, hack, by simpa [World.control] using hn, he⟩
      have some_ : t.windowBegin < t.nextDataPacketToSend := by
        refine lt_of_le_of_ne window.le fun he => notEmpty ?_
        rw [← window.windowBegin, ← window.next, he]
      have onArc : Serial.OnArc (readU16 d.bytes 2) t.live.world.control.windowBegin
          (t.live.world.control.nextDataPacketToSend - 1) :=
        (isInRange_iff _ _ _).mp (eq_true_of_ne_false hrange)
      rw [← window.windowBegin, ← window.next] at onArc
      obtain ⟨k, hbk, hkn, hk⟩ := Serial.exists_of_onArc some_ onArc
      exact hnone ⟨k, hbk, hkn, hk⟩

/-! ## Two schedules -/

namespace Tracked

/-- Run a schedule through and follow the window. -/
def replay : List Label → Tracked → Option Tracked
  | [], t => some t
  | label :: labels, t => (perform t.live label).bind fun l => replay labels (t.follow l)

theorem replay_runs {C : Condition} {labels : List Label} {t t' : Tracked}
    (h : replay labels t = some t') (hC : ∀ l label, label ∈ labels → C l label) : Runs C t t' := by
  induction labels generalizing t with
  | nil =>
      cases h
      exact .refl
  | cons label labels ih =>
      obtain ⟨l, h₁, h₂⟩ := Option.bind_eq_some_iff.mp h
      exact .head ⟨label, l, perform_step h₁, hC _ _ (by simp), rfl⟩
        (ih h₂ fun l label hm => hC l label (by simp [hm]))

end Tracked

/-- While the first block is being read the window is empty, and an ACK of
block 5, which was never sent, moves its begin past the next block. -/
theorem ack_of_unsent_block_moves_window :
    ∃ t, Tracked.Runs anySteps
        (Tracked.boot plainInfo (plainRequest Opcode.rrq "octet")) t ∧ t.live.listening ∧
      t.live.world.session.requestType = .read ∧ t.nextDataPacketToSend < t.windowBegin := by
  have h : ((Tracked.replay [.start fileOpens, arrival (.ack 5)]
      (Tracked.boot plainInfo (plainRequest Opcode.rrq "octet"))).map fun t =>
        (t.live.status, t.live.world.session.requestType, t.nextDataPacketToSend, t.windowBegin)) =
      some (.idle, .read, 1, 6) := by
    decide +kernel
  obtain ⟨t, ht, he⟩ := Option.map_eq_some_iff.mp h
  simp only [Prod.mk.injEq] at he
  obtain ⟨hs, hread, hn, hb⟩ := he
  exact ⟨t, Tracked.replay_runs ht fun _ _ _ => trivial, .inl hs, hread, by omega⟩

/-- Once block 1 is sent, it is the window, and an ACK of block 7 changes
nothing. -/
theorem ack_of_unsent_block_ignored :
    ∃ t, Tracked.Runs AckMeetsWindow
        (Tracked.boot plainInfo (plainRequest Opcode.rrq "octet")) t ∧ t.WithinWindow ∧
      t.windowBegin = 1 ∧ t.nextDataPacketToSend = 2 ∧
      ∃ l', Step t.live (arrival (.ack 7)) l' ∧ LeavesAlone t.live l' := by
  have h : ((Tracked.replay
      [.start fileOpens, .complete (.read 0 0 512 none) {} (.dataAvailable (.ok 3))]
      (Tracked.boot plainInfo (plainRequest Opcode.rrq "octet"))).map fun t =>
        decide (t.live.status = .idle ∧ t.live.world.session.requestType = .read ∧
          t.live.world.session.clientAddress = someClient ∧
          t.live.world.session.optionsSettled ∧ t.live.world.session.windowBegin = 1 ∧
          t.live.world.session.nextDataPacketToSend = 2 ∧ t.windowBegin = 1 ∧
          t.nextDataPacketToSend = 2 ∧ .recv false ∈ t.live.world.inflight)) = some true := by
    decide +kernel
  obtain ⟨t, ht, he⟩ := Option.map_eq_some_iff.mp h
  obtain ⟨hs, hread, hclient, hsettled, hwb, hwn, hb, hn, hrecv⟩ := of_decide_eq_true he
  have hrun : Tracked.Runs AckMeetsWindow
      (Tracked.boot plainInfo (plainRequest Opcode.rrq "octet")) t :=
    Tracked.replay_runs ht fun l label hm => by
      simp only [List.mem_cons, List.not_mem_nil, or_false] at hm
      rcases hm with rfl | rfl <;> trivial
  obtain ⟨within, alone⟩ := window_invariant hrun (.inl hs) hread
  refine ⟨t, hrun, within, hb, hn, ?_⟩
  have step : ∃ l', Step t.live (arrival (.ack 7)) l' := by
    have taken : perform t.live (arrival (.ack 7)) = some _ := if_pos ⟨.inl hs, hrecv, trivial⟩
    exact ⟨_, perform_step taken⟩
  obtain ⟨l', hl'⟩ := step
  have hack : t.live.world.control.IsAck ⟨someClient, (Packet.ack 7).bytes⟩ := by
    refine ⟨by simp, ?_, opcode_ack 7⟩
    rw [show t.live.world.control.clientAddress = someClient from hclient]
    decide
  refine ⟨l', hl', alone _ _ _ _ hl' ?_ hack ?_ (by simp [hsettled])⟩
  · rintro ⟨-, -, -, -, he⟩
    rw [show t.live.world.control.windowBegin = 1 from hwb,
      show t.live.world.control.nextDataPacketToSend = 2 from hwn] at he
    exact absurd he (by decide)
  · rintro ⟨k, hbk, hkn, hk⟩
    rw [hb] at hbk
    rw [hn] at hkn
    obtain rfl : k = 1 := by omega
    rw [blockNumber_ack] at hk
    exact absurd hk (by decide)

end Tftp.Server
