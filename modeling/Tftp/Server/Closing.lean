import Tftp.Server.Failures
import Tftp.Server.Timers

/-!
# A session that is closing

With `should_close` set a session waits for the operations in flight and is
closed when none is left. Receives and timeouts that complete are only counted
down. A completed read is not: `on_data_available` does not look at the flag,
so a block that it completes still goes out.
-/

namespace Tftp.Server

open Prog Act

/-- A packet that carries the transfer on: DATA, OACK or ACK. -/
def Entry.isTransfer : Entry → Bool
  | .sent _ (.data _ _) => true
  | .sent _ (.oack _) => true
  | .sent _ (.ack _) => true
  | _ => false

/-- An operation as it was submitted. -/
def Op.submitted : Op → Op
  | .recv _ => .recv false
  | .read slot offset length _ => .read slot offset length none
  | .timeout _ => .timeout .armed
  | op => op

namespace World

/-- The log has grown by nothing that carries the transfer on. -/
def Silent (w w' : World) : Prop :=
  ∃ rest, w'.log = w.log ++ rest ∧ ∀ e ∈ rest, e.isTransfer = false

namespace Silent

variable {w w' w'' : World}

theorem of_log (h : w'.log = w.log) : w.Silent w' := ⟨[], by simp [h], by simp⟩

theorem trans (h : w.Silent w') (h' : w'.Silent w'') : w.Silent w'' := by
  obtain ⟨rest, hlog, hrest⟩ := h
  obtain ⟨rest', hlog', hrest'⟩ := h'
  refine ⟨rest ++ rest', by rw [hlog', hlog, List.append_assoc], fun e he => ?_⟩
  rcases List.mem_append.mp he with he | he
  · exact hrest e he
  · exact hrest' e he

end Silent

end World

/-- From `l` on, every step of a run leaves the session closing, carries the
transfer on no further, and puts nothing in the ring: a completion takes its
operation out, and the others stay. -/
structure QuietFrom (C : Condition) (l : Live) : Prop where
  silent : ∀ l', Runs C l l' → l'.world.session.shouldClose ∧ l.world.Silent l'.world
  complete : ∀ l' l'' op sys e, Runs C l l' → Step l' (.complete op sys e) l'' →
    C l' (.complete op sys e) → ∃ pre post, l'.world.inflight = pre ++ op :: post ∧
      l''.world.inflight = pre ++ post
  between : ∀ l' l'' label, Runs C l l' → Step l' label l'' → C l' label →
    (∀ op sys e, label ≠ .complete op sys e) →
      l''.world.inflight.map Op.submitted = l'.world.inflight.map Op.submitted

/-- No read that completes while the session is closing completes a block. -/
def NoBlockWhileClosing : Condition := fun l label =>
  ∀ op sys r, label = .complete op sys (.dataAvailable r) → l.world.session.shouldClose →
    ¬l.world.session.SendsBlock sys r

/-! ## One call -/

section Calls

variable {w : World}

/-- A closing session that fails to read reports the failure. -/
theorem readFailure_silent :
    wp readFailure
      (fun _ t => t.inflight = w.inflight ∧ t.session.shouldClose ∧ w.Silent t)
      (fun _ t => t.inflight = w.inflight ∧ t.session.shouldClose ∧ w.Silent t) w := by
  simp only [readFailure, sendErrorPacket, errorPacketInit, recordFailure, sendto, wp_bind,
    wp_modify, wp_session, wp_emit, wp_require, wp_pure]
  refine ⟨fun _ => ⟨fun _ => ⟨rfl, rfl, ?_⟩, fun _ => ⟨rfl, rfl, ?_⟩⟩, fun _ => ⟨rfl, rfl, ?_⟩⟩
  · exact ⟨_, List.append_assoc _ _ _, by simp [Entry.isTransfer]⟩
  · exact ⟨_, rfl, by simp [Entry.isTransfer]⟩
  · exact ⟨_, rfl, by simp [Entry.isTransfer]⟩

/-- A read that completes no block leaves the ring alone. -/
theorem onDataAvailable_silent {r : Completion ℕ} (hclose : w.session.shouldClose)
    (hr : ¬w.session.SendsBlock w.sys r) :
    wp (onDataAvailable r)
      (fun _ t => t.inflight = w.inflight ∧ t.session.shouldClose ∧ w.Silent t)
      (fun _ t => t.inflight = w.inflight ∧ t.session.shouldClose ∧ w.Silent t) w := by
  obtain ⟨hm, hr⟩ := Classical.not_imp.mp hr
  cases r with
  | error e =>
      rw [onDataAvailable, wp_bind, wp_session, if_pos hm]
      exact readFailure_silent
  | ok k =>
      rw [onDataAvailable, wp_bind, wp_session, if_pos hm]
      have incomplete : k < w.session.blockSize.toNat ∧ w.sys.atEndOfFile = false := by
        by_contra hn
        exact hr ⟨k, rfl, hn⟩
      simp only [createDataPackets, endOfFile, wp_bind, wp_modify, wp_session, wp_sys, wp_pure]
      rw [if_pos incomplete]
      simp only [wp_bind, wp_modify, wp_pure]
      exact ⟨rfl, hclose, .of_log rfl⟩

/-- A call on a closing session for a completion that sends no block. -/
theorem handled_silent {e : Event} (hclose : w.session.shouldClose) (he : e ≠ .start)
    (hr : ∀ r, e = .dataAvailable r → ¬w.session.SendsBlock w.sys r) :
    wp (do
      dispatch e
      fetchData)
      (fun _ t => t.inflight = w.inflight ∧ t.session.shouldClose ∧ w.Silent t)
      (fun _ t => t.inflight = w.inflight ∧ t.session.shouldClose ∧ w.Silent t) w := by
  have quiet : wp (dispatch e)
      (fun _ t => t.inflight = w.inflight ∧ t.session.shouldClose ∧ w.Silent t)
      (fun _ t => t.inflight = w.inflight ∧ t.session.shouldClose ∧ w.Silent t) w := by
    by_cases hd : ∃ r, e = .dataAvailable r
    · obtain ⟨r, rfl⟩ := hd
      rw [dispatch, wp_bind, wp_jobDone, wp_bind, wp_modify]
      exact onDataAvailable_silent (by exact hclose) (hr r rfl)
    · refine wp_mono (dispatch_closing hclose he fun r h => hd ⟨r, h⟩) ?_ ?_
      · rintro _ t rfl
        exact ⟨rfl, hclose, .of_log rfl⟩
      · rintro _ t rfl
        exact ⟨rfl, hclose, .of_log rfl⟩
  refine wp_bind.mpr (wp_mono quiet (fun _ t ht => ?_) fun _ _ ht => ht)
  exact (wp_fetchData_idle (shouldFetch_of_closing ht.2.1)).mpr ht

/-- The close of the session sends nothing. -/
theorem closingEntries_silent (s : Session) : ∀ e ∈ s.closingEntries, e.isTransfer = false := by
  unfold Session.closingEntries
  split <;> split <;> split <;> simp [Entry.isTransfer]

end Calls

/-! ## Runs -/

/-- A completion that reaches a closing session. -/
theorem deliver_silent {sys : Sys} {e : Event} {w : World} (hclose : w.session.shouldClose)
    (he : e ≠ .start) (hr : ∀ r, e = .dataAvailable r → ¬w.session.SendsBlock sys r) :
    (deliver sys e w).world.inflight = w.inflight ∧
      (deliver sys e w).world.session.shouldClose ∧ w.Silent (deliver sys e w).world := by
  have moved : ({ w with sys := sys } : World).session.shouldClose := hclose
  refine deliver_spec (P := fun l => l.world.inflight = w.inflight ∧
    l.world.session.shouldClose ∧ w.Silent l.world)
    (wp_handleEvent.mpr (wp_mono (handled_silent moved he hr) ?_ fun _ _ h => h))
  rintro _ t ⟨ops, closing, silent⟩
  exact wp_finish.mpr ⟨fun _ => ⟨ops, closing,
    silent.trans ⟨_, rfl, closingEntries_silent _⟩⟩, fun _ => ⟨ops, closing, silent⟩⟩

section Steps

variable {l l' : Live} {label : Label}

/-- The completion of a closing session takes its operation out. -/
theorem Step.drains {op : Op} {sys : Sys} {e : Event} (hs : Step l (.complete op sys e) l')
    (hclose : l.world.session.shouldClose) (hC : NoBlockWhileClosing l (.complete op sys e)) :
    (∃ pre post, l.world.inflight = pre ++ op :: post ∧ l'.world.inflight = pre ++ post) ∧
      l'.world.session.shouldClose ∧ l.world.Silent l'.world := by
  cases hs with
  | @complete pre post _ _ _ hl hops hr =>
      have notStart : e ≠ .start := fun he => Op.not_reports_start (he ▸ hr)
      obtain ⟨ops, closing, silent⟩ := deliver_silent
        (w := { l.world with inflight := pre ++ post }) hclose notStart
        fun r he => hC op sys r (he ▸ rfl) hclose
      exact ⟨⟨pre, post, hops, ops⟩, closing, silent⟩

/-- What happens between two calls takes nothing out and puts nothing in. -/
theorem Step.waits (hs : Step l label l') (hfresh : l.status ≠ .fresh)
    (hother : ∀ op sys e, label ≠ .complete op sys e) :
    l'.world.inflight.map Op.submitted = l.world.inflight.map Op.submitted ∧
      l'.world.session.shouldClose = l.world.session.shouldClose ∧ l.world.Silent l'.world := by
  cases hs with
  | start sys hf => exact (hfresh hf).elim
  | complete op sys e hl hops hr => exact (hother op sys e rfl).elim
  | expire hl hops => exact ⟨by simp [hops, Op.submitted], rfl, .of_log rfl⟩
  | fill bytes hl hops hlen => exact ⟨by simp [hops, Op.submitted], rfl, .of_log rfl⟩

theorem Step.ne_fresh (hs : Step l label l') (hfresh : l.status ≠ .fresh) : l'.status ≠ .fresh := by
  cases hs with
  | start sys hf => exact (hfresh hf).elim
  | complete op sys e hl hops hr => exact deliver_ne_fresh _ _ _
  | expire hl hops => exact hfresh
  | fill bytes hl hops hlen => exact hfresh

end Steps

/-- A closing session has been started. -/
theorem started_of_closing {C : Condition} {info : ServerInfo} {request : PeerMessage} {l : Live}
    (h : Runs C (Live.boot info request) l) (hclose : l.world.session.shouldClose) :
    l.status ≠ .fresh := by
  have fresh : l.status = .fresh → l.world.session.shouldClose = false := by
    refine h.invariant (I := fun l => l.status = .fresh → l.world.session.shouldClose = false)
      (fun l label l' _ hs _ hf => ?_) fun _ => rfl
    cases hs with
    | start sys _ => exact (deliver_ne_fresh _ _ _ hf).elim
    | complete op sys e _ _ _ => exact (deliver_ne_fresh _ _ _ hf).elim
    | expire hl _ => exact (hl.ne_fresh hf).elim
    | fill bytes hl _ _ => exact (hl.ne_fresh hf).elim
  intro hf
  rw [fresh hf] at hclose
  simp at hclose

/-- A session that is closing is quiet from then on, in every run in which no
read that completes on it completes a block. -/
theorem quiet_after_closing {info : ServerInfo} {request : PeerMessage} {l : Live}
    (h : Runs NoBlockWhileClosing (Live.boot info request) l)
    (hclose : l.world.session.shouldClose) : QuietFrom NoBlockWhileClosing l := by
  have started := started_of_closing h hclose
  have stays (l' : Live) (hl : Runs NoBlockWhileClosing l l') :
      l'.status ≠ .fresh ∧ l'.world.session.shouldClose ∧ l.world.Silent l'.world := by
    refine hl.invariant (I := fun l' => l'.status ≠ .fresh ∧ l'.world.session.shouldClose ∧
      l.world.Silent l'.world) ?_ ⟨started, hclose, .of_log rfl⟩
    rintro a label b ⟨hf, hc, silent⟩ hs hC
    refine ⟨hs.ne_fresh hf, ?_⟩
    by_cases hcomplete : ∃ op sys e, label = .complete op sys e
    · obtain ⟨op, sys, e, rfl⟩ := hcomplete
      obtain ⟨-, closing, more⟩ := hs.drains hc hC
      exact ⟨closing, silent.trans more⟩
    · obtain ⟨-, closing, more⟩ := hs.waits hf fun op sys e he => hcomplete ⟨op, sys, e, he⟩
      exact ⟨closing.trans hc, silent.trans more⟩
  refine ⟨fun l' hl => (stays l' hl).2, fun l' l'' op sys e hl hs hC => ?_,
    fun l' l'' label hl hs _ hother => ?_⟩
  · exact (hs.drains (stays l' hl).2.1 hC).1
  · exact (hs.waits (stays l' hl).1 hother).1

/-- The client aborts with an ERROR while the first block is being read. -/
def abortsWhileReading : List Label :=
  [.start fileOpens, arrival (.error ErrorCode.notDefined [])]

/-- A plain read session is quiet while it waits for a read that fails. -/
theorem quiet_while_reading :
    ∃ l, Runs NoBlockWhileClosing (Live.boot plainInfo (plainRequest Opcode.rrq "octet")) l ∧
      l.world.session.shouldClose ∧ QuietFrom NoBlockWhileClosing l := by
  have h : ((replay abortsWhileReading
      (Live.boot plainInfo (plainRequest Opcode.rrq "octet"))).map fun l =>
        l.world.session.shouldClose) = some true := by
    decide +kernel
  obtain ⟨l, hl, hclose⟩ := Option.map_eq_some_iff.mp h
  have hrun : Runs NoBlockWhileClosing
      (Live.boot plainInfo (plainRequest Opcode.rrq "octet")) l := by
    refine replay_runs hl fun _ label hm op sys r he _ => ?_
    subst he
    simp [abortsWhileReading, arrival] at hm
  exact ⟨l, hrun, hclose, quiet_after_closing hrun hclose⟩

/-- The read completes after the abort, and its block goes out with a timeout
for it. -/
theorem block_sent_while_closing :
    ¬∀ (info : ServerInfo) (request : PeerMessage) (l : Live),
      Runs anySteps (Live.boot info request) l → l.world.session.shouldClose →
        QuietFrom anySteps l := by
  intro hquiet
  have h : ((replay abortsWhileReading
      (Live.boot plainInfo (plainRequest Opcode.rrq "octet"))).bind fun l =>
        (perform l (.complete (.read 0 0 512 none) {} (.dataAvailable (.ok 3)))).map fun l' =>
          decide (l.world.session.shouldClose ∧
            l.world.log.countP Entry.isTransfer = 0 ∧
            l'.world.log.countP Entry.isTransfer = 1)) = some true := by
    decide +kernel
  obtain ⟨l, hl, h⟩ := Option.bind_eq_some_iff.mp h
  obtain ⟨l', hl', he⟩ := Option.map_eq_some_iff.mp h
  obtain ⟨hclose, before, after⟩ := of_decide_eq_true he
  have quiet := hquiet _ _ l (replay_runs hl fun _ _ _ => trivial) hclose
  obtain ⟨-, rest, hlog, hrest⟩ := quiet.silent l' (.single ⟨_, perform_step hl', trivial⟩)
  rw [hlog, List.countP_append, before, List.countP_eq_zero.mpr (by simpa using hrest)] at after
  simp at after

end Tftp.Server
