import Tftp.Server.Session
import Mathlib.Logic.Relation

/-!
# Runs of a session

A session starts from its request and is then called once for every
operation that completes. Nothing is assumed here about the order of
completions, about their results, or about the datagrams received; a claim
that needs more of its environment says so in a condition on the labels of
the steps.
-/

namespace Tftp.Server

/-- Where the worker stands with a session: what the last call of
`tftp_session_handle_event` gave. -/
inductive Status where
  | fresh
  | idle
  | closed
  | error
  | crash
  | hang
deriving DecidableEq, Repr

def SessionState.status : SessionState → Status
  | .idle => .idle
  | .closed => .closed

def Abort.status : Abort → Status
  | .error => .error
  | .crash => .crash
  | .hang => .hang

/-- A session as its worker sees it. -/
structure Live where
  world : World
  status : Status

namespace Live

def boot (info : ServerInfo) (request : PeerMessage) : Live :=
  ⟨{ session := sessionInit info request }, .fresh⟩

/-- Events can reach the session: the process is alive and the worker is not
caught in a handler. -/
def listening (l : Live) : Prop := l.status = .idle ∨ l.status = .closed

theorem listening.ne_fresh {l : Live} (h : l.listening) : l.status ≠ .fresh := by
  rcases h with h | h <;> simp [h]

end Live

/-- One call of `tftp_session_handle_event`. -/
def deliver (sys : Sys) (e : Event) (w : World) : Live :=
  match handleEvent e { w with sys := sys } with
  | (.ok state, w') => ⟨w', state.status⟩
  | (.error abort, w') => ⟨w', abort.status⟩

theorem deliver_spec {sys : Sys} {e : Event} {w : World} {P : Live → Prop}
    (h : Prog.wp (handleEvent e) (fun state w' => P ⟨w', state.status⟩)
      (fun abort w' => P ⟨w', abort.status⟩) { w with sys := sys }) :
    P (deliver sys e w) := by
  unfold Prog.wp at h
  unfold deliver
  generalize handleEvent e { w with sys := sys } = r at h ⊢
  rcases r with ⟨_ | state, w'⟩
  · exact h
  · exact h

/-- What a call leaves that did not end the session badly. -/
theorem deliver_returns {sys : Sys} {e : Event} {w : World} {P : World → Prop}
    (h : Prog.wp (handleEvent e) (fun _ w' => P w') (fun _ _ => True) { w with sys := sys })
    (hl : (deliver sys e w).listening) : P (deliver sys e w).world := by
  refine deliver_spec (P := fun l => l.listening → P l.world) ?_ hl
  refine Prog.wp_mono h (fun _ _ h _ => h) fun abort _ _ hl => ?_
  cases abort <;> simp [Live.listening, Abort.status] at hl

theorem deliver_ne_fresh (sys : Sys) (e : Event) (w : World) :
    (deliver sys e w).status ≠ .fresh := by
  unfold deliver
  split
  · rename_i state _ _
    cases state <;> simp [SessionState.status]
  · rename_i abort _ _
    cases abort <;> simp [Abort.status]

/-- What a step is: the start of the session, the completion of an operation,
the expiry of a timeout, or a read putting its bytes in memory. -/
inductive Label where
  | start (sys : Sys)
  | complete (op : Op) (sys : Sys) (e : Event)
  | expire
  | fill (bytes : Bytes)

/-- The memory after a read has put `bytes` in its slot. -/
def fillSlot (s : Session) (slot offset : ℕ) (bytes : Bytes) : Session :=
  { s with dataPackets := s.dataPackets.map fun slots =>
      updateSlot slots slot fun p => { p with data := poke p.data offset bytes } }

inductive Step : Live → Label → Live → Prop where
  | start {l : Live} (sys : Sys) :
      l.status = .fresh → Step l (.start sys) (deliver sys .start l.world)
  | complete {l : Live} {pre post : List Op} (op : Op) (sys : Sys) (e : Event) :
      l.listening → l.world.inflight = pre ++ op :: post → op.Reports e →
      Step l (.complete op sys e) (deliver sys e { l.world with inflight := pre ++ post })
  | expire {l : Live} {pre post : List Op} :
      l.listening → l.world.inflight = pre ++ .timeout .armed :: post →
      Step l .expire
        ⟨{ l.world with inflight := pre ++ .timeout .expired :: post }, l.status⟩
  | fill {l : Live} {pre post : List Op} {slot offset length : ℕ} (bytes : Bytes) :
      l.listening → l.world.inflight = pre ++ .read slot offset length none :: post →
      bytes.length ≤ length →
      Step l (.fill bytes)
        ⟨{ l.world with
            session := fillSlot l.world.session slot offset bytes
            inflight := pre ++ .read slot offset length (some bytes.length) :: post }, l.status⟩

/-- Only the start finds a session that does not listen. -/
theorem Step.listened {l l' : Live} {label : Label} (hs : Step l label l')
    (hl : l.status ≠ .fresh) : l.listening := by
  cases hs with
  | start sys hf => exact (hl hf).elim
  | complete _ _ _ hl _ _ => exact hl
  | expire hl _ => exact hl
  | fill _ hl _ _ => exact hl

/-- A condition on the steps of a run, read before the step is taken. -/
abbrev Condition := Live → Label → Prop

/-- `Runs C a b`: a run from `a` to `b` all of whose steps meet `C`. -/
def Runs (C : Condition) : Live → Live → Prop :=
  Relation.ReflTransGen fun a b => ∃ label, Step a label b ∧ C a label

theorem Runs.invariant {C : Condition} {I : Live → Prop} {a b : Live}
    (hstep : ∀ l label l', I l → Step l label l' → C l label → I l')
    (ha : I a) (h : Runs C a b) : I b := by
  induction h with
  | refl => exact ha
  | tail _ hs ih =>
      obtain ⟨label, hs, hc⟩ := hs
      exact hstep _ label _ ih hs hc

/-- The completion of an operation other than the start cannot be the start. -/
theorem Op.not_reports_start {op : Op} : ¬op.Reports .start := by
  cases op <;> exact id

/-! ## Replaying a schedule -/

instance (op : Op) (e : Event) : Decidable (op.Reports e) := by
  unfold Op.Reports
  split <;> infer_instance

instance (l : Live) : Decidable l.listening := by unfold Live.listening; infer_instance

/-- The oldest armed timeout expires. -/
def expireTimer : List Op → List Op
  | [] => []
  | .timeout .armed :: ops => .timeout .expired :: ops
  | op :: ops => op :: expireTimer ops

/-- Take one step of a schedule, if it can be taken. -/
def perform (l : Live) : Label → Option Live
  | .start sys => if l.status = .fresh then some (deliver sys .start l.world) else none
  | .complete op sys e =>
      if l.listening ∧ op ∈ l.world.inflight ∧ op.Reports e then
        some (deliver sys e { l.world with inflight := l.world.inflight.erase op })
      else none
  | .expire =>
      if l.listening ∧ .timeout .armed ∈ l.world.inflight then
        some ⟨{ l.world with inflight := expireTimer l.world.inflight }, l.status⟩
      else none
  | .fill _ => none

/-- Run a schedule through. -/
def replay : List Label → Live → Option Live
  | [], l => some l
  | label :: labels, l => (perform l label).bind (replay labels)

theorem expireTimer_split {ops : List Op} (h : .timeout .armed ∈ ops) :
    ∃ pre post, ops = pre ++ .timeout .armed :: post ∧
      expireTimer ops = pre ++ .timeout .expired :: post := by
  induction ops using expireTimer.induct with
  | case1 => simp at h
  | case2 ops => exact ⟨[], ops, rfl, rfl⟩
  | case3 op ops hne ih =>
      have hmem : .timeout .armed ∈ ops := by
        rcases List.mem_cons.mp h with rfl | h
        · exact (hne rfl).elim
        · exact h
      obtain ⟨pre, post, rfl, hexp⟩ := ih hmem
      refine ⟨op :: pre, post, rfl, ?_⟩
      rw [expireTimer, hexp]
      · rfl
      · exact hne

theorem perform_step {l l' : Live} {label : Label} (h : perform l label = some l') :
    Step l label l' := by
  cases label with
  | start sys =>
      simp only [perform, Option.ite_none_right_eq_some, Option.some.injEq] at h
      obtain ⟨hf, rfl⟩ := h
      exact .start sys hf
  | complete op sys e =>
      simp only [perform, Option.ite_none_right_eq_some, Option.some.injEq] at h
      obtain ⟨⟨hl, hmem, hr⟩, rfl⟩ := h
      obtain ⟨pre, post, -, hops, herase⟩ := List.exists_erase_eq hmem
      rw [herase]
      exact .complete op sys e hl hops hr
  | expire =>
      simp only [perform, Option.ite_none_right_eq_some, Option.some.injEq] at h
      obtain ⟨⟨hl, hmem⟩, rfl⟩ := h
      obtain ⟨pre, post, hops, hexp⟩ := expireTimer_split hmem
      rw [hexp]
      exact .expire hl hops
  | fill bytes => simp [perform] at h

/-- A schedule that runs through is a run; `C` is checked on the way. -/
theorem replay_runs {C : Condition} {labels : List Label} {l l' : Live}
    (h : replay labels l = some l')
    (hC : ∀ l label, label ∈ labels → C l label) : Runs C l l' := by
  induction labels generalizing l with
  | nil =>
      cases h
      exact .refl
  | cons label labels ih =>
      obtain ⟨l₁, h₁, h₂⟩ := Option.bind_eq_some_iff.mp h
      exact .head ⟨label, perform_step h₁, hC _ _ (by simp)⟩
        (ih h₂ fun l label hm => hC l label (by simp [hm]))

/-! ## A session without options

The schedules below are about one client that asks for a file in octet mode,
without options, and a system on which every call succeeds. -/

def someClient : Address := .inet 167772162 1024

def plainInfo : ServerInfo := { retries := 1, timeout := 2 }

/-- A request for the file `f`. -/
def plainRequest (opcode : UInt16) (mode : String) : PeerMessage where
  peerAddr := someClient
  buffer := bytes16 opcode ++ ascii "f" ++ [0] ++ ascii mode ++ [0]

/-- The answers with which a session on the file starts. -/
def fileOpens : Sys := { socket := some 4, file := { openFile := .ok 5 } }

/-- A packet of the client is received. -/
def arrival (packet : Packet) : Label :=
  .complete (.recv false) {} (.packetReceived (.ok ⟨someClient, packet.bytes⟩))

end Tftp.Server
