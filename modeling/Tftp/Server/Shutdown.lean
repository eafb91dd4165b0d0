import Tftp.Lib.Runs
import Tftp.Server.Dispatcher

/-!
# The end of the workers

`worker_routine`, `worker_destroy`, `worker_pool_init` and
`worker_pool_destroy`: a worker leaves its loop when the pool is shut down and
the counter of its dispatcher is zero. Submissions and reaped completions are
atomic steps, in any order.
-/

namespace Tftp.Server

/-- Where `worker_routine` stands. -/
inductive Routine where
  | check
  | wait
  | handle (event : EventPtr)
  | left
deriving DecidableEq, Repr

/-- A worker, as far as its loop goes. -/
structure WorkerThread where
  dispatcher : Dispatcher
  routine : Routine := .check
deriving DecidableEq, Repr

namespace WorkerThread

/-- The condition of the loop of `worker_routine`. -/
def loops (t : WorkerThread) (shutdown : Bool) : Bool :=
  !shutdown || t.dispatcher.pendingRequests ≠ 0

def enter (t : WorkerThread) (shutdown : Bool) : WorkerThread :=
  { t with routine := if t.loops shutdown then .wait else .left }

/-- The wait, and the test whether the event is `nullptr`. -/
def reap (t : WorkerThread) (i : ℕ) (res : ℤ) : Option WorkerThread :=
  if i < t.dispatcher.outstanding.length then
    match dispatcherWaitEvent t.dispatcher (.ok (i, res)) with
    | .error _ => none
    | .ok (none, dispatcher) => some ⟨dispatcher, .check⟩
    | .ok (some (event, _), dispatcher) => some ⟨dispatcher, .handle event⟩
  else none

end WorkerThread

/-- Where the main thread stands. -/
inductive PoolPhase where
  /-- in the loop of `worker_pool_init` -/
  | init
  | running
  /-- in `thrd_join` of worker `j`, on the failure path or not -/
  | joining (failure : Bool) (j : ℕ)
  | over (failure : Bool)
deriving DecidableEq, Repr

/-- `struct tftp_server_worker_pool`, with the workers that have been joined
and what `shutdown` was when they were. -/
structure Pool where
  workersNumber : ℕ
  workerMaxJobs : ℕ
  shutdown : Bool := false
  workers : List WorkerThread := []
  phase : PoolPhase := .init
  joins : List (ℕ × Bool) := []
deriving DecidableEq, Repr

namespace Pool

/-- A submission through the dispatcher of worker `w`; its result is ignored,
or only decides what the caller does next. -/
def submitTo (s : Pool) (w : ℕ) (submission : Submission) (answer : SubmitAnswer) : Option Pool :=
  match s.workers[w]? with
  | none => none
  | some t =>
      if t.dispatcher.Possible answer then
        some { s with
          workers := s.workers.set w { t with dispatcher := (submission.call t.dispatcher answer).2 } }
      else none

/-- `worker_destroy` of worker `j`, up to its `thrd_join`, or the end of the
loop that calls it. -/
def destroyFrom (s : Pool) (failure : Bool) (j : ℕ) (answer : SubmitAnswer) : Option Pool :=
  if j < s.workers.length then
    (s.submitTo j (.submit none) answer).map fun s' =>
      { s' with phase := .joining failure j, joins := s'.joins ++ [(j, s'.shutdown)] }
  else some { s with phase := .over failure }

/-- What one of the threads does next, with the answers of the system. -/
inductive Label where
  | initWorker (entries : ℕ)
  /-- `worker_init` fails -/
  | initFails (answer : SubmitAnswer)
  | initialized
  /-- `worker_pool_start_job` -/
  | startJob (w : ℕ) (event : EventPtr) (answer : SubmitAnswer)
  /-- `worker_pool_destroy` -/
  | destroy (answer : SubmitAnswer)
  /-- `thrd_join` returns -/
  | joined (answer : SubmitAnswer)
  | enter (w : ℕ)
  | interrupted (w : ℕ)
  | reap (w i : ℕ) (res : ℤ)
  /-- a submission of `job_handle_event` -/
  | jobSubmit (w : ℕ) (submission : Submission) (answer : SubmitAnswer)
  | handled (w : ℕ)
deriving DecidableEq, Repr

/-- Worker `w` in a phase of its loop. -/
def routineIs (s : Pool) (w : ℕ) (p : Routine → Bool) : Bool :=
  (s.workers[w]?).any fun t => p t.routine

def setWorker (s : Pool) (w : ℕ) (f : WorkerThread → WorkerThread) : Pool :=
  { s with workers := s.workers.modify w f }

def Routine.handles : Routine → Bool
  | .handle _ => true
  | _ => false

def step (s : Pool) : Label → Option Pool
  | .initWorker entries =>
      if s.phase = .init ∧ s.workers.length < s.workersNumber ∧ s.workerMaxJobs * 3 ≤ entries then
        some { s with workers := s.workers ++ [⟨dispatcherInit entries, .check⟩] }
      else none
  | .initFails answer =>
      if s.phase = .init ∧ s.workers.length < s.workersNumber then s.destroyFrom true 0 answer
      else none
  | .initialized =>
      if s.phase = .init ∧ s.workers.length = s.workersNumber then some { s with phase := .running }
      else none
  | .startJob w event answer =>
      if s.phase = .running then s.submitTo w (.submit (some event)) answer else none
  | .destroy answer =>
      if s.phase = .running then { s with shutdown := true }.destroyFrom false 0 answer else none
  | .joined answer =>
      match s.phase with
      | .joining failure j =>
          if s.routineIs j (· = .left) then s.destroyFrom failure (j + 1) answer else none
      | _ => none
  | .enter w =>
      if s.routineIs w (· = .check) then some (s.setWorker w (·.enter s.shutdown)) else none
  | .interrupted w =>
      -- any other error ends the process
      if s.routineIs w (· = .wait) then some (s.setWorker w ({ · with routine := .check }))
      else none
  | .reap w i res =>
      match s.workers[w]? with
      | none => none
      | some t =>
          if t.routine = .wait then
            (t.reap i res).map fun t' => { s with workers := s.workers.set w t' }
          else none
  | .jobSubmit w submission answer =>
      if s.routineIs w Routine.handles then s.submitTo w submission answer else none
  | .handled w =>
      if s.routineIs w Routine.handles then some (s.setWorker w ({ · with routine := .check }))
      else none

/-- The pool when `worker_pool_init` is called. -/
def boot (workersNumber workerMaxJobs : ℕ) : Pool := { workersNumber, workerMaxJobs }

/-! ## What is claimed of it -/

structure Sound (s : Pool) : Prop where
  exact_ : ∀ t ∈ s.workers, t.dispatcher.Exact
  leaves : ∀ t ∈ s.workers, (t.enter s.shutdown).routine = .left ↔
    s.shutdown = true ∧ t.dispatcher.outstanding = []
  joins : ∀ join ∈ s.joins, join.2 = true

/-- The submission of a step. -/
def Label.submits (s : Pool) : Label → Option (ℕ × SubmitAnswer)
  | .initFails answer => some (0, answer)
  | .startJob w _ answer => some (w, answer)
  | .destroy answer => some (0, answer)
  | .joined answer =>
      match s.phase with
      | .joining _ j => some (j + 1, answer)
      | _ => none
  | .jobSubmit w _ answer => some (w, answer)
  | _ => none

def Label.failsInit : Label → Bool
  | .initFails _ => true
  | _ => false

/-- What a step must meet: its submission can be counted, and `worker_init`
fails for no worker but the first. -/
structure Meets (s : Pool) (label : Label) : Prop where
  countable : ∀ w answer t, label.submits s = some (w, answer) → s.workers[w]? = some t →
    t.dispatcher.Countable answer
  init : ∀ answer, label = .initFails answer → s.workers = []

instance (s : Pool) (label : Label) : Decidable (Meets s label) :=
  decidable_of_iff ((∀ p ∈ label.submits s, ∀ t ∈ s.workers[p.1]?, t.dispatcher.Countable p.2) ∧
      (label.failsInit → s.workers = []))
    ⟨fun ⟨countable, init⟩ => ⟨fun w answer t submits worker => countable (w, answer) submits t worker,
      fun answer same => init (same ▸ rfl)⟩,
      fun meets => ⟨fun p submits t worker => meets.countable p.1 p.2 t submits worker,
        fun fails => by
          cases label with
          | initFails answer => exact meets.init answer rfl
          | _ => cases fails⟩⟩

/-! ## One step -/

variable {s s' : Pool}

/-- Every counter of the pool is exact. -/
def Counted (s : Pool) : Prop := ∀ t ∈ s.workers, t.dispatcher.Exact

theorem leaves_of_exact {t : WorkerThread} (h : t.dispatcher.Exact) (shutdown : Bool) :
    (t.enter shutdown).routine = .left ↔ shutdown = true ∧ t.dispatcher.outstanding = [] := by
  have zero : t.dispatcher.pendingRequests = 0 ↔ t.dispatcher.outstanding = [] := by
    rw [← List.length_eq_zero_iff, ← h, ← UInt8.toNat_inj]
    rfl
  have left : (t.enter shutdown).routine = .left ↔ t.loops shutdown = false := by
    unfold WorkerThread.enter
    split <;> simp [*]
  rw [left, ← zero]
  cases shutdown <;> simp [WorkerThread.loops]

theorem sound_iff : s.Sound ↔ s.Counted ∧ ∀ join ∈ s.joins, join.2 = true := by
  constructor
  · rintro ⟨counted, -, joins⟩
    exact ⟨counted, joins⟩
  · rintro ⟨counted, joins⟩
    exact ⟨counted, fun t ht => leaves_of_exact (counted t ht) _, joins⟩

theorem counted_set {t t' : WorkerThread} {w : ℕ} (h : s.Counted) (hw : s.workers[w]? = some t) :
    (∀ t'' ∈ s.workers.set w t', t''.dispatcher.Exact) ↔ t'.dispatcher.Exact := by
  have inside : w < s.workers.length := (List.getElem?_eq_some_iff.mp hw).1
  constructor
  · intro all
    exact all t' (List.mem_set inside t')
  · intro exact_ t'' mem
    rcases List.mem_or_eq_of_mem_set mem with old | rfl
    · exact h t'' old
    · exact exact_

theorem counted_setWorker {w : ℕ} {f : WorkerThread → WorkerThread}
    (hf : ∀ t, (f t).dispatcher = t.dispatcher) (h : s.Counted) : (s.setWorker w f).Counted := by
  intro t mem
  have mem : t ∈ s.workers.modify w f := mem
  obtain ⟨i, hi, rfl⟩ := List.mem_iff_getElem.mp mem
  have inside : i < s.workers.length := by simpa using hi
  rw [List.getElem_modify]
  split
  · rw [hf]
    exact h _ (List.getElem_mem inside)
  · exact h _ (List.getElem_mem inside)

/-- What a submission leaves alone, and when it keeps the counters exact. -/
theorem submitTo_spec {w : ℕ} {submission : Submission} {answer : SubmitAnswer}
    (hs : s.submitTo w submission answer = some s') :
    (s'.shutdown = s.shutdown ∧ s'.phase = s.phase ∧ s'.joins = s.joins ∧
      s'.workers.length = s.workers.length) ∧
    (s.Counted → (s'.Counted ↔
      ∀ t, s.workers[w]? = some t → t.dispatcher.Countable answer)) := by
  unfold submitTo at hs
  split at hs
  next => cases hs
  next t hw =>
    split at hs
    next possible =>
      obtain rfl := Option.some.inj hs
      refine ⟨⟨rfl, rfl, rfl, List.length_set⟩, fun counted => ?_⟩
      obtain ⟨prepared, event, call⟩ := Dispatcher.call_eq submission t.dispatcher answer
      have exact_ := counted t (List.mem_of_getElem? hw)
      rw [Counted, counted_set counted hw, call, Dispatcher.exact_submit_iff exact_ _ _ possible]
      constructor
      · intro countable t' same
        obtain rfl := Option.some.inj (hw.symm.trans same)
        exact countable
      · intro countable
        exact countable t hw
    next => cases hs

/-- `shutdown` is set on one of the two ways to `thrd_join`; on the other, a
join has been noted without it. -/
def Staged (s : Pool) : Prop :=
  match s.phase with
  | .init => s.shutdown = false
  | .joining false _ => s.shutdown = true
  | .joining true _ => ∃ join ∈ s.joins, join.2 = false
  | _ => True

theorem destroyFrom_cases {failure : Bool} {j : ℕ} {answer : SubmitAnswer}
    (hs : s.destroyFrom failure j answer = some s') :
    (j < s.workers.length ∧ ∃ s'', s.submitTo j (.submit none) answer = some s'' ∧
      s' = { s'' with phase := .joining failure j, joins := s''.joins ++ [(j, s''.shutdown)] }) ∨
    (s.workers.length ≤ j ∧ s' = { s with phase := .over failure }) := by
  unfold destroyFrom at hs
  split at hs
  next inside =>
    obtain ⟨s'', submitted, rfl⟩ := Option.map_eq_some_iff.mp hs
    exact .inl ⟨inside, s'', submitted, rfl⟩
  next past => exact .inr ⟨by omega, (Option.some.inj hs).symm⟩

theorem staged_destroyFrom {failure : Bool} {j : ℕ} {answer : SubmitAnswer}
    (hs : s.destroyFrom failure j answer = some s')
    (planned : failure = false → s.shutdown = true)
    (failed : failure = true → s.shutdown = false ∨ ∃ join ∈ s.joins, join.2 = false) :
    s'.Staged := by
  rcases destroyFrom_cases hs with ⟨-, s'', submitted, rfl⟩ | ⟨-, rfl⟩
  swap
  · trivial
  obtain ⟨⟨shutdown, -, joins, -⟩, -⟩ := submitTo_spec submitted
  cases failure with
  | false => exact shutdown.trans (planned rfl)
  | true =>
      rcases failed rfl with unset | ⟨join, mem, unset⟩
      · exact ⟨(j, s''.shutdown), by simp, shutdown.trans unset⟩
      · exact ⟨join, by simp [joins, mem], unset⟩

/-- A join without `shutdown` is noted exactly where it was not set. -/
theorem sound_destroyFrom_iff {failure : Bool} {j : ℕ} {answer : SubmitAnswer} (h : s.Sound)
    (hs : s.destroyFrom failure j answer = some s') :
    s'.Sound ↔ (∀ t, s.workers[j]? = some t → t.dispatcher.Countable answer) ∧
      (s.workers.length ≤ j ∨ s.shutdown = true) := by
  obtain ⟨counted, joins_⟩ := sound_iff.mp h
  rcases destroyFrom_cases hs with ⟨inside, s'', submitted, rfl⟩ | ⟨past, rfl⟩
  · obtain ⟨⟨shutdown, -, joins, -⟩, keeps⟩ := submitTo_spec submitted
    have past : ¬s.workers.length ≤ j := by omega
    have noted : (∀ join ∈ s.joins ++ [(j, s''.shutdown)], join.2 = true) ↔
        s.shutdown = true := by
      rw [shutdown]
      constructor
      · intro all
        exact all (j, s.shutdown) (by simp)
      · intro set_ join mem
        rcases List.mem_append.mp mem with old | new
        · exact joins_ join old
        · rw [List.mem_singleton.mp new]
          exact set_
    rw [sound_iff, ← keeps counted]
    simp only [joins, noted, past, false_or]
    rfl
  · have none_ : ∀ t, s.workers[j]? ≠ some t := by
      intro t
      rw [List.getElem?_eq_none past]
      simp
    refine iff_of_true (sound_iff.mpr ⟨counted, joins_⟩) ⟨fun t ht => (none_ t ht).elim, ?_⟩
    exact Or.inl past

theorem staged_of_same (h : s.Staged) (phase : s'.phase = s.phase)
    (shutdown : s'.shutdown = s.shutdown) (joins : s'.joins = s.joins) : s'.Staged := by
  unfold Staged at h ⊢
  rw [phase, shutdown, joins]
  exact h

theorem staged_step {label : Label} (h : s.Staged) (hs : s.step label = some s') : s'.Staged := by
  cases label with
  | initWorker entries =>
      rw [step] at hs
      split at hs
      next => exact Option.some.inj hs ▸ staged_of_same h rfl rfl rfl
      next => cases hs
  | initFails answer =>
      rw [step] at hs
      split at hs
      next initial =>
        have unset : s.shutdown = false := by simpa [Staged, initial.1] using h
        exact staged_destroyFrom hs (fun never => by cases never) fun _ => Or.inl unset
      next => cases hs
  | initialized =>
      rw [step] at hs
      split at hs
      next => exact Option.some.inj hs ▸ trivial
      next => cases hs
  | startJob w event answer =>
      rw [step] at hs
      split at hs
      next =>
        obtain ⟨⟨shutdown, phase, joins, -⟩, -⟩ := submitTo_spec hs
        exact staged_of_same h phase shutdown joins
      next => cases hs
  | destroy answer =>
      rw [step] at hs
      split at hs
      next => exact staged_destroyFrom hs (fun _ => rfl) fun never => by cases never
      next => cases hs
  | joined answer =>
      rw [step] at hs
      split at hs
      next failure j joining =>
        split at hs
        next =>
          refine staged_destroyFrom hs (fun planned => ?_) fun failed => ?_
          · subst planned
            simpa [Staged, joining] using h
          · subst failed
            have noted : ∃ join ∈ s.joins, join.2 = false := by
              simpa only [Staged, joining] using h
            exact Or.inr noted
        next => cases hs
      next => cases hs
  | enter w =>
      rw [step] at hs
      split at hs
      next => exact Option.some.inj hs ▸ staged_of_same h rfl rfl rfl
      next => cases hs
  | interrupted w =>
      rw [step] at hs
      split at hs
      next => exact Option.some.inj hs ▸ staged_of_same h rfl rfl rfl
      next => cases hs
  | reap w i res =>
      rw [step] at hs
      split at hs
      next => cases hs
      next =>
        split at hs
        next =>
          obtain ⟨t', -, rfl⟩ := Option.map_eq_some_iff.mp hs
          exact staged_of_same h rfl rfl rfl
        next => cases hs
  | jobSubmit w submission answer =>
      rw [step] at hs
      split at hs
      next =>
        obtain ⟨⟨shutdown, phase, joins, -⟩, -⟩ := submitTo_spec hs
        exact staged_of_same h phase shutdown joins
      next => cases hs
  | handled w =>
      rw [step] at hs
      split at hs
      next => exact Option.some.inj hs ▸ staged_of_same h rfl rfl rfl
      next => cases hs

/-- A step that submits nothing meets its conditions. -/
theorem meets_of_quiet {label : Label} (quiet : label.submits s = none)
    (hl : ∀ answer, label ≠ .initFails answer) : Meets s label where
  countable w answer t submits := by
    rw [quiet] at submits
    cases submits
  init answer same := (hl answer same).elim

theorem sound_of_same (h : s.Sound) (counted : s'.Counted) (joins : s'.joins = s.joins) :
    s'.Sound := by
  rw [sound_iff, joins]
  exact ⟨counted, (sound_iff.mp h).2⟩

theorem sound_submitTo_iff {w : ℕ} {submission : Submission} {answer : SubmitAnswer}
    {label : Label} (h : s.Sound) (hs : s.submitTo w submission answer = some s')
    (submits : label.submits s = some (w, answer)) (hl : ∀ answer, label ≠ .initFails answer) :
    s'.Sound ↔ Meets s label := by
  obtain ⟨counted, joins_⟩ := sound_iff.mp h
  obtain ⟨⟨-, -, joins, -⟩, keeps⟩ := submitTo_spec hs
  rw [sound_iff, joins, keeps counted]
  constructor
  · rintro ⟨countable, -⟩
    refine ⟨fun w' answer' t submits' => ?_, fun answer' same => (hl answer' same).elim⟩
    rw [submits] at submits'
    cases submits'
    exact countable t
  · intro meets
    exact ⟨fun t => meets.countable w answer t submits, joins_⟩

theorem counted_reap {w i : ℕ} {res : ℤ} {t t' : WorkerThread} (h : s.Counted)
    (hw : s.workers[w]? = some t) (hr : t.reap i res = some t') : t'.dispatcher.Exact := by
  have exact_ := h t (List.mem_of_getElem? hw)
  unfold WorkerThread.reap at hr
  split at hr
  next inside =>
    split at hr
    next => cases hr
    next dispatcher hd =>
      obtain rfl := Option.some.inj hr
      exact Dispatcher.exact_reap exact_ inside hd
    next event result dispatcher hd =>
      obtain rfl := Option.some.inj hr
      exact Dispatcher.exact_reap exact_ inside hd
  next => cases hr

theorem sound_step_iff {label : Label} (staged : s.Staged) (h : s.Sound)
    (hs : s.step label = some s') : s'.Sound ↔ Meets s label := by
  obtain ⟨counted, joins_⟩ := sound_iff.mp h
  cases label with
  | initWorker entries =>
      rw [step] at hs
      split at hs
      next =>
        obtain rfl := Option.some.inj hs
        refine iff_of_true (sound_of_same h ?_ rfl) (meets_of_quiet rfl (by simp))
        intro t mem
        rcases List.mem_append.mp mem with old | new
        · exact counted t old
        · rw [List.mem_singleton.mp new]
          exact Dispatcher.exact_init entries
      next => cases hs
  | initFails answer =>
      rw [step] at hs
      split at hs
      next initial =>
        have unset : s.shutdown = false := by simpa [Staged, initial.1] using staged
        rw [sound_destroyFrom_iff h hs]
        constructor
        · rintro ⟨countable, none_ | never⟩
          · refine ⟨fun w answer' t submits => ?_, fun _ _ => ?_⟩
            · cases submits
              exact countable t
            · exact List.length_eq_zero_iff.mp (Nat.le_zero.mp none_)
          · rw [unset] at never
            cases never
        · intro meets
          refine ⟨fun t => meets.countable 0 answer t rfl, Or.inl ?_⟩
          rw [meets.init answer rfl]
          exact le_rfl
      next => cases hs
  | initialized =>
      rw [step] at hs
      split at hs
      next =>
        obtain rfl := Option.some.inj hs
        exact iff_of_true (sound_of_same h counted rfl) (meets_of_quiet rfl (by simp))
      next => cases hs
  | startJob w event answer =>
      rw [step] at hs
      split at hs
      next => exact sound_submitTo_iff h hs rfl (by simp)
      next => cases hs
  | destroy answer =>
      rw [step] at hs
      split at hs
      next =>
        have before : { s with shutdown := true }.Sound := sound_of_same h counted rfl
        rw [sound_destroyFrom_iff before hs]
        constructor
        · rintro ⟨countable, -⟩
          refine ⟨fun w answer' t submits => ?_, fun answer' same => by cases same⟩
          cases submits
          exact countable t
        · intro meets
          exact ⟨fun t => meets.countable 0 answer t rfl, Or.inr rfl⟩
      next => cases hs
  | joined answer =>
      rw [step] at hs
      split at hs
      next failure j joining =>
        split at hs
        next =>
          have submits : (Label.joined answer).submits s = some (j + 1, answer) := by
            simp [Label.submits, joining]
          have planned : s.shutdown = true := by
            cases failure with
            | false => simpa [Staged, joining] using staged
            | true =>
                -- a join has been noted already
                have noted : ∃ join ∈ s.joins, join.2 = false := by
                  simpa only [Staged, joining] using staged
                obtain ⟨join, mem, unset⟩ := noted
                rw [joins_ join mem] at unset
                cases unset
          rw [sound_destroyFrom_iff h hs]
          constructor
          · rintro ⟨countable, -⟩
            refine ⟨fun w answer' t submits' => ?_, fun answer' same => by cases same⟩
            rw [submits] at submits'
            cases submits'
            exact countable t
          · intro meets
            exact ⟨fun t => meets.countable _ answer t submits, Or.inr planned⟩
        next => cases hs
      next => cases hs
  | enter w =>
      rw [step] at hs
      split at hs
      next =>
        obtain rfl := Option.some.inj hs
        exact iff_of_true (sound_of_same h (counted_setWorker (fun t => rfl) counted) rfl)
          (meets_of_quiet rfl (by simp))
      next => cases hs
  | interrupted w =>
      rw [step] at hs
      split at hs
      next =>
        obtain rfl := Option.some.inj hs
        exact iff_of_true (sound_of_same h (counted_setWorker (fun t => rfl) counted) rfl)
          (meets_of_quiet rfl (by simp))
      next => cases hs
  | reap w i res =>
      rw [step] at hs
      split at hs
      next => cases hs
      next t hw =>
        split at hs
        next =>
          obtain ⟨t', reaped, rfl⟩ := Option.map_eq_some_iff.mp hs
          refine iff_of_true (sound_of_same h ?_ rfl) (meets_of_quiet rfl (by simp))
          exact (counted_set counted hw).mpr (counted_reap counted hw reaped)
        next => cases hs
  | jobSubmit w submission answer =>
      rw [step] at hs
      split at hs
      next => exact sound_submitTo_iff h hs rfl (by simp)
      next => cases hs
  | handled w =>
      rw [step] at hs
      split at hs
      next =>
        obtain rfl := Option.some.inj hs
        exact iff_of_true (sound_of_same h (counted_setWorker (fun t => rfl) counted) rfl)
          (meets_of_quiet rfl (by simp))
      next => cases hs

end Pool

open Pool Runs

/-- In a run from the initialization of the pool, the counters are exact in
every state, the workers leave when they should, and no worker is joined before
shutdown has been requested, if and only if each step meets its conditions: a
submission that succeeds hands over its own request only and leaves at most 255
outstanding, and `worker_init` fails for no worker but the first. -/
theorem shutdown_exact_iff (workersNumber workerMaxJobs : ℕ) (labels : List Label) {s : Pool}
    (h : run Pool.step (boot workersNumber workerMaxJobs) labels = some s) :
    Always Pool.step Sound (boot workersNumber workerMaxJobs) labels ↔
      EachStep Pool.step Meets (boot workersNumber workerMaxJobs) labels := by
  have start : (boot workersNumber workerMaxJobs).Sound := by
    rw [sound_iff]
    constructor
    · intro t mem
      cases mem
    · intro join mem
      cases mem
  have staged : (boot workersNumber workerMaxJobs).Staged := rfl
  exact always_iff_eachStep (fun _ _ _ => staged_step) (fun _ _ _ => sound_step_iff) staged start h

/-- A pool of two workers: the first one serves a session, and with two of its requests
outstanding the pool is destroyed. -/
def wholeLife : List Label :=
  [.initWorker 6, .initWorker 6, .initialized, .enter 0, .enter 1, .startJob 0 7 (.ok 1),
    .reap 0 0 0, .jobSubmit 0 (.recvmsg 7 5 0) (.ok 1), .jobSubmit 0 (.timeout 8 ⟨2, 0⟩) (.ok 1),
    .handled 0, .enter 0, .destroy (.ok 1), .reap 0 0 (-125), .handled 0, .enter 0, .interrupted 0,
    .enter 0, .reap 0 1 0, .enter 0, .reap 0 0 (-62), .handled 0, .enter 0, .joined (.ok 1),
    .reap 1 0 0, .enter 1, .joined (.ok 1)]

/-- Both leave when nothing is outstanding any more, and are joined after that. -/
theorem whole_life_exact :
    Always Pool.step Sound (boot 2 2) wholeLife ∧
      (run Pool.step (boot 2 2) wholeLife).map (fun s => (s.phase, s.joins)) =
        some (.over false, [(0, true), (1, true)]) := by
  have final : (run Pool.step (boot 2 2) wholeLife).map (fun s => (s.phase, s.joins)) =
      some (.over false, [(0, true), (1, true)]) := by
    decide +kernel
  obtain ⟨s, accepted, -⟩ := Option.map_eq_some_iff.mp final
  exact ⟨(shutdown_exact_iff 2 2 _ accepted).mpr (by decide +kernel), final⟩

/-- 256 sessions that are started before the worker reaps the first of their
events. -/
def manySessions : List Label :=
  [.initWorker 4096, .initialized] ++ List.replicate 256 (.startJob 0 7 (.ok 1))

/-- The counter comes back to zero, so that a worker told to shut down would
leave 256 requests behind; and a second worker that cannot be initialized
makes the pool join the first one without shutdown. -/
theorem counter_wraps :
    ¬(∀ workersNumber workerMaxJobs labels s,
      run Pool.step (boot workersNumber workerMaxJobs) labels = some s →
      Always Pool.step Sound (boot workersNumber workerMaxJobs) labels) ∧
    (run Pool.step (boot 1 1000) manySessions).map (fun s => s.workers.map fun t =>
        (t.dispatcher.pendingRequests, t.dispatcher.outstanding.length)) = some [(0, 256)] ∧
    (run Pool.step (boot 2 1) [.initWorker 4, .initFails (.ok 1)]).map Pool.joins =
      some [(0, false)] := by
  have wraps : (run Pool.step (boot 1 1000) manySessions).map (fun s => s.workers.map fun t =>
      (t.dispatcher.pendingRequests, t.dispatcher.outstanding.length)) = some [(0, 256)] := by
    decide +kernel
  have joins : (run Pool.step (boot 2 1) [.initWorker 4, .initFails (.ok 1)]).map Pool.joins =
      some [(0, false)] := by decide +kernel
  refine ⟨?_, wraps, joins⟩
  intro sound
  obtain ⟨s, final, noted⟩ := Option.map_eq_some_iff.mp joins
  have all := ((sound 2 1 _ s final).finish final).joins (0, false) (by simp [noted])
  cases all

end Tftp.Server
