import Tftp.Server.AcceptLoop
import Mathlib.Data.List.Count

/-!
# The worker pool

`worker_pool.c` and the end of `worker_routine`, with the main loop as their
only caller. A permit of `available_jobs` is taken before the main loop knows
whether a session will be started, and only the end of a session gives one
back. Every iteration that starts no session therefore costs its worker a
permit for good.
-/

namespace Tftp.Server

/-! ## The pool -/

/-- `struct worker`: the semaphore and the `is_active` flag of each job. -/
structure Worker where
  availableJobs : ℕ
  jobs : List Bool
deriving DecidableEq

namespace Worker

/-- `worker_init` -/
def init (maxJobs : ℕ) : Worker := ⟨maxJobs, List.replicate maxJobs false⟩

def maxJobs (w : Worker) : ℕ := w.jobs.length

def activeJobs (w : Worker) : ℕ := w.jobs.count true

/-- `sem_wait` -/
def wait (w : Worker) : Worker := { w with availableJobs := w.availableJobs - 1 }

def setActive (w : Worker) (j : ℕ) (active : Bool) : Worker :=
  { w with jobs := w.jobs.set j active }

/-- The end of a session: `is_active` is cleared and the semaphore posted. -/
def release (w : Worker) (j : ℕ) : Worker :=
  { w.setActive j false with availableJobs := w.availableJobs + 1 }

end Worker

def sizeMax : ℕ := 2 ^ 64 - 1

/-- The loop of `get_least_busy_worker`, from worker `i` on. -/
def leastBusyFrom : List Worker → ℕ → ℕ → ℕ → ℕ
  | [], _, least, _ => least
  | w :: workers, i, least, size =>
      let busy := w.maxJobs - w.availableJobs
      if busy = 0 then i
      else if busy < size then leastBusyFrom workers (i + 1) i busy
      else leastBusyFrom workers (i + 1) least size

/-- `get_least_busy_worker` -/
def getLeastBusyWorker (workers : List Worker) : ℕ := leastBusyFrom workers 0 0 sizeMax

/-! ## The main loop -/

/-- Where the main loop stands in an iteration. -/
inductive Phase where
  | top
  /-- in `sem_wait` of the worker -/
  | waiting (worker : ℕ)
  | holding (worker job : ℕ)
  /-- past the end of the search for a job -/
  | unreachable
deriving DecidableEq

/-- A completed iteration: its worker, and what it read. -/
structure Handled where
  worker : ℕ
  loop : Loop
  answers : LoopAnswers

structure Main where
  loop : Loop
  clock : ℚ
  workers : List Worker
  phase : Phase := .top
  history : List Handled := []

namespace Main

def boot (now : ℚ) (workersNumber maxJobs : ℕ) : Main where
  loop := { startTime := now }
  clock := now
  workers := List.replicate workersNumber (Worker.init maxJobs)

/-- The search of `worker_pool_get_job` for a job that is not active. -/
def found (w : ℕ) (worker : Worker) : Phase :=
  if worker.jobs.idxOf false < worker.jobs.length then .holding w (worker.jobs.idxOf false)
  else .unreachable

/-- `worker_pool_start_job` marks the job and takes the mark back if the start
event cannot be submitted. -/
def startJob (workers : List Worker) (w j : ℕ) (started : Bool) : List Worker :=
  if started then workers.modify w (·.setActive j true) else workers

/-- Whether the iteration started a session. -/
def started (i : Option Iteration) : Bool := i.any (·.started)

inductive Step (cfg : LoopConfig) : Main → Main → Prop where
  | choose {s : Main} : s.phase = .top → s.loop.running →
      Step cfg s { s with phase := .waiting (getLeastBusyWorker s.workers) }
  | reserve {s : Main} {w : ℕ} {worker : Worker} : s.phase = .waiting w →
      s.workers[w]? = some worker → 0 < worker.availableJobs →
      Step cfg s { s with workers := s.workers.modify w Worker.wait, phase := found w worker }
  | handle {s : Main} {w j : ℕ} (a : LoopAnswers) : s.phase = .holding w j →
      s.clock ≤ a.now → a.now ≤ a.finished →
      Step cfg s
        { loop := (iterate cfg s.loop a).1
          clock := a.finished
          workers := startJob s.workers w j (started (iterate cfg s.loop a).2)
          phase := .top
          history := s.history ++ [⟨w, s.loop, a⟩] }
  | terminate {s : Main} {w j : ℕ} {worker : Worker} : s.workers[w]? = some worker →
      worker.jobs[j]? = some true →
      Step cfg s { s with workers := s.workers.modify w (·.release j) }
  | stop {s : Main} : Step cfg s { s with loop := { s.loop with shouldStop := true } }

def Runs (cfg : LoopConfig) : Main → Main → Prop := Relation.ReflTransGen (Step cfg)

/-- The main loop holds a reserved job of worker `w`. -/
def holds (s : Main) (w : ℕ) : ℕ :=
  match s.phase with
  | .holding w' _ => if w' = w then 1 else 0
  | _ => 0

/-- Every permit of the worker is accounted for. -/
def Conserved (s : Main) (w : ℕ) (worker : Worker) : Prop :=
  worker.availableJobs + worker.activeJobs + s.holds w = worker.maxJobs

end Main

/-- What an iteration must read to start a session: time is left and the
receive timeout can be set, a well-formed request arrives, the statistics can
be locked, and the start event can be submitted. -/
def startsSession (cfg : LoopConfig) (h : Handled) : Bool :=
  !isTimeout cfg h.loop h.answers.now && (!cfg.metricsEnabled || h.answers.setTimeout) &&
    match h.answers.recvmsg with
    | .ok m => parseRequestMetadata m && h.answers.lock && h.answers.submit
    | .error _ => false

theorem started_iterate (cfg : LoopConfig) (w : ℕ) (l : Loop) (a : LoopAnswers) :
    Main.started (iterate cfg l a).2 = startsSession cfg ⟨w, l, a⟩ := by
  by_cases elapsed : isTimeout cfg l a.now
  · rw [iterate_elapsed elapsed]
    simp [Main.started, startsSession, elapsed]
  · have remains : isTimeout cfg l a.now = false := by simpa using elapsed
    by_cases ht : cfg.metricsEnabled → a.setTimeout
    · have set : (!cfg.metricsEnabled || a.setTimeout) = true := by
        cases hm : cfg.metricsEnabled
        · rfl
        · simp [ht hm]
      rcases hr : a.recvmsg with e | m
      · obtain ⟨l', i, he, -, hstarted, -⟩ := iterate_failed remains ht hr
        simp [he, Main.started, startsSession, hr, hstarted]
      · rw [iterate_received remains ht hr]
        simp only [Main.started, Option.any_some, startsSession, remains, set, hr, onSuccess]
        cases parseRequestMetadata m <;> cases a.lock <;> simp
    · rw [Classical.not_imp] at ht
      rw [iterate_unset remains ht.1 (by simpa using ht.2)]
      simp [Main.started, startsSession, ht.1, ht.2]

namespace Worker

variable {worker : Worker} {j : ℕ}

theorem activeJobs_release (h : worker.jobs[j]? = some true) :
    (worker.release j).activeJobs + 1 = worker.activeJobs := by
  obtain ⟨hj, he⟩ := List.getElem?_eq_some_iff.mp h
  have one : 0 < worker.jobs.count true := List.count_pos_iff.mpr (he ▸ List.getElem_mem hj)
  simp only [activeJobs, release, setActive, List.count_set hj, he]
  simp
  omega

theorem activeJobs_activate (h : worker.jobs[j]? = some false) :
    (worker.setActive j true).activeJobs = worker.activeJobs + 1 := by
  obtain ⟨hj, he⟩ := List.getElem?_eq_some_iff.mp h
  simp [activeJobs, setActive, List.count_set hj, he]

@[simp] theorem maxJobs_setActive (b : Bool) : (worker.setActive j b).maxJobs = worker.maxJobs := by
  simp [maxJobs, setActive]

@[simp] theorem maxJobs_release : (worker.release j).maxJobs = worker.maxJobs := by
  simp [maxJobs, release, setActive]

/-- A worker that is not full has a job that is not active. -/
theorem idxOf_lt (h : worker.activeJobs < worker.maxJobs) :
    worker.jobs.idxOf false < worker.jobs.length := by
  rw [List.idxOf_lt_length_iff]
  by_contra hn
  refine absurd h (not_lt.mpr (le_of_eq (Eq.symm ?_)))
  refine List.count_eq_length.mpr fun b hb => ?_
  cases b
  · exact (hn hb).elim
  · rfl

end Worker

/-! ## Permits -/

namespace Main

variable {cfg : LoopConfig} {s s' : Main}

/-- The iterations that took a permit of the worker and started no session. -/
def leaks (cfg : LoopConfig) (s : Main) (w : ℕ) : ℕ :=
  s.history.countP fun h => h.worker = w && !startsSession cfg h

/-- Every permit of a worker is available, used by a session, held by the main
loop, or lost. -/
structure Balanced (cfg : LoopConfig) (s : Main) : Prop where
  permits : ∀ w worker, s.workers[w]? = some worker →
    worker.availableJobs + worker.activeJobs + s.holds w + leaks cfg s w = worker.maxJobs
  free : ∀ w j, s.phase = .holding w j →
    ∃ worker, s.workers[w]? = some worker ∧ worker.jobs[j]? = some false
  found : s.phase ≠ .unreachable

theorem balanced_boot (now : ℚ) (workersNumber maxJobs : ℕ) :
    Balanced cfg (boot now workersNumber maxJobs) where
  permits w worker hw := by
    have hw : (List.replicate workersNumber (Worker.init maxJobs))[w]? = some worker := hw
    obtain ⟨-, rfl⟩ : w < workersNumber ∧ Worker.init maxJobs = worker := by
      simpa [List.getElem?_replicate] using hw
    simp [boot, Worker.init, Worker.activeJobs, Worker.maxJobs, holds, leaks, List.count_replicate]
  free w j h := by simp [boot] at h
  found := by simp [boot]

/-- A worker of the pool after a change of one of them. -/
theorem of_modify {workers : List Worker} {f : Worker → Worker} {w w' : ℕ} {worker worker' : Worker}
    (h : workers[w]? = some worker) (h' : (workers.modify w f)[w']? = some worker') :
    w' = w ∧ worker' = f worker ∨ w ≠ w' ∧ workers[w']? = some worker' := by
  by_cases hw : w = w'
  · subst hw
    rw [List.getElem?_modify_eq, h] at h'
    exact .inl ⟨rfl, (Option.some.inj h').symm⟩
  · rw [List.getElem?_modify_ne _ _ hw] at h'
    exact .inr ⟨hw, h'⟩

theorem holds_of_holding {w j : ℕ} (h : s.phase = .holding w j) (w' : ℕ) :
    s.holds w' = if w = w' then 1 else 0 := by
  simp [holds, h]

theorem holds_of_not_holding (h : ∀ w j, s.phase ≠ .holding w j) (w' : ℕ) : s.holds w' = 0 := by
  unfold holds
  split
  · rename_i w j he
    exact (h w j he).elim
  · rfl

/-- The search always ends at a free job. -/
theorem found_eq {w : ℕ} {worker : Worker} (h : worker.activeJobs < worker.maxJobs) :
    Main.found w worker = .holding w (worker.jobs.idxOf false) := if_pos (Worker.idxOf_lt h)

theorem leaks_handled (a : LoopAnswers) (w w' : ℕ) (l : Loop) (history : List Handled) :
    (history ++ [(⟨w, l, a⟩ : Handled)]).countP
        (fun h : Handled => h.worker = w' && !startsSession cfg h) =
      history.countP (fun h : Handled => h.worker = w' && !startsSession cfg h) +
        if w = w' ∧ started (iterate cfg l a).2 = false then 1 else 0 := by
  rw [started_iterate cfg w, List.countP_append, List.countP_singleton]
  simp

theorem Balanced.step (h : Balanced cfg s) (hs : Step cfg s s') : Balanced cfg s' := by
  cases hs with
  | choose htop hrun =>
      refine ⟨fun w worker hw => ?_, fun w j hp => by simp at hp, by simp⟩
      have permits := h.permits w worker hw
      rw [holds_of_not_holding (by simp [htop])] at permits
      rw [holds_of_not_holding (by simp)]
      exact permits
  | @reserve w worker hphase hw hpos =>
      have idle : ∀ w', s.holds w' = 0 := holds_of_not_holding (by simp [hphase])
      have room : worker.activeJobs < worker.maxJobs := by
        have permits := h.permits w worker hw
        omega
      rw [found_eq room]
      refine ⟨fun w' worker' hw' => ?_, fun w' j hp => ?_, by simp⟩
      · rw [holds_of_holding rfl]
        rcases of_modify hw hw' with ⟨rfl, rfl⟩ | ⟨hne, hw'⟩
        · have permits := h.permits w' worker hw
          rw [idle] at permits
          have waited : worker.wait.availableJobs + 1 = worker.availableJobs :=
            Nat.sub_add_cancel hpos
          rw [if_pos rfl]
          change worker.wait.availableJobs + worker.activeJobs + 1 + leaks cfg s w' = worker.maxJobs
          omega
        · rw [if_neg hne, ← idle w']
          exact h.permits w' worker' hw'
      · obtain ⟨rfl, rfl⟩ : w = w' ∧ worker.jobs.idxOf false = j := by simpa using hp
        refine ⟨worker.wait, by rw [List.getElem?_modify_eq, hw]; rfl, ?_⟩
        exact List.getElem?_idxOf (List.idxOf_lt_length_iff.mp (Worker.idxOf_lt room))
  | @handle w j a hphase hnow hlater =>
      obtain ⟨worker, hw, hj⟩ := h.free w j hphase
      refine ⟨fun w' worker' hw' => ?_, fun w' j' hp => by simp at hp, by simp⟩
      rw [holds_of_not_holding (by simp), leaks, leaks_handled]
      have held := holds_of_holding hphase w'
      cases hst : started (iterate cfg s.loop a).2 with
      | false =>
          -- the permit of the iteration is lost
          rw [startJob, hst, if_neg (by simp)] at hw'
          have permits := h.permits w' worker' hw'
          simp only [leaks] at permits
          by_cases hww : w = w'
          · rw [if_pos ⟨hww, rfl⟩]
            rw [if_pos hww] at held
            omega
          · rw [if_neg fun hc => hww hc.1]
            rw [if_neg hww] at held
            omega
      | true =>
          rw [startJob, hst, if_pos rfl] at hw'
          rw [if_neg (by simp)]
          rcases of_modify hw hw' with ⟨rfl, rfl⟩ | ⟨hne, hw'⟩
          · have permits := h.permits w' worker hw
            rw [if_pos rfl] at held
            rw [Worker.activeJobs_activate hj, Worker.maxJobs_setActive]
            simp only [leaks] at permits
            change worker.availableJobs + (worker.activeJobs + 1) + 0 + (_ + 0) = worker.maxJobs
            omega
          · have permits := h.permits w' worker' hw'
            rw [if_neg hne] at held
            simp only [leaks] at permits
            omega
  | @terminate w j worker hw hj =>
      refine ⟨fun w' worker' hw' => ?_, fun w' j' hp => ?_, h.found⟩
      · rcases of_modify hw hw' with ⟨rfl, rfl⟩ | ⟨hne, hw'⟩
        · have permits := h.permits w' worker hw
          have released := Worker.activeJobs_release hj
          rw [Worker.maxJobs_release]
          change worker.availableJobs + 1 + _ + s.holds w' + leaks cfg s w' = worker.maxJobs
          omega
        · exact h.permits w' worker' hw'
      · obtain ⟨worker', hw', hj'⟩ := h.free w' j' hp
        by_cases hww : w = w'
        · subst hww
          obtain rfl : worker = worker' := Option.some.inj (hw.symm.trans hw')
          refine ⟨worker.release j, by rw [List.getElem?_modify_eq, hw]; rfl, ?_⟩
          have hne : j ≠ j' := by
            rintro rfl
            exact absurd (hj.symm.trans hj') (by simp)
          simpa [Worker.release, Worker.setActive, List.getElem?_set_ne hne] using hj'
        · exact ⟨worker', by rw [List.getElem?_modify_ne _ _ hww]; exact hw', hj'⟩
  | stop => exact ⟨h.permits, h.free, h.found⟩

theorem balanced_of_runs {now : ℚ} {workersNumber maxJobs : ℕ}
    (h : Runs cfg (boot now workersNumber maxJobs) s) : Balanced cfg s := by
  induction h with
  | refl => exact balanced_boot now workersNumber maxJobs
  | tail _ hs ih => exact ih.step hs

end Main

/-- The first iteration of a server with one worker of two jobs, with the given
answer of `recvmsg`. -/
def firstIteration (m : Message) : Main :=
  let answers : LoopAnswers := { now := 1, recvmsg := .ok m, finished := 2 }
  let loop : Loop := { startTime := 0 }
  { loop := (iterate metricsConfig loop answers).1
    clock := 2
    workers := Main.startJob [⟨1, [false, false]⟩] 0 0
      (Main.started (iterate metricsConfig loop answers).2)
    history := [⟨0, loop, answers⟩] }

theorem firstIteration_runs (m : Message) :
    Main.Runs metricsConfig (Main.boot 0 1 2) (firstIteration m) := by
  have choose : Main.Step metricsConfig (Main.boot 0 1 2)
      { Main.boot 0 1 2 with phase := .waiting 0 } := .choose rfl (by decide)
  have reserve : Main.Step metricsConfig { Main.boot 0 1 2 with phase := .waiting 0 }
      { Main.boot 0 1 2 with workers := [⟨1, [false, false]⟩], phase := .holding 0 0 } := by
    have found : Main.found 0 (Worker.init 2) = .holding 0 0 := by decide
    rw [← found]
    exact .reserve (w := 0) rfl rfl (by decide)
  have handle : Main.Step metricsConfig
      { Main.boot 0 1 2 with workers := [⟨1, [false, false]⟩], phase := .holding 0 0 }
      (firstIteration m) :=
    .handle { now := 1, recvmsg := .ok m, finished := 2 } rfl (show (0 : ℚ) ≤ 1 by decide +kernel)
      (show (1 : ℚ) ≤ 2 by decide +kernel)
  exact ((Relation.ReflTransGen.single choose).tail reserve).tail handle

end Tftp.Server
