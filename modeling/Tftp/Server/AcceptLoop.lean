import Tftp.Server.World
import Mathlib.Logic.Relation
import Mathlib.Tactic.Linarith

/-!
# The accept loop

The loop of `tftp_server_start`, one iteration at a time. With a metrics
callback configured, an iteration first looks at the clock: when the statistics
interval has run out it skips `recvmsg`. What the iteration amounts to is then
read off `bytes_recvd`, which was reset to zero, so a skipped `recvmsg` counts
as a success and the callback is not run.
-/

namespace Tftp.Server

/-! ## One iteration -/

/-- What `recvmsg` puts in the message header and in the request. -/
structure Message where
  peerAddr : Address
  bytes : Bytes
  isControlTruncated : Bool := false
deriving DecidableEq

def EINTR : Errno := 4
def EAGAIN : Errno := 11

/-- The answers of the system to the calls of one iteration: the clock at its
top and at its end, where the interval is restarted, and the calls that can
fail. -/
structure LoopAnswers where
  now : ℚ
  setTimeout : Bool := true
  recvmsg : Except Errno Message
  lock : Bool := true
  submit : Bool := true
  unlock : Bool := true
  finished : ℚ

/-- The part of `struct tftp_server` the loop reads. -/
structure LoopConfig where
  interval : ℤ
  metricsEnabled : Bool

/-- What the loop carries from one iteration to the next. -/
structure Loop where
  startTime : ℚ
  shouldStop : Bool := false
  returned : Option Bool := none
  sessionsCount : ℕ := 0
deriving DecidableEq

/-- The loop goes into another iteration. -/
def Loop.running (l : Loop) : Prop := l.shouldStop = false ∧ l.returned = none

instance (l : Loop) : Decidable l.running := by unfold Loop.running; infer_instance

/-- `enum revc_result` -/
inductive RecvResult where
  | success
  | timeout
  | interrupt
  | error
deriving DecidableEq, Repr

/-- `result`, from what the request, the flag and `errno` hold. -/
def recvResult (cfg : LoopConfig) (isTimeout : Bool) (bytesRecvd : ℤ) (errno : Errno) :
    RecvResult :=
  if bytesRecvd ≥ 0 then .success
  else if isTimeout || (cfg.metricsEnabled && errno = EAGAIN) then .timeout
  else if errno = EINTR then .interrupt
  else .error

/-- `parse_request_metadata`, its verdict. -/
def parseRequestMetadata (m : Message) : Bool :=
  if requestPacketMaxSize < m.bytes.length then false
  else if m.isControlTruncated then false
  else m.peerAddr.isInet

def remainingTime (cfg : LoopConfig) (l : Loop) (now : ℚ) : ℚ :=
  cfg.interval - (now - l.startTime)

/-- The interval has run out when the iteration looks at the clock. -/
def isTimeout (cfg : LoopConfig) (l : Loop) (now : ℚ) : Bool :=
  cfg.metricsEnabled && remainingTime cfg l now ≤ 0

/-- What one iteration did. -/
structure Iteration where
  elapsed : Bool
  /-- the answer of `recvmsg`, if it was called -/
  received : Option (Except Errno Message)
  result : RecvResult
  ranCallback : Bool
  restarted : Bool
  started : Bool
deriving DecidableEq

/-- The request is all zero before `recvmsg` fills it. -/
def emptyMessage : Message := { peerAddr := .other 0, bytes := [] }

def bytesRecvd : Option (Except Errno Message) → ℤ
  | none => 0
  | some (.ok m) => m.bytes.length
  | some (.error _) => -1

def errnoOf : Option (Except Errno Message) → Errno
  | some (.error e) => e
  | _ => 0

def messageOf : Option (Except Errno Message) → Message
  | some (.ok m) => m
  | _ => emptyMessage

/-- The SUCCESS case: whether a session is started, and whether the loop goes
on. -/
def onSuccess (l : Loop) (a : LoopAnswers) (m : Message) : Loop × Bool :=
  if parseRequestMetadata m = false then (l, false)
  else if a.lock = false then ({ l with shouldStop := true }, false)
  else
    ({ l with
        sessionsCount := if a.submit then l.sessionsCount + 1 else l.sessionsCount
        shouldStop := l.shouldStop || !a.unlock }, a.submit)

/-- The body of the loop of `tftp_server_start` once it has a job; no iteration
is recorded when the receive timeout cannot be set. -/
def iterate (cfg : LoopConfig) (l : Loop) (a : LoopAnswers) : Loop × Option Iteration :=
  let elapsed := isTimeout cfg l a.now
  if cfg.metricsEnabled ∧ elapsed = false ∧ a.setTimeout = false then
    ({ l with returned := some false }, none)
  else
    let received := if elapsed then none else some a.recvmsg
    let result := recvResult cfg elapsed (bytesRecvd received) (errnoOf received)
    match result with
    | .success =>
        let handled := onSuccess l a (messageOf received)
        (handled.1, some ⟨elapsed, received, result, false, false, handled.2⟩)
    | .timeout =>
        ({ l with startTime := a.finished }, some ⟨elapsed, received, result, true, true, false⟩)
    | .interrupt => (l, some ⟨elapsed, received, result, false, false, false⟩)
    | .error =>
        ({ l with returned := some false }, some ⟨elapsed, received, result, false, false, false⟩)

/-! ## Runs -/

/-- The loop with the last clock reading and the iterations so far. -/
structure LoopRun where
  loop : Loop
  clock : ℚ
  history : List Iteration := []

namespace LoopRun

/-- `start_time` is read before the first iteration. -/
def boot (now : ℚ) : LoopRun := { loop := { startTime := now }, clock := now }

/-- An iteration, or the signal handler that asks the server to stop. The clock
does not go back. -/
inductive Step (cfg : LoopConfig) : LoopRun → LoopRun → Prop where
  | iterate {s : LoopRun} (a : LoopAnswers) : s.loop.running → s.clock ≤ a.now →
      a.now ≤ a.finished →
      Step cfg s
        ⟨(Server.iterate cfg s.loop a).1, a.finished,
          s.history ++ (Server.iterate cfg s.loop a).2.toList⟩
  | stop {s : LoopRun} : Step cfg s { s with loop := { s.loop with shouldStop := true } }

def Runs (cfg : LoopConfig) : LoopRun → LoopRun → Prop := Relation.ReflTransGen (Step cfg)

/-- From here on every iteration skips `recvmsg`. -/
def Stuck (cfg : LoopConfig) (s : LoopRun) : Prop :=
  ∀ s', Runs cfg s s' → s'.loop.running → ∀ now, s'.clock ≤ now → isTimeout cfg s'.loop now

end LoopRun

/-- The iteration is handled as the outcome of its own `recvmsg`, and an
elapsed interval is reported and restarted. -/
structure Iteration.Sound (i : Iteration) : Prop where
  success : i.result = .success → ∃ m, i.received = some (.ok m)
  elapsed : i.elapsed → i.ranCallback ∧ i.restarted

/-! ## Iterations that find the interval elapsed -/

section Elapsed

variable {cfg : LoopConfig} {l : Loop} {a : LoopAnswers}

theorem isTimeout_iff (hm : cfg.metricsEnabled) {now : ℚ} :
    isTimeout cfg l now ↔ remainingTime cfg l now ≤ 0 := by
  simp [isTimeout, hm]

theorem remainingTime_anti {t t' : ℚ} (h : t ≤ t') :
    remainingTime cfg l t' ≤ remainingTime cfg l t := by
  unfold remainingTime
  linarith

/-- An elapsed interval makes the iteration a success without a datagram. -/
theorem iterate_elapsed (h : isTimeout cfg l a.now) :
    iterate cfg l a = (l, some ⟨true, none, .success, false, false, false⟩) := by
  have success : recvResult cfg true (bytesRecvd none) (errnoOf none) = .success := if_pos le_rfl
  -- the empty request has no address family
  have rejected : onSuccess l a (messageOf none) = (l, false) := if_pos rfl
  simp [iterate, h, success, rejected]

/-- An iteration with time left that cannot set the receive timeout ends the
loop. -/
theorem iterate_unset (h : isTimeout cfg l a.now = false) (hm : cfg.metricsEnabled)
    (ht : a.setTimeout = false) :
    iterate cfg l a = ({ l with returned := some false }, none) := by
  simp [iterate, h, hm, ht]

/-- A datagram makes the iteration a success. -/
theorem iterate_received (h : isTimeout cfg l a.now = false)
    (ht : cfg.metricsEnabled → a.setTimeout) {m : Message} (hr : a.recvmsg = .ok m) :
    iterate cfg l a = ((onSuccess l a m).1,
      some ⟨false, some (.ok m), .success, false, false, (onSuccess l a m).2⟩) := by
  have success : recvResult cfg false (bytesRecvd (some (.ok m))) (errnoOf (some (.ok m))) =
      .success := if_pos (Int.natCast_nonneg _)
  have set : ¬(cfg.metricsEnabled = true ∧ a.setTimeout = false) := by
    rintro ⟨hm, hf⟩
    simp [ht hm] at hf
  simp [iterate, h, hr, success, set, messageOf]

/-- A failed `recvmsg` leaves -1 in the request, so it is never a success. -/
theorem iterate_failed (h : isTimeout cfg l a.now = false)
    (ht : cfg.metricsEnabled → a.setTimeout) {e : Errno} (hr : a.recvmsg = .error e) :
    ∃ l' i, iterate cfg l a = (l', some i) ∧ i.result ≠ .success ∧ i.started = false ∧
      i.elapsed = false := by
  have set : ¬(cfg.metricsEnabled = true ∧ a.setTimeout = false) := by
    rintro ⟨hm, hf⟩
    simp [ht hm] at hf
  have notSuccess : recvResult cfg false (bytesRecvd (some (.error e)))
      (errnoOf (some (.error e))) ≠ .success := by
    rw [recvResult, if_neg (by simp [bytesRecvd])]
    split_ifs <;> simp
  simp only [iterate, h, hr, set, true_and, if_false, Bool.false_eq_true]
  cases hres : recvResult cfg false (bytesRecvd (some (.error e))) (errnoOf (some (.error e))) with
  | success => exact (notSuccess hres).elim
  | timeout => exact ⟨_, _, rfl, by simp, rfl, rfl⟩
  | interrupt => exact ⟨_, _, rfl, by simp, rfl, rfl⟩
  | error => exact ⟨_, _, rfl, by simp, rfl, rfl⟩

/-- The receive is the iteration's own when the interval has not elapsed. -/
theorem sound_of_not_elapsed {i : Iteration} (h : isTimeout cfg l a.now = false)
    (hi : (iterate cfg l a).2 = some i) : i.Sound ∧ i.elapsed = false := by
  by_cases ht : cfg.metricsEnabled → a.setTimeout
  · rcases hr : a.recvmsg with e | m
    · obtain ⟨l', i', he, hres, -, helapsed⟩ := iterate_failed h ht hr
      rw [he, Option.some.injEq] at hi
      subst hi
      exact ⟨⟨fun hs => (hres hs).elim, fun hf => by simp [helapsed] at hf⟩, helapsed⟩
    · rw [iterate_received h ht hr, Option.some.injEq] at hi
      subst hi
      exact ⟨⟨fun _ => ⟨m, rfl⟩, fun hf => by simp at hf⟩, rfl⟩
  · rw [Classical.not_imp] at ht
    rw [iterate_unset h ht.1 (by simpa using ht.2)] at hi
    simp at hi

/-- An iteration is sound exactly when it finds time remaining. -/
theorem sound_iff {i : Iteration} (hi : (iterate cfg l a).2 = some i) :
    i.Sound ↔ i.elapsed = false := by
  by_cases h : isTimeout cfg l a.now
  · rw [iterate_elapsed h, Option.some.injEq] at hi
    subst hi
    constructor
    · intro sound
      have ran := (sound.elapsed rfl).1
      simp at ran
    · intro hf
      simp at hf
  · have sound := sound_of_not_elapsed (by simpa using h) hi
    exact ⟨fun _ => sound.2, fun _ => sound.1⟩

end Elapsed

namespace LoopRun

variable {cfg : LoopConfig} {s s' : LoopRun}

theorem sound_iff_of_runs {now : ℚ} (h : Runs cfg (boot now) s) :
    ∀ i ∈ s.history, i.Sound ↔ i.elapsed = false := by
  induction h with
  | refl =>
      intro i hi
      simp [boot] at hi
  | tail _ hs ih =>
      cases hs with
      | iterate a hrun hnow hlater =>
          intro i hi
          rcases List.mem_append.mp hi with hi | hi
          · exact ih i hi
          · exact sound_iff (Option.mem_toList.mp hi)
      | stop => exact ih

/-- Once the interval has run out it stays so: an iteration that finds it
elapsed does not restart it. -/
theorem Step.stays_elapsed (hm : cfg.metricsEnabled) (hs : Step cfg s s')
    (h : remainingTime cfg s.loop s.clock ≤ 0) : remainingTime cfg s'.loop s'.clock ≤ 0 := by
  cases hs with
  | iterate a hrun hnow hlater =>
      have elapsed : isTimeout cfg s.loop a.now :=
        (isTimeout_iff hm).mpr ((remainingTime_anti hnow).trans h)
      rw [iterate_elapsed elapsed]
      exact (remainingTime_anti (hnow.trans hlater)).trans h
  | stop => exact h

theorem Runs.stays_elapsed (hm : cfg.metricsEnabled) (hs : Runs cfg s s')
    (h : remainingTime cfg s.loop s.clock ≤ 0) : remainingTime cfg s'.loop s'.clock ≤ 0 := by
  induction hs with
  | refl => exact h
  | tail _ hs ih => exact hs.stays_elapsed hm ih

/-- Every later iteration skips `recvmsg` exactly when the interval has run
out. -/
theorem stuck_iff (hm : cfg.metricsEnabled) (hrun : s.loop.running) :
    Stuck cfg s ↔ remainingTime cfg s.loop s.clock ≤ 0 := by
  constructor
  · intro stuck
    exact (isTimeout_iff hm).mp (stuck s .refl hrun s.clock le_rfl)
  · intro h s' hs' _ now hnow
    exact (isTimeout_iff hm).mpr ((remainingTime_anti hnow).trans (hs'.stays_elapsed hm h))

end LoopRun

/-- With a metrics callback, in every reachable state, all iterations so far
were handled soundly and a running loop is not stuck exactly when no iteration
found the interval elapsed and the interval has not run out since. -/
theorem accept_loop_sound_iff {cfg : LoopConfig} {now : ℚ} {s : LoopRun}
    (hm : cfg.metricsEnabled) (h : LoopRun.Runs cfg (LoopRun.boot now) s) :
    ((∀ i ∈ s.history, i.Sound) ∧ (s.loop.running → ¬LoopRun.Stuck cfg s)) ↔
      ((∀ i ∈ s.history, i.elapsed = false) ∧
        (s.loop.running → 0 < remainingTime cfg s.loop s.clock)) := by
  have sound := LoopRun.sound_iff_of_runs h
  refine and_congr (forall₂_congr sound) ?_
  refine forall_congr' fun hrun => ?_
  rw [LoopRun.stuck_iff hm hrun, not_le]

/-! ## A slow request -/

def metricsConfig : LoopConfig := { interval := 60, metricsEnabled := true }

/-- A request for the file `f`. -/
def someRequest : Message where
  peerAddr := .inet 167772162 1024
  bytes := bytes16 Opcode.rrq ++ ascii "f" ++ [0] ++ ascii "octet" ++ [0]

/-- An iteration that receives a request at `now` and is done at `finished`. -/
def requestAt (now finished : ℚ) : LoopAnswers where
  now := now
  recvmsg := .ok someRequest
  finished := finished

/-- The interval of a minute runs out while a request is handled: the next
iteration is a success without a datagram, and so is every later one. -/
theorem interval_elapses_while_handling :
    ∃ s, LoopRun.Runs metricsConfig (LoopRun.boot 0) s ∧ s.loop.running ∧
      LoopRun.Stuck metricsConfig s ∧
      ∃ i ∈ s.history, i.result = .success ∧ i.received = none ∧ i.ranCallback = false := by
  let s₁ : LoopRun :=
    ⟨(iterate metricsConfig { startTime := 0 } (requestAt 1 60)).1, 60,
      (iterate metricsConfig { startTime := 0 } (requestAt 1 60)).2.toList⟩
  let s₂ : LoopRun :=
    ⟨(iterate metricsConfig s₁.loop (requestAt 60 61)).1, 61,
      s₁.history ++ (iterate metricsConfig s₁.loop (requestAt 60 61)).2.toList⟩
  have first : LoopRun.Step metricsConfig (LoopRun.boot 0) s₁ :=
    .iterate (requestAt 1 60) (by decide) (by decide +kernel) (by decide +kernel)
  have second : LoopRun.Step metricsConfig s₁ s₂ :=
    .iterate (requestAt 60 61) (by decide +kernel) (by decide +kernel) (by decide +kernel)
  have running : s₂.loop.running := by decide +kernel
  refine ⟨s₂, .tail (.single first) second, running, ?_, ?_⟩
  · exact (LoopRun.stuck_iff rfl running).mpr (by decide +kernel)
  · exact ⟨⟨true, none, .success, false, false, false⟩, by decide +kernel, rfl, rfl, rfl⟩

/-- A request handled within the interval leaves the loop receiving. -/
theorem request_within_interval :
    ¬LoopRun.Stuck metricsConfig
      ⟨(iterate metricsConfig { startTime := 0 } (requestAt 1 2)).1, 2,
        (iterate metricsConfig { startTime := 0 } (requestAt 1 2)).2.toList⟩ := by
  have step : LoopRun.Step metricsConfig (LoopRun.boot 0)
      ⟨(iterate metricsConfig { startTime := 0 } (requestAt 1 2)).1, 2,
        (iterate metricsConfig { startTime := 0 } (requestAt 1 2)).2.toList⟩ :=
    .iterate (requestAt 1 2) (by decide) (by decide +kernel) (by decide +kernel)
  exact ((accept_loop_sound_iff rfl (.single step)).mpr
    ⟨by decide +kernel, fun _ => by decide +kernel⟩).2 (by decide +kernel)

end Tftp.Server
