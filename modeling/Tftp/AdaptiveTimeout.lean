import Mathlib.Data.Rat.Defs
import Mathlib.Data.NNRat.Defs
import Mathlib.Data.List.Infix
import Mathlib.Algebra.Order.Ring.Rat
import Mathlib.Tactic.NormNum

/-!
# Adaptive retransmission timeout

`adaptive_timeout.c` over exact rationals: durations and clock readings are
seconds, and the conversions between `struct timespec` and `double` are exact.
-/

namespace Tftp

structure AdaptiveTimeout where
  isTimerActive : Bool := false
  rto : ℚ := 0
  startingBlockNumber : UInt16 := 0
  isFirstMeasurement : Bool := false
  timer : ℚ := 0
  smoothedRtt : ℚ := 0
  rttVariation : ℚ := 0

namespace AdaptiveTimeout

def alpha : ℚ := 1 / 8
def beta : ℚ := 1 / 4
def k : ℚ := 4
def granularity : ℚ := 1 / 100000

/-- `adaptive_timeout_init` -/
def init : AdaptiveTimeout := { isFirstMeasurement := true, rto := 1 / 256 }

/-- `adaptive_timeout_start_timer` at clock reading `now` -/
def startTimer (t : AdaptiveTimeout) (now : ℚ) : AdaptiveTimeout :=
  { t with isTimerActive := true, timer := now }

/-- `adaptive_timeout_cancel_timer` -/
def cancelTimer (t : AdaptiveTimeout) : AdaptiveTimeout := { t with isTimerActive := false }

/-- `adaptive_timeout_stop_timer` at clock reading `now` -/
def stopTimer (t : AdaptiveTimeout) (now : ℚ) : AdaptiveTimeout :=
  let r := now - t.timer
  let variation :=
    if t.isFirstMeasurement then r / 2
    else (1 - beta) * t.rttVariation + beta * |t.smoothedRtt - r|
  let smoothed := if t.isFirstMeasurement then r else (1 - alpha) * t.smoothedRtt + alpha * r
  { t with
    isTimerActive := false
    isFirstMeasurement := false
    smoothedRtt := smoothed
    rttVariation := variation
    rto := min 60 (smoothed + max granularity (k * variation)) }

/-- `adaptive_timeout_backoff` -/
def backoff (t : AdaptiveTimeout) : AdaptiveTimeout := { t with rto := min 1 (2 * t.rto) }

variable {t : AdaptiveTimeout} {now : ℚ}

theorem smoothedRtt_stopTimer (h : 0 ≤ t.smoothedRtt) (ht : t.timer ≤ now) :
    0 ≤ (t.stopTimer now).smoothedRtt := by
  have sample : 0 ≤ now - t.timer := sub_nonneg.mpr ht
  rw [stopTimer]
  dsimp only
  split
  · exact sample
  · have old : 0 ≤ (1 - alpha) * t.smoothedRtt := mul_nonneg (by norm_num [alpha]) h
    exact add_nonneg old (mul_nonneg (by norm_num [alpha]) sample)

/-- The timeout after a sample is positive: the granularity bounds it from below. -/
theorem rto_stopTimer_pos (h : 0 ≤ t.smoothedRtt) (ht : t.timer ≤ now) :
    0 < (t.stopTimer now).rto := by
  have smoothed := smoothedRtt_stopTimer h ht
  have above : 0 < max granularity (k * (t.stopTimer now).rttVariation) :=
    lt_max_of_lt_left (by norm_num [granularity])
  exact lt_min (by norm_num) (add_pos_of_nonneg_of_pos smoothed above)

theorem rto_backoff_pos (h : 0 < t.rto) : 0 < t.backoff.rto :=
  lt_min one_pos (mul_pos two_pos h)

/-- The cap of a backoff is lower than that of a sample. -/
theorem rto_le_backoff_iff (h : 0 < t.rto) : t.rto ≤ t.backoff.rto ↔ t.rto ≤ 1 := by
  have doubled : t.rto ≤ 2 * t.rto := by
    rw [two_mul]
    exact le_add_of_nonneg_right h.le
  constructor
  · intro le
    exact le.trans (min_le_left _ _)
  · intro le
    exact le_min le doubled

/-! ## Sequences of calls -/

/-- A call. A sample is the time from the start of the timer to the reading of
the clock. -/
inductive Operation where
  | init
  | stopTimer (sample : NNRat)
  | backoff

def perform (t : AdaptiveTimeout) : Operation → AdaptiveTimeout
  | .init => init
  | .stopTimer sample => t.stopTimer (t.timer + sample)
  | .backoff => t.backoff

/-- What calls make of a timeout that was just initialised. -/
def run (ops : List Operation) : AdaptiveTimeout := ops.foldl perform init

theorem run_append (ops : List Operation) (op : Operation) :
    run (ops ++ [op]) = (run ops).perform op := by
  simp [run]

/-- What every call keeps. -/
structure Bounded (t : AdaptiveTimeout) : Prop where
  smoothed : 0 ≤ t.smoothedRtt
  pos : 0 < t.rto
  le : t.rto ≤ 60

theorem bounded_init : init.Bounded := by
  constructor
  · rfl
  · norm_num [init]
  · norm_num [init]

theorem Bounded.perform (h : t.Bounded) (op : Operation) : (t.perform op).Bounded := by
  cases op with
  | init => exact bounded_init
  | stopTimer sample =>
      have later : t.timer ≤ t.timer + sample := le_add_of_nonneg_right sample.2
      constructor
      · exact smoothedRtt_stopTimer h.smoothed later
      · exact rto_stopTimer_pos h.smoothed later
      · exact min_le_left _ _
  | backoff =>
      constructor
      · exact h.smoothed
      · exact rto_backoff_pos h.pos
      · have capped : t.backoff.rto ≤ 1 := min_le_left _ _
        exact capped.trans (by norm_num)

theorem bounded_run (ops : List Operation) : (run ops).Bounded := by
  induction ops using List.reverseRecOn with
  | nil => exact bounded_init
  | append_singleton ops op ih =>
      rw [run_append]
      exact ih.perform op

/-- The timeout is positive and at most a minute all the time, and no backoff
makes it smaller. -/
structure WithinBounds (ops : List Operation) : Prop where
  pos : ∀ first, first <+: ops → 0 < (run first).rto
  le : ∀ first, first <+: ops → (run first).rto ≤ 60
  backoff : ∀ first, first ++ [.backoff] <+: ops →
    (run first).rto ≤ (run (first ++ [.backoff])).rto

/-- A backoff is safe exactly while the timeout is not above its cap. -/
theorem within_bounds_iff (ops : List Operation) :
    WithinBounds ops ↔ ∀ first, first ++ [.backoff] <+: ops → (run first).rto ≤ 1 := by
  have grows (first : List Operation) :
      (run first).rto ≤ (run (first ++ [.backoff])).rto ↔ (run first).rto ≤ 1 := by
    rw [run_append]
    exact rto_le_backoff_iff (bounded_run first).pos
  constructor
  · intro within first hf
    exact (grows first).mp (within.backoff first hf)
  · intro low
    constructor
    · intro first _
      exact (bounded_run first).pos
    · intro first _
      exact (bounded_run first).le
    · intro first hf
      exact (grows first).mpr (low first hf)

/-- A sample of ten seconds sets a timeout of half a minute, which a backoff
cuts to a second. -/
theorem slow_link_backs_off_to_a_second : ¬∀ ops : List Operation, WithinBounds ops := by
  intro all
  have grows := (all [.stopTimer 10, .backoff]).backoff [.stopTimer 10] (List.prefix_refl _)
  norm_num [run, perform, stopTimer, backoff, init, granularity, k] at grows

end AdaptiveTimeout

end Tftp
