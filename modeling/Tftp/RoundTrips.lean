import Tftp.AdaptiveTimeout
import Tftp.Lib.Serial
import Tftp.Lib.Transmissions

/-!
# Round-trip samples

A session of the server and `send_file` of the client measure in the same way:
the timer is started with a block that goes out for the first time, a timeout
cancels it, and an ACK from that block on stops it. `Timekeeping` is what this
rests on: the block of an active timer was sent once. Blocks are counted from 1
without wrap; position 0 is that of the OACK.
-/

namespace Tftp

open Transmissions

namespace AdaptiveTimeout

/-- What the samples have left. -/
structure Estimate where
  isFirstMeasurement : Bool
  smoothedRtt : ℚ
  rttVariation : ℚ
deriving DecidableEq

def estimate (t : AdaptiveTimeout) : Estimate where
  isFirstMeasurement := t.isFirstMeasurement
  smoothedRtt := t.smoothedRtt
  rttVariation := t.rttVariation

/-- The estimate with one more sample. -/
def Estimate.fold (e : Estimate) (r : ℚ) : Estimate where
  isFirstMeasurement := false
  smoothedRtt := if e.isFirstMeasurement then r else (1 - alpha) * e.smoothedRtt + alpha * r
  rttVariation :=
    if e.isFirstMeasurement then r / 2
    else (1 - beta) * e.rttVariation + beta * |e.smoothedRtt - r|

/-- At `now` the estimate takes the time since a block was sent that went out
once, with nothing sent again since then, and that an ACK of number `n` covers. -/
def Measures (blocks : ℕ) (sends : List (ℕ × ℚ)) (n : UInt16) (now : ℚ) (e e' : Estimate) : Prop :=
  ∃ p t, Single sends p t ∧ (∃ q, p ≤ q ∧ q ≤ blocks ∧ UInt16.ofNat q = n) ∧
    e' = e.fold (now - t)

/-- The timer of a sender whose next block, after `blocks`, has number `next`:
while it is active it stands at the single transmission of its block. -/
structure Timekeeping (t : AdaptiveTimeout) (next : UInt16) (blocks : ℕ) (sends : List (ℕ × ℚ)) :
    Prop where
  next : UInt16.ofNat (blocks + 1) = next
  sent : ∀ s ∈ sends, s.1 ≤ blocks
  timed : t.isTimerActive = true → ∃ p, p ≤ blocks ∧ UInt16.ofNat p = t.startingBlockNumber ∧
    Single sends p t.timer

namespace Timekeeping

variable {t t' : AdaptiveTimeout} {next n : UInt16} {blocks : ℕ} {sends more : List (ℕ × ℚ)}
  {now : ℚ}

theorem stopped (h : Timekeeping t next blocks sends) (ht : t'.isTimerActive = false) :
    Timekeeping t' next blocks sends where
  next := h.next
  sent := h.sent
  timed active := absurd (active.symm.trans ht) (by decide)

/-- Without a timer blocks may be sent again. -/
theorem again (h : Timekeeping t next blocks sends) (ht : t'.isTimerActive = false)
    (hmore : ∀ s ∈ more, s.1 ≤ blocks) : Timekeeping t' next blocks (sends ++ more) where
  next := h.next
  sent := by
    intro s hs
    rcases List.mem_append.mp hs with hs | hs
    · exact h.sent s hs
    · exact hmore s hs
  timed active := absurd (active.symm.trans ht) (by decide)

/-- The next block goes out. -/
theorem send (h : Timekeeping t next blocks sends) (now : ℚ) :
    Timekeeping t (next + 1) (blocks + 1) (sends ++ [(blocks + 1, now)]) where
  next := by rw [Serial.ofNat_succ (blocks + 1), h.next]
  sent := by
    intro s hs
    rcases List.mem_append.mp hs with hs | hs
    · exact (h.sent s hs).trans (Nat.le_succ _)
    · obtain rfl := List.mem_singleton.mp hs
      exact Nat.le_refl _
  timed := by
    intro active
    obtain ⟨p, le, number, single⟩ := h.timed active
    refine ⟨p, le.trans (Nat.le_succ _), number, single.extend ?_⟩
    exact fun s hs => Nat.lt_succ_of_le (h.sent s hs)

/-- It goes out with the timer. -/
theorem sendTimed (h : Timekeeping t next blocks sends) (now : ℚ) :
    Timekeeping { t.startTimer now with startingBlockNumber := next } (next + 1) (blocks + 1)
      (sends ++ [(blocks + 1, now)]) where
  next := (h.send now).next
  sent := (h.send now).sent
  timed _ := by
    refine ⟨blocks + 1, Nat.le_refl _, h.next, Single.fresh ?_⟩
    exact fun s hs => Nat.lt_succ_of_le (h.sent s hs)

/-- An ACK from the block of an active timer on gives a sample of it. -/
theorem measures (h : Timekeeping t next blocks sends) (active : t.isTimerActive = true)
    (arc : Serial.OnArc n t.startingBlockNumber (next - 1)) :
    Measures blocks sends n now t.estimate (t.stopTimer now).estimate := by
  obtain ⟨p, le, number, single⟩ := h.timed active
  rw [← number, ← h.next] at arc
  obtain ⟨q, from_, before, covers⟩ := Serial.exists_of_onArc (Nat.lt_succ_of_le le) arc
  exact ⟨p, t.timer, single, ⟨q, from_, Nat.le_of_lt_succ before, covers⟩, rfl⟩

end Timekeeping

end AdaptiveTimeout

end Tftp
