import Tftp.Server.RoundTrips
import Tftp.Client.RoundTrips

/-!
# Karn's rule

An ACK of a block that was sent again does not tell a round trip. The server
takes its timer back at each timeout, and breaks the rule only where a timeout
sends a block before its read has completed. The client takes it back as well,
and then measures without it.
-/

namespace Tftp

open AdaptiveTimeout Transmissions

theorem karn_rule (info : Server.ServerInfo) (request : Server.PeerMessage) (c : Client.Call)
    (s : Client.Sys) :
    (∀ x, Server.Measured.Runs Server.Measured.InTurn (.boot info request) x →
      ∀ label y, Server.Measured.Step x label y → x.Karn label y) ∧
    ∀ x, Client.Measured.Runs (.start c s) x → ∀ e, x.Meets e → x.Karn e := by
  constructor
  · intro x runs label y hs
    exact Server.Measured.samples_of_runs runs hs
  · intro x runs e meets
    exact (Client.Measured.Sound.of_runs runs).karn meets

namespace Client

/-- An upload of one byte that measures its round trips. -/
def timedUpload : Call :=
  { plainUpload with
    retries := 1
    options := some { useAdaptiveTimeout := true }
    file := [65] }

/-- An ACK of block 1. -/
def ackOne : Event := { arrival := .datagram ⟨.inet 0 1069, [0, 4, 0, 1]⟩ }

/-- The client before it sends its block. -/
def unsentBlock : Measured := (Measured.start timedUpload {}).step ackZero

theorem unsentBlock_karn : unsentBlock.Karn ackOne := by
  have active : (unsentBlock.process.sender.all fun w =>
      (w.on ackOne.sys).filled.locals.adaptiveTimeout.isTimerActive) = true := by decide +kernel
  have meets : unsentBlock.Meets ackOne := by
    intro w d sending _ _
    rw [sending] at active
    exact active
  have reader := Server.plainRequest Opcode.rrq "octet"
  exact (karn_rule Server.plainInfo reader timedUpload {}).2 _ (.single ⟨_, rfl⟩) _ meets

/-- The client once its block was sent twice. -/
def sentTwice : Measured := unsentBlock.step { arrival := .timeout }

/-- Its ACK gives a sample all the same. -/
theorem sample_of_sentTwice :
    ¬∀ c s x, Measured.Runs (.start c s) x → ∀ e, x.Karn e := by
  intro all
  have runs : Measured.Runs (.start timedUpload {}) sentTwice := .tail (.single ⟨_, rfl⟩) ⟨_, rfl⟩
  have karn := all _ _ _ runs ackOne
  have sends : (sentTwice.step ackOne).sends = [(1, 0), (1, 0)] := by decide +kernel
  have sampled : (sentTwice.process.sender.any fun w =>
      (sendRound ackOne.arrival (w.on ackOne.sys)).2.estimate ≠ w.estimate) = true := by
    decide +kernel
  obtain ⟨w, sending, other⟩ := Option.any_eq_true _ _ |>.mp sampled
  rcases karn w (Process.sender_sending sending) with same | ⟨d, -, -, p, t, single, -⟩
  · exact of_decide_eq_true other same
  · -- no position was sent once
    have once := single.once
    rw [sends] at once
    by_cases first : p = 1
    · subst first
      cases once
    · simp [Ne.symm first] at once

end Client

end Tftp
