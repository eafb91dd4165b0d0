import Tftp.Client.Parameters
import Tftp.Client.Retries
import Tftp.Server.Retries

/-!
# The four loops that retransmit

A session of the server keeps to its retries in every run. A client does so as
long as its rounds meet a condition: the loop of `receive_packet` must not be
disturbed, and that of `send_file` must not come to the end of its retries.
-/

namespace Tftp

theorem retry_bound (info : Server.ServerInfo) (request : Server.PeerMessage) (c : Client.Call)
    (s : Client.Sys) :
    (∀ x, Server.Attempt.Runs (.boot info request) x → x.Bounded info.retries) ∧
    ∀ x, Client.Attempt.Runs (Client.Attempt.Meets c.retries) (.start c s) x →
      x.Bounded (Client.Attempt.Meets c.retries) c.retries := by
  constructor
  · intro x runs
    exact Server.Attempt.bounded_of_runs runs
  · intro x runs
    exact Client.Attempt.bounded_of_runs runs

namespace Client

/-- An upload without retries, and a read with one. -/
def hastyUpload : Call := { plainUpload with options := some {} }

def retriedRead : Call := { hastyUpload with requestType := .get, retries := 1 }

/-- The bound is kept over one timeout of a read with one retry. -/
theorem one_timeout_bounded :
    ((Attempt.start retriedRead {}).step ⟨.timeout, {}⟩).Bounded (Attempt.Meets 1) 1 := by
  have meets : Attempt.Meets 1 (Attempt.start retriedRead {}) ⟨.timeout, {}⟩ :=
    fun _ full => absurd full (by decide)
  have reader := Server.plainRequest Opcode.rrq "octet"
  exact (retry_bound Server.plainInfo reader retriedRead {}).2 _ (.single ⟨_, meets, rfl⟩)

namespace Attempt

theorem runs_foldl (x : Attempt) (events : List Event) :
    Runs (fun _ _ => True) x (events.foldl step x) := by
  induction events generalizing x with
  | nil => exact .refl
  | cons e events ih => exact .head ⟨e, trivial, rfl⟩ (ih (x.step e))

end Attempt

/-- Without retries `send_file` answers a timeout with a retransmission. With
one, `receive_packet` answers two, when the packet of a stranger comes between
them. -/
theorem retries_exceeded :
    (¬∀ s x, Attempt.Runs (fun _ _ => True) (.start hastyUpload s) x →
      x.Bounded (fun _ _ => True) hastyUpload.retries) ∧
    ¬∀ s x, Attempt.Runs (fun _ _ => True) (.start retriedRead s) x →
      x.Bounded (fun _ _ => True) retriedRead.retries := by
  constructor
  · intro all
    have bounded := all {} _ (Attempt.runs_foldl _ [ackZero, ⟨.timeout, {}⟩])
    have exceeded := bounded.within (by decide +kernel)
    exact absurd exceeded (by decide +kernel)
  · intro all
    have bounded := all {} _ (Attempt.runs_foldl _ [⟨.timeout, {}⟩,
      ⟨.datagram ⟨.inet 0 1069, (Packet.data 1 (List.replicate 512 0)).bytes⟩, {}⟩,
      ⟨.timeout, {}⟩, ⟨.datagram ⟨.inet 0 2069, (Packet.data 2 []).bytes⟩, {}⟩, ⟨.timeout, {}⟩])
    have exceeded := bounded.within (by decide +kernel)
    exact absurd exceeded (by decide +kernel)

end Client

end Tftp
