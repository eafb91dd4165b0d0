import Tftp.Client.Duplicates
import Tftp.Client.Reads
import Tftp.Server.Storage

/-!
# Lost acknowledgments

When an ACK is lost, the packet it was for comes in again. `receive_file` answers
a DATA packet that comes in again; it does not answer an OACK, and a write session
of the server answers nothing that comes in again.
-/

namespace Tftp

namespace Server

open Prog Act

/-! ## The write session -/

/-- The last block is acknowledged again; nothing is written. -/
def Storing.AcksAgain (c c' : Storing) : Prop :=
  c'.io = c.io ++ [.acked (c.expected - 1)] ∧ c'.expected = c.expected

section

variable {w : World} {d : Datagram}

/-- A datagram that brings no block is not answered with an ACK. -/
theorem dispatch_unanswered (hwrite : w.session.requestType = .write)
    (hn : ¬(w.IsOwn d ∧ w.Accepts d)) :
    wp (dispatch (.packetReceived (.ok d))) (fun _ t => t.storing = w.storing)
      (fun _ t => t.storing = w.storing) w := by
  rw [dispatch, wp_bind, wp_jobDone, wp_bind, wp_session, wp_ite]
  refine ⟨fun _ => rfl, fun isOpen => ?_⟩
  have none_ : ¬(4 ≤ d.bytes.length ∧ sockaddrEquals d.sender w.session.clientAddress ∧
      w.Accepts d) := by
    rintro ⟨long, own, accepts⟩
    exact hn ⟨⟨eq_false_of_ne_true isOpen, long, own⟩, accepts⟩
  refine wp_bind.mpr (wp_mono (onPacketReceived_storing (w := w.reaped) hwrite none_) ?_
    fun _ _ same => same)
  intro _ t same
  have listens : KeepsStoring (do
      let s ← session
      if s.shouldClose then pure () else recvAsync) :=
    .bind .session fun _ => .ite (.pure _) .recvAsync
  exact wp_mono (listens _ t rfl) (fun _ _ kept => kept.trans same) fun _ _ kept => kept.trans same

/-- No datagram makes a write session acknowledge its last block again. -/
theorem Step.not_again {l l' : Live} {op : Op} {sys : Sys}
    (hs : Step l (.complete op sys (.packetReceived (.ok d))) l')
    (hwrite : l.world.session.requestType = .write) :
    ¬l.world.storing.AcksAgain l'.world.storing := by
  rintro ⟨io, -⟩
  by_cases taken : l.world.IsOwn d ∧ l.world.Accepts d
  · rcases (hs.stores taken.1 taken.2).1 with ⟨bytes, stored⟩ | ⟨k, -, -, stored⟩
    · have same := List.append_cancel_left (stored.symm.trans io)
      cases same
    · have same : l.world.io ++ [.stored ((d.bytes.drop 4).take k)] ++
          [.acked (readU16 d.bytes 2)] = l.world.io ++ [.acked _] :=
        (congrArg Storing.io stored).symm.trans io
      have length := congrArg List.length same
      simp at length
  · cases hs with
    | @complete pre post _ _ _ hl hops hr =>
        obtain ⟨left, -⟩ := deliver_view sys (.packetReceived (.ok d))
          { l.world with inflight := pre ++ post } (π := World.storing)
          (P := fun c => c = l.world.storing) (E := fun c => c = l.world.storing)
          (dispatch_unanswered (w := { l.world with inflight := pre ++ post, sys := sys })
            hwrite taken) fun _ same => same
        have length := congrArg List.length ((congrArg Storing.io left).symm.trans io)
        simp at length

end

end Server

/-! ## Both receivers -/

/-- The receiver of a read or of a write, with what it has accepted. -/
inductive Receiving where
  | client (x : Client.Download)
  | server (x : Server.Upload)

namespace Receiving

/-- It comes up in a run, whatever datagrams the network brings. -/
def Reachable : Receiving → Prop
  | .client x => ∃ c s events, x = Client.Download.run c s events
  | .server x =>
      x.live.world.session.requestType = .write ∧
        ∃ info request,
          Server.Upload.Runs (fun _ _ => True) (Server.Upload.boot info request) x

/-- The datagram is of the peer, and brings a packet that was accepted before. -/
def HasAccepted (d : Datagram) : Receiving → Prop
  | .client x =>
      ∃ w, x.process = .receiving w ∧ sockaddrEquals w.request.serverAddr d.sender ∧
        d.bytes ∈ x.accepted
  | .server x =>
      sockaddrEquals d.sender x.live.world.session.clientAddress ∧
        ∃ k payload, x.blocks[k]? = some payload ∧
          d.bytes = (Packet.data (UInt16.ofNat (k + 1)) payload).bytes

/-- The receiver is given the datagram. -/
inductive Delivers (d : Datagram) : Receiving → Receiving → Prop where
  | client (x : Client.Download) (sys : Client.Sys) :
      -- the answer can be sent
      sys.calls.headD true = true →
      Delivers d (.client x) (.client (x.step ⟨.datagram d, sys⟩))
  | server {x y : Server.Upload} {op : Server.Op} {sys : Server.Sys} :
      Server.Upload.Step x (.complete op sys (.packetReceived (.ok d))) y →
      Delivers d (.server x) (.server y)

/-- The ACK of the last block is sent again, or ACK 0 for an OACK; the file and the
number that is expected stay as they are. -/
def AcksAgain (packet : Bytes) : Receiving → Receiving → Prop
  | .client x, .client y => ∃ w, x.process = .receiving w ∧ y.process.AcksAgain w packet
  | .server x, .server y => x.live.world.storing.AcksAgain y.live.world.storing
  | _, _ => False

/-- `receive_file` is given a DATA packet, and not one so old that its number is the
one expected again. -/
def Answers (d : Datagram) : Receiving → Prop
  | .client x =>
      ∃ w, x.process = .receiving w ∧ readU16 d.bytes 0 = Opcode.data ∧
        readU16 d.bytes 2 ≠ w.locals.expectedSequenceNumber
  | .server _ => False

/-- A packet that comes in again is acknowledged again exactly then. -/
theorem acks_again_iff {r r' : Receiving} {d : Datagram} (reachable : r.Reachable)
    (accepted : r.HasAccepted d) (delivered : r.Delivers d r') :
    AcksAgain d.bytes r r' ↔ r.Answers d := by
  cases delivered with
  | client x sys granted =>
      obtain ⟨c, s, events, rfl⟩ := reachable
      obtain ⟨w, receiving, peer, mem⟩ := accepted
      have sound := Client.Download.sound_run c s events
      generalize Client.Download.run c s events = x at *
      obtain ⟨p, packets⟩ := x
      obtain rfl : p = .receiving w := receiving
      have stands : w.Stands packets := sound.stands
      have again := stands.again_iff (List.ne_nil_of_mem mem) (sound.whole _ mem) peer granted
      constructor
      · rintro ⟨w', same, acks⟩
        cases same
        exact ⟨w, rfl, again.mp acks⟩
      · rintro ⟨w', same, answers⟩
        cases same
        exact ⟨w, rfl, again.mpr answers⟩
  | server step =>
      refine iff_of_false ?_ id
      cases step with
      | mk taken => exact taken.not_again reachable.1

/-- A read without options has received its first block. -/
def firstBlock : Datagram :=
  ⟨.inet 0 1069, (Packet.data 1 (List.replicate 512 65)).bytes⟩

set_option maxRecDepth 8000 in
/-- It acknowledges that block again. -/
theorem first_block_again : AcksAgain firstBlock.bytes
    (.client (Client.Download.run Client.plainDownload {} [⟨.datagram firstBlock, {}⟩]))
    (.client (Client.Download.run Client.plainDownload {}
      [⟨.datagram firstBlock, {}⟩, ⟨.datagram firstBlock, {}⟩])) := by
  have reachable : Reachable
      (.client (Client.Download.run Client.plainDownload {} [⟨.datagram firstBlock, {}⟩])) :=
    ⟨_, _, _, rfl⟩
  refine (acks_again_iff reachable ⟨_, rfl, ?_, ?_⟩ (.client _ {} rfl)).mpr ⟨_, rfl, ?_, ?_⟩
  · decide
  · decide
  · decide
  · decide

/-- A write session stores a block of 512 bytes. -/
def storesBlock : List Server.Label :=
  [.start Server.fileOpens,
    .complete (.recv false) { write := some 512 }
      (.packetReceived (.ok ⟨Server.someClient, (Packet.data 1 (List.replicate 512 65)).bytes⟩))]

/-- It does not acknowledge that block when it comes in again. -/
theorem block_not_acked_again :
    ¬∀ (r r' : Receiving) (d : Datagram), r.Reachable → r.HasAccepted d → r.Delivers d r' →
      AcksAgain d.bytes r r' := by
  intro all
  have h : ((Server.Upload.replay (fun _ _ => True) storesBlock (Server.Upload.boot Server.plainInfo
      (Server.plainRequest Opcode.wrq "octet"))).bind fun x =>
        (Server.perform x.live (.complete (.recv false) {} (.packetReceived
          (.ok ⟨Server.someClient, (Packet.data 1 (List.replicate 512 65)).bytes⟩)))).map fun _ =>
            decide (x.live.world.session.requestType = .write ∧
              x.live.world.session.clientAddress = Server.someClient ∧
              x.blocks = [List.replicate 512 65])) = some true := by
    decide +kernel
  obtain ⟨x, hx, he⟩ := Option.bind_eq_some_iff.mp h
  obtain ⟨l, hl, he⟩ := Option.map_eq_some_iff.mp he
  obtain ⟨write, address, blocks⟩ := of_decide_eq_true he
  have step := Server.perform_step hl
  have runs := Server.Upload.replay_runs hx
  refine step.not_again write (all (.server x) _ _ ⟨write, _, _, runs⟩ ⟨?_, 0, _, ?_, rfl⟩
    (.server (.mk step)))
  · rw [address]
    decide
  · rw [blocks]
    rfl

end Receiving

end Tftp
