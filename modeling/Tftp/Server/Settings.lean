import Tftp.Server.Control

/-!
# What the start settles for good

The request, the file, the client and the accepted options of a session are
settled by its first call. No later call changes them.
-/

namespace Tftp.Server

open Prog Act

structure Settings where
  info : ServerInfo
  requestArgs : PeerMessage
  requestType : RequestType
  fileDescriptor : ℤ
  filename : Bytes
  mode : Mode
  retries : UInt8
  timeout : UInt8
  blockSize : UInt16
  windowSize : UInt16
  isAdaptiveTimeoutActive : Bool
  sockfd : ℤ
  clientAddress : Address
  recvBufferSize : ℕ
  oackPacket : Option Packet

def Session.settings (s : Session) : Settings where
  info := s.info
  requestArgs := s.requestArgs
  requestType := s.requestType
  fileDescriptor := s.fileDescriptor
  filename := s.filename
  mode := s.mode
  retries := s.retries
  timeout := s.timeout
  blockSize := s.blockSize
  windowSize := s.windowSize
  isAdaptiveTimeoutActive := s.isAdaptiveTimeoutActive
  sockfd := s.sockfd
  clientAddress := s.clientAddress
  recvBufferSize := s.recvBufferSize
  oackPacket := s.oackPacket

def World.settings (w : World) : Settings := w.session.settings

instance : Detached World.settings where
  sys _ _ := rfl
  note _ _ _ := rfl
  reports _ _ _ _ := rfl
  ring _ _ _ _ _ _ := rfl
  block _ _ _ _ := rfl

instance : Unlogged World.settings := ⟨fun _ _ => rfl⟩

abbrev KeepsSettings {α : Type} (x : Act α) : Prop := Fixes World.settings x

/-! ## Handlers -/

theorem sendNextBlock_settings : KeepsSettings sendNextBlock := by
  refine .bind .sys fun _ => .bind (.modify fun w => ?_) fun _ => .bind .session fun s =>
    .bind (.getDataPacketInfo _ _ _) fun packet => .bind (.sendto _ _) fun _ =>
      .bind (.modify fun _ => rfl) fun _ => .bind .session fun _ =>
        .ite (.bind .submitTimeout fun _ => .modify fun _ => rfl) (.modify fun _ => rfl)
  unfold World.settings
  dsimp only
  split <;> rfl

theorem onTimeout_settings : KeepsSettings onTimeout := by
  refine .bind .session fun _ => .ite .giveUp (.bind (.modify fun _ => rfl) fun _ =>
    .bind (.modify fun w => ?_) fun _ => .bind .submitTimeout fun _ => .retransmit)
  unfold World.settings
  dsimp only
  split <;> rfl

theorem onData_settings (packet : Bytes) : KeepsSettings (onData packet) := by
  have accept (n : UInt16) (data : Bytes) : KeepsSettings (acceptBlock n data) := by
    refine .bind .session fun _ => .bind .sys fun a => .bind (.emit _) fun _ => ?_
    cases a.write with
    | none => exact .bind (.recordFailure _ _) fun _ => .stop _
    | some written =>
        exact .bind (.modify fun _ => rfl) fun _ => .bind (.sendto _ _) fun _ =>
          .modify fun _ => rfl
  exact .bind .session fun _ => .ite (.bind (.modify fun _ => rfl) fun _ => accept _ _)
    (.ite (.pure _) (accept _ _))

theorem onAck_settings (packet : Bytes) : KeepsSettings (onAck packet) := by
  have accept (n : UInt16) : KeepsSettings (acceptAck n) := by
    refine .bind (.modify fun _ => rfl) fun _ => .bind .sys fun _ => .bind (.modify fun w => ?_)
      fun _ => .bind .submitCancelTimeout fun _ => .bind .session fun _ =>
        .ite (.bind .submitTimeout fun _ => .modify fun _ => rfl) (.modify fun _ => rfl)
    unfold World.settings
    dsimp only
    split <;> rfl
  exact .bind .session fun _ => .ite (.bind (.modify fun _ => rfl) fun _ => accept _)
    (.ite (.pure _) (.bind (.modify fun _ => rfl) fun _ => accept _))

theorem onPacketReceived_settings (d : Datagram) : KeepsSettings (onPacketReceived (.ok d)) :=
  .bind .session fun _ => .ite (.pure _) (.ite (.pure _) (.ite (.unknownTransferId _)
    (.ite (.bind (.modify fun _ => rfl) fun _ => .reportClientError _)
      (.ite (onData_settings _) (.ite (onAck_settings _) .unexpectedOpcode)))))

theorem dispatch_settings {e : Event} (he : e ≠ .start) : KeepsSettings (dispatch e) :=
  .dispatch he sendNextBlock_settings onTimeout_settings fun d _ => onPacketReceived_settings d

/-! ## Calls -/

/-- A call that is not the first one keeps the settings, however it ends. -/
theorem deliver_settings {sys : Sys} {e : Event} {w : World} (he : e ≠ .start) :
    (deliver sys e w).world.settings = w.settings :=
  (deliver_view (P := fun c => c = w.settings) sys e w (dispatch_settings he _ _ rfl) fun _ h => h).1

/-- So does every later step. -/
theorem Step.settings {l l' : Live} {label : Label} (hs : Step l label l')
    (hl : l.status ≠ .fresh) : l'.world.settings = l.world.settings := by
  cases hs with
  | start sys hf => exact (hl hf).elim
  | complete op sys e _ _ hr =>
      exact deliver_settings fun he => Op.not_reports_start (he ▸ hr)
  | expire => rfl
  | fill bytes => rfl

end Tftp.Server
