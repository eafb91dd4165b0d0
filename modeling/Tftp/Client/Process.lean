import Tftp.RequestPacket
import Tftp.Client.Receiver
import Tftp.Client.Sender

/-!
# tftp_client_read and tftp_client_write

A client goes through its rounds one after the other: a write request is sent
until something comes in, and then the file is sent; the file of a read request
is received at once. Each round is given what `recvfrom` does in it.
-/

namespace Tftp.Client

open Act

/-! ## The request -/

/-- `struct tftp_client_options` -/
structure ClientOptions where
  timeoutS : Option UInt8 := none
  blockSize : Option UInt16 := none
  windowSize : Option UInt16 := none
  useTsize : Bool := false
  useAdaptiveTimeout : Bool := false
  isReadTypeList : Bool := false
deriving DecidableEq, Repr

namespace ClientOptions

/-- `is_timeout_required` -/
def isTimeoutRequired (o : ClientOptions) : Bool := o.timeoutS.any (· != 0)

/-- `is_block_size_required` -/
def isBlockSizeRequired (o : ClientOptions) : Bool :=
  o.blockSize.any fun n => 8 ≤ n && n ≤ 65464

/-- `is_window_size_required` -/
def isWindowSizeRequired (o : ClientOptions) (ty : RequestType) : Bool :=
  o.windowSize.any (· != 0) && ty != .put

/-- `is_adaptive_timeout_required` -/
def isAdaptiveTimeoutRequired (o : ClientOptions) (ty : RequestType) : Bool :=
  o.useAdaptiveTimeout && ty == .get

end ClientOptions

/-- `options_init` with an options argument. -/
def optionsInit (ty : RequestType) (o : ClientOptions) : Options :=
  let timeoutS := if o.isTimeoutRequired then o.timeoutS.getD 0 else defaultTimeoutS
  let blockSize := if o.isBlockSizeRequired then o.blockSize.getD 0 else defaultBlksize
  let windowSize := if o.isWindowSizeRequired ty then o.windowSize.getD 0 else defaultWindowSize
  { timeoutS, blockSize, windowSize
    useTsize := o.useTsize
    useAdaptiveTimeout := o.useAdaptiveTimeout
    active := fun
      | .blksize => o.isBlockSizeRequired
      | .timeout => o.isTimeoutRequired || o.isAdaptiveTimeoutRequired ty
      | .tsize => o.useTsize
      | .windowsize => o.isWindowSizeRequired ty
      | .readType => o.isReadTypeList
    value := fun
      | .blksize => formatNat blockSize.toNat
      | .timeout =>
          if o.isAdaptiveTimeoutRequired ty then ascii "adaptive" else formatNat timeoutS.toNat
      | .tsize => ascii "0"
      | .windowsize => formatNat windowSize.toNat
      | .readType => ascii "directory" }

/-- The `struct options` of a zeroed `struct request`. -/
def Options.zero : Options := { timeoutS := 0, blockSize := 0, windowSize := 0 }

/-- `options_init`: the options, and whether the request has any. Without an
options argument the zeroed structure stays as it is. -/
def requestOptions (ty : RequestType) : Option ClientOptions → Options × Bool
  | none => (.zero, false)
  | some o =>
      let options := optionsInit ty o
      (options, OptionKind.all.any options.active)

/-- `TFTP_OPTION_TOTAL_OPTIONS` entries as the encoders read them. -/
def Options.values (o : Options) (k : OptionKind) : Option Bytes :=
  if o.active k then some (o.value k) else none

/-- What `tftp_rrq_packet_init` or `tftp_wrq_packet_init` makes of the request. -/
def Request.packet (r : Request) : Option Bytes :=
  match r.requestType with
  | .get => rrqPacketInit (r.filename ++ [0]) r.mode r.options.values
  | .put => wrqPacketInit (r.filename ++ [0]) r.mode r.options.values

/-- `send_read_request` and `send_write_request`: the packet is sent, and the
socket then asked for its name. -/
def sendRequest {L : Type} : Act L Unit := do
  let r ← request
  match r.packet with
  | none => fail
  | some packet => do
      sendto r.serverAddr (.request packet)
      modify fun r => { r with lastPacketSent := .request packet }
      require

/-! ## handle_put_request -/

/-- `tftp_oack_packet_max_size` -/
def oackPacketMaxSize : ℕ := 512

/-- The locals of `handle_put_request` before `send_file`. -/
structure Requester where
  retransmissions : UInt8 := 0
deriving DecidableEq, Repr

/-- The ACK case of `handle_put_request`: the server knows no options. -/
def takeFirstAck (r : Request) (blockNumber : UInt16) : Act Requester Unit :=
  if blockNumber ≠ 0 then pure ()
  else if r.useOptions then
    modify fun r => { r with
      useOptions := false
      options := { r.options with
        blockSize := defaultBlksize
        timeoutS := defaultTimeoutS
        useTsize := false } }
  else pure ()

/-- What `handle_put_request` makes of the first datagram. It goes on to
`send_file` unless this stops. -/
def handleFirstAnswer (bytesReceived : ℕ) : Act Requester Unit := do
  let r ← request
  let opcode := readU16 r.recvBuffer 0
  if opcode = Opcode.oack then
    if r.useOptions = false then fail
    else do
      -- whether it was accepted makes no difference
      let _accepted ← handleOackPacket bytesReceived
      pure ()
  else if opcode = Opcode.ack then takeFirstAck r (readU16 r.recvBuffer 2)
  else do
    if opcode = Opcode.error then
      modify fun r => { r with serverMayNotSupportOptions := r.useOptions }
    else pure ()
    fail

/-- One round of the loop of `handle_put_request`, and what follows it once a
datagram came in: whether it goes on to `send_file`. -/
def requestRound (a : Arrival) : Act Requester Bool := do
  sendRequest
  match a with
  | .failed => fail
  | .timeout => do
      let r ← request
      let l ← locals
      if l.retransmissions = r.retries then do
        modify fun r => { r with serverMayNotSupportOptions := r.useOptions }
        fail
      else do
        modifyLocals fun l => { l with retransmissions := l.retransmissions + 1 }
        pure false
  | .datagram d => do
      modify fun r => { r.received d with serverAddr := d.sender }
      let r ← request
      handleFirstAnswer (r.bytesReceived d)
      pure true

/-! ## The client -/

/-- What a call of the client is given: `recvBuffer` is what its receive buffer
holds at first, and `file` is read by a write request. -/
structure Call where
  requestType : RequestType
  retries : UInt8
  server : Address
  filename : Bytes
  mode : Mode
  options : Option ClientOptions
  recvBuffer : Bytes := []
  file : Bytes := []

/-- The request `tftp_client_read` and `tftp_client_write` start with. -/
def Call.request (c : Call) : Request where
  requestType := c.requestType
  filename := c.filename
  mode := c.mode
  retries := c.retries
  useOptions := (requestOptions c.requestType c.options).2
  options := (requestOptions c.requestType c.options).1
  serverAddr := c.server
  recvTimeout := (requestOptions c.requestType c.options).1.timeoutS
  lastPacketSent := .request []
  recvBufferSize :=
    match c.requestType with
    | .get => packetBufferSize (requestOptions c.requestType c.options).1.blockSize
    | .put => oackPacketMaxSize
  recvBuffer := c.recvBuffer

/-- A client between two rounds; `file` is what it will send. -/
inductive Process where
  | requesting (file : Bytes) (w : World Requester)
  | receiving (w : World Receiver)
  | sending (w : World Sender)
  | ended (outcome : Outcome) (request : Request) (sent : List (Address × Message))

/-- What `recvfrom` does in a round, with the other answers of the system. -/
structure Event where
  arrival : Arrival
  sys : Sys := {}

namespace World

variable {L M : Type}

/-- The world of a round. -/
def on (w : World L) (s : Sys) : World L := { w with sys := s }

/-- The world of another function of the client. -/
def enter (w : World L) (l : M) : World M where
  request := w.request
  locals := l
  sys := w.sys
  sent := w.sent
  clock := w.clock

end World

/-- `handle_get_request` after `receive_file`. -/
def getOutcome (r : Request) : Outcome → Outcome
  | .returned success =>
      .returned (success && !(r.options.useTsize && r.fileBytesTransferred ≠ r.options.tsize.toNat))
  | o => o

/-- `send_file` is called: it needs memory for its packets. -/
def enterSendFile (file : Bytes) (w : World Requester) : Process :=
  if w.answer then .sending (w.answered.enter (Sender.init w.request file w.sys.heap))
  else .ended (.returned false) w.request w.sent

/-- One round of a client. -/
def Process.step (e : Event) : Process → Process
  | .requesting file w =>
      match requestRound e.arrival (w.on e.sys) with
      | (.ok true, w') => enterSendFile file w'
      | (.ok false, w') => .requesting file w'
      | (.error o, w') => .ended o w'.request w'.sent
  | .receiving w =>
      match receiveRound e.arrival (w.on e.sys) with
      | (.ok (), w') => .receiving w'
      | (.error o, w') => .ended (getOutcome w'.request o) w'.request w'.sent
  | .sending w =>
      match sendRound e.arrival (w.on e.sys) with
      | (.ok (), w') => .sending w'
      | (.error o, w') => .ended o w'.request w'.sent
  | .ended o r sent => .ended o r sent

/-- What the client does before its first round: it sets the timeout of the
socket, and a read request is sent and given its receive buffer. -/
def begin (c : Call) : Act Unit Unit := do
  require
  match c.requestType with
  | .put => pure ()
  | .get => do
      sendRequest
      require

/-- The client after that. -/
def Call.start (c : Call) (s : Sys) : Process :=
  match begin c { request := c.request, locals := (), sys := s } with
  | (.ok (), w) =>
      match c.requestType with
      | .get => .receiving (w.enter {})
      | .put => .requesting c.file (w.enter {})
  | (.error o, w) => .ended o w.request w.sent

/-- The rounds of a run. -/
def Process.run (p : Process) (events : List Event) : Process :=
  events.foldl (fun p e => p.step e) p

/-- A run of a client. -/
def Call.run (c : Call) (s : Sys) (events : List Event) : Process := (c.start s).run events

/-- The world of a client once the first datagram has come in. -/
def World.answeredBy (w : World Requester) (d : Datagram) : World Requester :=
  { w with request := w.request.answeredBy d }

/-- An upload without options. -/
def plainUpload : Call where
  requestType := .put
  retries := 0
  server := .inet 0 69
  filename := ascii "f"
  mode := .octet
  options := none

/-! ## Rules for runs -/

open Prog

namespace Process

variable {I : Process → Prop} {e : Event}

theorem step_requesting {file : Bytes} {w : World Requester}
    (h : wp (requestRound e.arrival)
      (fun go w' => I (if go then enterSendFile file w' else .requesting file w'))
      (fun o w' => I (.ended o w'.request w'.sent)) (w.on e.sys)) :
    I ((Process.requesting file w).step e) := by
  unfold wp at h
  rw [step]
  generalize requestRound e.arrival (w.on e.sys) = result at h ⊢
  rcases result with ⟨o | go, w'⟩
  · exact h
  · cases go with
    | true => exact h
    | false => exact h

theorem step_receiving {w : World Receiver}
    (h : wp (receiveRound e.arrival) (fun _ w' => I (.receiving w'))
      (fun o w' => I (.ended (getOutcome w'.request o) w'.request w'.sent)) (w.on e.sys)) :
    I ((Process.receiving w).step e) := by
  unfold wp at h
  rw [step]
  generalize receiveRound e.arrival (w.on e.sys) = result at h ⊢
  rcases result with ⟨o | _, w'⟩
  · exact h
  · exact h

theorem step_sending {w : World Sender}
    (h : wp (sendRound e.arrival) (fun _ w' => I (.sending w'))
      (fun o w' => I (.ended o w'.request w'.sent)) (w.on e.sys)) :
    I ((Process.sending w).step e) := by
  unfold wp at h
  rw [step]
  generalize sendRound e.arrival (w.on e.sys) = result at h ⊢
  rcases result with ⟨o | _, w'⟩
  · exact h
  · exact h

/-- A client that has ended does nothing more. -/
theorem run_ended (o : Outcome) (r : Request) (sent : List (Address × Message))
    (events : List Event) : (Process.ended o r sent).run events = .ended o r sent := by
  induction events with
  | nil => rfl
  | cons e events ih => exact ih

theorem run_invariant (hstep : ∀ p e, I p → I (step e p)) {p : Process} (hp : I p)
    (events : List Event) : I (p.run events) := by
  induction events generalizing p with
  | nil => exact hp
  | cons e events ih => exact ih (hstep p e hp)

end Process

theorem Call.start_spec {c : Call} {s : Sys} {I : Process → Prop}
    (h : wp (begin c)
      (fun _ w => I (match c.requestType with
        | .get => .receiving (w.enter {})
        | .put => .requesting c.file (w.enter {})))
      (fun o w => I (.ended o w.request w.sent)) { request := c.request, locals := (), sys := s }) :
    I (c.start s) := by
  unfold wp at h
  unfold Call.start
  generalize begin c _ = result at h ⊢
  rcases result with ⟨o | _, w⟩
  · exact h
  · exact h

/-- The request was sent, and nothing else. -/
structure Requested {L : Type} (w t : World L) : Prop where
  request : ∃ packet, t.request = { w.request with lastPacketSent := .request packet } ∧
    t.sent = w.sent ++ [(w.request.serverAddr, .request packet)]
  locals : t.locals = w.locals

theorem sendRequest_spec {L : Type} (w : World L) :
    wp sendRequest (fun _ t => Requested w t)
      (fun o t => o = .returned false ∧
        (Requested w t ∨ (t.request = w.request ∧ t.sent = w.sent))) w := by
  rw [sendRequest, wp_bind, wp_request]
  cases w.request.packet with
  | none => exact ⟨rfl, .inr ⟨rfl, rfl⟩⟩
  | some packet =>
      rw [wp_bind, wp_sendto]
      refine ⟨fun _ => ?_, fun _ => ⟨rfl, .inr ⟨rfl, rfl⟩⟩⟩
      rw [wp_bind, wp_modify, wp_require]
      exact ⟨fun _ => ⟨⟨packet, rfl, rfl⟩, rfl⟩,
        fun _ => ⟨rfl, .inl ⟨⟨packet, rfl, rfl⟩, rfl⟩⟩⟩

/-- What holds at the start and in every round holds in every run. -/
theorem Call.run_invariant {c : Call} {s : Sys} {I : Process → Prop} (h : I (c.start s))
    (hstep : ∀ p e, I p → I (p.step e)) (events : List Event) : I (c.run s events) :=
  Process.run_invariant hstep h events

end Tftp.Client
