import Tftp.Client.SentBlocks
import Tftp.Server.Received

/-!
# An upload

A client that sends a file, one session of the server, and the datagrams between
them. Each datagram is a copy of one that was sent; copies are lost, doubled and
reordered, as long as none is older than the sequence numbers can tell.
-/

namespace Tftp

namespace Client

open Prog Act

/-! ## Up to the first block -/

/-- A client that has not sent a block yet. -/
def Process.Asks (file : Bytes) : Process → Prop
  | .requesting f w => f = file ∧ w.request.requestType = .put ∧
      w.request.recvBufferSize = oackPacketMaxSize
  | .receiving _ => False
  | .sending w => (∃ heap, w.locals = Sender.init w.request file heap) ∧
      w.request.requestType = .put ∧ w.request.recvBufferSize = oackPacketMaxSize
  | .ended o _ _ => Unsuccessful o

variable {file : Bytes}

theorem asks_start {c : Call} (hc : c.requestType = .put) (s : Sys) : (c.start s).Asks c.file := by
  apply Call.start_spec
  rw [begin, wp_bind, wp_require]
  refine ⟨fun _ => ?_, fun _ => unsuccessful_failed⟩
  have size : c.request.recvBufferSize = oackPacketMaxSize := by
    unfold Call.request
    rw [hc]
  rw [hc]
  exact ⟨rfl, hc, size⟩

/-- The answer to a write request leaves the receive buffer as it is. -/
theorem handleFirstAnswer_asks {w : World Requester} (n : ℕ) (put : w.request.requestType = .put) :
    wp (handleFirstAnswer n)
      (fun _ t => t.request.requestType = .put ∧
        t.request.recvBufferSize = w.request.recvBufferSize)
      (fun o _ => Unsuccessful o) w := by
  unfold handleFirstAnswer takeFirstAck
  rw [wp_bind, wp_request]
  refine wp_ite.mpr ⟨fun _ => wp_ite.mpr ⟨fun _ => unsuccessful_failed, fun _ => ?_⟩, fun _ =>
    wp_ite.mpr ⟨fun _ => wp_ite.mpr ⟨fun _ => ⟨put, rfl⟩, fun _ =>
      wp_ite.mpr ⟨fun _ => ⟨put, rfl⟩, fun _ => ⟨put, rfl⟩⟩⟩, fun _ => ?_⟩⟩
  · rw [wp_bind]
    refine wp_mono (handleOackPacket_outcome n w) (fun _ t ht => ?_) fun o t ht => ?_
    · have notGet : ¬w.request.requestType = .get := by
        rw [put]
        decide
      have kept (unsized : w.request.Resizes n → w.request.requestType = .get) (heap : Bytes) :
          (w.request.accept n heap).recvBufferSize = w.request.recvBufferSize :=
        if_neg fun resizes => notGet (unsized resizes)
      cases ht with
      | unrequested _ _ _ hr =>
          rw [wp_pure, hr]
          exact ⟨put, rfl⟩
      | unmoved _ _ get => exact absurd get notGet
      | untimed _ unsized _ _ hr =>
          rw [wp_pure, hr]
          exact ⟨put, kept unsized w.sys.heap⟩
      | accepted _ sized _ hr =>
          rw [wp_pure, hr]
          exact ⟨put, kept (fun resizes => (sized resizes).1) w.sys.heap⟩
    · cases ht with
      | onStack => decide
  · exact wp_ite.mpr ⟨fun _ => unsuccessful_failed, fun _ => unsuccessful_failed⟩

theorem asks_step {w : World Requester} (e : Event) (h : (Process.requesting file w).Asks file) :
    ((Process.requesting file w).step e).Asks file := by
  obtain ⟨-, put, size⟩ := h
  apply Process.step_requesting
  unfold requestRound
  rw [wp_bind]
  refine wp_mono (sendRequest_spec (w.on e.sys)) (fun _ asked ha => ?_) fun o t ht => ?_
  · obtain ⟨packet, hr, -⟩ := ha.request
    have put : asked.request.requestType = .put := by
      rw [hr]
      exact put
    have size : asked.request.recvBufferSize = oackPacketMaxSize := by
      rw [hr]
      exact size
    cases e.arrival with
    | failed => exact unsuccessful_failed
    | timeout =>
        rw [wp_bind, wp_request, wp_bind, wp_locals]
        refine wp_ite.mpr ⟨fun _ => ?_, fun _ => ⟨rfl, put, size⟩⟩
        rw [wp_bind, wp_modify, wp_fail]
        exact unsuccessful_failed
    | datagram d =>
        rw [wp_bind, wp_modify, wp_bind, wp_request, wp_bind]
        refine wp_mono (handleFirstAnswer_asks _ put) ?_ fun _ _ ho => ho
        rintro _ t ⟨put', size'⟩
        show (enterSendFile file t).Asks file
        unfold enterSendFile
        split
        · exact ⟨⟨_, rfl⟩, put', size'.trans size⟩
        · exact unsuccessful_failed
  · obtain ⟨rfl, -⟩ := ht
    exact unsuccessful_failed

end Client

open Client

/-! ## The two parties -/

/-- A client that sends a file, and the session it sends it to. -/
structure WriteTransfer where
  client : Sending
  server : Server.Upload

namespace WriteTransfer

inductive Label where
  | client (m : Move)
  | server (label : Server.Label)

def boot (c : Call) (s : Sys) (info : Server.ServerInfo) (request : Server.PeerMessage) :
    WriteTransfer where
  client := .start c s
  server := .boot info request

inductive Step : WriteTransfer → Label → WriteTransfer → Prop where
  | client {x : WriteTransfer} (m : Move) : Step x (.client m) ⟨x.client.step m, x.server⟩
  | server {x : WriteTransfer} {label : Server.Label} {y : Server.Upload} :
      Server.Upload.Step x.server label y → Step x (.server label) ⟨x.client, y⟩

/-- The bytes are those of a packet; an ACK is a copy of one the session has sent, and
fewer than 65535 blocks were accepted since. -/
def FromServer (x : WriteTransfer) (bytes : Bytes) : Prop :=
  ∃ packet : Packet, bytes = packet.bytes ∧ ∀ n, packet = .ack n →
    ∃ pre post, x.server.live.world.io = pre ++ .acked n :: post ∧
      Server.Io.writes x.server.live.world.io < Server.Io.writes pre + 65535

/-- A DATA packet is a copy of one the client has sent, as far as it fits, and fewer
than 65535 blocks were sent since. -/
def FromClient (x : WriteTransfer) (bytes : Bytes) : Prop :=
  readU16 bytes 0 = Opcode.data → ∃ s ∈ x.client.sends,
    bytes = (Packet.data s.2.blockNumber s.2.data).bytes.take
      x.server.live.world.session.recvBufferSize ∧
    x.client.blocks < s.1 + 65535

/-- What the network and the system do: what each party takes for a datagram of the
other one is a copy, and `write` stores a whole block or fails, and fails without a
file. -/
def Allowed (x : WriteTransfer) : Label → Prop
  | .client (.await (.datagram d)) => ∀ v, x.client.stage = .waiting v →
      sockaddrEquals v.request.serverAddr d.sender = true → x.FromServer d.bytes
  | .client _ => True
  | .server (.complete op sys e) => Server.Upload.WritesAll x.server (.complete op sys e) ∧
      (x.server.live.world.session.fileDescriptor = -1 → sys.write = none) ∧
      ∀ d, e = .packetReceived (.ok d) →
        sockaddrEquals d.sender x.server.live.world.session.clientAddress = true →
          x.FromClient d.bytes
  | .server _ => True

def Runs : WriteTransfer → WriteTransfer → Prop :=
  Relation.ReflTransGen fun x y => ∃ label, Step x label y ∧ x.Allowed label

/-! ## What holds of both -/

/-- The session is one for this upload, with blocks of the size of the client's. -/
def Agrees (r : Request) (y : Server.Upload) : Prop :=
  y.live.status ≠ .fresh → y.live.world.session.requestType = .write ∧
    y.live.world.session.mode ≠ .invalid ∧
    y.live.world.session.blockSize = r.options.blockSize

/-- So many blocks have been acknowledged. -/
def Acked (io : List Server.Io) (blocks : ℕ) : Prop :=
  blocks = 0 ∨ ∃ pre n post, io = pre ++ .acked n :: post ∧ Server.Io.writes pre = blocks

theorem Acked.append {io : List Server.Io} {blocks : ℕ} (h : Acked io blocks)
    (more : List Server.Io) : Acked (io ++ more) blocks := by
  rcases h with zero | ⟨pre, n, post, rfl, writes⟩
  · exact .inl zero
  · exact .inr ⟨pre, n, post ++ more, by simp, writes⟩

/-- The session has taken in what the client has sent so far, but for the last block
perhaps, and it has acknowledged what the client takes for acknowledged. -/
structure Joined (size : ℕ) (file : Bytes) (x : WriteTransfer) : Prop where
  follows : x.server.Follows size file
  sent : x.server.blocks.length ≤ x.client.blocks
  acked : Acked x.server.live.world.io x.client.acked

/-- Nothing was sent, and so nothing taken in. -/
structure Untouched (x : WriteTransfer) : Prop where
  blocks : x.client.blocks = 0
  acked : x.client.acked = 0
  sends : x.client.sends = []
  taken : x.server.blocks = []

/-- Where an upload can be: no block was sent, or the file is sent, or the client
cannot succeed any more. -/
inductive Stands (file : Bytes) (x : WriteTransfer) : Prop where
  | asks (p : Process) : x.client.stage = .ready p → p.Asks file → (p.Sound ∨ p.Zeroed) →
      x.Untouched → (∀ r size, Agrees r x.server → x.server.Follows size file) → Stands file x
  | sends (r : Request) (size : ℕ) : r.Uploads size → 4 ≤ r.recvBufferSize →
      x.client.Sound r size file → (Agrees r x.server → x.Joined size file) → Stands file x
  | stuck (w : World Sender) : (x.client.stage = .ready (.sending w) ∨ x.client.stage = .waiting w) →
      w.locals.Stuck → Stands file x
  | failed (o : Outcome) (r : Request) (sent : List (Address × Message)) :
      x.client.stage = .ready (.ended o r sent) → Unsuccessful o → Stands file x

variable {info : Server.ServerInfo} {request : Server.PeerMessage} {file : Bytes} {x : WriteTransfer}

/-! ## The client acts -/

section Client

variable {r : Request} {size : ℕ} {m : Move} {y : Sending}

/-- An ACK that the client processes tells the truth. -/
theorem hears_acked (server : Server.Upload.Sound info request x.server) (hr : 4 ≤ r.recvBufferSize)
    (joined : x.Joined size file) (agrees : Agrees r x.server)
    (window : x.client.blocks ≤ x.client.acked + 1) {v : World Sender} (base : v.base = r)
    {a : Arrival} (hx : x.client.stage = .waiting v) (allowed : x.Allowed (.client (.await a)))
    (hears : v.Hears a (UInt16.ofNat (x.client.acked + 1))) :
    Acked x.server.live.world.io (x.client.acked + 1) := by
  obtain ⟨d, rfl, -, -, own, opcode, number⟩ := hears
  obtain ⟨packet, bytes, acks⟩ := allowed v hx own
  have room : 4 ≤ v.request.recvBufferSize := hr.trans (congrArg Request.recvBufferSize base).ge
  have received (i : ℕ) (hi : i + 2 ≤ packet.bytes.length) (h4 : i + 2 ≤ 4) :
      readU16 (v.request.received d).recvBuffer i = readU16 packet.bytes i := by
    rw [Request.readU16_received, bytes]
    rw [Request.bytesReceived, bytes]
    exact le_min hi (h4.trans room)
  have long : 2 ≤ packet.bytes.length := by
    cases packet <;> simp [Packet.bytes, bytes16]
  rw [received 0 long (by decide)] at opcode
  obtain ⟨n, rfl⟩ : ∃ n, packet = .ack n := by
    cases packet with
    | ack n => exact ⟨n, rfl⟩
    | data n payload => exact absurd ((opcode_data n payload).symm.trans opcode) (by decide)
    | oack values => exact absurd ((opcode_oack values).symm.trans opcode) (by decide)
    | error code message => exact absurd ((opcode_error code message).symm.trans opcode) (by decide)
  obtain ⟨pre, post, split, near⟩ := acks n rfl
  have number : n = UInt16.ofNat (x.client.acked + 1) := by
    have read := received 2 (by simp) (by decide)
    exact (blockNumber_ack n).symm.trans (read.symm.trans number)
  have write : x.server.live.world.session.requestType = .write := by
    refine (agrees fun fresh => ?_).1
    rw [server.fresh fresh] at split
    have none_ : ([] : List Server.Io) = pre ++ .acked n :: post := split
    simp at none_
  obtain ⟨position, le, -⟩ := server.acked write pre n post split
  -- both are among the last blocks that sequence numbers can tell apart
  have low : x.client.acked ≤ x.server.blocks.length := by
    rcases joined.acked with zero | ⟨pre', n', post', split', writes⟩
    · omega
    · rw [← writes, ← joined.follows.writes]
      exact Server.Upload.writes_before_le split'
  have sent := joined.sent
  rw [joined.follows.writes] at near
  have same := (Serial.ofNat_inj_near (a := Server.Io.writes pre) (b := x.client.acked + 1)
    (by omega) (by omega)).mp (position.symm.trans number)
  exact .inr ⟨pre, n, post, split, same⟩

/-- A move of a client that sends. -/
theorem sends_client (server : Server.Upload.Sound info request x.server) (hu : r.Uploads size)
    (hr : 4 ≤ r.recvBufferSize) (sound : x.client.Sound r size file)
    (joined : Agrees r x.server → x.Joined size file) (hs : x.client.Steps m y)
    (allowed : x.Allowed (.client m)) : Stands file ⟨y, x.server⟩ := by
  by_cases free : x.client.Free
  · have step := (sound.step hu free hs).1
    refine .sends r size hu hr step fun agrees => ?_
    obtain ⟨follows, sent, acked⟩ := joined agrees
    cases hs with
    | idle => exact ⟨follows, sent, acked⟩
    | round => exact ⟨follows, sent, acked⟩
    | fill w sys hx => exact ⟨follows, sent.trans (Nat.le_add_right _ _), acked⟩
    | await v a hx =>
        have stands := sound.stands
        unfold Sending.Stands at stands
        rw [hx] at stands
        obtain ⟨-, -, -, same | ⟨next, hears⟩⟩ := sound.awaits hu hx (free v hx) a
        · exact ⟨follows, sent, same ▸ acked⟩
        · refine ⟨follows, sent, ?_⟩
          show Acked _ (x.client.await a v).acked
          rw [next]
          exact hears_acked server hr ⟨follows, sent, acked⟩ agrees sound.window stands.1 hx allowed
            hears
  · obtain ⟨v, hx, stuck⟩ : ∃ v, x.client.stage = .waiting v ∧ v.locals.Stuck := by
      simpa [Sending.Free] using free
    cases hs with
    | idle => exact .stuck v (.inr hx) stuck
    | round p e hp => cases hx.symm.trans hp
    | fill w sys hw => cases hx.symm.trans hw
    | await v' a hx' =>
        obtain rfl : v = v' := Stage.waiting.inj (hx.symm.trans hx')
        rcases awaitRound_stuck stuck a with ⟨t, next, stuck'⟩ | ⟨o, q, sent, next, failed⟩
        · exact .stuck t (.inl (congrArg Stage.ready next)) stuck'
        · exact .failed o q sent (congrArg Stage.ready next) failed

/-- The first block is sent. -/
theorem asks_fill {w : World Sender} (hx : x.client.stage = .ready (.sending w))
    (asks : (Process.sending w).Asks file) (settings : (Process.sending w).Sound ∨
      (Process.sending w).Zeroed) (untouched : x.Untouched)
    (follows : ∀ r size, Agrees r x.server → x.server.Follows size file) (sys : Sys)
    (server : Server.Upload.Sound info request x.server) :
    Stands file ⟨x.client.fill sys w, x.server⟩ := by
  obtain ⟨init, put, buffer⟩ := asks
  obtain ⟨blocks, acked, sends, taken⟩ := untouched
  rcases settings with ⟨sound, -⟩ | zeroed
  · have begins : x.client = Sending.begins w := by
      obtain ⟨⟨stage, _, _, _⟩, server⟩ := x
      obtain rfl : stage = _ := hx
      obtain rfl := blocks
      obtain rfl := acked
      obtain rfl := sends
      rfl
    have uploads : w.base.Uploads w.request.options.blockSize.toNat :=
      ⟨(sound.upload put).1, rfl, lt_of_lt_of_le (by decide) sound.blockSize⟩
    refine sends_client (m := .fill sys) server uploads ?_ ?_ ?_ (.fill w sys hx) trivial
    · show 4 ≤ w.request.recvBufferSize
      rw [buffer]
      decide
    · rw [begins]
      exact .begin init _
    · intro agrees
      refine ⟨follows _ _ agrees, ?_, .inl acked⟩
      rw [taken]
      exact Nat.zero_le _
  · obtain ⟨heap, locals⟩ := init
    have zero : w.request.options.windowSize = 0 := by
      have zeroed : w.request.options = .zero := zeroed
      rw [zeroed]
      rfl
    obtain ⟨q, sent, crash⟩ := fillRound_zero zero (by rw [locals]; rfl) (by rw [locals]; rfl) sys
    exact .failed .crash q sent crash (by decide)

/-- Every move of the client keeps the upload in one of these places. -/
theorem Stands.client (h : Stands file x) (server : Server.Upload.Sound info request x.server)
    (hs : x.client.Steps m y) (allowed : x.Allowed (.client m)) : Stands file ⟨y, x.server⟩ := by
  cases h with
  | asks p hx asks settings untouched follows =>
      cases hs with
      | idle => exact .asks p hx asks settings untouched follows
      | round p' e hx' none_ =>
          obtain rfl : p = p' := Stage.ready.inj (hx.symm.trans hx')
          have step : (p.step e).Asks file := by
            cases p with
            | requesting f w =>
                obtain ⟨rfl, -⟩ := id asks
                exact asks_step e asks
            | receiving w => exact asks.elim
            | sending w => cases none_
            | ended o q sent => exact asks
          exact .asks _ rfl step (Measured.settings_step e settings)
            ⟨untouched.blocks, untouched.acked, untouched.sends, untouched.taken⟩ follows
      | fill w sys hx' =>
          obtain rfl : p = .sending w := Stage.ready.inj (hx.symm.trans hx')
          exact asks_fill hx asks settings untouched follows sys server
      | await v a hx' => cases hx.symm.trans hx'
  | sends r size hu hr sound joined => exact sends_client server hu hr sound joined hs allowed
  | stuck w hx stuck =>
      cases hs with
      | idle => exact .stuck w hx stuck
      | round p e hp none_ =>
          rcases hx with hx | hx
          · obtain rfl : Process.sending w = p := Stage.ready.inj (hx.symm.trans hp)
            cases none_
          · cases hx.symm.trans hp
      | fill w' sys hw =>
          rcases hx with hx | hx
          · obtain rfl : w = w' := Process.sending.inj (Stage.ready.inj (hx.symm.trans hw))
            exact .stuck (w.on sys) (.inr (fillRound_stuck stuck sys)) stuck
          · cases hx.symm.trans hw
      | await v a hv =>
          rcases hx with hx | hx
          · cases hx.symm.trans hv
          · obtain rfl : w = v := Stage.waiting.inj (hx.symm.trans hv)
            rcases awaitRound_stuck stuck a with ⟨t, next, stuck'⟩ | ⟨o, q, sent, next, failed⟩
            · exact .stuck t (.inl (congrArg Stage.ready next)) stuck'
            · exact .failed o q sent (congrArg Stage.ready next) failed
  | failed o q sent hx failed =>
      cases hs with
      | idle => exact .failed o q sent hx failed
      | round p e hp =>
          obtain rfl : Process.ended o q sent = p := Stage.ready.inj (hx.symm.trans hp)
          exact .failed o q sent rfl failed
      | fill w sys hw => cases hx.symm.trans hw
      | await v a hv => cases hx.symm.trans hv

end Client

/-! ## The session acts -/

section Session

variable {r : Request} {size : ℕ} {y : Server.Upload} {label : Server.Label}

/-- What the header of a datagram says is left when it is cut behind it. -/
theorem readU16_take {bytes : Bytes} {k i : ℕ} (h : i + 2 ≤ (bytes.take k).length) :
    readU16 (bytes.take k) i = readU16 bytes i := by
  have byte (j : ℕ) (hj : j < (bytes.take k).length) : (bytes.take k).getD j 0 = bytes.getD j 0 := by
    rw [List.length_take, lt_min_iff] at hj
    rw [List.getD_eq_getElem?_getD, List.getElem?_take_of_lt hj.1, ← List.getD_eq_getElem?_getD]
  rw [readU16, readU16, byte i (by omega), byte (i + 1) (by omega)]

/-- The only block of the client that a session accepts is the next one. -/
theorem accepted_next (server : Server.Upload.Sound info request x.server) (hu : r.Uploads size)
    (roomy : x.server.Roomy) (sound : x.client.Sound r size file) (joined : x.Joined size file)
    (agrees : Agrees r x.server) (hl : x.server.live.listening) {op : Server.Op} {sys : Server.Sys}
    {e : Server.Event} (allowed : x.Allowed (.server (.complete op sys e))) {d : Datagram}
    (accepted : x.server.live.world.accepted e = some d) :
    x.server.blocks.length + 1 ≤ x.client.blocks ∧ (sys.write ≠ none →
      d.bytes.drop 4 = Blocks.block size file (x.server.blocks.length + 1)) := by
  obtain ⟨rfl, ⟨-, long, own⟩, data, write, number⟩ := Server.accepted_eq_some accepted
  obtain ⟨-, unopened, copies⟩ := allowed
  obtain ⟨s, hs, bytes, near⟩ := copies d rfl own data
  obtain ⟨j, positive, sent, rfl⟩ := sound.sends s hs
  have header : readU16 d.bytes 2 = UInt16.ofNat j := by
    rw [bytes, readU16_take (bytes ▸ long)]
    exact blockNumber_data _ _
  have kept := server.kept hl write
  have next : UInt16.ofNat j = UInt16.ofNat (x.server.blocks.length + 1) := by
    rw [← header]
    rcases number with ⟨unsettled, first⟩ | expected
    · rw [first, kept.first unsettled]
      rfl
    · rw [expected]
      exact kept.expected
  have low : x.client.acked ≤ x.server.blocks.length := by
    rcases joined.acked with zero | ⟨pre', n', post', split', writes⟩
    · omega
    · rw [← writes, ← joined.follows.writes]
      exact Server.Upload.writes_before_le split'
  -- it is among the last blocks that sequence numbers can tell apart
  have near : x.client.blocks < j + 65535 := near
  have le : j ≤ x.client.blocks := sent
  have window := sound.window
  have behind := joined.sent
  obtain rfl : j = x.server.blocks.length + 1 :=
    (Serial.ofNat_inj_near (a := j) (b := x.server.blocks.length + 1) (by omega) (by omega)).mp next
  refine ⟨le, fun wrote => ?_⟩
  obtain ⟨-, mode, blockSize⟩ := agrees hl.ne_fresh
  have room := roomy hl write mode fun none_ => wrote (unopened none_)
  have blockSize : x.server.live.world.session.blockSize.toNat = size := by
    rw [blockSize]
    exact hu.blockSize
  have whole : (Packet.data (UInt16.ofNat (x.server.blocks.length + 1))
      (Blocks.block size file (x.server.blocks.length + 1))).bytes.length ≤
      x.server.live.world.session.recvBufferSize := by
    have room : 4 + x.server.live.world.session.blockSize.toNat ≤
      x.server.live.world.session.recvBufferSize := room
    have block : (Blocks.block size file (x.server.blocks.length + 1)).length ≤ size := by
      rw [Blocks.block_succ]
      exact List.length_take_le _ _
    rw [length_data]
    omega
  rw [bytes]
  show ((Packet.data _ _).bytes.take _).drop 4 = _
  rw [blockAt, numbered, List.take_of_length_le whole, payload_data]

/-- The upload goes on as before when the session takes a step. -/
theorem Agrees.before {x y : Server.Upload} (h : Agrees r y) (hs : Server.Upload.Step x label y) :
    Agrees r x := by
  cases hs with
  | mk taken =>
      intro started
      have settings := taken.settings started
      have ended : ∀ l : Server.Live, Server.Step x.live label l → l.status ≠ .fresh := by
        intro l hl
        cases hl with
        | start => exact Server.deliver_ne_fresh _ _ _
        | complete => exact Server.deliver_ne_fresh _ _ _
        | expire => exact started
        | fill => exact started
      obtain ⟨write, mode, size⟩ := h (ended _ taken)
      refine ⟨?_, ?_, ?_⟩
      · exact (congrArg Server.Settings.requestType settings).symm.trans write
      · intro invalid
        exact mode ((congrArg Server.Settings.mode settings).trans invalid)
      · exact (congrArg Server.Settings.blockSize settings).symm.trans size

/-- Nothing is accepted of a client that has sent nothing. -/
theorem accepts_nothing (unsent : x.client.sends = []) {op : Server.Op} {sys : Server.Sys}
    {e : Server.Event} (allowed : x.Allowed (.server (.complete op sys e))) :
    x.server.live.world.accepted e = none := by
  obtain ⟨-, -, copies⟩ := allowed
  apply Option.eq_none_iff_forall_ne_some.mpr
  intro d accepted
  obtain ⟨rfl, ⟨-, -, own⟩, data, -⟩ := Server.accepted_eq_some accepted
  obtain ⟨s, hs, -⟩ := copies d rfl own data
  rw [unsent] at hs
  cases hs

theorem Allowed.whole (allowed : x.Allowed (.server label)) : Server.Upload.WritesAll x.server label := by
  cases label with
  | complete op sys e => exact allowed.1
  | _ => trivial

/-- A step of the session takes in nothing, or an accepted block. -/
theorem arrives (hs : Server.Upload.Step x.server label y) :
    y.blocks = x.server.blocks ∨ ∃ op sys e d, label = .complete op sys e ∧
      x.server.live.listening ∧ x.server.live.world.accepted e = some d ∧
      y.blocks = x.server.blocks ++ [d.bytes.drop 4] := by
  cases hs with
  | mk taken =>
      cases taken with
      | complete op sys e hl hops hr =>
          cases accepted : x.server.live.world.accepted e with
          | none =>
              refine .inl ?_
              rw [Server.Upload.arrival, accepted]
              exact List.append_nil _
          | some d =>
              refine .inr ⟨op, sys, e, d, rfl, hl, accepted, ?_⟩
              rw [Server.Upload.arrival, accepted]
              rfl
      | start => exact .inl (List.append_nil _)
      | expire => exact .inl (List.append_nil _)
      | fill => exact .inl (List.append_nil _)

/-- What was acknowledged stays acknowledged. -/
theorem Acked.step (server : Server.Upload.Sound info request x.server)
    (hs : Server.Upload.Step x.server label y) (write : x.server.live.status ≠ .fresh →
      x.server.live.world.session.requestType = .write) {blocks : ℕ}
    (h : Acked x.server.live.world.io blocks) : Acked y.live.world.io blocks := by
  cases hs with
  | mk taken =>
      cases taken with
      | start sys hf =>
          obtain zero | ⟨pre, n, post, split, -⟩ := h
          · exact .inl zero
          · rw [server.fresh hf] at split
            have none_ : ([] : List Server.Io) = pre ++ .acked n :: post := split
            simp at none_
      | complete op sys e hl hops hr =>
          cases server.takes hl hops hr (write hl.ne_fresh) sys with
          | repeats _ repeats =>
              rcases repeats with same | ⟨-, again⟩
              · exact (congrArg (Acked · blocks) (congrArg Server.Storing.io same)).mpr h
              · exact (congrArg (Acked · blocks) (congrArg Server.Storing.io again)).mpr (h.append _)
          | stores d k _ _ _ stored =>
              have io := congrArg Server.Storing.io stored
              exact (congrArg (Acked · blocks) io).mpr ((h.append _).append _)
          | fails d bytes _ _ io => exact (congrArg (Acked · blocks) io).mpr (h.append _)
      | expire => exact h
      | fill => exact h

/-- Every step of the session keeps the upload in its place. -/
theorem Stands.server (h : Stands file x) (server : Server.Upload.Sound info request x.server)
    (roomy : x.server.Roomy) (hs : Server.Upload.Step x.server label y)
    (allowed : x.Allowed (.server label)) : Stands file ⟨x.client, y⟩ := by
  have whole := Allowed.whole allowed
  cases h with
  | asks p hx asks settings untouched follows =>
      have nothing : y.blocks = x.server.blocks := by
        rcases arrives hs with same | ⟨op, sys, e, d, rfl, -, accepted, -⟩
        · exact same
        · rw [accepts_nothing untouched.sends allowed] at accepted
          cases accepted
      refine .asks p hx asks settings ⟨untouched.blocks, untouched.acked, untouched.sends,
        nothing.trans untouched.taken⟩ fun r size agrees => ?_
      have before : Agrees r x.server := agrees.before hs
      refine (follows r size before).step server hs (fun started => (before started).1) whole ?_
      cases label with
      | complete op sys e =>
          intro d k accepted
          rw [accepts_nothing untouched.sends allowed] at accepted
          cases accepted
      | _ => trivial
  | sends r size hu hr sound joined =>
      refine .sends r size hu hr sound fun agrees => ?_
      have before : Agrees r x.server := agrees.before hs
      have joined := joined before
      have write (started : x.server.live.status ≠ .fresh) := (before started).1
      refine ⟨joined.follows.step server hs write whole ?_, ?_, joined.acked.step server hs write⟩
      · cases hs with
        | mk taken =>
            cases taken with
            | complete op sys e hl =>
                intro d k accepted wrote
                refine (accepted_next server hu roomy sound joined before hl allowed accepted).2 ?_
                rw [wrote]
                exact Option.some_ne_none k
            | _ => trivial
      · rcases arrives hs with same | ⟨op, sys, e, d, rfl, hl, accepted, blocks⟩
        · exact (congrArg List.length same).le.trans joined.sent
        · have next := (accepted_next server hu roomy sound joined before hl allowed accepted).1
          show y.blocks.length ≤ _
          rw [blocks, List.length_append]
          exact next
  | stuck w hx stuck => exact .stuck w hx stuck
  | failed o q sent hx failed => exact .failed o q sent hx failed

end Session

/-! ## Whole uploads -/

/-- What holds in every state of an upload. -/
structure Sound (info : Server.ServerInfo) (request : Server.PeerMessage) (file : Bytes)
    (x : WriteTransfer) : Prop where
  server : Server.Upload.Sound info request x.server
  roomy : x.server.Roomy
  stands : Stands file x

namespace Sound

theorem boot {c : Call} (hc : c.requestType = .put) (s : Sys) :
    Sound info request c.file (boot c s info request) where
  server := .boot
  roomy listening := by
    rcases listening with idle | closed
    · cases idle
    · cases closed
  stands := by
    refine .asks (c.start s) rfl (asks_start hc s) (Measured.settings_start c s) ⟨rfl, rfl, rfl, rfl⟩ ?_
    intro _ _ _
    exact .boot

theorem step {y : WriteTransfer} {label : Label} (h : Sound info request file x)
    (hs : Step x label y) (allowed : x.Allowed label) : Sound info request file y := by
  obtain ⟨server, roomy, stands⟩ := h
  cases hs with
  | client m => exact ⟨server, roomy, stands.client server (x.client.step_steps m) allowed⟩
  | server hs => exact ⟨server.step hs (Allowed.whole allowed), roomy.step server hs,
      stands.server server roomy hs allowed⟩

theorem of_runs {c : Call} (hc : c.requestType = .put) {s : Sys}
    (runs : Runs (WriteTransfer.boot c s info request) x) : Sound info request c.file x := by
  induction runs with
  | refl => exact boot hc s
  | tail _ last ih =>
      obtain ⟨label, hs, allowed⟩ := last
      exact ih.step hs allowed

end Sound

/-- What was not written left the file alone. -/
theorem content_of_writes {io : List Server.Io} (h : Server.Io.writes io = 0) :
    Server.Io.content io = [] := by
  apply List.flatMap_eq_nil_iff.mpr
  intro i hi
  have unwritten := List.countP_eq_zero.mp h i hi
  cases i with
  | stored bytes => exact absurd rfl unwritten
  | acked n => rfl

/-- The file of a session that listens is the beginning of the file that it takes in. -/
theorem kept_content {y : Server.Upload} {size : ℕ} (kept : Server.Upload.Kept y.blocks y.live.world.storing)
    (follows : y.Follows size file) (listening : y.live.listening) :
    Server.Io.content y.live.world.io = file.take (y.blocks.length * size) := by
  have content : Server.Io.content y.live.world.io = y.blocks.flatten := kept.content
  rw [content, follows.kept listening, Blocks.length_firstBlocks]
  exact Blocks.flatten_firstBlocks _ _ _

/-- The file holds the blocks of an acknowledged upload and nothing else. -/
theorem content_of_acked {size : ℕ} (positive : 0 < size)
    (server : Server.Upload.Sound info request x.server) (follows : x.server.Follows size file)
    (write : x.server.live.world.session.requestType = .write)
    (acked : Acked x.server.live.world.io (Blocks.last size file))
    (sent : x.server.blocks.length ≤ Blocks.last size file) :
    Server.Io.content x.server.live.world.io = file := by
  rcases acked with zero | ⟨pre, n, post, split, writes⟩
  · exact absurd zero (Nat.succ_ne_zero _)
  · obtain ⟨-, -, stored⟩ := server.acked write pre n post split
    have nothing : Server.Io.writes post = 0 := by
      have all := follows.writes
      have after : Server.Io.writes (.acked n :: post) = Server.Io.writes post := rfl
      rw [split, Server.Io.writes_append, after, writes] at all
      omega
    have blocks := follows.acked pre n post split
    rw [split, Server.Io.content_append, stored, blocks, writes]
    have after : Server.Io.content (.acked n :: post) = Server.Io.content post := rfl
    rw [after, content_of_writes nothing, List.append_nil]
    exact Blocks.flatten_all positive file

/-- If `send_file` returns true, the file of the session is the client's file. -/
theorem send_file_content (c : Call) (s : Sys) (hc : c.requestType = .put)
    (runs : Runs (boot c s info request) x) {q : Request} {sent : List (Address × Message)}
    (returned : x.client.stage = .ready (.ended (.returned true) q sent))
    (write : x.server.live.world.session.requestType = .write)
    (octet : x.server.live.world.session.mode = .octet)
    (agreed : x.server.live.world.session.blockSize = q.options.blockSize) :
    Server.Io.content x.server.live.world.io = c.file := by
  obtain ⟨server, -, stands⟩ := Sound.of_runs hc runs
  cases stands with
  | asks p hx asks settings untouched follows =>
      obtain rfl : p = _ := Stage.ready.inj (hx.symm.trans returned)
      exact absurd rfl asks
  | sends r size hu hr sound joined =>
      have stands := sound.stands
      unfold Sending.Stands at stands
      rw [returned] at stands
      obtain ⟨base, failed | ⟨-, all, whole⟩⟩ := stands
      · cases failed
      · have valid : x.server.live.world.session.mode ≠ .invalid := by
          rw [octet]
          decide
        obtain ⟨follows, taken, acked⟩ := joined fun _ =>
          ⟨write, valid, agreed.trans (congrArg (fun r => r.options.blockSize) base)⟩
        rw [all, whole] at acked
        exact content_of_acked hu.positive server follows write acked (whole ▸ taken)
  | stuck w hx stuck =>
      rcases hx with hx | hx
      · cases hx.symm.trans returned
      · cases hx.symm.trans returned
  | failed o q' sent' hx failed =>
      cases Stage.ready.inj (hx.symm.trans returned)
      exact absurd rfl failed

/-- While the client sends, the file of the session begins with all blocks that the
client counts as acknowledged, and as long as the session listens it is a beginning
of the client's file. -/
theorem acknowledged_content (c : Call) (s : Sys) (hc : c.requestType = .put)
    (runs : Runs (boot c s info request) x) {v : World Sender}
    (sending : x.client.stage = .waiting v ∨ x.client.stage = .ready (.sending v))
    (open_ : ¬v.locals.Stuck) (write : x.server.live.world.session.requestType = .write)
    (octet : x.server.live.world.session.mode = .octet)
    (agreed : x.server.live.world.session.blockSize = v.request.options.blockSize) :
    c.file.take (x.client.acked * v.request.options.blockSize.toNat) <+:
        Server.Io.content x.server.live.world.io ∧
      (x.server.live.listening → Server.Io.content x.server.live.world.io <+: c.file) := by
  obtain ⟨server, -, stands⟩ := Sound.of_runs hc runs
  have valid : x.server.live.world.session.mode ≠ .invalid := by
    rw [octet]
    decide
  cases stands with
  | asks p hx asks settings untouched follows =>
      have agrees : Agrees v.request x.server := fun _ => ⟨write, valid, agreed⟩
      have follows := follows _ v.request.options.blockSize.toNat agrees
      rw [untouched.acked, Nat.zero_mul, List.take_zero]
      refine ⟨List.nil_prefix, fun listening => ?_⟩
      rw [kept_content (server.kept listening write) follows listening]
      exact List.take_prefix _ _
  | sends r size hu hr sound joined =>
      have base : v.base = r := by
        have stands := sound.stands
        unfold Sending.Stands at stands
        rcases sending with hx | hx
        · rw [hx] at stands
          exact stands.1
        · rw [hx] at stands
          exact stands.1
      have same : v.request.options.blockSize = r.options.blockSize :=
        congrArg (fun r => r.options.blockSize) base
      obtain ⟨follows, -, acked⟩ := joined fun _ => ⟨write, valid, agreed.trans same⟩
      rw [same, hu.blockSize]
      refine ⟨?_, fun listening => ?_⟩
      · rcases acked with zero | ⟨pre, n, post, split, writes⟩
        · rw [zero, Nat.zero_mul, List.take_zero]
          exact List.nil_prefix
        · obtain ⟨-, -, stored⟩ := server.acked write pre n post split
          rw [split, Server.Io.content_append, stored, follows.acked pre n post split, writes,
            Blocks.flatten_firstBlocks]
          exact List.prefix_append _ _
      · rw [kept_content (server.kept listening write) follows listening]
        exact List.take_prefix _ _
  | stuck w hx stuck =>
      obtain rfl : w = v := by
        rcases sending with hs | hs
        · rcases hx with hx | hx
          · cases hx.symm.trans hs
          · exact Stage.waiting.inj (hx.symm.trans hs)
        · rcases hx with hx | hx
          · exact Process.sending.inj (Stage.ready.inj (hx.symm.trans hs))
          · cases hx.symm.trans hs
      exact absurd stuck open_
  | failed o q sent hx failed =>
      rcases sending with hs | hs
      · cases hx.symm.trans hs
      · cases Stage.ready.inj (hx.symm.trans hs)

/-! ## A file of two blocks -/

/-- Take one step, if it can be taken. -/
def perform (x : WriteTransfer) : Label → Option WriteTransfer
  | .client m => some ⟨x.client.step m, x.server⟩
  | .server label => (Server.perform x.server.live label).map fun l =>
      ⟨x.client, l, x.server.blocks ++ Server.Upload.arrival x.server.live label⟩

/-- Run a schedule through as long as its steps meet a condition. -/
def replayWhile (C : WriteTransfer → Label → Bool) : List Label → WriteTransfer → Option WriteTransfer
  | [], x => some x
  | label :: labels, x =>
      if C x label then (perform x label).bind (replayWhile C labels) else none

theorem perform_step {y : WriteTransfer} {label : Label} (h : perform x label = some y) :
    Step x label y := by
  cases label with
  | client m =>
      obtain rfl := Option.some.inj h
      exact .client m
  | server label =>
      obtain ⟨l, performed, rfl⟩ := Option.map_eq_some_iff.mp h
      exact .server (.mk (Server.perform_step performed))

theorem replayWhile_runs {C : WriteTransfer → Label → Bool} {labels : List Label}
    {y : WriteTransfer} (allowed : ∀ x label, C x label → x.Allowed label)
    (h : replayWhile C labels x = some y) : Runs x y := by
  induction labels generalizing x with
  | nil =>
      cases h
      exact .refl
  | cons label labels ih =>
      obtain ⟨checked, rest⟩ := Option.ite_none_right_eq_some.mp h
      obtain ⟨z, performed, rest⟩ := Option.bind_eq_some_iff.mp rest
      exact .head ⟨label, perform_step performed, allowed x label checked⟩ (ih rest)

/-- Every datagram is a copy of one of the other party, and `write` stores all of it. -/
def copied (x : WriteTransfer) : Label → Bool
  | .client (.await (.datagram d)) =>
      (∃ i ∈ x.server.live.world.io, ∃ n ∈ i.number, d.bytes = (Packet.ack n).bytes) ∧
        Server.Io.writes x.server.live.world.io < 65535
  | .client _ => true
  | .server (.start _) => true
  | .server (.complete _ sys (.packetReceived (.ok d))) =>
      (∃ s ∈ x.client.sends, d.bytes = (Packet.data s.2.blockNumber s.2.data).bytes.take
        x.server.live.world.session.recvBufferSize ∧ x.client.blocks < s.1 + 65535) ∧
        sys.write = some (d.bytes.drop 4).length ∧
        x.server.live.world.session.fileDescriptor ≠ -1
  | .server _ => false

theorem copied_allowed (x : WriteTransfer) (label : Label) (h : copied x label) :
    x.Allowed label := by
  unfold copied at h
  split at h
  · rename_i d
    obtain ⟨⟨i, hi, n, number, bytes⟩, few⟩ := of_decide_eq_true h
    obtain rfl : i = .acked n := by
      cases i with
      | stored b => cases number
      | acked m =>
          cases number
          rfl
    obtain ⟨pre, post, split⟩ := List.append_of_mem hi
    refine fun v _ _ => ⟨.ack n, bytes, fun m same => ⟨pre, post, ?_, by omega⟩⟩
    obtain rfl : n = m := Packet.ack.inj same
    exact split
  · rename_i m other
    cases m with
    | await a =>
        cases a with
        | datagram d => exact (other d rfl).elim
        | _ => trivial
    | _ => trivial
  · trivial
  · rename_i op sys d
    obtain ⟨copy, write, opened⟩ := of_decide_eq_true h
    refine ⟨fun d' k accepted wrote => ?_, fun closed => (opened closed).elim, ?_⟩
    · obtain ⟨received, -, -⟩ := Server.accepted_eq_some accepted
      cases received
      exact .inl (Option.some.inj (write.symm.trans wrote)).le
    · intro d' received _ _
      cases received
      exact copy
  · cases h

/-- A client that sends 513 bytes, in octet mode. -/
def twoBlocks : Call where
  requestType := .put
  retries := 5
  server := .inet 0 69
  filename := ascii "f"
  mode := .octet
  options := some {}
  file := List.replicate 513 65

/-- Block `n` comes in at the session. -/
def blockArrives (n : UInt16) (payload : Bytes) : Label :=
  .server (.complete (.recv false) { write := some payload.length }
    (.packetReceived (.ok ⟨Server.someClient, (Packet.data n payload).bytes⟩)))

/-- An ACK comes in at the client. -/
def ackArrives (n : UInt16) : Label :=
  .client (.await (.datagram ⟨.inet 0 1069, (Packet.ack n).bytes⟩))

/-- The first copy of block 1 is lost, the second one comes three times, once after
its ACK, and that ACK comes twice. -/
def lossy : List Label :=
  [.server (.start Server.fileOpens), .client (.round ackZero), .client (.fill {}),
    .client (.await .timeout), .client (.fill {}), blockArrives 1 (List.replicate 512 65),
    blockArrives 1 (List.replicate 512 65), ackArrives 1, .client (.fill {}),
    blockArrives 1 (List.replicate 512 65), ackArrives 1, .client (.fill {}), blockArrives 2 [65],
    ackArrives 2]

/-- The request of a client that has succeeded. -/
def succeeded : Stage → Option Request
  | .ready (.ended (.returned true) q _) => some q
  | _ => none

theorem succeeded_eq_some {stage : Stage} {q : Request} (h : succeeded stage = some q) :
    ∃ sent, stage = .ready (.ended (.returned true) q sent) := by
  unfold succeeded at h
  split at h
  · cases h
    exact ⟨_, rfl⟩
  · cases h

/-- The sender that waits for an answer. -/
def waitsWith : Stage → Option (World Sender)
  | .waiting v => some v
  | _ => none

theorem waitsWith_eq_some {stage : Stage} {v : World Sender} (h : waitsWith stage = some v) :
    stage = .waiting v := by
  unfold waitsWith at h
  split at h
  · cases h
    rfl
  · cases h

/-- Before the last ACK has come in, all of the file is stored already. -/
theorem lossy_upload_stored : ∃ x,
    Runs (boot twoBlocks {} Server.plainInfo (Server.plainRequest Opcode.wrq "octet")) x ∧
      x.client.acked = 1 ∧ Server.Io.content x.server.live.world.io = List.replicate 513 65 ∧
      Server.Io.content x.server.live.world.io <+: List.replicate 513 65 := by
  have h : ((replayWhile copied (lossy.take 13) (boot twoBlocks {} Server.plainInfo
      (Server.plainRequest Opcode.wrq "octet"))).map fun x => decide (
        (waitsWith x.client.stage).map (fun v => (v.request.options.blockSize, v.locals.endOfFile,
          v.locals.nextSequenceNumber)) = some (x.server.live.world.session.blockSize, true, 3) ∧
        x.server.live.world.session.requestType = .write ∧
        x.server.live.world.session.mode = .octet ∧ x.client.acked = 1 ∧
        Server.Io.content x.server.live.world.io = List.replicate 513 65 ∧
        x.server.live.listening)) = some true := by
    decide +kernel
  obtain ⟨x, replayed, checked⟩ := Option.map_eq_some_iff.mp h
  obtain ⟨waits, write, octet, acked, content, listening⟩ := of_decide_eq_true checked
  obtain ⟨v, waits, state⟩ := Option.map_eq_some_iff.mp waits
  obtain ⟨agreed, -, number⟩ : v.request.options.blockSize = _ ∧ v.locals.endOfFile = true ∧
      v.locals.nextSequenceNumber = 3 := by simpa using state
  have runs := replayWhile_runs copied_allowed replayed
  have open_ : ¬v.locals.Stuck := fun stuck => absurd (number.symm.trans stuck.2) (by decide)
  exact ⟨x, runs, acked, content, (acknowledged_content twoBlocks {} rfl runs
    (.inl (waitsWith_eq_some waits)) open_ write octet agreed.symm).2 listening⟩

/-- And once it has, the client succeeds. -/
theorem lossy_upload_content : ∃ x q sent,
    Runs (boot twoBlocks {} Server.plainInfo (Server.plainRequest Opcode.wrq "octet")) x ∧
      x.client.stage = .ready (.ended (.returned true) q sent) ∧
      Server.Io.content x.server.live.world.io = List.replicate 513 65 := by
  have h : ((replayWhile copied lossy (boot twoBlocks {} Server.plainInfo
      (Server.plainRequest Opcode.wrq "octet"))).map fun x => decide (
        (succeeded x.client.stage).map (fun q => q.options.blockSize) =
          some x.server.live.world.session.blockSize ∧
        x.server.live.world.session.requestType = .write ∧
        x.server.live.world.session.mode = .octet)) = some true := by
    decide +kernel
  obtain ⟨x, replayed, checked⟩ := Option.map_eq_some_iff.mp h
  obtain ⟨ended, write, octet⟩ := of_decide_eq_true checked
  obtain ⟨q, ended, agreed⟩ := Option.map_eq_some_iff.mp ended
  obtain ⟨sent, returned⟩ := succeeded_eq_some ended
  have runs := replayWhile_runs copied_allowed replayed
  exact ⟨x, q, sent, runs, returned,
    send_file_content twoBlocks {} rfl runs returned write octet agreed.symm⟩

end WriteTransfer

end Tftp
