import Mathlib.Data.UInt
import Tftp.Lib.Checked
import Tftp.OptionFormat
import Tftp.RequestPacket

/-!
# The packet codec of the library

`tftp_encode_request`, `tftp_encode_data` and `tftp_encode_ack` against
`tftp_decode_request` and `tftp_parse_packet`. The decoders trust the length
they are given less than they should: for most buffers every read and write is
in bounds, and the buffers for which one is not are told apart by their shape.
-/

namespace Tftp.Codec

open Checked

/-! ## The packet in memory -/

/-- `sizeof(struct tftp_packet)`: the opcode and the largest member of the
union. -/
def packetSize : ℕ := 516

abbrev PacketMemory := Object UInt8 packetSize

/-- `sizeof packet->rrq` -/
def rrqSize : ℕ := 510

/-- `sizeof packet->data.data`, and of the message of an error. -/
def dataSize : ℕ := 512

/-- The order of the two bytes of a `uint16_t` of the host. -/
inductive ByteOrder where
  | littleEndian
  | bigEndian
deriving DecidableEq, Repr

def ByteOrder.bytes : ByteOrder → UInt16 → Bytes
  | .littleEndian, n => [n.toUInt8, (n / 256).toUInt8]
  | .bigEndian, n => bytes16 n

def ByteOrder.value : ByteOrder → Bytes → UInt16
  | .littleEndian, field => be16 (field.getD 1 0) (field.getD 0 0)
  | .bigEndian, field => be16 (field.getD 0 0) (field.getD 1 0)

@[simp] theorem ByteOrder.length_bytes (order : ByteOrder) (n : UInt16) :
    (order.bytes n).length = 2 := by
  cases order <;> rfl

@[simp] theorem ByteOrder.value_bytes (order : ByteOrder) (n : UInt16) (rest : Bytes) :
    order.value (order.bytes n ++ rest) = n := by
  cases order <;> exact be16_bytes16 n

/-- `packet->opcode` -/
def opcode (order : ByteOrder) (packet : PacketMemory) : UInt16 := order.value (packet.suffix 0)

/-- `packet->data.block_number`, which lies where `packet->ack.block_number`
and `packet->error.error_code` lie. -/
def blockNumber (order : ByteOrder) (packet : PacketMemory) : UInt16 :=
  order.value (packet.suffix 2)

/-- `packet->data.data`, or `packet->error.error_message` -/
def payload (packet : PacketMemory) : Bytes := packet.suffix 4

/-- Subtraction in `size_t`. -/
def sizeSub (a b : ℕ) : ℕ := (a + (2 ^ 64 - b)) % 2 ^ 64

/-- `ntohs(*(uint16_t *) p)` -/
def loadU16 (p : Bytes) : Except Fault UInt16 := do
  let hi ← load p 0
  let lo ← load p 1
  return be16 hi lo

/-! ## The encoders -/

inductive RequestType where
  | read
  | write
  | invalid
deriving DecidableEq, Repr

/-- `enum tftp_create_rqp_error` -/
inductive CreateRqpError where
  | invalidMode
  | truncatedFilename
deriving DecidableEq, Repr

/-- `tftp_encode_request`, with the packet and the size it produces; the array
`filename` has `n` bytes. -/
def tftpEncodeRequest (packet : PacketMemory) (ty : RequestType) (filename : Bytes) (mode : Mode) :
    Except Fault (Except CreateRqpError (PacketMemory × ℕ)) := do
  if mode ≠ .octet ∧ mode ≠ .netascii then return .error .invalidMode
  let filenameLen ← strnlen filename filename.length
  let modeLen := mode.string.length
  if filenameLen = filename.length ∨ filenameLen + 1 + (modeLen + 1) > rrqSize then
    return .error .truncatedFilename
  let packet ← packet.store 0 (bytes16 (if ty = .read then Opcode.rrq else Opcode.wrq))
  -- `memccpy` stops after the terminator
  let packet ← packet.store 2 (filename.take (filenameLen + 1))
  let packet ← packet.store (2 + (filenameLen + 1)) (mode.string ++ [0])
  return .ok (packet, 2 + (filenameLen + 1) + (modeLen + 1))

/-- A packet whose initializer leaves out the rest. -/
def zeroed : PacketMemory := List.Vector.replicate packetSize 0

/-- `tftp_encode_data`, with the size it produces. -/
def tftpEncodeData (blockNumber : UInt16) (data : Bytes) : Except Fault (PacketMemory × ℕ) := do
  let packet ← zeroed.store 0 (bytes16 Opcode.data)
  let packet ← packet.store 2 (bytes16 blockNumber)
  let packet ← packet.store 4 data
  return (packet, 2 + 2 + data.length)

/-- `tftp_encode_ack` -/
def tftpEncodeAck (blockNumber : UInt16) : Except Fault PacketMemory := do
  let packet ← zeroed.store 0 (bytes16 Opcode.ack)
  packet.store 2 (bytes16 blockNumber)

/-! ## The decoders -/

/-- `tftp_get_mode` -/
def tftpGetMode (n : ℕ) (mode : Bytes) : Mode :=
  if strcaseEq ((text mode).take n) (Mode.octet.string.take n) then .octet
  else if strcaseEq ((text mode).take n) (Mode.netascii.string.take n) then .netascii
  else .invalid

/-- `enum tftp_request_error` -/
inductive RequestError where
  | maxSizeExceeded
  | notARequest
  | invalidFilename
  | invalidMode
deriving DecidableEq, Repr

/-- `struct tftp_request`; the file name is a pointer into the buffer. -/
inductive Request where
  | invalid (error : RequestError)
  | valid (type : RequestType) (filename : Bytes) (mode : Mode)
deriving DecidableEq, Repr

def tftpDecodeRequest (data : Bytes) : Except Fault Request := do
  if data.length > requestPacketMaxSize then return .invalid .maxSizeExceeded
  let opcode ← loadU16 data
  if opcode ≠ Opcode.rrq ∧ opcode ≠ Opcode.wrq then return .invalid .notARequest
  let dataToParse := data.drop 2
  let dataToParseSize := sizeSub data.length 2
  let filenamePtr := dataToParse
  let filenameLen ← strnlen filenamePtr dataToParseSize
  -- two zero bytes and at least one byte for the mode
  if filenameLen = 0 ∨ filenameLen > sizeSub dataToParseSize 3 then
    return .invalid .invalidFilename
  let modePtr := dataToParse.drop (filenameLen + 1)
  let dataToParseSize := sizeSub dataToParseSize (filenameLen + 1)
  let modeLen ← strnlen modePtr dataToParseSize
  if (← load modePtr modeLen) ≠ 0 then return .invalid .invalidMode
  let mode := tftpGetMode (modeLen + 1) modePtr
  if mode = .invalid then return .invalid .invalidMode
  return .valid (if opcode = Opcode.rrq then .read else .write) filenamePtr mode

/-- `tftp_parse_packet`, with what it leaves in the packet. The opcode is
stored in the order of the host. -/
def tftpParsePacket (order : ByteOrder) (packet : PacketMemory) (data : Bytes) :
    Except Fault (Bool × PacketMemory) := do
  if data.length < 4 then return (false, packet)
  let opcode ← loadU16 data
  let dataToParse := data.drop 2
  if opcode = Opcode.rrq then
    let packet ← packet.store 0 (order.bytes opcode)
    return (true, ← packet.store 2 dataToParse)
  else if opcode = Opcode.wrq then
    let packet ← packet.store 0 (order.bytes opcode)
    return (true, ← packet.store 2 dataToParse)
  else if opcode = Opcode.data then
    let packet ← packet.store 0 (order.bytes opcode)
    let packet ← packet.store 2 (order.bytes (← loadU16 dataToParse))
    return (true, ← packet.store 4 (dataToParse.drop 2))
  else if opcode = Opcode.ack then
    let packet ← packet.store 0 (order.bytes opcode)
    return (true, ← packet.store 2 (order.bytes (← loadU16 dataToParse)))
  else if opcode = Opcode.error then
    if data.length < 5 then return (false, packet)
    let packet ← packet.store 0 (order.bytes opcode)
    let packet ← packet.store 2 (order.bytes (← loadU16 dataToParse))
    return (true, ← packet.store 4 (dataToParse.drop 2))
  else
    -- no case of the switch, an OACK among them
    return (true, packet)

/-! ## What the decoders read -/

theorem sizeSub_of_le {a b : ℕ} (h : b ≤ a) (ha : a < 2 ^ 64) : sizeSub a b = a - b := by
  unfold sizeSub
  omega

/-- A size that wraps around is larger than any buffer. -/
theorem sizeSub_of_lt {a b : ℕ} (h : a < b) (hb : b ≤ 512) : 2 ^ 64 - 512 ≤ sizeSub a b := by
  unfold sizeSub
  omega

theorem loadU16_eq {p : Bytes} (h : 2 ≤ p.length) : loadU16 p = .ok (readU16 p 0) := by
  rcases p with _ | ⟨hi, _ | ⟨lo, p⟩⟩
  · simp at h
  · simp at h
  · rfl

theorem loadU16_short {p : Bytes} (h : p.length < 2) : loadU16 p = .error .read := by
  rcases p with _ | ⟨hi, _ | ⟨lo, p⟩⟩
  · rfl
  · rfl
  · simp only [List.length_cons] at h
    omega

theorem tftpGetMode_eq {mode : Bytes} :
    tftpGetMode ((text mode).length + 1) mode = Server.parseMode (text mode) := by
  have whole (s : Bytes) : strcaseEq ((text mode).take ((text mode).length + 1))
      (s.take ((text mode).length + 1)) = strcaseEq (text mode) s := by
    rw [List.take_of_length_le (by omega)]
    by_cases longer : s.length ≤ (text mode).length + 1
    · rw [List.take_of_length_le longer]
    · have long : ∀ t : Bytes, (text mode).length < t.length → strcaseEq (text mode) t = false := by
        intro t ht
        rw [Bool.eq_false_iff]
        intro same
        have := length_of_strcaseEq same
        omega
      rw [long _ (by rw [List.length_take]; omega), long _ (by omega)]
  unfold tftpGetMode Server.parseMode
  rw [whole, whole]
  rfl

/-- What is left to do once the opcode is known to be that of a request; `rest`
is what follows it. -/
def decodeStrings (type : RequestType) (rest : Bytes) : Except Fault Request :=
  let name := text rest
  let modePtr := rest.drop (name.length + 1)
  if name = [] then .ok (.invalid .invalidFilename)
  else if rest.length < 3 then .error .read
  else if rest.length < name.length + 3 then .ok (.invalid .invalidFilename)
  else if 0 ∉ modePtr then .error .read
  else if Server.parseMode (text modePtr) = .invalid then .ok (.invalid .invalidMode)
  else .ok (.valid type rest (Server.parseMode (text modePtr)))

/-- With less than three bytes after the opcode the limits wrap around, and the
mode is looked for behind the buffer. -/
theorem decode_behind {rest : Bytes} {n : ℕ} (short : rest.length < 3) (hn : n ≠ 0)
    (hle : n ≤ rest.length) (decode : ℕ → UInt8 → Except Fault Request) :
    (do
      let modeLen ← strnlen (rest.drop (n + 1)) (sizeSub rest.length (n + 1))
      let terminator ← load (rest.drop (n + 1)) modeLen
      decode modeLen terminator) = .error .read := by
  have nothing : rest.drop (n + 1) = [] := List.drop_eq_nil_of_le (by omega)
  rw [nothing]
  by_cases exact_ : rest.length = n + 1
  · rw [exact_, sizeSub_of_le le_rfl (by omega), Nat.sub_self]
    rfl
  · have wraps := @sizeSub_of_lt rest.length (n + 1) (by omega) (by omega)
    rw [strnlen_eq, if_neg]
    · rfl
    · simp only [List.length_nil, List.not_mem_nil, or_false]
      omega

theorem decode_eq {data : Bytes} (small : data.length ≤ requestPacketMaxSize)
    (long : 2 ≤ data.length)
    (request : readU16 data 0 = Opcode.rrq ∨ readU16 data 0 = Opcode.wrq) :
    tftpDecodeRequest data =
      decodeStrings (if readU16 data 0 = Opcode.rrq then .read else .write) (data.drop 2) := by
  have rest_length : (data.drop 2).length = data.length - 2 := List.length_drop
  have small' : data.length ≤ 512 := small
  unfold tftpDecodeRequest
  rw [if_neg (by omega), loadU16_eq long, ok_bind, if_neg (by tauto)]
  dsimp only
  rw [sizeSub_of_le long (by omega), ← rest_length]
  generalize data.drop 2 = rest at rest_length ⊢
  rw [strnlen_length, ok_bind]
  unfold decodeStrings
  dsimp only
  have limit := length_text_le rest
  by_cases empty : text rest = []
  · rw [if_pos empty, if_pos (Or.inl (by rw [empty]; rfl))]
    rfl
  have nonempty : (text rest).length ≠ 0 := by
    simpa [List.length_eq_zero_iff] using empty
  rw [if_neg empty]
  by_cases short : rest.length < 3
  · have wraps := @sizeSub_of_lt rest.length 3 short (by omega)
    rw [if_pos short, if_neg (by omega)]
    exact decode_behind short nonempty limit fun modeLen terminator =>
      if terminator ≠ 0 then .ok (.invalid .invalidMode)
      else if tftpGetMode (modeLen + 1) (rest.drop ((text rest).length + 1)) = .invalid then
        .ok (.invalid .invalidMode)
      else .ok (.valid (if readU16 data 0 = Opcode.rrq then .read else .write) rest
        (tftpGetMode (modeLen + 1) (rest.drop ((text rest).length + 1))))
  rw [if_neg short, sizeSub_of_le (by omega) (by omega)]
  by_cases filled : rest.length < (text rest).length + 3
  · rw [if_pos filled, if_pos (Or.inr (by omega))]
    rfl
  rw [if_neg filled, if_neg (by omega), sizeSub_of_le (by omega) (by omega)]
  have mode_length : (rest.drop ((text rest).length + 1)).length =
      rest.length - ((text rest).length + 1) := List.length_drop
  rw [← mode_length]
  generalize rest.drop ((text rest).length + 1) = modePtr
  rw [strnlen_length, ok_bind]
  by_cases terminated : 0 ∈ modePtr
  · rw [load_text terminated, ok_bind, if_neg (by simp), tftpGetMode_eq,
      if_neg (not_not.mpr terminated)]
    rfl
  · rw [if_pos terminated, text_of_notMem terminated, load_of_le le_rfl]
    rfl

/-! ## Layouts -/

/-- A request: the opcode, a file name and a mode with their terminators, and
whatever follows. -/
structure RequestLayout (data : Bytes) (type : RequestType) (filename : Bytes) (mode : Mode) :
    Prop where
  opcode : type = .read ∧ readU16 data 0 = Opcode.rrq ∨
    type = .write ∧ readU16 data 0 = Opcode.wrq
  pointer : filename = data.drop 2
  strings : ∃ name modeText rest, name ≠ [] ∧ 0 ∉ name ∧
    filename = name ++ 0 :: (modeText ++ 0 :: rest) ∧ strcaseEq modeText mode.string
  mode : mode ≠ .invalid

/-- The packets the union has a member for, within the size of that member. -/
@[mk_iff]
inductive PacketLayout (data : Bytes) : Prop
  | request (opcode : readU16 data 0 = Opcode.rrq ∨ readU16 data 0 = Opcode.wrq)
      (fields : 4 ≤ data.length) (body : data.length ≤ 2 + rrqSize)
  | data (opcode : readU16 data 0 = Opcode.data) (fields : 4 ≤ data.length)
      (payload : data.length ≤ 4 + dataSize)
  | ack (opcode : readU16 data 0 = Opcode.ack) (fields : 4 ≤ data.length)
  | error (opcode : readU16 data 0 = Opcode.error) (fields : 5 ≤ data.length)
      (message : data.length ≤ 4 + dataSize)

/-- `tftp_decode_request` stays inside the buffer, and accepts requests only. -/
structure DecodesSoundly (data : Bytes) : Prop where
  inBounds : ∀ fault, tftpDecodeRequest data ≠ .error fault
  defined : ∀ type filename mode, tftpDecodeRequest data = .ok (.valid type filename mode) →
    RequestLayout data type filename mode

/-- `tftp_parse_packet` stays inside the buffer and inside the packet, and
accepts packets of the union only. -/
structure ParsesSoundly (order : ByteOrder) (packet : PacketMemory) (data : Bytes) : Prop where
  inBounds : ∀ fault, tftpParsePacket order packet data ≠ .error fault
  defined : ∀ packet', tftpParsePacket order packet data = .ok (true, packet') →
    PacketLayout data

/-- The requests that are decoded in bounds: too large to be looked at, not a
request, without a file name, or with room for a mode behind a file name of any
length and a terminator in that room. -/
def DecodeFits (data : Bytes) : Prop :=
  requestPacketMaxSize < data.length ∨
    2 ≤ data.length ∧
      (readU16 data 0 ≠ Opcode.rrq ∧ readU16 data 0 ≠ Opcode.wrq ∨
        text (data.drop 2) = [] ∨
        5 ≤ data.length ∧ (data.length < (text (data.drop 2)).length + 5 ∨
          0 ∈ data.drop ((text (data.drop 2)).length + 3)))

/-- The packets that are parsed in bounds. -/
def ParseFits (data : Bytes) : Prop :=
  data.length < 4 ∨
    (readU16 data 0 = Opcode.rrq ∨ readU16 data 0 = Opcode.wrq) ∧ data.length ≤ 512 ∨
    (readU16 data 0 = Opcode.data ∨ readU16 data 0 = Opcode.error) ∧ data.length ≤ 516 ∨
    readU16 data 0 = Opcode.ack

/-! ## Decoding -/

theorem parseMode_string {s : Bytes} (h : Server.parseMode s ≠ .invalid) :
    strcaseEq s (Server.parseMode s).string := by
  unfold Server.parseMode at h ⊢
  split
  next octet => exact octet
  next =>
    split
    next netascii => exact netascii
    next octet netascii =>
      rw [if_neg octet, if_neg netascii] at h
      exact absurd rfl h

theorem decodeStrings_valid {type type' : RequestType} {rest filename : Bytes} {mode : Mode}
    (h : decodeStrings type rest = .ok (.valid type' filename mode)) :
    type' = type ∧ filename = rest ∧ mode ≠ .invalid ∧ ∃ name modeText rest', name ≠ [] ∧
      0 ∉ name ∧ rest = name ++ 0 :: (modeText ++ 0 :: rest') ∧ strcaseEq modeText mode.string := by
  unfold decodeStrings at h
  dsimp only at h
  split at h
  next => cases h
  next named =>
    split at h
    next => cases h
    next =>
      split at h
      next => cases h
      next room =>
        split at h
        next => cases h
        next terminated =>
          split at h
          next => cases h
          next known =>
            cases h
            have zero : 0 ∈ rest := zero_mem_of_length_text (by omega)
            rw [not_not] at terminated
            have split : rest = text rest ++ 0 :: _ :=
              (eq_text_append zero).trans
                (congrArg (fun tail => text rest ++ 0 :: tail) (eq_text_append terminated))
            exact ⟨rfl, rfl, known, text rest, _, _, named, zero_notMem_text rest, split,
              parseMode_string known⟩

theorem decodeStrings_fault_iff {type : RequestType} {rest : Bytes} :
    (∀ fault, decodeStrings type rest ≠ .error fault) ↔
      text rest = [] ∨ 3 ≤ rest.length ∧
        (rest.length < (text rest).length + 3 ∨ 0 ∈ rest.drop ((text rest).length + 1)) := by
  unfold decodeStrings
  dsimp only
  by_cases named : text rest = []
  · simp [named]
  rw [if_neg named]
  by_cases short : rest.length < 3
  · have : ¬3 ≤ rest.length := by omega
    simp [short, named, this]
  rw [if_neg short]
  by_cases filled : rest.length < (text rest).length + 3
  · have : 3 ≤ rest.length := by omega
    simp [filled, this]
  rw [if_neg filled]
  by_cases terminated : 0 ∈ rest.drop ((text rest).length + 1)
  · have : 3 ≤ rest.length := by omega
    rw [if_neg (not_not.mpr terminated)]
    split <;> simp [terminated, this]
  · simp [terminated, named, filled]

theorem decodesSoundly_iff (data : Bytes) : DecodesSoundly data ↔ DecodeFits data := by
  by_cases large : requestPacketMaxSize < data.length
  · have rejected : tftpDecodeRequest data = .ok (.invalid .maxSizeExceeded) := by
      unfold tftpDecodeRequest
      rw [if_pos large]
      rfl
    refine iff_of_true ⟨?_, ?_⟩ (Or.inl large)
    · intro fault h
      rw [rejected] at h
      cases h
    · intro type filename mode h
      rw [rejected] at h
      cases h
  have small : data.length ≤ requestPacketMaxSize := Nat.le_of_not_lt large
  by_cases long : 2 ≤ data.length
  swap
  · have fault : tftpDecodeRequest data = .error .read := by
      unfold tftpDecodeRequest
      rw [if_neg large, loadU16_short (by omega)]
      rfl
    refine iff_of_false (fun sound => sound.inBounds _ fault) ?_
    rintro (exceeds | ⟨under, -⟩)
    · exact large exceeds
    · exact long under
  by_cases request : readU16 data 0 = Opcode.rrq ∨ readU16 data 0 = Opcode.wrq
  swap
  · have rejected : tftpDecodeRequest data = .ok (.invalid .notARequest) := by
      unfold tftpDecodeRequest
      rw [if_neg large, loadU16_eq long, ok_bind, if_pos (by tauto)]
      rfl
    refine iff_of_true ⟨?_, ?_⟩ (Or.inr ⟨long, Or.inl (by tauto)⟩)
    · intro fault h
      rw [rejected] at h
      cases h
    · intro type filename mode h
      rw [rejected] at h
      cases h
  have value := decode_eq small long request
  have rest_length : (data.drop 2).length = data.length - 2 := List.length_drop
  constructor
  · intro sound
    have strings := decodeStrings_fault_iff.mp fun fault h =>
      sound.inBounds fault (value.trans h)
    rw [List.drop_drop, rest_length] at strings
    refine Or.inr ⟨long, Or.inr ?_⟩
    rcases strings with none_ | ⟨room, filled | terminated⟩
    · exact Or.inl none_
    · exact Or.inr ⟨by omega, Or.inl (by omega)⟩
    · refine Or.inr ⟨by omega, Or.inr ?_⟩
      rwa [show (text (data.drop 2)).length + 3 = 2 + ((text (data.drop 2)).length + 1) by omega]
  · intro fits
    refine ⟨?_, ?_⟩
    · intro fault h
      refine decodeStrings_fault_iff.mpr ?_ fault (value.symm.trans h)
      rw [List.drop_drop, rest_length]
      rcases fits with exceeds | ⟨-, other | none_ | ⟨room, filled | terminated⟩⟩
      · exact absurd exceeds large
      · tauto
      · exact Or.inl none_
      · exact Or.inr ⟨by omega, Or.inl (by omega)⟩
      · refine Or.inr ⟨by omega, Or.inr ?_⟩
        rwa [show 2 + ((text (data.drop 2)).length + 1) =
          (text (data.drop 2)).length + 3 by omega]
    · intro type filename mode h
      obtain ⟨rfl, rfl, known, strings⟩ := decodeStrings_valid (value.symm.trans h)
      refine ⟨?_, rfl, strings, known⟩
      rcases request with rrq | wrq
      · exact Or.inl ⟨if_pos rrq, rrq⟩
      · refine Or.inr ⟨if_neg ?_, wrq⟩
        rw [wrq]
        decide

/-! ## Parsing -/

section

variable {order : ByteOrder} {packet : PacketMemory} {data : Bytes}

theorem parse_short (short : data.length < 4) :
    tftpParsePacket order packet data = .ok (false, packet) := by
  unfold tftpParsePacket
  rw [if_pos short]
  rfl

theorem parse_bare_error (bare : data.length = 4) (op : readU16 data 0 = Opcode.error) :
    tftpParsePacket order packet data = .ok (false, packet) := by
  unfold tftpParsePacket
  rw [if_neg (by omega), loadU16_eq (by omega), ok_bind, op]
  dsimp only
  rw [if_neg (by decide), if_neg (by decide), if_neg (by decide), if_neg (by decide),
    if_pos rfl, if_pos (by omega)]
  rfl

theorem store_field (packet : PacketMemory) (order : ByteOrder) (n : UInt16) {offset : ℕ}
    (h : offset ≤ dataSize) : ∃ packet', packet.store offset (order.bytes n) = .ok packet' := by
  refine Object.store_of_le ?_
  rw [ByteOrder.length_bytes]
  have : dataSize = 512 := rfl
  have : packetSize = 516 := rfl
  omega

theorem parse_request (long : 4 ≤ data.length)
    (op : readU16 data 0 = Opcode.rrq ∨ readU16 data 0 = Opcode.wrq) :
    ∃ first : PacketMemory, packet.store 0 (order.bytes (readU16 data 0)) = .ok first ∧
      tftpParsePacket order packet data =
        (first.store 2 (data.drop 2) >>= fun packet' => .ok (true, packet')) := by
  obtain ⟨first, stored⟩ := store_field packet order (readU16 data 0) (Nat.zero_le _)
  refine ⟨first, stored, ?_⟩
  unfold tftpParsePacket
  rw [if_neg (by omega), loadU16_eq (by omega), ok_bind]
  dsimp only
  rcases op with rrq | wrq
  · rw [if_pos rrq, stored]
    rfl
  · rw [if_neg (by rw [wrq]; decide), if_pos wrq, stored]
    rfl

theorem parse_numbered (long : 4 ≤ data.length)
    (op : readU16 data 0 = Opcode.data ∨ readU16 data 0 = Opcode.error ∧ 5 ≤ data.length) :
    ∃ first second : PacketMemory,
      packet.store 0 (order.bytes (readU16 data 0)) = .ok first ∧
      first.store 2 (order.bytes (readU16 (data.drop 2) 0)) = .ok second ∧
      tftpParsePacket order packet data =
        (second.store 4 (data.drop 4) >>= fun packet' => .ok (true, packet')) := by
  obtain ⟨first, stored⟩ := store_field packet order (readU16 data 0) (Nat.zero_le _)
  obtain ⟨second, stored'⟩ := store_field first order (readU16 (data.drop 2) 0)
    (show 2 ≤ dataSize by decide)
  have rest_length : (data.drop 2).length = data.length - 2 := List.length_drop
  refine ⟨first, second, stored, stored', ?_⟩
  unfold tftpParsePacket
  rw [if_neg (by omega), loadU16_eq (by omega), ok_bind]
  dsimp only
  rcases op with op | ⟨op, message⟩
  · rw [if_neg (by rw [op]; decide), if_neg (by rw [op]; decide), if_pos op, stored, ok_bind,
      loadU16_eq (by omega), ok_bind, stored', ok_bind, List.drop_drop]
    rfl
  · rw [if_neg (by rw [op]; decide), if_neg (by rw [op]; decide), if_neg (by rw [op]; decide),
      if_neg (by rw [op]; decide), if_pos op, if_neg (by omega), stored, ok_bind,
      loadU16_eq (by omega), ok_bind, stored', ok_bind, List.drop_drop]
    rfl

theorem parse_ack (long : 4 ≤ data.length) (op : readU16 data 0 = Opcode.ack) :
    ∃ first second : PacketMemory,
      packet.store 0 (order.bytes Opcode.ack) = .ok first ∧
      first.store 2 (order.bytes (readU16 (data.drop 2) 0)) = .ok second ∧
      tftpParsePacket order packet data = .ok (true, second) := by
  obtain ⟨first, stored⟩ := store_field packet order Opcode.ack (Nat.zero_le _)
  obtain ⟨second, stored'⟩ := store_field first order (readU16 (data.drop 2) 0)
    (show 2 ≤ dataSize by decide)
  have rest_length : (data.drop 2).length = data.length - 2 := List.length_drop
  refine ⟨first, second, stored, stored', ?_⟩
  unfold tftpParsePacket
  rw [if_neg (by omega), loadU16_eq (by omega), ok_bind]
  dsimp only
  rw [if_neg (by rw [op]; decide), if_neg (by rw [op]; decide), if_neg (by rw [op]; decide),
    if_pos op, op, stored, ok_bind, loadU16_eq (by omega), ok_bind, stored']
  rfl

theorem parse_other (long : 4 ≤ data.length)
    (op : readU16 data 0 ≠ Opcode.rrq ∧ readU16 data 0 ≠ Opcode.wrq ∧
      readU16 data 0 ≠ Opcode.data ∧ readU16 data 0 ≠ Opcode.ack ∧
      readU16 data 0 ≠ Opcode.error) :
    tftpParsePacket order packet data = .ok (true, packet) := by
  obtain ⟨rrq, wrq, data_, ack, error⟩ := op
  unfold tftpParsePacket
  rw [if_neg (by omega), loadU16_eq (by omega), ok_bind]
  dsimp only
  rw [if_neg rrq, if_neg wrq, if_neg data_, if_neg ack, if_neg error]
  rfl

theorem parsesSoundly_of_rejects
    (value : tftpParsePacket order packet data = .ok (false, packet)) :
    ParsesSoundly order packet data := by
  constructor
  · intro fault h
    rw [value] at h
    cases h
  · intro packet' h
    rw [value] at h
    cases h

theorem parsesSoundly_iff_of_accepts {packet' : PacketMemory}
    (value : tftpParsePacket order packet data = .ok (true, packet')) :
    ParsesSoundly order packet data ↔ PacketLayout data := by
  constructor
  · intro sound
    exact sound.defined packet' value
  · intro layout
    refine ⟨fun fault h => ?_, fun _ _ => layout⟩
    rw [value] at h
    cases h

/-- A packet that ends with a copy of the rest of the buffer. -/
theorem parsesSoundly_iff_of_store {packet' : PacketMemory} {offset : ℕ} {source : Bytes}
    (value : tftpParsePacket order packet data =
      (packet'.store offset source >>= fun packet'' => .ok (true, packet''))) :
    ParsesSoundly order packet data ↔
      offset + source.length ≤ packetSize ∧ PacketLayout data := by
  by_cases fits : offset + source.length ≤ packetSize
  · obtain ⟨packet'', stored⟩ := packet'.store_of_le fits
    rw [stored, ok_bind] at value
    rw [parsesSoundly_iff_of_accepts value]
    tauto
  · rw [Object.store_of_lt (by omega), error_bind] at value
    refine iff_of_false (fun sound => sound.inBounds _ value) ?_
    tauto

end

theorem parsesSoundly_iff (order : ByteOrder) (packet : PacketMemory) (data : Bytes) :
    ParsesSoundly order packet data ↔ ParseFits data := by
  by_cases short : data.length < 4
  · exact iff_of_true (parsesSoundly_of_rejects (parse_short short)) (Or.inl short)
  have long : 4 ≤ data.length := Nat.le_of_not_lt short
  have rest_length (n : ℕ) : (data.drop n).length = data.length - n := List.length_drop
  have sizes : packetSize = 516 ∧ rrqSize = 510 ∧ dataSize = 512 := ⟨rfl, rfl, rfl⟩
  have distinct : Opcode.rrq = 1 ∧ Opcode.wrq = 2 ∧ Opcode.data = 3 ∧ Opcode.ack = 4 ∧
    Opcode.error = 5 := ⟨rfl, rfl, rfl, rfl, rfl⟩
  obtain ⟨rrq_, wrq_, data_, ack_, error_⟩ := distinct
  by_cases request : readU16 data 0 = Opcode.rrq ∨ readU16 data 0 = Opcode.wrq
  · obtain ⟨first, -, value⟩ := @parse_request order packet data long request
    rw [parsesSoundly_iff_of_store value, packetLayout_iff, rest_length, ParseFits]
    rcases request with op | op
    · simp [op, rrq_, wrq_, data_, ack_, error_]
      omega
    · simp [op, rrq_, wrq_, data_, ack_, error_]
      omega
  by_cases isData : readU16 data 0 = Opcode.data
  · obtain ⟨first, second, -, -, value⟩ := @parse_numbered order packet data long (Or.inl isData)
    rw [parsesSoundly_iff_of_store value, packetLayout_iff, rest_length, ParseFits]
    simp [isData, rrq_, wrq_, data_, ack_, error_]
    omega
  by_cases isAck : readU16 data 0 = Opcode.ack
  · obtain ⟨first, second, -, -, value⟩ := @parse_ack order packet data long isAck
    rw [parsesSoundly_iff_of_accepts value, packetLayout_iff, ParseFits]
    simp [isAck, rrq_, wrq_, data_, ack_, error_]
    omega
  by_cases isError : readU16 data 0 = Opcode.error
  · by_cases bare : data.length = 4
    · refine iff_of_true (parsesSoundly_of_rejects (parse_bare_error bare isError)) ?_
      exact Or.inr (Or.inr (Or.inl ⟨Or.inr isError, by omega⟩))
    obtain ⟨first, second, -, -, value⟩ :=
      @parse_numbered order packet data long (Or.inr ⟨isError, by omega⟩)
    rw [parsesSoundly_iff_of_store value, packetLayout_iff, rest_length, ParseFits]
    simp [isError, rrq_, wrq_, data_, ack_, error_]
    omega
  · have value := @parse_other order packet data long (by tauto)
    rw [parsesSoundly_iff_of_accepts value, packetLayout_iff, ParseFits]
    simp [isAck, isError, isData, not_or.mp request]
    omega

/-! ## Round trips -/

theorem encodeRequest_eq {packet packet' : PacketMemory} {ty : RequestType} {filename : Bytes}
    {mode : Mode} {size : ℕ}
    (h : tftpEncodeRequest packet ty filename mode = .ok (.ok (packet', size))) :
    mode ≠ .invalid ∧ size ≤ requestPacketMaxSize ∧
      packet'.val.take size = bytes16 (if ty = .read then Opcode.rrq else Opcode.wrq) ++
        (text filename ++ 0 :: (mode.string ++ 0 :: [])) := by
  unfold tftpEncodeRequest at h
  split at h
  next => cases h
  next known =>
    rw [strnlen_length, ok_bind] at h
    dsimp only at h
    split at h
    next => cases h
    next fits =>
      have sizes : requestPacketMaxSize = 512 ∧ rrqSize = 510 ∧ packetSize = 516 :=
        ⟨rfl, rfl, rfl⟩
      have limit := length_text_le filename
      have zero : 0 ∈ filename := zero_mem_of_length_text (by omega)
      rw [take_text_add_one zero] at h
      obtain ⟨first, opcode, h⟩ := bind_eq_ok h
      obtain ⟨second, name, h⟩ := bind_eq_ok h
      obtain ⟨third, mode_, h⟩ := bind_eq_ok h
      cases h
      have opcode_length (n : UInt16) : (bytes16 n).length = 2 := rfl
      have name_length : (text filename ++ [0]).length = (text filename).length + 1 :=
        List.length_append
      have mode_length : (mode.string ++ [0]).length = mode.string.length + 1 :=
        List.length_append
      have front := Object.take_store_add opcode
      have middle := Object.take_store_add name
      have all := Object.take_store_add mode_
      rw [List.take_zero, List.nil_append, opcode_length, Nat.zero_add] at front
      rw [front, name_length] at middle
      rw [middle, mode_length] at all
      refine ⟨?_, by omega, ?_⟩
      · intro invalid
        rw [invalid] at known
        exact known ⟨by decide, by decide⟩
      · rw [all, List.append_assoc, List.append_assoc]
        rfl

/-- `tftp_decode_request` reads back what `tftp_encode_request` has made, with
a type that is one of a request. -/
theorem decode_encodeRequest {packet packet' : PacketMemory} {ty : RequestType} {filename : Bytes}
    {mode : Mode} {size : ℕ}
    (h : tftpEncodeRequest packet ty filename mode = .ok (.ok (packet', size)))
    (named : text filename ≠ []) :
    ∃ pointer, tftpDecodeRequest (packet'.val.take size) =
        .ok (.valid (if ty = .read then .read else .write) pointer mode) ∧
      text pointer = text filename := by
  obtain ⟨known, fits, bytes⟩ := encodeRequest_eq h
  have small : (packet'.val.take size).length ≤ requestPacketMaxSize :=
    (List.length_take_le _ _).trans fits
  have op (n : UInt16) (rest : Bytes) : readU16 (bytes16 n ++ rest) 0 = n := readU16_bytes16 n rest
  have body (n : UInt16) (rest : Bytes) : (bytes16 n ++ rest).drop 2 = rest := rfl
  have zero_mode : 0 ∉ mode.string := by cases mode <;> decide
  have mode_length : 5 ≤ mode.string.length := by cases mode <;> decide
  have parsed : Server.parseMode mode.string = mode := by
    cases mode with
    | octet => decide
    | netascii => decide
    | invalid => exact absurd rfl known
  have name : text (text filename ++ 0 :: (mode.string ++ [0])) = text filename :=
    text_append (zero_notMem_text filename) _
  refine ⟨text filename ++ 0 :: (mode.string ++ [0]), ?_, name⟩
  rw [bytes] at small ⊢
  rw [decode_eq small (by simp [bytes16]) (by rw [op]; split <;> simp), op, body]
  have type : (if (if ty = .read then Opcode.rrq else Opcode.wrq) = Opcode.rrq then
      RequestType.read else .write) = if ty = .read then .read else .write := by
    split <;> rfl
  have rest_length : (text filename ++ 0 :: (mode.string ++ [0])).length =
      (text filename).length + mode.string.length + 2 := by
    simp only [List.length_append, List.length_cons, List.length_nil]
    omega
  have modePtr : (text filename ++ 0 :: (mode.string ++ [0])).drop ((text filename).length + 1) =
      mode.string ++ [0] := by
    rw [List.drop_append, List.drop_eq_nil_of_le (Nat.le_succ _), Nat.add_sub_cancel_left]
    rfl
  have mode_text : text (mode.string ++ [0]) = mode.string := text_append zero_mode []
  unfold decodeStrings
  dsimp only
  rw [name, modePtr, mode_text, parsed, type, if_neg named, rest_length, if_neg (by omega),
    if_neg (by omega), if_neg (by simp), if_neg known]

theorem encodeData_eq {blockNumber : UInt16} {data : Bytes} (fits : data.length ≤ dataSize) :
    ∃ packet, tftpEncodeData blockNumber data = .ok (packet, 4 + data.length) ∧
      packet.val.take (4 + data.length) = bytes16 Opcode.data ++ bytes16 blockNumber ++ data := by
  have sizes : packetSize = 516 ∧ dataSize = 512 := ⟨rfl, rfl⟩
  have two (n : UInt16) : (bytes16 n).length = 2 := rfl
  obtain ⟨first, opcode⟩ := @Object.store_of_le _ _ zeroed 0 (bytes16 Opcode.data)
    (by rw [two]; omega)
  obtain ⟨second, number⟩ := @Object.store_of_le _ _ first 2 (bytes16 blockNumber)
    (by rw [two]; omega)
  obtain ⟨third, payload⟩ := @Object.store_of_le _ _ second 4 data (by omega)
  refine ⟨third, ?_, ?_⟩
  · rw [tftpEncodeData, opcode, ok_bind, number, ok_bind, payload]
    rfl
  · rw [Object.take_store_add payload]
    exact congrArg (· ++ data) (Object.take_store_store opcode number)

theorem encodeAck_eq (blockNumber : UInt16) :
    ∃ packet, tftpEncodeAck blockNumber = .ok packet ∧
      packet.val.take 4 = bytes16 Opcode.ack ++ bytes16 blockNumber := by
  have sizes : packetSize = 516 := rfl
  have two (n : UInt16) : (bytes16 n).length = 2 := rfl
  obtain ⟨first, opcode⟩ := @Object.store_of_le _ _ zeroed 0 (bytes16 Opcode.ack)
    (by rw [two]; omega)
  obtain ⟨second, number⟩ := @Object.store_of_le _ _ first 2 (bytes16 blockNumber)
    (by rw [two]; omega)
  refine ⟨second, ?_, ?_⟩
  · rw [tftpEncodeAck, opcode, ok_bind, number]
  · exact Object.take_store_store opcode number

/-- The two fields every packet but a request starts with. -/
theorem fields_of_take {order : ByteOrder} {packet : PacketMemory} {op n : UInt16}
    (h : packet.val.take 4 = order.bytes op ++ order.bytes n) :
    opcode order packet = op ∧ blockNumber order packet = n := by
  have split : packet.val = order.bytes op ++ (order.bytes n ++ packet.val.drop 4) := by
    rw [← List.append_assoc, ← h, List.take_append_drop]
  constructor
  · rw [opcode, Object.suffix, List.drop_zero, split, ByteOrder.value_bytes]
  · rw [blockNumber, Object.suffix, split, List.drop_left' (order.length_bytes op),
      ByteOrder.value_bytes]

theorem take_fields {order : ByteOrder} {packet first second : PacketMemory} {op n : UInt16}
    (stored : packet.store 0 (order.bytes op) = .ok first)
    (stored' : first.store 2 (order.bytes n) = .ok second) :
    second.val.take 4 = order.bytes op ++ order.bytes n := by
  have first_length : (order.bytes op).length = 2 := order.length_bytes op
  have both := @Object.take_store_store _ _ _ _ (order.bytes op) second (order.bytes n) stored
    (by rw [first_length]; exact stored')
  rwa [order.length_bytes, order.length_bytes] at both

/-- `tftp_parse_packet` reads back what `tftp_encode_data` has made. -/
theorem parse_encodeData {order : ByteOrder} {packet encoded : PacketMemory} {n : UInt16}
    {data : Bytes} {size : ℕ} (fits : data.length ≤ dataSize)
    (h : tftpEncodeData n data = .ok (encoded, size)) :
    ∃ parsed, tftpParsePacket order packet (encoded.val.take size) = .ok (true, parsed) ∧
      opcode order parsed = Opcode.data ∧ blockNumber order parsed = n ∧
      (payload parsed).take (size - 4) = data := by
  obtain ⟨encoded', value, bytes⟩ := @encodeData_eq n data fits
  rw [h] at value
  cases value
  rw [bytes]
  have op : readU16 (bytes16 Opcode.data ++ bytes16 n ++ data) 0 = Opcode.data :=
    readU16_bytes16 _ (bytes16 n ++ data)
  have number : readU16 ((bytes16 Opcode.data ++ bytes16 n ++ data).drop 2) 0 = n :=
    readU16_bytes16 n data
  have long : 4 ≤ (bytes16 Opcode.data ++ bytes16 n ++ data).length := by
    simp [bytes16]
  obtain ⟨first, second, stored, stored', parse⟩ :=
    @parse_numbered order packet _ long (Or.inl op)
  rw [op] at stored
  rw [number] at stored'
  have sizes : packetSize = 516 ∧ dataSize = 512 := ⟨rfl, rfl⟩
  obtain ⟨third, copied⟩ := @Object.store_of_le _ _ second 4 data (by omega)
  have fields : third.val.take 4 = order.bytes Opcode.data ++ order.bytes n := by
    rw [Object.take_store copied, take_fields stored stored']
  obtain ⟨opcode_, number_⟩ := fields_of_take fields
  refine ⟨third, ?_, opcode_, number_, ?_⟩
  · rw [parse]
    exact congrArg (· >>= fun packet' => .ok (true, packet')) copied
  · rw [payload, Object.suffix_store copied, Nat.add_sub_cancel_left, List.take_left]

/-- The same of `tftp_encode_ack`, which does not say how much of the packet is
sent. -/
theorem parse_encodeAck {order : ByteOrder} {packet encoded : PacketMemory} {n : UInt16} {size : ℕ}
    (sent : 4 ≤ size) (h : tftpEncodeAck n = .ok encoded) :
    ∃ parsed, tftpParsePacket order packet (encoded.val.take size) = .ok (true, parsed) ∧
      opcode order parsed = Opcode.ack ∧ blockNumber order parsed = n := by
  obtain ⟨encoded', value, bytes⟩ := encodeAck_eq n
  rw [h] at value
  cases value
  have split : encoded.val.take size =
      bytes16 Opcode.ack ++ (bytes16 n ++ (encoded.val.take size).drop 4) := by
    have front : (encoded.val.take size).take 4 = bytes16 Opcode.ack ++ bytes16 n := by
      rw [List.take_take, min_eq_left sent, bytes]
    rw [← List.append_assoc, ← front, List.take_append_drop]
  generalize (encoded.val.take size).drop 4 = trailing at split
  rw [split]
  have op : readU16 (bytes16 Opcode.ack ++ (bytes16 n ++ trailing)) 0 = Opcode.ack :=
    readU16_bytes16 _ _
  have number : readU16 ((bytes16 Opcode.ack ++ (bytes16 n ++ trailing)).drop 2) 0 = n :=
    readU16_bytes16 n trailing
  have long : 4 ≤ (bytes16 Opcode.ack ++ (bytes16 n ++ trailing)).length := by
    simp [bytes16]
  obtain ⟨first, second, stored, stored', parse⟩ := @parse_ack order packet _ long op
  rw [number] at stored'
  obtain ⟨opcode_, number_⟩ := fields_of_take (take_fields stored stored')
  exact ⟨second, parse, opcode_, number_⟩

/-! ## The codec -/

/-- Where the decoders keep to the buffer, the packet and the layouts they
know, and what they give back of what the encoders make. -/
theorem codec_iff (order : ByteOrder) (packet : PacketMemory) (data : Bytes) (n : UInt16) :
    (DecodesSoundly data ↔ DecodeFits data) ∧
    (ParsesSoundly order packet data ↔ ParseFits data) ∧
    (∀ ty filename mode packet' size,
      tftpEncodeRequest packet ty filename mode = .ok (.ok (packet', size)) →
      text filename ≠ [] →
      ((∃ pointer, tftpDecodeRequest (packet'.val.take size) = .ok (.valid ty pointer mode) ∧
        text pointer = text filename) ↔ ty ≠ .invalid)) ∧
    (data.length ≤ dataSize →
      ∃ encoded size, tftpEncodeData n data = .ok (encoded, size) ∧
      ∃ parsed,
        tftpParsePacket order packet (encoded.val.take size) = .ok (true, parsed) ∧
        opcode order parsed = Opcode.data ∧ blockNumber order parsed = n ∧
        (payload parsed).take (size - 4) = data) ∧
    (∃ encoded, tftpEncodeAck n = .ok encoded ∧
      ∀ size, 4 ≤ size → ∃ parsed,
        tftpParsePacket order packet (encoded.val.take size) = .ok (true, parsed) ∧
        opcode order parsed = Opcode.ack ∧ blockNumber order parsed = n) := by
  refine ⟨decodesSoundly_iff data, parsesSoundly_iff order packet data, ?_, ?_, ?_⟩
  · intro ty filename mode packet' size encoded named
    obtain ⟨pointer, decoded, name⟩ := decode_encodeRequest encoded named
    rw [decoded]
    constructor
    · rintro ⟨pointer', same, -⟩ invalid
      subst invalid
      cases same
    · intro valid
      refine ⟨pointer, ?_, name⟩
      cases ty with
      | read => rfl
      | write => rfl
      | invalid => exact absurd rfl valid
  · intro fits
    obtain ⟨encoded, value, -⟩ := @encodeData_eq n data fits
    exact ⟨encoded, _, value, parse_encodeData fits value⟩
  · obtain ⟨encoded, value, -⟩ := encodeAck_eq n
    exact ⟨encoded, value, fun size sent => parse_encodeAck sent value⟩

/-- A read request for a file of one letter, there and back. -/
theorem one_letter_read_back :
    ∃ packet size, tftpEncodeRequest zeroed .read [97, 0] .octet = .ok (.ok (packet, size)) ∧
      ∃ pointer, tftpDecodeRequest (packet.val.take size) = .ok (.valid .read pointer .octet) ∧
        text pointer = [97] := by
  have encoded : ∃ produced : PacketMemory × ℕ,
      tftpEncodeRequest zeroed .read [97, 0] .octet = .ok (.ok produced) := ⟨_, rfl⟩
  obtain ⟨⟨packet, size⟩, h⟩ := encoded
  exact ⟨packet, size, h,
    ((codec_iff .littleEndian zeroed [] 0).2.2.1 _ _ _ _ _ h (by decide)).mpr (by decide)⟩

/-- A request of four bytes makes the decoder read a fifth, and an OACK passes
for a packet that has been parsed. -/
theorem short_request_overruns :
    ¬((∀ data, DecodesSoundly data) ∧ ∀ order packet data, ParsesSoundly order packet data) ∧
      tftpDecodeRequest [0, 1, 97, 0] = .error .read ∧
      ¬ParsesSoundly .littleEndian zeroed [0, 6, 0, 0] := by
  have overrun : tftpDecodeRequest [0, 1, 97, 0] = .error .read := by decide +kernel
  have undefined_ : ¬ParsesSoundly .littleEndian zeroed [0, 6, 0, 0] := by
    rw [parsesSoundly_iff]
    unfold ParseFits
    decide
  refine ⟨?_, overrun, undefined_⟩
  intro sound
  exact (sound.1 _).inBounds _ overrun

end Tftp.Codec
