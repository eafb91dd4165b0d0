import Mathlib.Data.Nat.ModEq
import Mathlib.Data.List.Basic

/-!
# Packets and addresses

The on-the-wire vocabulary shared by client and server: opcodes, error codes,
the packets each side builds and the bytes they put on the wire, and the
socket addresses that identify a peer.
-/

namespace Tftp

abbrev Bytes := List UInt8

/-- The bytes of an ASCII literal. -/
def ascii (s : String) : Bytes := s.toList.map fun c => c.toNat.toUInt8

/-- `tftp_default_blksize` -/
def defaultBlksize : UInt16 := 512

/-- `tftp_default_window_size` -/
def defaultWindowSize : UInt16 := 1

/-- `tftp_request_packet_max_size` -/
def requestPacketMaxSize : ℕ := 512

inductive Mode where
  | octet
  | netascii
  | invalid
deriving DecidableEq, Repr

/-! ## Sixteen-bit fields in network order -/

/-- `ntohs` of two consecutive bytes. -/
def be16 (hi lo : UInt8) : UInt16 := hi.toUInt16 * 256 + lo.toUInt16

/-- The two bytes `htons` puts in memory. -/
def bytes16 (n : UInt16) : Bytes := [(n / 256).toUInt8, n.toUInt8]

theorem be16_bytes16 (n : UInt16) : be16 (n / 256).toUInt8 n.toUInt8 = n := by
  rw [← UInt16.toNat_inj]
  have h256 : (256 : UInt16).toNat = 256 := rfl
  simp only [be16, UInt16.toNat_add, UInt16.toNat_mul, UInt8.toNat_toUInt16,
    UInt16.toNat_toUInt8, UInt16.toNat_div, h256]
  have hn := n.toNat_lt
  omega

/-- The field at offset `i` of a buffer. -/
def readU16 (buffer : Bytes) (i : ℕ) : UInt16 := be16 (buffer.getD i 0) (buffer.getD (i + 1) 0)

/-! ## Opcodes and error codes -/

namespace Opcode

def rrq : UInt16 := 1
def wrq : UInt16 := 2
def data : UInt16 := 3
def ack : UInt16 := 4
def error : UInt16 := 5
def oack : UInt16 := 6

end Opcode

namespace ErrorCode

def notDefined : UInt16 := 0
def fileNotFound : UInt16 := 1
def accessViolation : UInt16 := 2
def diskFull : UInt16 := 3
def illegalOperation : UInt16 := 4
def unknownTransferId : UInt16 := 5
def invalidOptions : UInt16 := 8

end ErrorCode

/-! ## Packets -/

/-- The packets the two sides exchange after the request. -/
inductive Packet where
  | data (blockNumber : UInt16) (payload : Bytes)
  | ack (blockNumber : UInt16)
  | oack (optionsValues : Bytes)
  | error (errorCode : UInt16) (errorMessage : Bytes)
deriving DecidableEq, Repr

/-- What `sendto` puts on the wire. An ERROR message is sent with its
terminator. -/
def Packet.bytes : Packet → Bytes
  | .data n payload => bytes16 Opcode.data ++ bytes16 n ++ payload
  | .ack n => bytes16 Opcode.ack ++ bytes16 n
  | .oack values => bytes16 Opcode.oack ++ values
  | .error code message => bytes16 Opcode.error ++ bytes16 code ++ message ++ [0]

/-- Both parties read packets through these two fields. -/
theorem readU16_bytes16 (n : UInt16) (rest : Bytes) : readU16 (bytes16 n ++ rest) 0 = n :=
  be16_bytes16 n

@[simp] theorem opcode_data (n : UInt16) (payload : Bytes) :
    readU16 (Packet.data n payload).bytes 0 = Opcode.data := readU16_bytes16 _ _

@[simp] theorem opcode_ack (n : UInt16) : readU16 (Packet.ack n).bytes 0 = Opcode.ack :=
  readU16_bytes16 _ _

@[simp] theorem opcode_oack (values : Bytes) :
    readU16 (Packet.oack values).bytes 0 = Opcode.oack := readU16_bytes16 _ _

@[simp] theorem opcode_error (code : UInt16) (message : Bytes) :
    readU16 (Packet.error code message).bytes 0 = Opcode.error := by
  simp only [Packet.bytes, List.append_assoc]
  exact readU16_bytes16 _ _

@[simp] theorem blockNumber_data (n : UInt16) (payload : Bytes) :
    readU16 (Packet.data n payload).bytes 2 = n := be16_bytes16 n

@[simp] theorem blockNumber_ack (n : UInt16) : readU16 (Packet.ack n).bytes 2 = n :=
  be16_bytes16 n

@[simp] theorem length_data (n : UInt16) (payload : Bytes) :
    (Packet.data n payload).bytes.length = payload.length + 4 := by
  simp [Packet.bytes, bytes16]

@[simp] theorem length_ack (n : UInt16) : (Packet.ack n).bytes.length = 4 := rfl

@[simp] theorem payload_data (n : UInt16) (payload : Bytes) :
    (Packet.data n payload).bytes.drop 4 = payload := rfl

/-! ## Addresses -/

/-- A socket address; an address of another family has no comparable part. -/
inductive Address where
  | inet (addr : UInt32) (port : UInt16)
  | inet6 (addr : Vector UInt8 16) (port : UInt16) (scopeId : UInt32)
  | other (family : UInt16)
deriving DecidableEq, Repr

def Address.isInet : Address → Bool
  | .other _ => false
  | _ => true

def sockaddrEquals : Address → Address → Bool
  | .inet a p, .inet b q => p == q && a == b
  | .inet6 a p s, .inet6 b q t => p == q && a == b && s == t
  | _, _ => false

theorem sockaddrEquals_iff {a b : Address} : sockaddrEquals a b = true ↔ a = b ∧ a.isInet := by
  cases a <;> cases b <;> simp [sockaddrEquals, Address.isInet] <;> tauto

/-- A received datagram: its sender and the bytes the kernel copied. -/
structure Datagram where
  sender : Address
  bytes : Bytes
deriving DecidableEq, Repr

end Tftp
