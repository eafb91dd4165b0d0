import Tftp.Wire

/-!
# Option strings

`tftp_parse_options` and the C library functions it is built on. Option
strings stay in the buffer they arrived in: a recorded value is a position in
that buffer, so that a later write into the buffer changes the value, as it
does in the source.
-/

namespace Tftp

/-! ## C strings and numbers -/

/-- The C string that starts at `p`; memory past the end reads as zero. -/
def cstr (memory : Bytes) (p : ℕ) : Bytes := (memory.drop p).takeWhile (· != 0)

/-- Overwrite memory from `p` on. -/
def poke (memory : Bytes) (p : ℕ) (bytes : Bytes) : Bytes :=
  memory.take p ++ bytes ++ memory.drop (p + bytes.length)

def toLower (b : UInt8) : UInt8 := if 65 ≤ b ∧ b ≤ 90 then b + 32 else b

/-- `strcasecmp(a, b) == 0` -/
def strcaseEq (a b : Bytes) : Bool := a.map toLower == b.map toLower

def isSpace (b : UInt8) : Bool := b == 32 || (9 ≤ b && b ≤ 13)

def isDigit (b : UInt8) : Bool := 48 ≤ b && b ≤ 57

def decimal (digits : Bytes) : ℕ := digits.foldl (fun n d => 10 * n + (d.toNat - 48)) 0

/-- `sprintf("%zu", n)` -/
def formatNat (n : ℕ) : Bytes := (Nat.toDigits 10 n).map fun c => c.toNat.toUInt8

/-- What `strtoul` reports: the value, the text it did not parse, and whether
it set `errno` to `ERANGE`. -/
structure Parsed where
  value : ℕ
  notParsed : Bytes
  outOfRange : Bool
deriving DecidableEq, Repr

/-- `strtoul(s, &not_parsed, 10)`, also `strtoull`: both are 64 bits wide. -/
def strtoul (s : Bytes) : Parsed :=
  let t := s.dropWhile isSpace
  let negative := t.head? == some 45
  let u := if negative || t.head? == some 43 then t.tail else t
  let digits := u.takeWhile isDigit
  let n := decimal digits
  if digits = [] then ⟨0, s, false⟩
  else if 2 ^ 64 ≤ n then ⟨2 ^ 64 - 1, u.dropWhile isDigit, true⟩
  else ⟨if negative then (2 ^ 64 - n) % 2 ^ 64 else n, u.dropWhile isDigit, false⟩

/-! ## Recognized options -/

/-- `enum tftp_option_recognized` -/
inductive OptionKind where
  | blksize
  | timeout
  | tsize
  | windowsize
  | readType
deriving DecidableEq, Repr

namespace OptionKind

/-- The order in which the source runs over the enumeration. -/
def all : List OptionKind := [blksize, timeout, tsize, windowsize, readType]

/-- `tftp_option_recognized_string` -/
def string : OptionKind → Bytes
  | blksize => ascii "blksize"
  | timeout => ascii "timeout"
  | tsize => ascii "tsize"
  | windowsize => ascii "windowsize"
  | readType => ascii "type"

end OptionKind

/-- The `value` pointer of an active option: into the option string itself, or
to memory of its own. -/
inductive OptionValue where
  | inPlace (offset : ℕ)
  | separate (text : Bytes)
deriving DecidableEq, Repr

def OptionValue.text (memory : Bytes) : OptionValue → Bytes
  | .inPlace offset => cstr memory offset
  | .separate text => text

/-- `struct tftp_option options[TFTP_OPTION_TOTAL_OPTIONS]`; an inactive
option has no value. -/
structure OptionTable where
  blksize : Option OptionValue := none
  timeout : Option OptionValue := none
  tsize : Option OptionValue := none
  windowsize : Option OptionValue := none
  readType : Option OptionValue := none
deriving DecidableEq, Repr

namespace OptionTable

def get (t : OptionTable) : OptionKind → Option OptionValue
  | .blksize => t.blksize
  | .timeout => t.timeout
  | .tsize => t.tsize
  | .windowsize => t.windowsize
  | .readType => t.readType

def set (t : OptionTable) (o : OptionKind) (v : Option OptionValue) : OptionTable :=
  match o with
  | .blksize => { t with blksize := v }
  | .timeout => { t with timeout := v }
  | .tsize => { t with tsize := v }
  | .windowsize => { t with windowsize := v }
  | .readType => { t with readType := v }

def isActive (t : OptionTable) (o : OptionKind) : Bool := (t.get o).isSome

def anyActive (t : OptionTable) : Bool := OptionKind.all.any t.isActive

end OptionTable

/-- The value `tftp_parse_options` records for option `o` whose text starts at
`val`, if it accepts that text. A numeric value starts after the white space
and plus signs. -/
def optionValue (memory : Bytes) (o : OptionKind) (val : ℕ) : Option OptionValue :=
  let text := cstr memory val
  let number := strtoul text
  let stripped := val + (text.takeWhile fun b => isSpace b || b == 43).length
  let wellFormed := text ≠ [] ∧ number.notParsed = []
  match o with
  | .blksize =>
      if wellFormed ∧ 8 ≤ number.value ∧ number.value ≤ 65464 then some (.inPlace stripped)
      else none
  | .timeout =>
      if wellFormed ∧ 1 ≤ number.value ∧ number.value ≤ 255 then some (.inPlace stripped)
      else none
  | .tsize =>
      -- a placeholder the server fills in gets a zeroed buffer of its own
      if text = ascii "0" then some (.separate [])
      else if wellFormed ∧ ¬(number.value = 2 ^ 64 - 1 ∧ number.outOfRange) then
        some (.inPlace stripped)
      else none
  | .windowsize =>
      if wellFormed ∧ 1 ≤ number.value ∧ number.value ≤ 65535 then some (.inPlace stripped)
      else none
  | .readType =>
      if strcaseEq text (ascii "directory") then some (.inPlace val) else none

/-- The `while` loop of `tftp_parse_options`, from position `option` up to the
last byte before `stop`. Each round moves on by two bytes at least, so the
length of the memory bounds the number of rounds. -/
def parseOptionsFrom (memory : Bytes) (stop : ℕ) : ℕ → ℕ → OptionTable → OptionTable
  | 0, _, table => table
  | rounds + 1, option, table =>
      if option + 1 < stop then
        let name := cstr memory option
        let val := option + name.length + 1
        let table' :=
          match OptionKind.all.find? fun o => strcaseEq name o.string with
          | none => table
          | some o =>
              match optionValue memory o val with
              | none => table
              | some v => table.set o (some v)
        parseOptionsFrom memory stop rounds (val + (cstr memory val).length + 1) table'
      else table

/-- `tftp_parse_options(options, n, str)` with `str` at position `start`. -/
def tftpParseOptions (memory : Bytes) (start n : ℕ) (table : OptionTable) : OptionTable :=
  parseOptionsFrom memory (start + n) memory.length start table

/-- The position of the first `timeout` option whose value is `adaptive`, as
the second scan of both `parse_options` and `handle_oack_packet` finds it. -/
def hasAdaptiveTimeoutFrom (memory : Bytes) (stop : ℕ) : ℕ → ℕ → Bool
  | 0, _ => false
  | rounds + 1, option =>
      if option + 1 < stop then
        let name := cstr memory option
        let val := option + name.length + 1
        if strcaseEq name OptionKind.timeout.string && strcaseEq (cstr memory val) (ascii "adaptive")
        then true
        else hasAdaptiveTimeoutFrom memory stop rounds (val + (cstr memory val).length + 1)
      else false

def hasAdaptiveTimeout (memory : Bytes) (start n : ℕ) : Bool :=
  hasAdaptiveTimeoutFrom memory (start + n) memory.length start

/-- The name and value strings of the active options, in enumeration order:
the body of an OACK. -/
def optionsValues (memory : Bytes) (table : OptionTable) : Bytes :=
  OptionKind.all.flatMap fun o =>
    match table.get o with
    | none => []
    | some v => o.string ++ [0] ++ v.text memory ++ [0]

/-- An acceptable window size with a sign is kept from its first digit on. -/
example : tftpParseOptions (ascii "windowsize" ++ [0] ++ ascii "+16" ++ [0]) 0 15 {} =
    { windowsize := some (.inPlace 12) } := by
  decide

end Tftp
