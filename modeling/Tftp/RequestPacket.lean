import Tftp.Server.Negotiation

/-!
# Request packets

`tftp_rrq_packet_init` and `tftp_wrq_packet_init` write what the server reads
with `is_request_valid`, `session_options_init` and `tftp_parse_options`. The
same holds of the options of an OACK.
-/

namespace Tftp

/-! ## The encoders -/

/-- `tftp_mode_str` -/
def Mode.string : Mode → Bytes
  | .octet => ascii "octet"
  | .netascii => ascii "netascii"
  | .invalid => ascii "invalid"

/-- `sizeof packet->padding` -/
def paddingSize : ℕ := 510

/-- The loop over the options; `values` are those of the active ones. -/
def appendOptions (values : OptionKind → Option Bytes) : List OptionKind → Bytes → Option Bytes
  | [], padding => some padding
  | o :: kinds, padding =>
      match values o with
      | none => appendOptions values kinds padding
      | some value =>
          if o.string.length + 1 + value.length + 1 > paddingSize - padding.length then none
          else appendOptions values kinds (padding ++ o.string ++ [0] ++ value ++ [0])

/-- The body of both encoders: the packet, whose length they return, or -1.
The array `filename` has `n` bytes. -/
def requestPacketInit (opcode : UInt16) (filename : Bytes) (mode : Mode)
    (values : OptionKind → Option Bytes) : Option Bytes :=
  let name := filename.takeWhile (· != 0)
  if name.length = filename.length ∨ name.length + 1 + mode.string.length + 1 > paddingSize then
    none
  else
    (appendOptions values OptionKind.all (name ++ [0] ++ mode.string ++ [0])).map fun padding =>
      bytes16 opcode ++ padding

/-- `tftp_rrq_packet_init` -/
def rrqPacketInit := requestPacketInit Opcode.rrq

/-- `tftp_wrq_packet_init` -/
def wrqPacketInit := requestPacketInit Opcode.wrq

theorem appendOptions_eq (values : OptionKind → Option Bytes) (kinds : List OptionKind)
    {padding : Bytes} (hp : padding.length ≤ paddingSize) :
    appendOptions values kinds padding =
      if paddingSize < (padding ++ encodeOptions (kinds.filterMap fun o =>
        (values o).map fun value => (o.string, value))).length then none
      else some (padding ++ encodeOptions (kinds.filterMap fun o =>
        (values o).map fun value => (o.string, value))) := by
  induction kinds generalizing padding with
  | nil => simp [appendOptions, encodeOptions, hp]
  | cons o kinds ih =>
      rw [appendOptions, List.filterMap_cons]
      cases values o with
      | none => exact ih hp
      | some value =>
          simp only [Option.map_some, encodeOptions_cons]
          split
          · rw [if_pos]
            simp only [List.length_append, List.length_cons]
            omega
          · have longer : padding ++ o.string ++ [0] ++ value ++ [0] ++
                encodeOptions (kinds.filterMap fun o =>
                  (values o).map fun value => (o.string, value)) =
                padding ++ (o.string ++ 0 :: (value ++ 0 :: encodeOptions (kinds.filterMap fun o =>
                  (values o).map fun value => (o.string, value)))) := by
              simp
            rw [ih (by simp only [List.length_append, List.length_cons, List.length_nil]; omega)]
            simp only [longer]

/-- The packet, or -1 exactly when it had more than 512 bytes. -/
theorem requestPacketInit_eq {opcode : UInt16} {name : Bytes} (hname : 0 ∉ name) (junk : Bytes)
    (mode : Mode) (values : OptionKind → Option Bytes) :
    requestPacketInit opcode (name ++ 0 :: junk) mode values =
      if requestPacketMaxSize < (bytes16 opcode ++ (name ++ 0 :: (mode.string ++ 0 ::
        encodeOptions (optionEntries values)))).length then none
      else some (bytes16 opcode ++ (name ++ 0 :: (mode.string ++ 0 ::
        encodeOptions (optionEntries values)))) := by
  have strnlen : (name ++ 0 :: junk).takeWhile (· != 0) = name := by
    have text : cstr (name ++ 0 :: junk) 0 = name := cstr_of_drop (r := junk) (by simp) hname
    simpa [cstr] using text
  have body : name ++ [0] ++ mode.string ++ [0] ++ encodeOptions (optionEntries values) =
      name ++ 0 :: (mode.string ++ 0 :: encodeOptions (optionEntries values)) := by
    simp
  have total : (bytes16 opcode ++ (name ++ 0 :: (mode.string ++ 0 ::
      encodeOptions (optionEntries values)))).length = 2 + (name.length + 1 + mode.string.length + 1 +
        (encodeOptions (optionEntries values)).length) := by
    simp only [bytes16, List.length_append, List.length_cons, List.length_nil]
    omega
  rw [requestPacketInit]
  simp only [strnlen, total]
  split
  · rename_i short
    rw [if_pos]
    rcases short with none_ | long
    · simp at none_
    · simp only [paddingSize, requestPacketMaxSize] at long ⊢
      omega
  · rename_i fits
    simp only [not_or, not_lt] at fits
    have room : (name ++ [0] ++ mode.string ++ [0]).length ≤ paddingSize := by
      simp only [List.length_append, List.length_cons, List.length_nil]
      omega
    have length : (name ++ 0 :: (mode.string ++ 0 ::
        encodeOptions (optionEntries values))).length = name.length + 1 + mode.string.length + 1 +
          (encodeOptions (optionEntries values)).length := by
      simp only [List.length_append, List.length_cons]
      omega
    have entries : (OptionKind.all.filterMap fun o =>
        (values o).map fun value => (o.string, value)) = optionEntries values := rfl
    rw [appendOptions_eq _ _ room]
    simp only [entries, body, length]
    split
    · rw [if_pos]
      · rfl
      · simp only [paddingSize, requestPacketMaxSize] at *
        omega
    · rw [if_neg]
      · rfl
      · simp only [paddingSize, requestPacketMaxSize] at *
        omega

/-! ## What the parsers recover -/

/-- `tftp_parse_options` takes the value for the option. -/
def TakenByParser (o : OptionKind) (value : Bytes) : Prop :=
  0 ∉ value ∧ (tftpParseOptions (encodeOptions [(o.string, value)]) 0
    (encodeOptions [(o.string, value)]).length {}).isActive o

/-- The table has exactly these options, with the same numbers. -/
def Recovers (memory : Bytes) (table : OptionTable) (values : OptionKind → Option Bytes) : Prop :=
  ∀ o, match values o with
    | none => table.get o = none
    | some value => ∃ v, table.get o = some v ∧
        (if o = .readType then v.text memory = value
          else (strtoul (v.text memory)).value = (strtoul value).value)

section Recovery

variable {values : OptionKind → Option Bytes} {memory : Bytes} {p k : ℕ}

theorem optionText_entries (h : ∀ o value, values o = some value → 0 ∉ value) :
    OptionText (encodeOptions (optionEntries values)) (optionEntries values) := by
  refine .encode fun nv hm => ?_
  obtain ⟨o, hname, hvalue⟩ := mem_optionEntries.mp hm
  exact ⟨hname ▸ zero_notMem_string o, h o _ hvalue⟩

/-- An option the parser finds is the encoded one. -/
theorem entry_of_get (h : ∀ o value, values o = some value → 0 ∉ value)
    (hm : memory.drop p = encodeOptions (optionEntries values) ++ List.replicate k 0)
    {o : OptionKind} {v : OptionValue} (hv : (tftpParseOptions memory p
      (encodeOptions (optionEntries values)).length {}).get o = some v) :
    ∃ value q, values o = some value ∧ cstr memory q = value ∧ optionValue memory o q = some v := by
  rcases (optionText_entries h).get_some hm hv with none_ | ⟨nv, hnv, hname, q, htext, hvalue⟩
  · cases o <;> simp [OptionTable.get] at none_
  · obtain ⟨o', ho', hval⟩ := mem_optionEntries.mp hnv
    rw [ho', strcaseEq_string] at hname
    obtain rfl := of_decide_eq_true hname
    exact ⟨nv.2, q, hval, htext, hvalue⟩

/-- Whether the parser takes a value does not depend on where it stands. -/
theorem taken_iff {o : OptionKind} {value : Bytes} (hz : 0 ∉ value)
    (h : (tftpParseOptions (encodeOptions [(o.string, value)]) 0
      (encodeOptions [(o.string, value)]).length {}).isActive o) :
    (optionValue (value ++ [0]) o 0).isSome := by
  have single : optionEntries (fun o' => if o' = o then some value else none) =
      [(o.string, value)] := by
    cases o <;> rfl
  have zero (o' : OptionKind) (value' : Bytes)
      (he : (if o' = o then some value else none) = some value') : 0 ∉ value' := by
    obtain ⟨-, he⟩ := Option.ite_none_right_eq_some.mp he
    exact Option.some.inj he ▸ hz
  obtain ⟨v, hv⟩ := Option.isSome_iff_exists.mp h
  rw [← single] at hv
  obtain ⟨value', q, hvalue, htext, htaken⟩ := entry_of_get (k := 0) (p := 0) zero (by simp) hv
  rw [if_pos rfl] at hvalue
  obtain rfl := Option.some.inj hvalue
  have text : cstr (value ++ [0]) 0 = value := cstr_of_drop (r := []) rfl hz
  rw [optionValue_congr (text.trans htext.symm), htaken]
  rfl

/-- Encoded options are recovered. -/
theorem recovers_of_encode (h : ∀ o value, values o = some value → TakenByParser o value)
    (hm : memory.drop p = encodeOptions (optionEntries values) ++ List.replicate k 0) :
    Recovers memory (tftpParseOptions memory p (encodeOptions (optionEntries values)).length {})
      values := by
  have zero (o : OptionKind) (value : Bytes) (hv : values o = some value) : 0 ∉ value := (h o value hv).1
  intro o
  cases hv : values o with
  | none =>
      by_contra hne
      obtain ⟨v, hget⟩ := Option.ne_none_iff_exists'.mp hne
      obtain ⟨value, -, hvalue, -⟩ := entry_of_get zero hm hget
      exact absurd (hv.symm.trans hvalue) (by simp)
  | some value =>
      have active := (optionText_entries zero).get_isSome hm {} (o := o) (e := (o.string, value))
        (mem_optionEntries.mpr ⟨o, rfl, hv⟩) (by rw [strcaseEq_string]; simp)
        (taken_iff (zero o value hv) (h o value hv).2) (zero o value hv)
      obtain ⟨v, hget⟩ := Option.isSome_iff_exists.mp active
      obtain ⟨value', q, hvalue, htext, htaken⟩ := entry_of_get zero hm hget
      obtain rfl := Option.some.inj (hv.symm.trans hvalue)
      refine ⟨v, hget, ?_⟩
      split
      · rename_i ho
        subst ho
        obtain ⟨-, he⟩ := Option.ite_none_right_eq_some.mp htaken
        rw [← Option.some.inj he, OptionValue.text, htext]
      · rename_i ho
        rw [(optionValue_number ho htaken).2.1, htext]

end Recovery

/-! ## The server side -/

open Server

/-- Every encoded option is two tokens. -/
theorem tokenLength_encode {entries : List (Bytes × Bytes)}
    (h : ∀ nv ∈ entries, (0 ∉ nv.1 ∧ 0 ∉ nv.2) ∧ nv.1 ≠ [] ∧ nv.2 ≠ []) :
    tokenLength true (encodeOptions entries) = 2 * entries.length := by
  induction entries with
  | nil => rfl
  | cons nv entries ih =>
      obtain ⟨⟨hn, hv⟩, name, value⟩ := h nv List.mem_cons_self
      rw [encodeOptions_cons, tokenLength_string hn (.inl name), tokenLength_string hv (.inl value),
        ih fun nv hm => h nv (List.mem_cons_of_mem _ hm), List.length_cons]
      omega

/-- The bytes a request takes: two for the opcode, and a terminator for every
string. -/
def requestSize (name : Bytes) (mode : Mode) (values : OptionKind → Option Bytes) : ℕ :=
  2 + (name.length + 1) + (mode.string.length + 1) +
    ((optionEntries values).map fun nv => nv.1.length + 1 + (nv.2.length + 1)).sum

/-- The encoder for a type of request. -/
def packetInit : RequestType → Bytes → Mode → (OptionKind → Option Bytes) → Option Bytes
  | .read => rrqPacketInit
  | .write => wrqPacketInit

def requestOpcode : RequestType → UInt16
  | .read => Opcode.rrq
  | .write => Opcode.wrq

theorem packetInit_eq (ty : RequestType) {name : Bytes} (hname : 0 ∉ name) (junk : Bytes)
    (mode : Mode) (values : OptionKind → Option Bytes) :
    packetInit ty (name ++ 0 :: junk) mode values =
      if requestPacketMaxSize < requestSize name mode values then none
      else some (bytes16 (requestOpcode ty) ++ (name ++ 0 :: (mode.string ++ 0 ::
        encodeOptions (optionEntries values)))) := by
  have size : (bytes16 (requestOpcode ty) ++ (name ++ 0 :: (mode.string ++ 0 ::
      encodeOptions (optionEntries values)))).length = requestSize name mode values := by
    simp only [requestSize, ← length_encodeOptions, bytes16, List.length_append, List.length_cons,
      List.length_nil]
    omega
  rw [← size]
  cases ty <;> exact requestPacketInit_eq hname junk mode values

/-- The request a server makes of a packet. -/
structure ReadsRequest (s : Session) (ty : RequestType) (name : Bytes) (mode : Mode)
    (values : OptionKind → Option Bytes) : Prop where
  valid : isRequestValid s = (ty = .read || s.info.isWriteRequestEnabled)
  requestType : s.opcodeType = ty
  filename : (sessionOptionsInit s).filename = name
  mode : (sessionOptionsInit s).mode = mode
  options : Recovers (sessionOptionsInit s).options.storage
    (tftpParseOptions (sessionOptionsInit s).options.storage
      (sessionOptionsInit s).options.optionsStart (sessionOptionsInit s).options.optionsSize
      (sessionOptionsInit s).options.recognized) values

theorem readsRequest_of_encode {s : Session} {ty : RequestType} {name : Bytes} {mode : Mode}
    {values : OptionKind → Option Bytes} (hname : 0 ∉ name) (hmode : mode ≠ .invalid)
    (h : ∀ o value, values o = some value → TakenByParser o value)
    (hs : s.requestArgs.buffer = bytes16 (requestOpcode ty) ++ (name ++ 0 :: (mode.string ++ 0 ::
      encodeOptions (optionEntries values)))) : ReadsRequest s ty name mode values := by
  have modeStr : 0 ∉ mode.string ∧ mode.string ≠ [] ∧ parseMode mode.string = mode := by
    cases mode with
    | invalid => exact (hmode rfl).elim
    | octet => decide
    | netascii => decide
  have text := optionText_entries fun o value hv => (h o value hv).1
  have asks : s.Asks name mode.string _ _ :=
    ⟨by rw [hs]; rfl, hname, modeStr.1, text⟩
  obtain ⟨filename, parsed, size, k, hdrop⟩ := asks.init
  have opcode : readU16 s.requestArgs.buffer 0 = requestOpcode ty := by
    rw [hs]
    exact readU16_bytes16 _ _
  have tokens : tokenLength true (s.requestArgs.buffer.drop 2) =
      2 * (optionEntries values).length + 2 := by
    rw [asks.buffer, tokenLength_string hname (.inr (by simp)),
      tokenLength_string modeStr.1 (.inl modeStr.2.1), tokenLength_encode]
    intro nv hm
    obtain ⟨o, ho, hvalue⟩ := mem_optionEntries.mp hm
    obtain ⟨zero, taken⟩ := h o _ hvalue
    refine ⟨⟨ho ▸ zero_notMem_string o, zero⟩, ?_, fun he => ?_⟩
    · rw [ho]
      cases o <;> decide
    · have none_ : optionValue (nv.2 ++ [0]) o 0 = none := by
        rw [he]
        exact optionValue_empty rfl o
      exact absurd (taken_iff zero taken) (by rw [none_]; simp)
  refine ⟨?_, ?_, filename, parsed.trans modeStr.2.2, ?_⟩
  · unfold isRequestValid
    simp only [opcode, tokens]
    cases ty <;> simp [requestOpcode, Opcode.rrq, Opcode.wrq]
  · rw [Session.opcodeType, opcode]
    cases ty <;> rfl
  · rw [size]
    exact recovers_of_encode h hdrop

/-- The encoders fail exactly for requests over 512 bytes; what they write, the
server reads, and the options of an OACK are read the same way. -/
theorem request_codecs_round_trip (ty : RequestType) {name : Bytes} (hname : 0 ∉ name)
    (junk : Bytes) {mode : Mode} (hmode : mode ≠ .invalid) {values : OptionKind → Option Bytes}
    (h : ∀ o value, values o = some value → TakenByParser o value) :
    (packetInit ty (name ++ 0 :: junk) mode values = none ↔
      requestPacketMaxSize < requestSize name mode values) ∧
    (∀ packet, packetInit ty (name ++ 0 :: junk) mode values = some packet →
      packet.length = requestSize name mode values ∧
      ∀ info peer, ReadsRequest (sessionInit info ⟨peer, packet⟩) ty name mode values) ∧
    ∀ memory table, table.texts memory = values →
      Recovers (optionsValues memory table)
        (tftpParseOptions (optionsValues memory table) 0 (optionsValues memory table).length {})
        values := by
  rw [packetInit_eq ty hname]
  refine ⟨by simp, fun packet hp => ?_, fun memory table ht => ?_⟩
  · obtain ⟨-, he⟩ := Option.ite_none_left_eq_some.mp hp
    obtain rfl := Option.some.inj he
    refine ⟨?_, fun info peer => readsRequest_of_encode hname hmode h rfl⟩
    simp only [requestSize, ← length_encodeOptions, bytes16, List.length_append, List.length_cons,
      List.length_nil]
    omega
  · have encoded : optionsValues memory table = encodeOptions (optionEntries values) := by
      rw [optionsValues_eq, ht]
    rw [encoded]
    exact recovers_of_encode (k := 0) h (by simp)

/-- A signed block size and the placeholder for the size of the file. -/
def someOptions : OptionKind → Option Bytes
  | .blksize => some (ascii "+1024")
  | .tsize => some (ascii "0")
  | _ => none

/-- The server reads what the encoder wrote for them. -/
theorem some_options_round_trip :
    ∃ packet, packetInit .read (ascii "f" ++ 0 :: []) .octet someOptions = some packet ∧
      packet.length = 32 ∧
      ReadsRequest (sessionInit plainInfo ⟨someClient, packet⟩) .read (ascii "f") .octet
        someOptions := by
  have taken : ∀ o value, someOptions o = some value → TakenByParser o value := by
    intro o value hv
    cases o <;> simp only [someOptions, Option.some.injEq, reduceCtorEq] at hv
    · subst hv
      exact ⟨by decide, by decide⟩
    · subst hv
      exact ⟨by decide, by decide⟩
  obtain ⟨packet, hp⟩ : ∃ packet,
      packetInit .read (ascii "f" ++ 0 :: []) .octet someOptions = some packet := by
    rw [← Option.isSome_iff_exists]
    decide
  have codecs := request_codecs_round_trip .read (by decide : 0 ∉ ascii "f") []
    (by decide : Mode.octet ≠ .invalid) taken
  obtain ⟨length, reads⟩ := codecs.2.1 packet hp
  exact ⟨packet, hp, length.trans (by decide), reads _ _⟩

end Tftp
