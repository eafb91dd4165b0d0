import Tftp.OptionFormat
import Tftp.Client.OptionAck
import Tftp.Client.Reads
import Tftp.Server.Validation

/-!
# Formatted options on both sides

A server formats the option string of a request and the options it
acknowledges; a client formats the options of an OACK. The option strings of the
two sides are bounded by different buffers.
-/

namespace Tftp

/-! ## Printing into the option string -/

section

variable {memory : Bytes}

/-- A terminator bounds a string whatever follows it. -/
theorem length_takeWhile_append (xs digits rest : Bytes) :
    ((xs ++ (digits ++ 0 :: rest)).takeWhile (· != 0)).length ≤
      (xs.takeWhile (· != 0)).length + digits.length := by
  induction xs with
  | nil =>
      rw [List.nil_append, List.takeWhile_nil, List.length_nil, Nat.zero_add]
      induction digits with
      | nil => simp
      | cons b digits ih =>
          rw [List.cons_append, List.takeWhile_cons]
          split
          · simpa using ih
          · exact Nat.zero_le _
  | cons b xs ih =>
      rw [List.cons_append, List.takeWhile_cons, List.takeWhile_cons]
      split
      · simp only [List.length_cons]
        omega
      · exact Nat.zero_le _

/-- What is left of a string is not longer in more memory. -/
theorem length_takeWhile_prefix {xs ys : Bytes} (h : xs <+: ys) :
    (xs.takeWhile (· != 0)).length ≤ (ys.takeWhile (· != 0)).length := by
  obtain ⟨more, rfl⟩ := h
  rw [List.takeWhile_append]
  split
  · rename_i whole
    rw [List.length_append, whole]
    omega
  · exact Nat.le_refl _

/-- A number that is printed over a string makes it longer by its digits at
most. -/
theorem length_cstr_poke (memory digits : Bytes) (p q : ℕ) :
    (cstr (poke memory p (digits ++ [0])) q).length ≤ (cstr memory q).length + digits.length := by
  have len : (digits ++ [0]).length = digits.length + 1 := List.length_append
  have front : (memory.take p).length = min p memory.length := List.length_take
  unfold cstr poke
  rw [len]
  by_cases before : q ≤ (memory.take p).length
  · -- the string begins before the number
    rw [List.append_assoc, List.drop_append_of_le_length before, List.append_assoc,
      List.singleton_append]
    refine (length_takeWhile_append _ _ _).trans (Nat.add_le_add_right ?_ _)
    exact length_takeWhile_prefix ((List.take_prefix p memory).drop q)
  · obtain ⟨i, rfl⟩ : ∃ i, q = (memory.take p).length + i := ⟨_, (Nat.add_sub_of_le (by omega)).symm⟩
    rw [List.append_assoc, List.drop_length_add_append]
    by_cases inside : i ≤ digits.length
    · -- it begins in the number
      rw [List.append_assoc, List.drop_append_of_le_length inside, List.singleton_append]
      have short := length_takeWhile_append [] (digits.drop i) (memory.drop (p + (digits.length + 1)))
      rw [List.nil_append, List.takeWhile_nil, List.length_nil, List.length_drop] at short
      omega
    · -- it begins behind it
      obtain ⟨j, rfl⟩ : ∃ j, i = (digits ++ [0]).length + j := ⟨_, (Nat.add_sub_of_le (by omega)).symm⟩
      rw [List.drop_length_add_append, List.drop_drop]
      by_cases past : p ≤ memory.length
      · have same : p + (digits.length + 1) + j =
            (memory.take p).length + ((digits ++ [0]).length + j) := by omega
        rw [same]
        omega
      · have ends : memory.length ≤ p + (digits.length + 1) + j := by omega
        rw [List.drop_eq_nil_of_le ends, List.takeWhile_nil, List.length_nil]
        omega

end

/-- Texts that are each not much longer are not much longer together. -/
theorem textsSize_le {texts texts' : OptionKind → Option Bytes} {c : ℕ}
    (h : ∀ o, entrySize o (texts' o) ≤ entrySize o (texts o) + c) :
    textsSize texts' OptionKind.all ≤ textsSize texts OptionKind.all + 5 * c := by
  have blksize := h .blksize
  have timeout := h .timeout
  have tsize := h .tsize
  have windowsize := h .windowsize
  have readType := h .readType
  simp only [textsSize, OptionKind.all, List.map_cons, List.map_nil, List.sum_cons, List.sum_nil]
  omega

/-- A size has twenty digits at most. -/
theorem length_formatNat (n : UInt64) : (formatNat n.toNat).length ≤ 20 := by
  rw [formatNat, List.length_map, Nat.length_toDigits_le_iff (by decide) (by decide)]
  have bound := n.toNat_lt
  omega

/-! ## The server -/

namespace Server

variable {s : Session} {path modeStr rest : Bytes} {pairs entries : List (Bytes × Bytes)}

/-- The options of a session before `parse_options` takes them: those of the
option string, but for a listing that is not enabled. -/
theorem Session.Asks.recognized_texts (h : s.Asks path modeStr rest pairs)
    (hrest : rest = encodeOptions entries) (hz : ∀ nv ∈ entries, 0 ∉ nv.1 ∧ 0 ∉ nv.2)
    (o : OptionKind) :
    (recognizedOptions s.offering).texts (sessionOptionsInit s).options.storage o =
        lastTexts entries o ∨
      (recognizedOptions s.offering).texts (sessionOptionsInit s).options.storage o = none := by
  obtain ⟨-, -, size, k, storage⟩ := h.init
  generalize hm : (sessionOptionsInit s).options.storage = memory at storage
  generalize hp : (sessionOptionsInit s).options.optionsStart = p at storage
  -- a table that was read from the string already is read again
  have read (table : OptionTable) (ht : table = {} ∨ table = tftpParseOptions memory p rest.length {}) :
      (tftpParseOptions memory p rest.length table).texts memory o = lastTexts entries o := by
    have empty : ({} : OptionTable).get o = none := by cases o <;> rfl
    have once : (tftpParseOptions memory p rest.length {}).texts memory o = lastTexts entries o := by
      subst hrest
      exact parse_text hz storage o
    rcases ht with rfl | rfl
    · exact once
    · rw [← once, OptionTable.texts, OptionTable.texts, OptionText.parse_get]
      congr 1
      rw [OptionText.parse_get, empty, Option.or_none, Option.or_self]
  have before : (s.requested 0).readType.2 = {} ∨
      (s.requested 0).readType.2 = tftpParseOptions memory p rest.length {} := by
    unfold Session.readType
    split
    · unfold getReadType
      dsimp only
      have parsed : tftpParseOptions (s.requested 0).options.storage
          (s.requested 0).options.optionsStart (s.requested 0).options.optionsSize
          (s.requested 0).options.recognized = tftpParseOptions memory p rest.length {} := by
        rw [← hm, ← hp, ← size]
        rfl
      split
      · exact .inr parsed
      · split <;> exact .inr parsed
    · exact .inl rfl
  have table : tftpParseOptions s.offering.options.storage s.offering.options.optionsStart
      s.offering.options.optionsSize s.offering.options.recognized =
        tftpParseOptions memory p rest.length (s.requested 0).readType.2 := by
    rw [← hm, ← hp, ← size]
    rfl
  unfold recognizedOptions
  dsimp only
  rw [table]
  split
  · exact .inl (read _ before)
  · by_cases ho : o = .readType
    · subst ho
      exact .inr (by rw [OptionTable.texts, OptionTable.get_set, if_pos rfl]; rfl)
    · refine .inl ?_
      rw [← read _ before, OptionTable.texts, OptionTable.texts, OptionTable.get_set, if_neg ho]

/-- The size of the file makes no option longer than by its digits. -/
theorem printed_entrySize (o : SessionOptions) (fileSize : Option UInt64) (kind : OptionKind) :
    entrySize kind ((o.printed (fileSize.map UInt64.toNat)).recognized.texts
      (o.printed (fileSize.map UInt64.toNat)).storage kind) ≤
        entrySize kind (o.recognized.texts o.storage kind) + 20 := by
  unfold SessionOptions.printed
  split
  · omega
  · by_cases hk : kind = .tsize
    · subst hk
      rw [OptionTable.texts, OptionTable.get_set, if_pos rfl, Option.map_none, entrySize_none]
      exact Nat.zero_le _
    · rw [OptionTable.texts, OptionTable.get_set, if_neg hk, ← OptionTable.texts]
      exact Nat.le_add_right _ 20
  · rename_i offset size _ hsize
    obtain ⟨n, -, rfl⟩ := Option.map_eq_some_iff.mp hsize
    have digits := length_formatNat n
    rw [OptionTable.texts, OptionTable.texts]
    cases o.recognized.get kind with
    | none => exact Nat.zero_le _
    | some v =>
        simp only [Option.map_some, entrySize_some]
        cases v with
        | inPlace q =>
            have longer := length_cstr_poke o.storage (formatNat n.toNat) offset q
            rw [OptionValue.text, OptionValue.text]
            omega
        | separate t =>
            rw [OptionValue.text, OptionValue.text]
            omega
  · rename_i text size hv hsize
    obtain ⟨n, -, rfl⟩ := Option.map_eq_some_iff.mp hsize
    have digits := length_formatNat n
    by_cases hk : kind = .tsize
    · subst hk
      have before : o.recognized.get .tsize = some (.separate text) := hv
      rw [OptionTable.texts, OptionTable.texts, OptionTable.get_set, if_pos rfl, before]
      simp only [Option.map_some, entrySize_some, OptionValue.text]
      omega
    · rw [OptionTable.texts, OptionTable.texts, OptionTable.get_set, if_neg hk]
      exact Nat.le_add_right _ 20

/-- Each option the server acknowledges takes not much more than it takes in the
request. -/
theorem Session.Asks.printed_size (h : s.Asks path modeStr rest pairs)
    (hrest : rest = encodeOptions entries) (hz : ∀ nv ∈ entries, 0 ∉ nv.1 ∧ 0 ∉ nv.2)
    (fileSize : Option UInt64) (o : OptionKind) :
    entrySize o (((offeredOptions s).printed (fileSize.map UInt64.toNat)).recognized.texts
      ((offeredOptions s).printed (fileSize.map UInt64.toNat)).storage o) ≤
        entrySize o (lastTexts entries o) + 37 := by
  have printed := printed_entrySize (offeredOptions s) fileSize o
  have storage : (offeredOptions s).storage = (sessionOptionsInit s).options.storage := rfl
  have recognized : entrySize o ((recognizedOptions s.offering).texts
      (sessionOptionsInit s).options.storage o) ≤ entrySize o (lastTexts entries o) := by
    rcases h.recognized_texts hrest hz o with same | none_
    · rw [same]
    · rw [none_, entrySize_none]
      exact Nat.zero_le _
  have offered : entrySize o ((offeredOptions s).recognized.texts (offeredOptions s).storage o) ≤
      entrySize o (lastTexts entries o) + 17 := by
    rw [storage]
    by_cases ha : (acceptedOptions s.offering).2
    · have table : (offeredOptions s).recognized =
          (recognizedOptions s.offering).set .timeout (some (.separate (ascii "adaptive"))) :=
        if_pos ha
      rw [table]
      by_cases ho : o = .timeout
      · subst ho
        rw [OptionTable.texts, OptionTable.get_set, if_pos rfl]
        exact Nat.le_add_left 17 _
      · rw [OptionTable.texts, OptionTable.get_set, if_neg ho, ← OptionTable.texts]
        omega
    · have table : (offeredOptions s).recognized = recognizedOptions s.offering := if_neg ha
      rw [table]
      omega
  omega

/-- What the server prints of its options. -/
theorem Session.Asks.formatted_fits (h : s.Asks path modeStr rest pairs) (hw : s.WellFormed)
    (hn : s.requestArgs.buffer.length ≤ requestPacketMaxSize) (fileSize : Option UInt64) :
    FitsBuffer (tftpFormatOptions
      (parseOptions (fileSize.map UInt64.toNat) s.offering).options.storage
      (parseOptions (fileSize.map UInt64.toNat) s.offering).options.recognized) := by
  obtain ⟨entries, hrest, hz⟩ := h.exists_entries hw
  have length := congrArg List.length h.buffer
  simp only [List.length_drop, List.length_append, List.length_cons] at length
  obtain ⟨-, -, -, storage, recognized, -⟩ :=
    parseOptions_terms (fileSize.map UInt64.toNat) s.offering (offeredOptions s) rfl
  rw [storage, recognized]
  have text := length_tftpFormatOptions_le
    ((offeredOptions s).printed (fileSize.map UInt64.toNat)).storage
    ((offeredOptions s).printed (fileSize.map UInt64.toNat)).recognized
  have longer := textsSize_le (h.printed_size hrest hz fileSize)
  have string := textsSize_lastTexts hz
  rw [← hrest] at string
  have maximum : optionFormattedStringMaxSize = 1011 := rfl
  have request : requestPacketMaxSize = 512 := rfl
  unfold FitsBuffer
  omega

/-- What it prints of the option string of a request. -/
theorem Session.Asks.formattedStrings_fits (h : s.Asks path modeStr rest pairs)
    (hw : s.WellFormed) (hn : s.requestArgs.buffer.length ≤ requestPacketMaxSize) :
    FitsBuffer (tftpFormatOptionStrings (sessionOptionsInit s).options.storage
      (sessionOptionsInit s).options.optionsStart (sessionOptionsInit s).options.optionsSize) := by
  obtain ⟨entries, hrest, hz⟩ := h.exists_entries hw
  have length := congrArg List.length h.buffer
  simp only [List.length_drop, List.length_append, List.length_cons] at length
  obtain ⟨-, -, size, k, storage⟩ := h.init
  subst hrest
  rw [size]
  have text : 2 * (tftpFormatOptionStrings _ _ _).length ≤ _ :=
    length_formatOptionStrings hz storage rfl
  have maximum : optionFormattedStringMaxSize = 1011 := rfl
  have request : requestPacketMaxSize = 512 := rfl
  unfold FitsBuffer
  omega

end Server

/-! ## The client -/

namespace Client

variable {r : Request} {n : ℕ} {entries : List (Bytes × Bytes)} {after : Bytes}

/-- The second scan of an OACK finds an adaptive timeout among its options. -/
theorem hasAdaptive_encode (hz : ∀ nv ∈ entries, 0 ∉ nv.1 ∧ 0 ∉ nv.2)
    (hm : r.recvBuffer.drop 2 = encodeOptions entries ++ after) :
    hasAdaptiveTimeout r.recvBuffer 2 (encodeOptions entries).length = entries.any fun nv =>
      strcaseEq nv.1 OptionKind.timeout.string && strcaseEq nv.2 (ascii "adaptive") := by
  have rounds : (encodeOptions entries).length ≤ r.recvBuffer.length := by
    have length := congrArg List.length hm
    rw [List.length_drop, List.length_append] at length
    omega
  conv_rhs => rw [← walk_encode hz hm rounds]
  rw [hasAdaptiveTimeout, hasAdaptiveTimeoutFrom_eq, List.any_map]
  rfl

/-- The options of an OACK are those of its option string, but for an adaptive
timeout. -/
theorem acknowledged_texts (hz : ∀ nv ∈ entries, 0 ∉ nv.1 ∧ 0 ∉ nv.2)
    (hm : r.recvBuffer.drop 2 = encodeOptions entries ++ after)
    (hn : n - 2 = (encodeOptions entries).length) :
    (acknowledgedOptions r n).1.texts r.recvBuffer = lastTexts entries ∨
      (∃ nv ∈ entries, strcaseEq nv.1 OptionKind.timeout.string ∧
        strcaseEq nv.2 (ascii "adaptive")) ∧
      (acknowledgedOptions r n).1.texts r.recvBuffer =
        Function.update (lastTexts entries) .timeout (some (ascii "adaptive")) := by
  have parsed : (tftpParseOptions r.recvBuffer 2 (n - 2) {}).texts r.recvBuffer = lastTexts entries := by
    funext o
    rw [hn]
    exact parse_text hz hm o
  unfold acknowledgedOptions
  dsimp only
  split
  · split
    · rename_i adaptive
      rw [hn, hasAdaptive_encode hz hm] at adaptive
      refine .inr ⟨?_, ?_⟩
      · obtain ⟨nv, hmem, hnv⟩ := List.any_eq_true.mp adaptive
        rw [Bool.and_eq_true] at hnv
        exact ⟨nv, hmem, hnv⟩
      · rw [← parsed]
        funext o
        by_cases ho : o = .timeout
        · subst ho
          rw [OptionTable.texts, OptionTable.get_set, if_pos rfl, Function.update_self]
          rfl
        · rw [OptionTable.texts, OptionTable.get_set, if_neg ho, Function.update_of_ne ho]
          rfl
    · exact .inl parsed
  · exact .inl parsed

/-- They take no more than it. -/
theorem acknowledged_size (hz : ∀ nv ∈ entries, 0 ∉ nv.1 ∧ 0 ∉ nv.2)
    (hm : r.recvBuffer.drop 2 = encodeOptions entries ++ after)
    (hn : n - 2 = (encodeOptions entries).length) :
    textsSize ((acknowledgedOptions r n).1.texts r.recvBuffer) OptionKind.all ≤
      (encodeOptions entries).length := by
  rcases acknowledged_texts hz hm hn with plain | ⟨⟨nv, hmem, hname, hvalue⟩, adaptive⟩
  · rw [plain]
    exact textsSize_lastTexts hz
  · rw [adaptive]
    exact textsSize_adaptive hz hmem hname hvalue

end Client

/-! ## The buffers -/

/-- The option string consists of terminated names and values. -/
def WellTerminated (body : Bytes) : Prop :=
  ∃ entries, body = encodeOptions entries ∧ ∀ nv ∈ entries, 0 ∉ nv.1 ∧ 0 ∉ nv.2

/-- What the server prints of any request, and the client of any OACK it can
receive, fits. -/
structure FormattedFits (r : Client.Request) : Prop where
  requested : ∀ s : Server.Session, Server.isRequestValid s → s.WellFormed →
    s.requestArgs.buffer.length ≤ requestPacketMaxSize →
      FitsBuffer (tftpFormatOptionStrings (Server.sessionOptionsInit s).options.storage
        (Server.sessionOptionsInit s).options.optionsStart
        (Server.sessionOptionsInit s).options.optionsSize)
  offered : ∀ (s : Server.Session) (fileSize : Option UInt64), Server.isRequestValid s →
    s.WellFormed → s.requestArgs.buffer.length ≤ requestPacketMaxSize →
      FitsBuffer (tftpFormatOptions
        (Server.parseOptions (fileSize.map UInt64.toNat) s.offering).options.storage
        (Server.parseOptions (fileSize.map UInt64.toNat) s.offering).options.recognized)
  acknowledged : ∀ d : Datagram, 2 ≤ r.bytesReceived d →
    WellTerminated ((d.bytes.take (r.bytesReceived d)).drop 2) →
      FitsBuffer (tftpFormatOptions (r.received d).recvBuffer
        (Client.acknowledgedOptions (r.received d) (r.bytesReceived d)).1)

section

variable {r : Client.Request} {d : Datagram} {entries : List (Bytes × Bytes)}

/-- The option string of an OACK in the buffer of the client. -/
theorem received_options (two : 2 ≤ r.bytesReceived d)
    (h : (d.bytes.take (r.bytesReceived d)).drop 2 = encodeOptions entries) :
    (∃ after, (r.received d).recvBuffer.drop 2 = encodeOptions entries ++ after) ∧
      r.bytesReceived d - 2 = (encodeOptions entries).length := by
  obtain ⟨stale, hs⟩ := Client.prefix_received (r := r) (d := d)
  have length := Client.length_received (r := r) (d := d)
  constructor
  · refine ⟨stale, ?_⟩
    rw [← hs, List.drop_append_of_le_length (by omega), h]
  · rw [← h, List.length_drop, length]

/-- An OACK for all options whose block size is written with so many zeros that
it has 1008 bytes. -/
def longOptions : List (Bytes × Bytes) :=
  [(ascii "blksize", List.replicate 950 48 ++ ascii "8"), (ascii "timeout", ascii "2"),
    (ascii "tsize", ascii "1"), (ascii "windowsize", ascii "1"), (ascii "type", ascii "directory")]

def longOack : Datagram := ⟨.inet 0 1069, [0, 6] ++ encodeOptions longOptions⟩

theorem longOptions_size :
    textsSize (lastTexts longOptions) OptionKind.all = 1006 ∧
      activeCount (lastTexts longOptions) OptionKind.all = 5 ∧
        (encodeOptions longOptions).length = 1006 := by
  decide +kernel

/-- Where it can be received, its text is a byte too long. -/
theorem longOack_overflows (h : 1007 < r.recvBufferSize) : ¬FormattedFits r := by
  intro fits
  obtain ⟨size, count, bytes⟩ := longOptions_size
  have terminated : ∀ nv ∈ longOptions, 0 ∉ nv.1 ∧ 0 ∉ nv.2 := by decide +kernel
  have whole : longOack.bytes.length = 1008 := by
    show ([0, 6] ++ encodeOptions longOptions).length = 1008
    rw [List.length_append, bytes]
    rfl
  have received : r.bytesReceived longOack = 1008 := by
    rw [Client.Request.bytesReceived, whole]
    omega
  have body : (longOack.bytes.take (r.bytesReceived longOack)).drop 2 = encodeOptions longOptions := by
    rw [received, ← whole, List.take_length]
    rfl
  have two : 2 ≤ r.bytesReceived longOack := by omega
  obtain ⟨⟨after, hm⟩, hn⟩ := received_options two body
  have text := fits.acknowledged longOack two ⟨_, body, terminated⟩
  have length := length_tftpFormatOptions (r.received longOack).recvBuffer
    (Client.acknowledgedOptions (r.received longOack) (r.bytesReceived longOack)).1
  rcases Client.acknowledged_texts terminated hm hn with plain | ⟨⟨nv, hmem, hname, hvalue⟩, -⟩
  · rw [plain, size, count] at length
    have maximum : optionFormattedStringMaxSize = 1011 := rfl
    unfold FitsBuffer at text
    split at length <;> omega
  · have none_ : ¬∃ nv ∈ longOptions, strcaseEq nv.1 OptionKind.timeout.string ∧
        strcaseEq nv.2 (ascii "adaptive") := by decide +kernel
    exact none_ ⟨nv, hmem, hname, hvalue⟩

/-- All formatted options fit exactly as long as the receive buffer of the
client has 1007 bytes at most. -/
theorem formatted_options_fit_iff (r : Client.Request) :
    FormattedFits r ↔ r.recvBufferSize ≤ 1007 := by
  constructor
  · intro fits
    by_contra large
    exact longOack_overflows (by omega) fits
  · intro small
    constructor
    · intro s hv hw hn
      obtain ⟨path, modeStr, rest, pairs, asks⟩ := Server.asks_of_valid hv
      exact asks.formattedStrings_fits hw hn
    · intro s fileSize hv hw hn
      obtain ⟨path, modeStr, rest, pairs, asks⟩ := Server.asks_of_valid hv
      exact asks.formatted_fits hw hn fileSize
    · rintro d two ⟨entries, body, terminated⟩
      obtain ⟨⟨after, hm⟩, hn⟩ := received_options two body
      have text := length_tftpFormatOptions_le (r.received d).recvBuffer
        (Client.acknowledgedOptions (r.received d) (r.bytesReceived d)).1
      have size := Client.acknowledged_size terminated hm hn
      have received : r.bytesReceived d ≤ r.recvBufferSize := Nat.min_le_right _ _
      have maximum : optionFormattedStringMaxSize = 1011 := rfl
      unfold FitsBuffer
      omega

/-- A client that asks for large blocks can receive an OACK that does not fit. -/
theorem large_blocks_overflow : ¬∀ c : Client.Call, FormattedFits c.request := by
  intro all
  let c : Client.Call :=
    { requestType := .get
      retries := 0
      server := .inet 0 69
      filename := ascii "f"
      mode := .octet
      options := some { blockSize := some 65464 } }
  have large : 1007 < c.request.recvBufferSize := by decide
  exact longOack_overflows large (all c)

end

end Tftp
