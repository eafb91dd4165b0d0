import Tftp.OptionReads
import Tftp.Server.Negotiation

/-!
# What the validation of a request guards

`is_request_valid` counts the terminators of a request. The count misses a
terminator that stands alone at the end, and does not show what follows the
last one, so it accepts requests that are no list of complete strings and
rejects some that are. The scanners that run on an accepted request rely on it:
here each of them is run over memory that ends where the request ends.
-/

namespace Tftp.Server

open Checked

/-! ## Complete strings -/

/-- Strings with their terminators. -/
def joined (strs : List Bytes) : Bytes := strs.flatMap (· ++ [0])

theorem joined_cons (s : Bytes) (strs : List Bytes) :
    joined (s :: strs) = s ++ 0 :: joined strs := by
  simp [joined]

/-- The complete strings of a buffer, and what follows the last terminator. -/
structure Splits (r : Bytes) (strs : List Bytes) (left : Bytes) : Prop where
  bytes : r = joined strs ++ left
  strings : ∀ s ∈ strs, 0 ∉ s
  left : 0 ∉ left

namespace Splits

variable {r left s : Bytes} {strs : List Bytes}

theorem cons (h : Splits r strs left) (hs : 0 ∉ s) : Splits (s ++ 0 :: r) (s :: strs) left where
  bytes := by rw [joined_cons, h.bytes, List.append_assoc, List.cons_append]
  strings := by simpa [hs] using h.strings
  left := h.left

theorem exists_splits (r : Bytes) : ∃ strs left, Splits r strs left := by
  induction hn : r.length using Nat.strong_induction_on generalizing r with
  | _ n ih =>
      by_cases hz : 0 ∈ r
      · obtain ⟨s, rest, rfl, hs⟩ := List.eq_append_cons_of_mem hz
        obtain ⟨strs, left, h⟩ := ih rest.length (by simp [← hn]; omega) rest rfl
        exact ⟨_, _, h.cons hs⟩
      · exact ⟨[], r, rfl, by simp, hz⟩

theorem eq_strings (h : Splits r strs left) : Tftp.strings r = strs := by
  induction strs generalizing r with
  | nil =>
      rw [h.bytes]
      exact strings_unterminated h.left
  | cons s strs ih =>
      have rest : Splits (joined strs ++ left) strs left :=
        ⟨rfl, fun t ht => h.strings t (List.mem_cons_of_mem _ ht), h.left⟩
      rw [h.bytes, joined_cons, List.append_assoc, List.cons_append,
        strings_cons (h.strings s List.mem_cons_self), ih rest]

/-- The strings are complete when nothing is left. -/
theorem complete_iff (h : Splits r strs left) : joined (Tftp.strings r) = r ↔ left = [] := by
  rw [h.eq_strings, h.bytes]
  exact List.self_eq_append_right.trans Iff.rfl

/-- The token count misses an empty string at the very end. -/
theorem tokenLength_eq (h : Splits r strs left) :
    tokenLength true r =
      if left = [] ∧ strs.getLast? = some [] then strs.length - 1 else strs.length := by
  induction strs generalizing r with
  | nil =>
      have bytes : r = left := h.bytes
      rw [bytes, tokenLength_unterminated h.left]
      simp
  | cons s strs ih =>
      have hs := h.strings s List.mem_cons_self
      have rest : Splits (joined strs ++ left) strs left :=
        ⟨rfl, fun t ht => h.strings t (List.mem_cons_of_mem _ ht), h.left⟩
      rw [h.bytes, joined_cons, List.append_assoc, List.cons_append]
      cases strs with
      | nil =>
          have count := ih rest
          simp only [joined, List.flatMap_nil, List.nil_append] at count ⊢
          by_cases alone : s = [] ∧ left = []
          · rw [alone.1, alone.2]
            rfl
          · rw [tokenLength_string hs (by tauto), count]
            have : ¬(left = [] ∧ [s].getLast? = some []) := fun h => alone ⟨by simpa using h.2, h.1⟩
            rw [if_neg this]
            simp
      | cons t strs =>
          rw [tokenLength_string hs (.inr (by simp [joined_cons])), ih rest,
            List.getLast?_cons_cons]
          split <;> simp

end Splits

theorem strings_joined {strs : List Bytes} (h : ∀ s ∈ strs, 0 ∉ s) : strings (joined strs) = strs :=
  Splits.eq_strings ⟨(List.append_nil _).symm, h, by simp⟩

/-! ## The validation -/

section

variable (s : Session)

/-- The server serves requests with this opcode. -/
def Session.OpcodeAllowed : Prop :=
  readU16 s.requestArgs.buffer 0 = Opcode.rrq ∨
    readU16 s.requestArgs.buffer 0 = Opcode.wrq ∧ s.info.isWriteRequestEnabled

/-- What `is_request_valid` is meant to accept: after the opcode an even number
of complete strings, two of them at least. -/
structure Session.WellFormed : Prop where
  opcode : s.OpcodeAllowed
  strings : ∃ strs : List Bytes, (∀ t ∈ strs, 0 ∉ t) ∧ s.requestArgs.buffer.drop 2 = joined strs ∧
    2 ≤ strs.length ∧ strs.length % 2 = 0

/-- The scanners of option strings run on the request. -/
structure Session.ScansOptions : Prop where
  valid : isRequestValid s
  mode : (sessionOptionsInit s).mode ≠ .invalid
  options : (sessionOptionsInit s).options.optionsSize ≠ 0

/-- `session_options_init` with nothing to read behind the request. -/
def Scan.sessionOptionsInit : Except Fault Session := do
  let options := s.requestArgs.buffer.drop 2
  let n := options.length
  let path ← Scan.cstr options 0
  let modeStr ← Scan.cstr options (path.length + 1)
  let size := n - (path.length + 1 + modeStr.length + 1)
  return { s with
    options :=
      { storage := options ++ List.replicate (optionsStorageSize - n) 0
        optionsStart := n - size
        optionsSize := size }
    filename := path
    mode := parseMode modeStr }

/-- `tftp_parse_options` reads nothing behind the request, whatever the options
before it. -/
def Session.ParsesWithin : Prop :=
  let o := (sessionOptionsInit s).options
  ∀ table, Scan.tftpParseOptions (s.requestArgs.buffer.drop 2) o.optionsStart o.optionsSize table =
    .ok (tftpParseOptions o.storage o.optionsStart o.optionsSize table)

/-- Nor does `tftp_format_option_strings`. -/
def Session.FormatsWithin : Prop :=
  let o := (sessionOptionsInit s).options
  Scan.tftpFormatOptionStrings (s.requestArgs.buffer.drop 2) o.optionsStart o.optionsSize =
    .ok (tftpFormatOptionStrings o.storage o.optionsStart o.optionsSize)

/-- Nor does the scan for an adaptive timeout. -/
def Session.AdaptsWithin : Prop :=
  let o := (sessionOptionsInit s).options
  Scan.hasAdaptiveTimeout (s.requestArgs.buffer.drop 2) o.optionsStart o.optionsSize =
    .ok (hasAdaptiveTimeout o.storage o.optionsStart o.optionsSize)

/-- The validation accepts what it should, and no scanner reads past the end of
a request that it accepts. -/
structure Session.Guarded : Prop where
  accepts : isRequestValid s ↔ s.WellFormed
  init : isRequestValid s → Scan.sessionOptionsInit s = .ok (sessionOptionsInit s)
  parse : s.ScansOptions → s.ParsesWithin
  format : s.ScansOptions → s.FormatsWithin
  adaptive : s.ScansOptions → s.info.isAdaptiveTimeoutEnabled → s.AdaptsWithin

/-- The requests that are judged right and leave nothing to the scanners of
option strings. -/
def Session.PlainlyJudged : Prop :=
  s.OpcodeAllowed →
    let r := s.requestArgs.buffer.drop 2
    let strs := strings r
    if joined strs = r then
      strs.length ≤ 1 ∨ strs.getLast? ≠ some [] ∧
        (strs.length = 2 ∨ strs.length % 2 = 1 ∨ parseMode (strs.getD 1 []) = .invalid)
    else strs.length < 2 ∨ strs.length % 2 = 1

end

section

variable {s : Session} {path modeStr rest left : Bytes} {pairs : List (Bytes × Bytes)}
  {strs : List Bytes}

theorem isRequestValid_iff : isRequestValid s ↔ s.OpcodeAllowed ∧
    2 ≤ tokenLength true (s.requestArgs.buffer.drop 2) ∧
    tokenLength true (s.requestArgs.buffer.drop 2) % 2 = 0 := by
  unfold isRequestValid Session.OpcodeAllowed
  dsimp only
  split
  · rename_i other
    refine ⟨fun h => absurd h (by decide), fun ⟨allowed, _⟩ => ?_⟩
    rcases allowed with read | write
    · exact (other.1 read).elim
    · exact (other.2 write.1).elim
  · rename_i known
    split
    · rename_i disabled
      refine ⟨fun h => absurd h (by decide), fun ⟨allowed, _⟩ => ?_⟩
      rcases allowed with read | write
      · exact absurd (disabled.1.symm.trans read) (by decide)
      · exact absurd (disabled.2.symm.trans write.2) (by decide)
    · rename_i enabled
      have allowed : readU16 s.requestArgs.buffer 0 = Opcode.rrq ∨
          readU16 s.requestArgs.buffer 0 = Opcode.wrq ∧ s.info.isWriteRequestEnabled := by
        by_cases read : readU16 s.requestArgs.buffer 0 = Opcode.rrq
        · exact .inl read
        · have write := not_not.mp fun hn => known ⟨read, hn⟩
          exact .inr ⟨write, by simpa [write] using enabled⟩
      split
      · rename_i count
        refine ⟨fun h => absurd h (by decide), fun ⟨_, two, even⟩ => ?_⟩
        omega
      · rename_i count
        exact ⟨fun _ => ⟨allowed, by omega, by omega⟩, fun _ => rfl⟩

theorem wellFormed_iff (h : Splits (s.requestArgs.buffer.drop 2) strs left) :
    s.WellFormed ↔ s.OpcodeAllowed ∧ left = [] ∧ 2 ≤ strs.length ∧ strs.length % 2 = 0 := by
  constructor
  · rintro ⟨opcode, strs', hz, hr, two, even⟩
    have same : strs' = strs := by rw [← h.eq_strings, hr, strings_joined hz]
    subst same
    refine ⟨opcode, h.complete_iff.mp ?_, two, even⟩
    rw [h.eq_strings, hr]
  · rintro ⟨opcode, rfl, two, even⟩
    exact ⟨opcode, strs, h.strings, h.bytes.trans (List.append_nil _), two, even⟩

theorem Session.Asks.strings_eq (h : s.Asks path modeStr rest pairs) :
    strings (s.requestArgs.buffer.drop 2) = path :: modeStr :: strings rest := by
  rw [h.buffer, strings_cons h.path, strings_cons h.modeStr]

/-- File name and mode of an accepted request are complete. -/
theorem init_within (h : s.Asks path modeStr rest pairs) :
    Scan.sessionOptionsInit s = .ok (sessionOptionsInit s) := by
  have first : (s.requestArgs.buffer.drop 2).drop 0 = path ++ 0 :: (modeStr ++ 0 :: rest) := by
    rw [List.drop_zero, h.buffer]
  have second : (s.requestArgs.buffer.drop 2).drop (path.length + 1) = modeStr ++ 0 :: rest := by
    have behind := drop_string first
    rwa [Nat.zero_add] at behind
  have path_ := scan_cstr first h.path
  have mode := scan_cstr second h.modeStr
  obtain ⟨-, -, -, freePath⟩ := scan_cstr_ok path_
  obtain ⟨-, -, -, freeMode⟩ := scan_cstr_ok mode
  unfold Scan.sessionOptionsInit
  dsimp only
  rw [path_, ok_bind, mode, ok_bind]
  unfold sessionOptionsInit
  dsimp only
  rw [freePath, freeMode]
  rfl

/-- The options end where the request ends. -/
theorem Session.Asks.stop_eq (h : s.Asks path modeStr rest pairs) :
    (sessionOptionsInit s).options.optionsStart + (sessionOptionsInit s).options.optionsSize =
      (s.requestArgs.buffer.drop 2).length := by
  have start : (sessionOptionsInit s).options.optionsStart =
      (s.requestArgs.buffer.drop 2).length - (sessionOptionsInit s).options.optionsSize := rfl
  have size := h.init.2.2.1
  rw [start, size, h.buffer]
  simp only [List.length_append, List.length_cons]
  omega

/-- The length taken behind the options is read outside the request. -/
theorem format_outside (h : s.Asks path modeStr rest pairs) : ¬s.FormatsWithin := by
  unfold Session.FormatsWithin Scan.tftpFormatOptionStrings
  dsimp only
  rw [h.stop_eq]
  exact scan_format_faults (by omega) _

/-- An accepted request has options unless it is just file name and mode. -/
theorem Session.Asks.optionsSize_eq_zero_iff (h : s.Asks path modeStr rest pairs)
    (hs : Splits (s.requestArgs.buffer.drop 2) strs left) :
    (sessionOptionsInit s).options.optionsSize = 0 ↔ left = [] ∧ strs.length = 2 := by
  obtain ⟨-, -, size, -⟩ := h.init
  rw [size, List.length_eq_zero_iff, ← hs.complete_iff, ← hs.eq_strings, h.strings_eq, h.buffer,
    joined_cons, joined_cons]
  simp only [List.append_cancel_left_eq, List.cons.injEq, true_and, List.length_cons]
  constructor
  · rintro rfl
    exact ⟨rfl, rfl⟩
  · rintro ⟨whole, none_⟩
    have nil : strings rest = [] := List.length_eq_zero_iff.mp (by omega)
    rw [nil] at whole
    exact whole.symm

/-- An even number of complete strings is a list of names and values. -/
theorem joined_eq_encode : ∀ strs : List Bytes, strs.length % 2 = 0 →
    joined strs = encodeOptions (paired strs)
  | [], _ => rfl
  | [_], h => by simp at h
  | name :: val :: strs, h => by
      have even : strs.length % 2 = 0 := by
        simp only [List.length_cons] at h
        omega
      rw [joined_cons, joined_cons, paired, encodeOptions_cons, joined_eq_encode strs even]

theorem mem_paired : ∀ (strs : List Bytes) {nv : Bytes × Bytes}, nv ∈ paired strs →
    nv.1 ∈ strs ∧ nv.2 ∈ strs
  | [], _, h => by simp [paired] at h
  | [_], _, h => by simp [paired] at h
  | name :: val :: strs, nv, h => by
      rcases List.mem_cons.mp h with rfl | h
      · simp
      · obtain ⟨hn, hv⟩ := mem_paired strs h
        simp [hn, hv]

/-- A well-formed request ends in terminated names and values. -/
theorem Session.Asks.exists_entries (h : s.Asks path modeStr rest pairs) (hw : s.WellFormed) :
    ∃ entries, rest = encodeOptions entries ∧ ∀ nv ∈ entries, 0 ∉ nv.1 ∧ 0 ∉ nv.2 := by
  obtain ⟨-, strs, hz, hr, -, even⟩ := hw
  have split : strs = path :: modeStr :: strings rest := by
    rw [← strings_joined hz, ← hr, h.strings_eq]
  refine ⟨paired (strings rest), ?_, fun nv hm => ?_⟩
  · rw [← joined_eq_encode _ (by simp only [split, List.length_cons] at even; omega)]
    have bytes := hr.symm.trans h.buffer
    rw [split, joined_cons, joined_cons] at bytes
    simpa using bytes.symm
  · obtain ⟨hn, hv⟩ := mem_paired _ hm
    exact ⟨hz _ (by simp [split, hn]), hz _ (by simp [split, hv])⟩

/-- On a well-formed request the parser and the scan for an adaptive timeout
read complete strings only. -/
theorem parse_guarded (hw : s.WellFormed) (hv : isRequestValid s) :
    s.ParsesWithin ∧ s.AdaptsWithin := by
  obtain ⟨path, modeStr, rest, pairs, asks⟩ := asks_of_valid hv
  obtain ⟨entries, rfl, terminated⟩ := asks.exists_entries hw
  obtain ⟨-, -, size, -⟩ := asks.init
  have stop := asks.stop_eq
  have body : Terminated ((s.requestArgs.buffer.drop 2).drop
      (sessionOptionsInit s).options.optionsStart) := by
    refine ⟨entries, [], ?_, by simp, terminated⟩
    have start : (sessionOptionsInit s).options.optionsStart = path.length + 1 + modeStr.length + 1 := by
      rw [size, asks.buffer] at stop
      simp only [List.length_append, List.length_cons] at stop
      omega
    have behind : (s.requestArgs.buffer.drop 2).drop (path.length + 1) =
        modeStr ++ 0 :: encodeOptions entries := by
      have first : (s.requestArgs.buffer.drop 2).drop 0 =
          path ++ 0 :: (modeStr ++ 0 :: encodeOptions entries) := by
        rw [List.drop_zero, asks.buffer]
      have behind := drop_string first
      rwa [Nat.zero_add] at behind
    rw [start, drop_string behind, List.append_nil]
  have storage : (sessionOptionsInit s).options.storage =
      s.requestArgs.buffer.drop 2 ++ List.replicate
        (optionsStorageSize - (s.requestArgs.buffer.drop 2).length) 0 := rfl
  have long : (s.requestArgs.buffer.drop 2).length ≤
      (sessionOptionsInit s).options.storage.length := by
    rw [storage, List.length_append]
    exact Nat.le_add_right _ _
  constructor
  · intro table
    unfold Scan.tftpParseOptions tftpParseOptions
    rw [stop]
    exact scan_parse body (Nat.le_add_left _ _) (long.trans (Nat.le_add_left _ _))
  · unfold Session.AdaptsWithin Scan.hasAdaptiveTimeout hasAdaptiveTimeout
    dsimp only
    rw [stop]
    exact scan_adaptive body (Nat.le_add_left _ _) (long.trans (Nat.le_add_left _ _))

/-- Of the scanners the one that prints the options always reads on. -/
theorem guarded_iff_unscanned :
    s.Guarded ↔ (isRequestValid s ↔ s.WellFormed) ∧ ¬s.ScansOptions := by
  constructor
  · intro guarded
    refine ⟨guarded.accepts, fun scans => ?_⟩
    obtain ⟨path, modeStr, rest, pairs, asks⟩ := asks_of_valid scans.valid
    exact format_outside asks (guarded.format scans)
  · rintro ⟨accepts, unscanned⟩
    refine ⟨accepts, fun hv => ?_, fun hs => (unscanned hs).elim, fun hs => (unscanned hs).elim,
      fun hs => (unscanned hs).elim⟩
    obtain ⟨path, modeStr, rest, pairs, asks⟩ := asks_of_valid hv
    exact init_within asks

/-- The validation errs on an empty string at the very end, and on what follows
an even number of strings. -/
theorem accepts_exactly_iff (h : Splits (s.requestArgs.buffer.drop 2) strs left) :
    (isRequestValid s ↔ s.WellFormed) ↔ (s.OpcodeAllowed →
      if left = [] then strs.length ≤ 1 ∨ strs.getLast? ≠ some []
      else strs.length < 2 ∨ strs.length % 2 = 1) := by
  rw [isRequestValid_iff, wellFormed_iff h, h.tokenLength_eq]
  by_cases allowed : s.OpcodeAllowed
  · simp only [allowed, true_and, true_imp_iff]
    by_cases nothing : left = []
    · by_cases alone : strs.getLast? = some []
      · simp only [nothing, alone, and_self, if_true, true_and, ne_eq, not_true, or_false]
        omega
      · simp [nothing, alone]
    · simp only [nothing, false_and, if_false, iff_false, not_and]
      omega
  · simp [allowed]

/-- The requests whose options are scanned. -/
theorem scansOptions_iff (h : Splits (s.requestArgs.buffer.drop 2) strs left) :
    s.ScansOptions ↔ isRequestValid s ∧ parseMode (strs.getD 1 []) ≠ .invalid ∧
      ¬(left = [] ∧ strs.length = 2) := by
  have asked (hv : isRequestValid s) : (sessionOptionsInit s).mode = parseMode (strs.getD 1 []) ∧
      ((sessionOptionsInit s).options.optionsSize = 0 ↔ left = [] ∧ strs.length = 2) := by
    obtain ⟨path, modeStr, rest, pairs, asks⟩ := asks_of_valid hv
    refine ⟨?_, asks.optionsSize_eq_zero_iff h⟩
    rw [← h.eq_strings, asks.strings_eq]
    exact asks.init.2.1
  constructor
  · rintro ⟨hv, mode, options⟩
    obtain ⟨same, size⟩ := asked hv
    exact ⟨hv, same ▸ mode, size.not.mp options⟩
  · rintro ⟨hv, mode, options⟩
    obtain ⟨same, size⟩ := asked hv
    exact ⟨hv, same ▸ mode, size.not.mpr options⟩

theorem guarded_iff_judged (s : Session) : s.Guarded ↔ s.PlainlyJudged := by
  obtain ⟨strs, left, h⟩ := Splits.exists_splits (s.requestArgs.buffer.drop 2)
  rw [guarded_iff_unscanned, accepts_exactly_iff h, scansOptions_iff h, isRequestValid_iff,
    h.tokenLength_eq, Session.PlainlyJudged]
  have complete := h.complete_iff
  rw [h.eq_strings] at complete
  dsimp only
  simp only [h.eq_strings, complete]
  by_cases allowed : s.OpcodeAllowed
  · by_cases nothing : left = []
    · by_cases alone : strs.getLast? = some []
      · simp only [allowed, nothing, alone, and_self, if_true, ne_eq, not_true, or_false, true_and,
          true_imp_iff, false_and]
        refine ⟨And.left, fun few => ⟨few, fun h => ?_⟩⟩
        omega
      · by_cases unknown : parseMode (strs.getD 1 []) = .invalid
        · simp only [allowed, nothing, alone, unknown, and_false, if_true, if_false, ne_eq,
            not_false_iff, or_true, not_true, false_and, and_true, true_imp_iff]
        · simp only [allowed, nothing, alone, unknown, and_false, if_true, if_false, ne_eq,
            not_false_iff, or_true, or_false, true_and, true_imp_iff]
          omega
    · simp only [allowed, nothing, false_and, if_false, true_and, true_imp_iff, not_false_iff,
        and_true]
      by_cases judged : strs.length < 2 ∨ strs.length % 2 = 1
      · simp only [judged, true_and, iff_true, not_and]
        omega
      · simp only [judged, false_and]
  · simp [allowed]

/-- When the validation of a request is right, and its scanners stay within it. On
every well-formed request all but the one that prints the options do. -/
theorem guarded_iff (s : Session) : (s.Guarded ↔ s.PlainlyJudged) ∧
    (isRequestValid s → s.WellFormed → s.ParsesWithin ∧ s.AdaptsWithin) :=
  ⟨guarded_iff_judged s, fun valid wellFormed => parse_guarded wellFormed valid⟩

/-- A request with an unterminated name at its end is accepted, and is not made
of complete strings. -/
theorem unterminated_accepted :
    ¬∀ s : Session, s.requestArgs.buffer.length ≤ requestPacketMaxSize → s.Guarded := by
  intro guarded
  have g := guarded (sessionInit plainInfo
    { peerAddr := someClient, buffer := (plainRequest Opcode.rrq "octet").buffer ++ ascii "blksize" })
    (by decide)
  have accepted := g.accepts.mp (by decide)
  have splits : Splits (((plainRequest Opcode.rrq "octet").buffer ++ ascii "blksize").drop 2)
      [ascii "f", ascii "octet"] (ascii "blksize") := ⟨by decide, by decide, by decide⟩
  have nothing := ((wellFormed_iff (s := sessionInit plainInfo ⟨someClient, _⟩) splits).mp accepted).2.1
  exact absurd nothing (by decide)

end

end Tftp.Server
