import Tftp.OptionStrings
import Tftp.Server.Start

/-!
# Negotiating options

What an accepted request looks like, which options a session takes from it,
and what its OACK says about them. The answer to `tsize` is printed over the
client's own value, so it may reach the values behind it.
-/

namespace Tftp.Server

open Prog Act

/-! ## Accepted requests -/

theorem tokenLength_unterminated {s : Bytes} (h : 0 ∉ s) (atStart : Bool) :
    tokenLength atStart s = 0 := by
  induction s generalizing atStart with
  | nil => rfl
  | cons b s ih =>
      simp only [List.mem_cons, not_or] at h
      rw [tokenLength, if_neg (Ne.symm h.1), ih h.2, ite_self]

/-- A string and its terminator are a token, unless they are a single byte at
the end. -/
theorem tokenLength_string {s rest : Bytes} (h : 0 ∉ s) (hne : s ≠ [] ∨ rest ≠ []) :
    tokenLength true (s ++ 0 :: rest) = tokenLength true rest + 1 := by
  have inside (s : Bytes) (h : 0 ∉ s) :
      tokenLength false (s ++ 0 :: rest) = tokenLength true rest + 1 := by
    induction s with
    | nil => simp [tokenLength]
    | cons b s ih =>
        simp only [List.mem_cons, not_or] at h
        rw [List.cons_append, tokenLength, if_neg (by simp), if_neg (Ne.symm h.1), ih h.2]
  cases s with
  | nil =>
      have some_ : rest ≠ [] := hne.resolve_left (by simp)
      rw [List.nil_append, tokenLength, if_neg (by simp [some_]), if_pos rfl]
  | cons b s =>
      simp only [List.mem_cons, not_or] at h
      rw [List.cons_append, tokenLength, if_neg (by simp), if_neg (Ne.symm h.1), inside s h.2]

/-- A token that is followed by another one. -/
theorem exists_token {r : Bytes} (h : tokenLength true r ≠ 0) :
    ∃ s rest, r = s ++ 0 :: rest ∧ 0 ∉ s ∧ tokenLength true r = tokenLength true rest + 1 := by
  have terminated : 0 ∈ r := by
    by_contra hz
    exact h (tokenLength_unterminated hz true)
  obtain ⟨s, rest, rfl, hs⟩ := List.eq_append_cons_of_mem terminated
  refine ⟨s, rest, rfl, hs, tokenLength_string hs ?_⟩
  by_contra hn
  simp only [not_or, not_not] at hn
  rw [hn.1, hn.2] at h
  exact h rfl

/-- An even number of tokens is a list of options. -/
theorem optionText_of_even (r : Bytes) (h : tokenLength true r % 2 = 0) :
    ∃ pairs, OptionText r pairs := by
  induction hn : r.length using Nat.strong_induction_on generalizing r with
  | _ n ih =>
      by_cases hz : tokenLength true r = 0
      · by_cases hle : r.length ≤ 1
        · exact ⟨_, .short hle⟩
        · refine ⟨_, .unterminated (by omega) fun hm => ?_⟩
          obtain ⟨s, rest, rfl, hs⟩ := List.eq_append_cons_of_mem hm
          rw [tokenLength_string hs] at hz
          · omega
          · by_contra hn
            simp only [not_or, not_not] at hn
            exact hle (by simp [hn.1, hn.2])
      · obtain ⟨name, r', rfl, hname, h'⟩ := exists_token hz
        obtain ⟨val, rest, rfl, hval, h''⟩ := exists_token (r := r') (by omega)
        obtain ⟨pairs, hp⟩ := ih rest.length (by simp [← hn]; omega) rest (by omega) rfl
        exact ⟨_, .cons hname hval hp⟩

/-- A request, taken apart at its terminators. -/
structure Session.Asks (s : Session) (path modeStr rest : Bytes) (pairs : List (Bytes × Bytes)) :
    Prop where
  buffer : s.requestArgs.buffer.drop 2 = path ++ 0 :: (modeStr ++ 0 :: rest)
  path : 0 ∉ path
  modeStr : 0 ∉ modeStr
  text : OptionText rest pairs

theorem asks_of_valid {s : Session} (h : isRequestValid s) :
    ∃ path modeStr rest pairs, s.Asks path modeStr rest pairs := by
  unfold isRequestValid at h
  dsimp only at h
  split at h
  · exact absurd h (by decide)
  · split at h
    · exact absurd h (by decide)
    · split at h
      · exact absurd h (by decide)
      · rename_i count
        simp only [not_or, not_lt, not_not] at count
        obtain ⟨path, r, hr, hpath, hcount⟩ := exists_token (r := s.requestArgs.buffer.drop 2) (by omega)
        obtain ⟨modeStr, rest, rfl, hmode, hcount'⟩ := exists_token (r := r) (by omega)
        obtain ⟨pairs, hp⟩ := optionText_of_even rest (by omega)
        exact ⟨path, modeStr, rest, pairs, hr, hpath, hmode, hp⟩

namespace Session.Asks

variable {s : Session} {path modeStr rest : Bytes} {pairs : List (Bytes × Bytes)}

/-- Where `session_options_init` finds the parts of the request. -/
theorem init (h : s.Asks path modeStr rest pairs) :
    (sessionOptionsInit s).filename = path ∧ (sessionOptionsInit s).mode = parseMode modeStr ∧
      (sessionOptionsInit s).options.optionsSize = rest.length ∧
      ∃ k, (sessionOptionsInit s).options.storage.drop
        (sessionOptionsInit s).options.optionsStart = rest ++ List.replicate k 0 := by
  have hpath (k : ℕ) : cstr (path ++ 0 :: (modeStr ++ 0 :: rest) ++ List.replicate k 0) 0 = path :=
    cstr_of_drop (r := modeStr ++ 0 :: rest ++ List.replicate k 0) (by simp) h.path
  have hmode (k : ℕ) : cstr (path ++ 0 :: (modeStr ++ 0 :: rest) ++ List.replicate k 0)
      (path.length + 1) = modeStr := by
    refine cstr_of_drop (r := rest ++ List.replicate k 0) ?_ h.modeStr
    rw [← List.drop_drop]
    simp
  have length : (path ++ 0 :: (modeStr ++ 0 :: rest)).length =
      path.length + 1 + modeStr.length + 1 + rest.length := by
    simp only [List.length_append, List.length_cons]
    omega
  unfold sessionOptionsInit
  simp only [h.buffer, hpath, hmode, length]
  refine ⟨trivial, trivial, by omega, optionsStorageSize -
    (path.length + 1 + modeStr.length + 1 + rest.length), ?_⟩
  have start : path.length + 1 + modeStr.length + 1 + rest.length -
      (path.length + 1 + modeStr.length + 1 + rest.length - (path.length + 1 + modeStr.length + 1)) =
      path.length + (1 + (modeStr.length + 1)) := by omega
  rw [start, ← List.drop_drop]
  simp [← List.drop_drop]

end Session.Asks

/-! ## What a session takes from its request -/

/-- The options of a request: its strings after file name and mode, two by
two. -/
def requestOptions (buffer : Bytes) : List (Bytes × Bytes) := (paired (strings (buffer.drop 2))).tail

/-- The request carries the option. -/
def Requests (buffer : Bytes) (o : OptionKind) : Prop :=
  ∃ nv ∈ requestOptions buffer, strcaseEq nv.1 o.string

/-- The session whose options `parse_options` goes through. -/
def Session.offering (s : Session) : Session := (s.requested 0).opened 0

/-- Every active option is one of `pairs` with the value it has there. -/
def TakenFrom (memory : Bytes) (pairs : List (Bytes × Bytes)) (table : OptionTable) : Prop :=
  ∀ o v, table.get o = some v → ∃ nv ∈ pairs, strcaseEq nv.1 o.string ∧
    ∃ q, cstr memory q = nv.2 ∧ optionValue memory o q = some v

/-- A number as `tftp_parse_options` takes it. -/
def TakesNumber (o : OptionKind) (text : Bytes) : Prop :=
  (strtoul text).notParsed = [] ∧ o.InRange (strtoul text).value

namespace Session.Asks

variable {s : Session} {path modeStr rest : Bytes} {pairs : List (Bytes × Bytes)}

theorem requestOptions_eq (h : s.Asks path modeStr rest pairs) :
    requestOptions s.requestArgs.buffer = paired (strings rest) := by
  rw [requestOptions, h.buffer, strings_cons h.path, strings_cons h.modeStr, paired, List.tail_cons]

theorem requests (h : s.Asks path modeStr rest pairs) {e : Bytes × Bytes} {o : OptionKind}
    (hm : e ∈ pairs) (hname : strcaseEq e.1 o.string) (hv : e.2 ≠ []) :
    Requests s.requestArgs.buffer o := by
  refine ⟨e, ?_, hname⟩
  rw [h.requestOptions_eq]
  exact h.text.mem_strings hm hv

theorem parse (h : s.Asks path modeStr rest pairs) {table : OptionTable}
    (ht : TakenFrom (sessionOptionsInit s).options.storage pairs table) :
    TakenFrom (sessionOptionsInit s).options.storage pairs
      (tftpParseOptions (sessionOptionsInit s).options.storage
        (sessionOptionsInit s).options.optionsStart (sessionOptionsInit s).options.optionsSize
        table) := by
  obtain ⟨-, -, size, k, hdrop⟩ := h.init
  intro o v hv
  rw [size] at hv
  exact (h.text.get_some hdrop hv).elim (ht o v) id

theorem recognized (h : s.Asks path modeStr rest pairs) :
    TakenFrom (sessionOptionsInit s).options.storage pairs (recognizedOptions s.offering) := by
  have empty : TakenFrom (sessionOptionsInit s).options.storage pairs {} := by
    intro o v hv
    cases o <;> simp [OptionTable.get] at hv
  have read : TakenFrom (sessionOptionsInit s).options.storage pairs
      (s.requested 0).readType.2 := by
    unfold Session.readType
    split
    · unfold getReadType
      dsimp only
      split
      · exact h.parse empty
      · split <;> exact h.parse empty
    · exact empty
  have parsed := h.parse read
  unfold recognizedOptions
  dsimp only
  split
  · exact parsed
  · intro o v hv
    rw [OptionTable.get_set] at hv
    split at hv
    · exact absurd hv (by simp)
    · exact parsed o v hv

/-- A request for an adaptive timeout is one for a timeout. -/
theorem adaptive (h : s.Asks path modeStr rest pairs) (ha : (acceptedOptions s.offering).2) :
    Requests s.requestArgs.buffer .timeout := by
  obtain ⟨-, -, size, k, hdrop⟩ := h.init
  have scan : hasAdaptiveTimeout (sessionOptionsInit s).options.storage
      (sessionOptionsInit s).options.optionsStart (sessionOptionsInit s).options.optionsSize := by
    simp only [acceptedOptions, Bool.and_eq_true] at ha
    exact ha.2
  rw [hasAdaptiveTimeout, hasAdaptiveTimeoutFrom_eq, List.any_eq_true] at scan
  obtain ⟨nv, hm, hnv⟩ := scan
  simp only [Bool.and_eq_true] at hnv
  refine h.requests (e := (nv.1, cstr (sessionOptionsInit s).options.storage nv.2)) ?_ hnv.1 ?_
  · rw [← h.text.walk_eq hdrop (OptionText.length_le hdrop), ← size]
    exact List.mem_map_of_mem hm
  · intro he
    dsimp only at he
    rw [he] at hnv
    exact absurd hnv.2 (by decide)

/-- What the accepted options are. -/
theorem accepted (h : s.Asks path modeStr rest pairs) {o : OptionKind} {v : OptionValue}
    (hv : (acceptedOptions s.offering).1.get o = some v) :
    Requests s.requestArgs.buffer o ∧
      (o = .timeout ∧ v = .separate (ascii "adaptive") ∨
        (recognizedOptions s.offering).get o = some v ∧
        (o ≠ .readType → TakesNumber o (v.text (sessionOptionsInit s).options.storage))) := by
  have plain (hv : (recognizedOptions s.offering).get o = some v) :
      Requests s.requestArgs.buffer o ∧
        (o ≠ .readType → TakesNumber o (v.text (sessionOptionsInit s).options.storage)) := by
    obtain ⟨nv, hm, hname, q, htext, hvalue⟩ := h.recognized o v hv
    refine ⟨h.requests hm hname fun he => ?_, fun ho => ?_⟩
    · rw [optionValue_empty (htext.trans he)] at hvalue
      exact absurd hvalue (by simp)
    · obtain ⟨parsed, value, range⟩ := optionValue_number ho hvalue
      exact ⟨parsed, value ▸ range⟩
  by_cases ha : (acceptedOptions s.offering).2
  · have table : (acceptedOptions s.offering).1 =
        (recognizedOptions s.offering).set .timeout (some (.separate (ascii "adaptive"))) := if_pos ha
    rw [table, OptionTable.get_set] at hv
    split at hv
    · rename_i ho
      subst ho
      exact ⟨h.adaptive ha, .inl ⟨rfl, (Option.some.inj hv).symm⟩⟩
    · exact ⟨(plain hv).1, .inr ⟨hv, (plain hv).2⟩⟩
  · have table : (acceptedOptions s.offering).1 = recognizedOptions s.offering := if_neg ha
    rw [table] at hv
    exact ⟨(plain hv).1, .inr ⟨hv, (plain hv).2⟩⟩

end Session.Asks

/-! ## What `parse_options` sets -/

/-- The options once the size of the file is printed. -/
def SessionOptions.printed (o : SessionOptions) (fileSize : Option ℕ) : SessionOptions :=
  match o.recognized.tsize, fileSize with
  | none, _ => o
  | some _, none => { o with recognized := o.recognized.set .tsize none }
  | some (.inPlace offset), some size =>
      { o with storage := poke o.storage offset (formatNat size ++ [0]) }
  | some (.separate _), some size =>
      { o with recognized := o.recognized.set .tsize (some (.separate (formatNat size))) }

/-- The number an active option sets. -/
def SessionOptions.number (o : SessionOptions) (kind : OptionKind) : Option ℕ :=
  (o.recognized.get kind).map fun v => (strtoul (v.text o.storage)).value

theorem number_congr {o o' : SessionOptions} (hs : o.storage = o'.storage)
    (hr : o.recognized = o'.recognized) (kind : OptionKind) : o.number kind = o'.number kind := by
  rw [SessionOptions.number, SessionOptions.number, hs, hr]

theorem printed_congr {o o' : SessionOptions} (hs : o.storage = o'.storage)
    (hr : o.recognized = o'.recognized) (fileSize : Option ℕ) :
    (o.printed fileSize).storage = (o'.printed fileSize).storage ∧
      (o.printed fileSize).recognized = (o'.printed fileSize).recognized := by
  unfold SessionOptions.printed
  rw [hs, hr]
  split <;> first | exact ⟨hs, hr⟩ | exact ⟨rfl, rfl⟩

section Rounds

variable (fileSize : Option ℕ) (s : Session)

/-- What the rounds of `parse_options` leave alone: an option other than `tsize`
keeps the option string, and no option but its own changes a number. -/
structure SetsOnly (o : OptionKind) (s s' : Session) : Prop where
  storage : o ≠ .tsize → s'.options.storage = s.options.storage
  recognized : o ≠ .tsize → s'.options.recognized = s.options.recognized
  blockSize : o ≠ .blksize → s'.blockSize = s.blockSize
  timeout : o ≠ .timeout → s'.timeout = s.timeout
  windowSize : o ≠ .windowsize → s'.windowSize = s.windowSize
  oackPacket : s'.oackPacket = s.oackPacket

theorem applyOption_setsOnly (o : OptionKind) : SetsOnly o s (applyOption fileSize s o) := by
  unfold applyOption
  cases s.options.recognized.get o with
  | none => constructor <;> intros <;> rfl
  | some v =>
      cases o with
      | timeout =>
          dsimp only
          split <;> constructor <;> intros <;> first | rfl | contradiction
      | tsize => cases fileSize <;> cases v <;> constructor <;> intros <;> first | rfl | contradiction
      | _ => constructor <;> intros <;> first | rfl | contradiction

theorem applyOption_blksize : (applyOption fileSize s .blksize).blockSize =
    ((s.options.number .blksize).map UInt16.ofNat).getD s.blockSize := by
  unfold applyOption SessionOptions.number
  cases s.options.recognized.get .blksize <;> rfl

theorem applyOption_windowsize : (applyOption fileSize s .windowsize).windowSize =
    ((s.options.number .windowsize).map UInt16.ofNat).getD s.windowSize := by
  unfold applyOption SessionOptions.number
  cases s.options.recognized.get .windowsize <;> rfl

theorem applyOption_tsize :
    (applyOption fileSize s .tsize).options.storage = (s.options.printed fileSize).storage ∧
      (applyOption fileSize s .tsize).options.recognized =
        (s.options.printed fileSize).recognized := by
  unfold applyOption SessionOptions.printed
  rw [OptionTable.get]
  cases s.options.recognized.tsize with
  | none => exact ⟨rfl, rfl⟩
  | some v => cases fileSize <;> cases v <;> exact ⟨rfl, rfl⟩

theorem applyOption_timeout : (applyOption fileSize s .timeout).timeout =
    match s.options.recognized.timeout with
    | none => s.timeout
    | some v =>
        if strcaseEq (v.text s.options.storage) (ascii "adaptive") then s.timeout
        else UInt8.ofNat (strtoul (v.text s.options.storage)).value := by
  unfold applyOption
  rw [OptionTable.get]
  cases s.options.recognized.timeout with
  | none => rfl
  | some v =>
      dsimp only
      split <;> rfl

end Rounds

/-- The options are looked at in enumeration order, so that only the window
size is read after the size of the file was printed. -/
theorem parseOptions_terms (fileSize : Option ℕ) (s : Session) (o : SessionOptions)
    (ho : o = { s.options with recognized := (acceptedOptions s).1 }) :
    (parseOptions fileSize s).blockSize =
        ((o.number .blksize).map UInt16.ofNat).getD s.blockSize ∧
      (parseOptions fileSize s).timeout = (match o.recognized.timeout with
        | none => s.timeout
        | some v =>
            if strcaseEq (v.text o.storage) (ascii "adaptive") then s.timeout
            else UInt8.ofNat (strtoul (v.text o.storage)).value) ∧
      (parseOptions fileSize s).windowSize =
        (((o.printed fileSize).number .windowsize).map UInt16.ofNat).getD s.windowSize ∧
      (parseOptions fileSize s).options.storage = (o.printed fileSize).storage ∧
      (parseOptions fileSize s).options.recognized = (o.printed fileSize).recognized ∧
      (parseOptions fileSize s).oackPacket = s.oackPacket := by
  let s₀ : Session :=
    { s with
      isAdaptiveTimeoutActive := s.isAdaptiveTimeoutActive || (acceptedOptions s).2
      options := o }
  let s₁ := applyOption fileSize s₀ .blksize
  let s₂ := applyOption fileSize s₁ .timeout
  let s₃ := applyOption fileSize s₂ .tsize
  let s₄ := applyOption fileSize s₃ .windowsize
  have rounds : parseOptions fileSize s = applyOption fileSize s₄ .readType := by
    rw [parseOptions, ← ho]
    rfl
  have h₁ : SetsOnly .blksize s₀ s₁ := applyOption_setsOnly _ _ _
  have h₂ : SetsOnly .timeout s₁ s₂ := applyOption_setsOnly _ _ _
  have h₃ : SetsOnly .tsize s₂ s₃ := applyOption_setsOnly _ _ _
  have h₄ : SetsOnly .windowsize s₃ s₄ := applyOption_setsOnly _ _ _
  have h₅ : SetsOnly .readType s₄ (parseOptions fileSize s) :=
    rounds ▸ applyOption_setsOnly _ _ _
  have before : s₂.options.storage = o.storage ∧ s₂.options.recognized = o.recognized :=
    ⟨(h₂.storage (by decide)).trans (h₁.storage (by decide)),
      (h₂.recognized (by decide)).trans (h₁.recognized (by decide))⟩
  have sized : s₃.options.storage = (o.printed fileSize).storage ∧
      s₃.options.recognized = (o.printed fileSize).recognized := by
    obtain ⟨storage, recognized⟩ := applyOption_tsize fileSize s₂
    obtain ⟨storage', recognized'⟩ := printed_congr before.1 before.2 fileSize
    exact ⟨storage.trans storage', recognized.trans recognized'⟩
  refine ⟨?_, ?_, ?_, ?_, ?_, ?_⟩
  · rw [h₅.blockSize (by decide), h₄.blockSize (by decide), h₃.blockSize (by decide),
      h₂.blockSize (by decide)]
    exact applyOption_blksize fileSize s₀
  · rw [h₅.timeout (by decide), h₄.timeout (by decide), h₃.timeout (by decide),
      applyOption_timeout, h₁.timeout (by decide), h₁.storage (by decide),
      h₁.recognized (by decide)]
  · rw [h₅.windowSize (by decide), applyOption_windowsize, number_congr sized.1 sized.2,
      h₃.windowSize (by decide), h₂.windowSize (by decide), h₁.windowSize (by decide)]
  · rw [h₅.storage (by decide), h₄.storage (by decide), sized.1]
  · rw [h₅.recognized (by decide), h₄.recognized (by decide), sized.2]
  · rw [h₅.oackPacket, h₄.oackPacket, h₃.oackPacket, h₂.oackPacket, h₁.oackPacket]

/-! ## The start -/

/-- What a session agrees on with its client. -/
structure Terms where
  blockSize : UInt16
  timeout : UInt8
  windowSize : UInt16
  storage : Bytes
  recognized : OptionTable
  optionsSettled : Bool
  oackPacket : Option Packet

def Session.terms (s : Session) : Terms where
  blockSize := s.blockSize
  timeout := s.timeout
  windowSize := s.windowSize
  storage := s.options.storage
  recognized := s.options.recognized
  optionsSettled := s.optionsSettled
  oackPacket := s.oackPacket

def World.terms (w : World) : Terms := w.session.terms

instance : Blind World.terms := ⟨fun _ _ => rfl, fun _ _ _ => rfl, fun _ _ _ _ => rfl⟩

instance : Unlogged World.terms := ⟨fun _ _ => rfl⟩

abbrev KeepsTerms {α : Type} (x : Act α) : Prop := Fixes World.terms x

theorem prepareTransfer_terms : KeepsTerms prepareTransfer := by
  have allocate : KeepsTerms allocateBuffers :=
    .bind .require fun _ => .bind .sys fun _ => .bind (.modify fun _ => rfl) fun _ =>
      .bind .require fun _ => .modify fun _ => rfl
  refine .bind (.modify fun w => ?_) fun _ => .bind allocate fun _ => .bind .session fun s =>
    .ite (.bind (.sendErrorPacket _) fun _ => .modify fun _ => rfl) (.pure _)
  unfold World.terms
  dsimp only
  split <;> rfl

/-- What `parse_options` starts from. -/
structure Offer where
  info : ServerInfo
  options : SessionOptions
  blockSize : UInt16
  timeout : UInt8
  windowSize : UInt16
  oackPacket : Option Packet

def Session.offer (s : Session) : Offer where
  info := s.info
  options := s.options
  blockSize := s.blockSize
  timeout := s.timeout
  windowSize := s.windowSize
  oackPacket := s.oackPacket

def World.offer (w : World) : Offer := w.session.offer

instance : Blind World.offer := ⟨fun _ _ => rfl, fun _ _ _ => rfl, fun _ _ _ _ => rfl⟩

instance : Unlogged World.offer := ⟨fun _ _ => rfl⟩

/-- The session has no options to acknowledge, or those `parse_options` left. -/
def Negotiated (s : Session) (fileSize : Option ℕ) (t : Terms) : Prop :=
  t.oackPacket = none ∧ (t.optionsSettled ∨
    ∃ s' : Session, s'.offer = s.offering.offer ∧ t = (parseOptions fileSize s').terms)

theorem wp_queryFileSize_answer {Q : Option ℕ → World → Prop} {E : Abort → World → Prop} {w : World}
    (h : ∀ t, t.session = w.session → Q w.sys.fileSize t) : wp queryFileSize Q E w := by
  simp only [queryFileSize, wp_bind, wp_session, wp_sys, wp_ite, wp_emit, wp_pure]
  exact ⟨fun _ => h _ rfl, fun _ => h _ rfl⟩

theorem startTransfer_terms {w : World} {s : Session} (hs : w.offer = s.offering.offer)
    (ho : s.oackPacket = none) :
    wp startTransfer (fun _ t => Negotiated s w.sys.fileSize t.terms) (fun _ _ => True) w := by
  have none_ : w.session.oackPacket = none := (congrArg Offer.oackPacket hs).trans ho
  have fresh : w.session.options.validOptionsRequired = false :=
    congrArg (fun o : Offer => o.options.validOptionsRequired) hs
  rw [startTransfer, wp_bind, wp_session, wp_ite]
  refine ⟨fun _ => ?_, fun _ => ?_⟩
  · refine prepareTransfer_terms.wp fun _ t ht => ?_
    rw [ht]
    refine ⟨none_, .inl ?_⟩
    simp [World.terms, Session.terms, Session.optionsSettled, fresh]
  · refine wp_bind.mpr (wp_queryFileSize_answer fun t ht => ?_)
    rw [wp_bind, wp_modify, wp_bind, wp_modify]
    refine prepareTransfer_terms.wp fun _ t' ht' => ?_
    have terms : t'.terms = (parseOptions w.sys.fileSize w.session).terms := by
      rw [ht', ← ht]
      rfl
    have parsed := parseOptions_terms w.sys.fileSize w.session _ rfl
    refine ⟨?_, .inr ⟨_, hs, terms⟩⟩
    rw [terms]
    exact parsed.2.2.2.2.2.trans none_

/-- Opening a file asks the system for nothing else. -/
theorem sessionFileInit_sys (ty : RequestType) (rt : ReadType) (a : FileAnswers) :
    Fixes World.sys (sessionFileInit ty rt a) := by
  have emit (e : Entry) : Fixes World.sys (emit e) := .update fun _ => rfl
  have failure (n : UInt16) (m : Bytes) : Fixes World.sys (fileFailure n m) :=
    .bind (.bind (.modify fun _ => rfl) fun _ => emit _) fun _ => .pure _
  refine .ite (.ite (failure _ _) ?_) (.ite (failure _ _) ?_)
  · cases a.opendir with
    | none => exact failure _ _
    | some dir =>
        refine .bind (emit _) fun _ => ?_
        cases a.pipe with
        | none => exact failure _ _
        | some ends =>
            refine .bind (emit _) fun _ => .bind (emit _) fun _ => .ite ?_ (.ite ?_ ?_)
            · exact .bind (emit _) fun _ => .bind (emit _) fun _ => failure _ _
            · exact .bind (emit _) fun _ => .bind (emit _) fun _ => .bind (emit _) fun _ =>
                failure _ _
            · exact .bind (emit _) fun _ => .bind (emit _) fun _ => .pure _
  · cases a.openFile with
    | ok fd => exact .bind (emit _) fun _ => .pure _
    | error e =>
        cases e with
        | eacces => exact failure _ _
        | enoent => exact failure _ _
        | other m => exact failure _ _

theorem start_terms {w : World} (ho : w.session.oackPacket = none)
    (hv : w.session.options.validOptionsRequired = false) :
    wp start (fun _ t => Negotiated w.session w.sys.fileSize t.terms) (fun _ _ => True) w := by
  have plain (t : Terms) (hn : t.oackPacket = none) (hsettled : t.optionsSettled) :
      Negotiated w.session w.sys.fileSize t := ⟨hn, .inl hsettled⟩
  rw [start, wp_bind, wp_session, wp_ite]
  refine ⟨fun _ => plain _ ho (by simp [World.terms, Session.terms, Session.optionsSettled, hv]),
    fun _ => ?_⟩
  refine wp_bind.mpr (wp_mono (readRequest_spec w) ?_ fun _ _ _ => trivial)
  rintro _ _ ⟨fd, -, rfl⟩
  rw [wp_bind, wp_session, wp_ite]
  refine ⟨fun _ => plain _ ho rfl, fun _ => ?_⟩
  rw [openFile, wp_bind, wp_session, wp_bind, wp_sys, wp_bind, wp_modify, wp_bind]
  refine wp_mono (wp_and ((Fixes.sessionFileInit _ _ _ : Fixes World.offer _).wp fun _ _ h => h)
    ((sessionFileInit_sys _ _ _).wp fun _ _ h => h)) ?_ fun _ _ _ => trivial
  rintro fd' t ⟨offer, sys⟩
  rw [wp_bind, wp_modify, wp_ite]
  refine ⟨fun _ => ?_, fun _ => ?_⟩
  · refine plain _ ((congrArg Offer.oackPacket offer).trans ho) ?_
    have fresh : t.session.options.validOptionsRequired = false :=
      congrArg (fun o : Offer => o.options.validOptionsRequired) offer
    simp [World.terms, Session.terms, Session.optionsSettled, fresh]
  · have answer : t.sys.fileSize = w.sys.fileSize := congrArg Sys.fileSize sys
    rw [← answer]
    exact startTransfer_terms offer ho

/-- An OACK says what `parse_options` left. -/
def Acknowledges (s : Session) (fileSize : Option ℕ) (t : Terms) : Prop :=
  ∀ packet, t.oackPacket = some packet → packet = .oack (optionsValues t.storage t.recognized) ∧
    ∃ s' : Session, s'.offer = s.offering.offer ∧
      t = { (parseOptions fileSize s').terms with oackPacket := some packet }

theorem sendOack_acknowledges {w : World} {s : Session} {fileSize : Option ℕ}
    (h : Negotiated s fileSize w.terms) (hs : w.session.optionsSettled = false) :
    wp sendOack (fun _ t => Acknowledges s fileSize t.terms)
      (fun _ t => Acknowledges s fileSize t.terms) w := by
  have none_ (t : World) (ht : t.terms = w.terms) : Acknowledges s fileSize t.terms := by
    intro packet hp
    rw [ht, h.1] at hp
    exact absurd hp (by simp)
  rw [sendOack, wp_bind, wp_require]
  refine ⟨fun _ => ?_, fun _ => none_ _ rfl⟩
  rw [wp_bind, wp_sys, wp_bind, wp_session, wp_bind, wp_modify]
  have rest : KeepsTerms (do
      submitTimeout
      sendto w.session.clientAddress
        (.oack (optionsValues w.session.options.storage w.session.options.recognized))) :=
    .bind (.bind (.bind .require fun _ => .update fun _ => rfl) fun _ => .modify fun _ => rfl)
      fun _ => .sendto _ _
  refine rest.keeps (P := Acknowledges s fileSize) _ ?_
  intro packet hp
  obtain ⟨s', hs', terms⟩ := h.2.resolve_left (by simp [World.terms, Session.terms, hs])
  obtain rfl := Option.some.inj hp
  refine ⟨rfl, s', hs', ?_⟩
  rw [← terms]
  rfl

instance : Blind (fun w : World => w.session.oackPacket) :=
  ⟨fun _ _ => rfl, fun _ _ _ => rfl, fun _ _ _ _ => rfl⟩

/-- No OACK is built before the first events are submitted. -/
theorem start_oackPacket : Fixes (fun w => w.session.oackPacket) start := by
  refine start_fixes fun w s hs => ?_
  obtain ⟨_, _, _, _, _, _, _, _, _, _, _, _, _, _, _, _, _, rfl⟩ := hs
  rfl

theorem onStart_acknowledges {w : World} (ho : w.session.oackPacket = none)
    (hv : w.session.options.validOptionsRequired = false) :
    wp onStart (fun _ t => Acknowledges w.session w.sys.fileSize t.terms)
      (fun _ t => Acknowledges w.session w.sys.fileSize t.terms) w := by
  have none_ (t : World) (ht : t.session.oackPacket = none) :
      Acknowledges w.session w.sys.fileSize t.terms := by
    intro packet hp
    exact absurd (ht.symm.trans hp) (by simp)
  have recv : KeepsTerms recvAsync :=
    .bind (.bind .require fun _ => .update fun _ => rfl) fun _ => .modify fun _ => rfl
  refine wp_bind.mpr (wp_mono (wp_and (start_terms ho hv) (start_oackPacket _ w rfl)) ?_ ?_)
  · rintro _ t ⟨negotiated, -⟩
    have plain : Acknowledges w.session w.sys.fileSize t.terms := none_ t negotiated.1
    rw [wp_bind, wp_session, wp_ite]
    refine ⟨fun _ => plain, fun _ => ?_⟩
    refine wp_ite.mpr ⟨fun unsettled => ?_, fun _ => ?_⟩
    · refine wp_bind.mpr (wp_mono (sendOack_acknowledges negotiated unsettled) ?_ fun _ _ h => h)
      exact fun _ t' ht' => recv.keeps (P := Acknowledges w.session w.sys.fileSize) t' ht'
    · have rest : KeepsTerms (do
          if t.session.requestType = .write then do
            if ← Act.attempt then emit (.sent t.session.clientAddress (.ack 0)) else pure ()
          else pure ()
          recvAsync) :=
        .ite (.bind .attempt fun _ => .ite (.bind (.emit _) fun _ => recv) recv) recv
      exact rest.keeps (P := Acknowledges w.session w.sys.fileSize) t plain
  · rintro _ t ⟨-, same⟩
    exact none_ t (same.trans ho)

theorem fetchData_terms : KeepsTerms fetchData := by
  have submit (op : Op) : KeepsTerms (submit op) := .bind .require fun _ => .update fun _ => rfl
  have octet : KeepsTerms fetchDataOctetAsync :=
    .bind .session fun _ => .ite (.stop _) (.bind (.modify fun _ => rfl) fun _ =>
      .bind (submit _) fun _ => .bind (.emit _) fun _ => .modify fun _ => rfl)
  have netascii : KeepsTerms fetchDataNetasciiAsync := by
    refine .bind .session fun s => .ite (.stop _) ?_
    cases s.dataPackets with
    | none =>
        exact .bind (.readByte _) fun _ => .ite (.stop _)
          (.bind (.bind (.recordFailure _ _) fun _ => .stop _) fun _ => .pure _)
    | some slots =>
        exact .bind (.netasciiLoop _ _ _ _) fun _ => .bind (.modify fun _ => rfl) fun _ =>
          .bind (submit _) fun _ => .modify fun _ => rfl
  exact .bind .session fun _ => .ite (.bind (.modify fun _ => rfl) fun _ => .ite octet netascii)
    (.pure _)

/-- Whatever becomes of its first call, a session that built an OACK put in it
what `parse_options` left. -/
theorem deliver_acknowledges {sys : Sys} {w : World} (ho : w.session.oackPacket = none)
    (hv : w.session.options.validOptionsRequired = false) :
    Acknowledges w.session sys.fileSize (deliver sys .start w).world.terms := by
  refine deliver_spec (P := fun l => Acknowledges w.session sys.fileSize l.world.terms) ?_
  refine wp_bind.mpr (wp_mono (onStart_acknowledges (w := { w with sys := sys }) ho hv) ?_
    fun _ _ h => h)
  intro _ t ht
  exact (fetchData_terms.bind fun _ => .finish).keeps
    (P := Acknowledges w.session sys.fileSize) t ht

/-! ## What an OACK says -/

theorem getElem?_poke (memory : Bytes) (p : ℕ) (bytes : Bytes) (q : ℕ) :
    (poke memory p bytes)[q]? = memory[q]? ∨ ∃ b ∈ bytes, (poke memory p bytes)[q]? = some b := by
  unfold poke
  rw [List.append_assoc]
  by_cases h : q < (memory.take p).length
  · rw [List.getElem?_append_left h, List.getElem?_take_of_lt (by simp at h; omega)]
    exact .inl rfl
  · rw [List.getElem?_append_right (by omega)]
    by_cases h' : q - (memory.take p).length < bytes.length
    · rw [List.getElem?_append_left h', List.getElem?_eq_getElem h']
      exact .inr ⟨_, List.getElem_mem h', rfl⟩
    · rw [List.getElem?_append_right (by omega), List.getElem?_drop]
      refine .inl ?_
      rw [List.length_take] at h h' ⊢
      by_cases hp : p ≤ memory.length
      · congr 1
        omega
      · rw [List.getElem?_eq_none (by omega), List.getElem?_eq_none (by omega)]

theorem getElem?_of_cstr {memory : Bytes} {q : ℕ} {b : UInt8} {t : Bytes}
    (h : cstr memory q = b :: t) : memory[q]? = some b := by
  have head : (memory.drop q).head? = some b := by
    cases hd : memory.drop q with
    | nil => simp [cstr, hd] at h
    | cons c r =>
        rw [cstr, hd, List.takeWhile_cons] at h
        split at h
        · simpa using (List.cons.inj h).1
        · simp at h
  rw [← head, List.head?_drop]

theorem digit_of_mem_formatNat {n : ℕ} {b : UInt8} (h : b ∈ formatNat n) : isDigit b := by
  obtain ⟨c, hc, rfl⟩ := List.mem_map.mp h
  have digit := Nat.isDigit_of_mem_toDigits (by decide) (by decide) hc
  simp only [Char.isDigit, Bool.and_eq_true, decide_eq_true_eq, ge_iff_le,
    UInt32.le_iff_toNat_le] at digit
  have lo : 48 ≤ c.toNat := digit.1
  have hi : c.toNat ≤ 57 := digit.2
  have byte : c.toNat.toUInt8.toNat = c.toNat := by
    rw [UInt8.toNat_ofNat']
    omega
  simp only [isDigit, Bool.and_eq_true, decide_eq_true_eq, UInt8.le_iff_toNat_le, byte]
  exact ⟨lo, hi⟩

/-- The text is a number, and this one. -/
def Spells (text : Bytes) (n : ℕ) : Prop := (strtoul text).notParsed = [] ∧ (strtoul text).value = n

instance (text : Bytes) (n : ℕ) : Decidable (Spells text n) := by unfold Spells; infer_instance

/-- What the options of an OACK say to the request in `buffer` and about the
session `s`. -/
structure Describes (buffer values : Bytes) (s : Session) : Prop where
  requested : ∀ nv ∈ paired (strings values), ∃ o : OptionKind, nv.1 = o.string ∧ Requests buffer o
  blksize : ∀ text, (OptionKind.blksize.string, text) ∈ paired (strings values) →
    Spells text s.blockSize.toNat ∧ 8 ≤ s.blockSize.toNat
  timeout : ∀ text, (OptionKind.timeout.string, text) ∈ paired (strings values) →
    ¬strcaseEq text (ascii "adaptive") → Spells text s.timeout.toNat ∧ 1 ≤ s.timeout.toNat
  windowsize : ∀ text, (OptionKind.windowsize.string, text) ∈ paired (strings values) →
    Spells text s.windowSize.toNat ∧ 1 ≤ s.windowSize.toNat

/-- The options of the request before the size of the file is printed. -/
def offeredOptions (s : Session) : SessionOptions :=
  { s.offering.options with recognized := (acceptedOptions s.offering).1 }

/-- Printing the size of the file leaves the client's block size and timeout
spelling the numbers they spelled, and its window size an acceptable number. -/
structure SizeFits (o : SessionOptions) (fileSize : Option ℕ) : Prop where
  blksize : ∀ p, o.recognized.blksize = some (.inPlace p) →
    Spells (cstr (o.printed fileSize).storage p) (strtoul (cstr o.storage p)).value
  timeout : ∀ p, o.recognized.timeout = some (.inPlace p) →
    Spells (cstr (o.printed fileSize).storage p) (strtoul (cstr o.storage p)).value
  windowsize : ∀ p, o.recognized.windowsize = some (.inPlace p) →
    TakesNumber .windowsize (cstr (o.printed fileSize).storage p)

/-- Only the value of `tsize` changes with the size of the file. -/
theorem printed_get (o : SessionOptions) (fileSize : Option ℕ) {kind : OptionKind}
    (h : kind ≠ .tsize) : (o.printed fileSize).recognized.get kind = o.recognized.get kind := by
  unfold SessionOptions.printed
  split <;> simp [h]

/-- A value that was taken is in place, or is one of the two texts that have
memory of their own. -/
theorem optionValue_inPlace {memory : Bytes} {o : OptionKind} {val : ℕ} {v : OptionValue}
    (h : optionValue memory o val = some v) :
    (∃ p, v = .inPlace p) ∨ o = .tsize ∧ v = .separate [] := by
  unfold optionValue at h
  cases o with
  | tsize =>
      dsimp only at h
      split at h
      · exact .inr ⟨rfl, (Option.some.inj h).symm⟩
      · exact .inl ⟨_, (Option.some.inj (Option.ite_none_right_eq_some.mp h).2).symm⟩
  | _ => exact .inl ⟨_, (Option.some.inj (Option.ite_none_right_eq_some.mp h).2).symm⟩

namespace Session.Asks

variable {s : Session} {path modeStr rest : Bytes} {pairs : List (Bytes × Bytes)}
  {fileSize : Option ℕ}

/-- An active option of the OACK is one of the request. -/
theorem printed_isSome {kind : OptionKind} {v : OptionValue}
    (hv : ((offeredOptions s).printed fileSize).recognized.get kind = some v) :
    ∃ v', (offeredOptions s).recognized.get kind = some v' ∧
      (v = v' ∨ kind = .tsize ∧ ∃ n, v = .separate (formatNat n)) := by
  by_cases hk : kind = .tsize
  · subst hk
    unfold SessionOptions.printed at hv
    split at hv
    · exact ⟨v, hv, .inl rfl⟩
    · simp at hv
    · exact ⟨v, hv, .inl rfl⟩
    · rename_i text n he
      rw [OptionTable.get_set, if_pos rfl] at hv
      exact ⟨_, he, .inr ⟨rfl, n, (Option.some.inj hv).symm⟩⟩
  · rw [printed_get _ _ hk] at hv
    exact ⟨v, hv, .inl rfl⟩

/-- A value other than `adaptive` is a number in the request. -/
theorem offered (h : s.Asks path modeStr rest pairs) {kind : OptionKind} {v : OptionValue}
    (hv : (offeredOptions s).recognized.get kind = some v) :
    kind = .timeout ∧ v = .separate (ascii "adaptive") ∨ kind = .tsize ∧ v = .separate [] ∨
      ∃ p, v = .inPlace p ∧
        (kind ≠ .readType → TakesNumber kind (cstr (offeredOptions s).storage p)) := by
  obtain ⟨-, adaptive | ⟨recognized, number⟩⟩ := h.accepted hv
  · exact .inl adaptive
  · obtain ⟨nv, -, -, q, -, hvalue⟩ := h.recognized _ _ recognized
    rcases optionValue_inPlace hvalue with ⟨p, rfl⟩ | zero
    · exact .inr (.inr ⟨p, rfl, number⟩)
    · exact .inr (.inl zero)

/-- No text of the OACK contains its terminator. -/
theorem entries (h : s.Asks path modeStr rest pairs) :
    paired (strings (optionsValues ((offeredOptions s).printed fileSize).storage
      ((offeredOptions s).printed fileSize).recognized)) =
    optionEntries (((offeredOptions s).printed fileSize).recognized.texts
      ((offeredOptions s).printed fileSize).storage) := by
  rw [optionsValues_eq]
  refine paired_strings_encode fun nv hm => ?_
  obtain ⟨kind, hname, htext⟩ := mem_optionEntries.mp hm
  obtain ⟨v, hv, ht⟩ := Option.map_eq_some_iff.mp htext
  refine ⟨hname ▸ zero_notMem_string kind, ht ▸ ?_⟩
  obtain ⟨v', hv', rfl | ⟨-, n, rfl⟩⟩ := printed_isSome hv
  · rcases h.offered hv' with ⟨-, rfl⟩ | ⟨-, rfl⟩ | ⟨p, rfl, -⟩
    · exact (by decide : 0 ∉ ascii "adaptive")
    · exact List.not_mem_nil
    · exact zero_notMem_cstr _ _
  · intro hz
    exact absurd (digit_of_mem_formatNat hz) (by decide)

theorem string_injective : Function.Injective OptionKind.string := by
  intro o o' he
  cases o <;> cases o' <;> first | rfl | exact absurd he (by decide)

/-- What the OACK says of an option. -/
theorem mem_entries (h : s.Asks path modeStr rest pairs) {kind : OptionKind} {text : Bytes} :
    (kind.string, text) ∈ paired (strings (optionsValues
      ((offeredOptions s).printed fileSize).storage
      ((offeredOptions s).printed fileSize).recognized)) ↔
    ∃ v, ((offeredOptions s).printed fileSize).recognized.get kind = some v ∧
      v.text ((offeredOptions s).printed fileSize).storage = text := by
  rw [h.entries, mem_optionEntries]
  constructor
  · rintro ⟨kind', hname, htext⟩
    obtain rfl := string_injective hname
    exact Option.map_eq_some_iff.mp htext
  · exact fun he => ⟨kind, rfl, Option.map_eq_some_iff.mpr he⟩

theorem head_of_adaptive {text : Bytes} (h : strcaseEq text (ascii "adaptive")) :
    ∃ b t, text = b :: t ∧ (b = 97 ∨ b = 65) := by
  cases text with
  | nil => exact absurd h (by decide)
  | cons b t =>
      simp only [strcaseEq, List.map_cons, beq_iff_eq] at h
      have lower : toLower b = 97 := (List.cons.inj h).1
      refine ⟨b, t, rfl, ?_⟩
      unfold toLower at lower
      split at lower
      · have sum := congrArg UInt8.toNat lower
        rw [UInt8.toNat_add] at sum
        have bound := b.toNat_lt
        have add32 : (32 : UInt8).toNat = 32 := rfl
        have eq97 : (97 : UInt8).toNat = 97 := rfl
        refine .inr (UInt8.toNat_inj.mp (?_ : b.toNat = 65))
        omega
      · exact .inl lower

theorem letter_not_number {b : UInt8} {t : Bytes} {kind : OptionKind} (hb : b = 97 ∨ b = 65) :
    ¬TakesNumber kind (b :: t) := by
  intro h
  have unparsed : (strtoul (b :: t)).notParsed = b :: t := by
    rcases hb with rfl | rfl <;> rfl
  exact absurd (unparsed.symm.trans h.1) (by simp)

theorem number_not_adaptive {text : Bytes} {kind : OptionKind} (h : TakesNumber kind text) :
    ¬strcaseEq text (ascii "adaptive") := by
  intro hadaptive
  obtain ⟨b, t, rfl, hb⟩ := head_of_adaptive hadaptive
  exact letter_not_number hb h

/-- Digits printed over a number do not make it the word `adaptive`. -/
theorem poke_not_adaptive {memory : Bytes} {p : ℕ} {kind : OptionKind}
    (h : TakesNumber kind (cstr memory p)) (q n : ℕ) :
    ¬strcaseEq (cstr (poke memory q (formatNat n ++ [0])) p) (ascii "adaptive") := by
  intro hadaptive
  obtain ⟨b, t, hc, hb⟩ := head_of_adaptive hadaptive
  have byte := getElem?_of_cstr hc
  rcases getElem?_poke memory q (formatNat n ++ [0]) p with same | ⟨c, hm, hcell⟩
  · -- the first byte is the client's own, so its value never was a number
    rw [byte] at same
    obtain ⟨hlt, hget⟩ := List.getElem?_eq_some_iff.mp same.symm
    have text : cstr memory p = b :: (memory.drop (p + 1)).takeWhile (· != 0) := by
      rw [cstr, List.drop_eq_getElem_cons hlt, hget, List.takeWhile_cons_of_pos]
      rcases hb with rfl | rfl <;> rfl
    exact letter_not_number hb (text ▸ h)
  · rw [byte] at hcell
    obtain rfl := Option.some.inj hcell
    rcases List.mem_append.mp hm with hm | hm
    · have digit := digit_of_mem_formatNat hm
      rcases hb with rfl | rfl <;> exact absurd digit (by decide)
    · rw [List.mem_singleton.mp hm] at hb
      exact absurd hb (by decide)

/-- Once the options are settled in numbers, the OACK is right about them
exactly when the printed size left them alone. -/
theorem describes_iff (h : s.Asks path modeStr rest pairs) {t : Session} {b d : UInt16}
    {e : UInt8}
    (hb : t.blockSize = (((offeredOptions s).number .blksize).map UInt16.ofNat).getD b)
    (ht : t.timeout = match (offeredOptions s).recognized.timeout with
      | none => e
      | some v =>
          if strcaseEq (v.text (offeredOptions s).storage) (ascii "adaptive") then e
          else UInt8.ofNat (strtoul (v.text (offeredOptions s).storage)).value)
    (hw : t.windowSize =
      ((((offeredOptions s).printed fileSize).number .windowsize).map UInt16.ofNat).getD d) :
    Describes s.requestArgs.buffer (optionsValues ((offeredOptions s).printed fileSize).storage
      ((offeredOptions s).printed fileSize).recognized) t ↔
    SizeFits (offeredOptions s) fileSize := by
  -- an option in place, and what the session takes it for
  have taken {o : OptionKind} {p : ℕ} (ho : o ≠ .readType)
      (hp : (offeredOptions s).recognized.get o = some (.inPlace p)) :
      TakesNumber o (cstr (offeredOptions s).storage p) := by
    rcases h.offered hp with ⟨-, he⟩ | ⟨-, he⟩ | ⟨p', he, number⟩
    · exact absurd he (by simp)
    · exact absurd he (by simp)
    · obtain rfl := OptionValue.inPlace.inj he
      exact number ho
  have blksize {p : ℕ} (hp : (offeredOptions s).recognized.blksize = some (.inPlace p)) :
      t.blockSize.toNat = (strtoul (cstr (offeredOptions s).storage p)).value ∧
        8 ≤ t.blockSize.toNat := by
    obtain ⟨-, lower, upper⟩ := taken (o := .blksize) (by decide) hp
    have value : t.blockSize =
        UInt16.ofNat (strtoul (cstr (offeredOptions s).storage p)).value := by
      rw [hb, SessionOptions.number, OptionTable.get, hp]
      rfl
    rw [value, UInt16.toNat_ofNat', Nat.mod_eq_of_lt (by omega)]
    exact ⟨rfl, lower⟩
  have timeout {p : ℕ} (hp : (offeredOptions s).recognized.timeout = some (.inPlace p)) :
      t.timeout.toNat = (strtoul (cstr (offeredOptions s).storage p)).value ∧
        1 ≤ t.timeout.toNat := by
    have number := taken (o := .timeout) (by decide) hp
    obtain ⟨lower, upper⟩ := number.2
    have value : t.timeout =
        UInt8.ofNat (strtoul (cstr (offeredOptions s).storage p)).value := by
      rw [ht, hp]
      exact if_neg (number_not_adaptive number)
    rw [value, UInt8.toNat_ofNat', Nat.mod_eq_of_lt (by omega)]
    exact ⟨rfl, lower⟩
  have windowsize {p : ℕ} (hp : (offeredOptions s).recognized.windowsize = some (.inPlace p)) :
      t.windowSize = UInt16.ofNat
        (strtoul (cstr ((offeredOptions s).printed fileSize).storage p)).value := by
    rw [hw, SessionOptions.number, printed_get _ _ (by decide), OptionTable.get, hp]
    rfl
  have word {p : ℕ} (hp : (offeredOptions s).recognized.timeout = some (.inPlace p)) :
      ¬strcaseEq (cstr ((offeredOptions s).printed fileSize).storage p) (ascii "adaptive") := by
    have number := taken (o := .timeout) (by decide) hp
    unfold SessionOptions.printed
    split
    · exact number_not_adaptive number
    · exact number_not_adaptive number
    · exact poke_not_adaptive number _ _
    · exact number_not_adaptive number
  constructor
  · intro describes
    refine ⟨fun p hp => ?_, fun p hp => ?_, fun p hp => ?_⟩
    · have told := describes.blksize _ (h.mem_entries.mpr
        ⟨_, (printed_get _ _ (by decide)).trans hp, rfl⟩)
      rw [(blksize hp).1] at told
      exact told.1
    · have told := describes.timeout _ (h.mem_entries.mpr
        ⟨_, (printed_get _ _ (by decide)).trans hp, rfl⟩) (word hp)
      rw [(timeout hp).1] at told
      exact told.1
    · obtain ⟨⟨parsed, value⟩, lower⟩ := describes.windowsize _ (h.mem_entries.mpr
        ⟨_, (printed_get _ _ (by decide)).trans hp, rfl⟩)
      have bound := t.windowSize.toNat_lt
      refine ⟨parsed, ?_, ?_⟩
      · exact value.ge.trans' lower
      · exact value.le.trans (by omega)
  · intro fits
    refine ⟨?_, ?_, ?_, ?_⟩
    · intro nv hm
      rw [h.entries] at hm
      obtain ⟨kind, hname, htext⟩ := mem_optionEntries.mp hm
      obtain ⟨v, hv, -⟩ := Option.map_eq_some_iff.mp htext
      obtain ⟨v', hv', -⟩ := printed_isSome hv
      exact ⟨kind, hname, (h.accepted hv').1⟩
    · intro text hm
      obtain ⟨v, hv, rfl⟩ := h.mem_entries.mp hm
      rw [printed_get _ _ (by decide)] at hv
      rcases h.offered hv with ⟨he, -⟩ | ⟨he, -⟩ | ⟨p, rfl, -⟩
      · exact absurd he (by decide)
      · exact absurd he (by decide)
      · rw [(blksize hv).1]
        exact ⟨fits.blksize p hv, (blksize hv).1 ▸ (blksize hv).2⟩
    · intro text hm hword
      obtain ⟨v, hv, rfl⟩ := h.mem_entries.mp hm
      rw [printed_get _ _ (by decide)] at hv
      rcases h.offered hv with ⟨-, rfl⟩ | ⟨he, -⟩ | ⟨p, rfl, -⟩
      · exact absurd (by decide : strcaseEq (ascii "adaptive") (ascii "adaptive")) hword
      · exact absurd he (by decide)
      · rw [(timeout hv).1]
        exact ⟨fits.timeout p hv, (timeout hv).1 ▸ (timeout hv).2⟩
    · intro text hm
      obtain ⟨v, hv, rfl⟩ := h.mem_entries.mp hm
      rw [printed_get _ _ (by decide)] at hv
      rcases h.offered hv with ⟨he, -⟩ | ⟨he, -⟩ | ⟨p, rfl, -⟩
      · exact absurd he (by decide)
      · exact absurd he (by decide)
      · obtain ⟨parsed, lower, upper⟩ := fits.windowsize p hv
        rw [windowsize hv, UInt16.toNat_ofNat', Nat.mod_eq_of_lt (by omega)]
        exact ⟨⟨parsed, rfl⟩, lower⟩

end Session.Asks

/-- The OACK of an accepted request asks for nothing the client did not, and
agrees with the session, exactly when the printed file size leaves the other
options alone. -/
theorem oack_describes_session {info : ServerInfo} {request : PeerMessage} {sys : Sys}
    {values : Bytes} (hv : isRequestValid (sessionInit info request))
    (ho : (deliver sys .start (Live.boot info request).world).world.session.oackPacket =
      some (.oack values)) :
    Describes request.buffer values
        (deliver sys .start (Live.boot info request).world).world.session ↔
      SizeFits (offeredOptions (sessionInit info request)) sys.fileSize := by
  obtain ⟨path, modeStr, rest, pairs, asks⟩ := asks_of_valid hv
  have acknowledges : Acknowledges (sessionInit info request) sys.fileSize
      (deliver sys .start (Live.boot info request).world).world.terms := deliver_acknowledges rfl rfl
  generalize (deliver sys .start (Live.boot info request).world).world = w at ho acknowledges ⊢
  obtain ⟨packet, s', offer, terms⟩ := acknowledges _ ho
  have same : offeredOptions (sessionInit info request) =
      { s'.options with recognized := (acceptedOptions s').1 } := by
    have options : s'.options = (sessionInit info request).offering.options :=
      congrArg Offer.options offer
    rw [acceptedOptions_congr (sessionInit info request).offering (congrArg Offer.info offer) options,
      options]
    rfl
  obtain ⟨blockSize, timeout, windowSize, storage, recognized, -⟩ :=
    parseOptions_terms sys.fileSize s' _ same
  have hvalues : values = optionsValues
      ((offeredOptions (sessionInit info request)).printed sys.fileSize).storage
      ((offeredOptions (sessionInit info request)).printed sys.fileSize).recognized := by
    rw [← storage, ← recognized, Packet.oack.inj packet, terms]
    rfl
  rw [hvalues]
  exact asks.describes_iff ((congrArg Terms.blockSize terms).trans blockSize)
    ((congrArg Terms.timeout terms).trans timeout) ((congrArg Terms.windowSize terms).trans windowSize)

/-- A request for the file `f` with options. -/
def optionRequest (opcode : UInt16) (options : List (Bytes × Bytes)) : PeerMessage where
  peerAddr := someClient
  buffer := (plainRequest opcode "octet").buffer ++ encodeOptions options

/-- The size of a file of a gigabyte ends where the value of the next option
starts: the session uses blocks of 512 bytes, and its OACK says nothing. -/
theorem tsize_overwrites_blksize :
    ∃ values, isRequestValid (sessionInit plainInfo (optionRequest Opcode.rrq
        [(ascii "tsize", ascii "1"), (ascii "blksize", ascii "512")])) ∧
      (deliver { fileOpens with fileSize := some 1073741824 } .start (Live.boot plainInfo
        (optionRequest Opcode.rrq [(ascii "tsize", ascii "1"),
          (ascii "blksize", ascii "512")])).world).world.session.oackPacket = some (.oack values) ∧
      ¬Describes (optionRequest Opcode.rrq [(ascii "tsize", ascii "1"),
          (ascii "blksize", ascii "512")]).buffer values
        (deliver { fileOpens with fileSize := some 1073741824 } .start (Live.boot plainInfo
          (optionRequest Opcode.rrq [(ascii "tsize", ascii "1"),
            (ascii "blksize", ascii "512")])).world).world.session := by
  refine ⟨encodeOptions [(ascii "blksize", []), (ascii "tsize", ascii "1073741824")],
    by decide +kernel, by decide +kernel, fun h => ?_⟩
  have told := h.blksize [] (by decide +kernel)
  exact absurd told.1.2 (by decide +kernel)

/-- A size asked for with a zero has memory of its own. -/
theorem tsize_placeholder_fits :
    Describes (optionRequest Opcode.rrq [(ascii "tsize", ascii "0"),
        (ascii "blksize", ascii "+512")]).buffer
      (encodeOptions [(ascii "blksize", ascii "512"), (ascii "tsize", ascii "1073741824")])
      (deliver { fileOpens with fileSize := some 1073741824 } .start (Live.boot plainInfo
        (optionRequest Opcode.rrq [(ascii "tsize", ascii "0"),
          (ascii "blksize", ascii "+512")])).world).world.session := by
  have table : (offeredOptions (sessionInit plainInfo (optionRequest Opcode.rrq
      [(ascii "tsize", ascii "0"), (ascii "blksize", ascii "+512")]))).recognized =
      { blksize := some (.inPlace 25), tsize := some (.separate []) } := by
    decide +kernel
  refine (oack_describes_session (by decide +kernel) (by decide +kernel)).mpr ⟨?_, ?_, ?_⟩
  · rintro p hp
    rw [table] at hp
    obtain rfl := OptionValue.inPlace.inj (Option.some.inj hp)
    decide +kernel
  · rintro p hp
    rw [table] at hp
    exact absurd hp (by simp)
  · rintro p hp
    rw [table] at hp
    exact absurd hp (by simp)

end Tftp.Server
