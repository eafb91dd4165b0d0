import Tftp.OptionStrings

/-!
# The values of numeric options

`tftp_parse_options` reads a numeric value with `strtoul`, which takes a minus
sign as well and negates modulo the word size. A value with a minus sign is
taken when its negation is in range, and is recorded with its sign.
-/

namespace Tftp

/-! ## Numbers as texts -/

/-- White space, a sign and digits. -/
structure Decimal (sign digits text : Bytes) : Prop where
  text : ∃ spaces, text = spaces ++ (sign ++ digits) ∧ ∀ b ∈ spaces, isSpace b
  sign : sign = [] ∨ sign = [43] ∨ sign = [45]
  ne_nil : digits ≠ []
  digits : ∀ b ∈ digits, isDigit b

theorem dropWhile_append_of_all {p : UInt8 → Bool} {s : Bytes} (h : ∀ b ∈ s, p b) (t : Bytes) :
    (s ++ t).dropWhile p = t.dropWhile p := by
  induction s with
  | nil => rfl
  | cons b s ih =>
      rw [List.cons_append, List.dropWhile_cons_of_pos (h b List.mem_cons_self)]
      exact ih fun b hb => h b (List.mem_cons_of_mem _ hb)

namespace Decimal

variable {sign digits text : Bytes}

/-- The first of the digits. -/
theorem head (h : Decimal sign digits text) : ∃ d rest, digits = d :: rest ∧ isDigit d := by
  obtain ⟨d, rest, rfl⟩ := List.exists_cons_of_ne_nil h.ne_nil
  exact ⟨d, rest, rfl, h.digits d List.mem_cons_self⟩

theorem dropWhile_isSpace (h : Decimal sign digits text) :
    text.dropWhile isSpace = sign ++ digits := by
  obtain ⟨spaces, rfl, hs⟩ := h.text
  rw [dropWhile_append_of_all hs]
  rcases h.sign with rfl | rfl | rfl
  · obtain ⟨d, rest, rfl, hd⟩ := h.head
    exact dropWhile_of_head (digit_not_stripped hd).1
  · rfl
  · rfl

/-- `strtoul` reads the digits, and negates them after a minus sign. -/
theorem strtoul_eq (h : Decimal sign digits text) : strtoul text =
    if 2 ^ 64 ≤ decimal digits then ⟨2 ^ 64 - 1, [], true⟩
    else ⟨if sign = [45] then (2 ^ 64 - decimal digits) % 2 ^ 64 else decimal digits, [], false⟩ := by
  have whole : digits.takeWhile isDigit = digits := List.takeWhile_eq_self_iff.mpr h.digits
  have nothing : digits.dropWhile isDigit = [] := List.dropWhile_eq_nil_iff.mpr h.digits
  have some_ := h.ne_nil
  unfold strtoul
  rw [h.dropWhile_isSpace]
  rcases h.sign with rfl | rfl | rfl
  · obtain ⟨d, rest, rfl, hd⟩ := h.head
    obtain ⟨-, plus, minus⟩ := digit_not_stripped hd
    simp [plus, minus, whole, nothing]
  · simp [whole, nothing, some_]
  · simp [whole, nothing, some_]

/-- What the stripping loop leaves: the digits, with a minus sign. -/
theorem stripped (h : Decimal sign digits text) :
    (text.dropWhile fun b => isSpace b || b == 43) =
      if sign = [45] then 45 :: digits else digits := by
  rw [← dropWhile_dropWhile (q := isSpace) fun b hb => by simp [hb], h.dropWhile_isSpace]
  obtain ⟨d, rest, rfl, hd⟩ := h.head
  obtain ⟨space, plus, -⟩ := digit_not_stripped hd
  have stays : (d :: rest).dropWhile (fun b => isSpace b || b == 43) = d :: rest :=
    dropWhile_of_head (by simp [space, plus])
  rcases h.sign with rfl | rfl | rfl
  · exact stays
  · rw [List.cons_append, List.dropWhile_cons_of_pos (by simp)]
    exact stays
  · exact dropWhile_of_head (by decide)

/-- A text that `strtoul` reads to its end. -/
theorem of_parsed (hne : text ≠ []) (h : (strtoul text).notParsed = []) :
    ∃ sign digits, Decimal sign digits text := by
  have some_ := digits_ne_nil hne h
  have spaces : text = text.takeWhile isSpace ++ text.dropWhile isSpace :=
    (List.takeWhile_append_dropWhile ..).symm
  have white : ∀ b ∈ text.takeWhile isSpace, isSpace b := fun b hb => List.mem_takeWhile_imp hb
  generalize ht : text.dropWhile isSpace = t at some_ spaces
  -- what is read to the end are digits
  have digits : (numberPart t).dropWhile isDigit = [] := by
    have parsed : (strtoul text).notParsed =
        if (numberPart t).takeWhile isDigit = [] then text else (numberPart t).dropWhile isDigit := by
      subst ht
      show (if (numberPart (text.dropWhile isSpace)).takeWhile isDigit = [] then
          (⟨0, text, false⟩ : Parsed)
        else if 2 ^ 64 ≤ decimal ((numberPart (text.dropWhile isSpace)).takeWhile isDigit) then
          ⟨2 ^ 64 - 1, (numberPart (text.dropWhile isSpace)).dropWhile isDigit, true⟩
        else ⟨_, (numberPart (text.dropWhile isSpace)).dropWhile isDigit, false⟩).notParsed = _
      split
      · rfl
      · split <;> rfl
    rwa [parsed, if_neg some_] at h
  have all : ∀ b ∈ numberPart t, isDigit b := List.dropWhile_eq_nil_iff.mp digits
  have ne_nil : numberPart t ≠ [] := fun hn => some_ (by simp [hn])
  unfold numberPart at all ne_nil
  cases t with
  | nil => simp at ne_nil
  | cons b t =>
      by_cases minus : b = 45
      · subst minus
        exact ⟨[45], t, ⟨_, spaces, white⟩, .inr (.inr rfl), by simpa using ne_nil, by simpa using all⟩
      · by_cases plus : b = 43
        · subst plus
          exact ⟨[43], t, ⟨_, spaces, white⟩, .inr (.inl rfl), by simpa using ne_nil,
            by simpa using all⟩
        · rw [if_neg (by simp [minus, plus])] at all
          exact ⟨[], b :: t, ⟨_, spaces, white⟩, .inl rfl, by simp, all⟩

end Decimal

/-! ## What an option takes -/

/-- The numbers in range for an option. -/
def OptionKind.Admits : OptionKind → ℕ → Prop
  | .tsize, n => n < 2 ^ 64
  | o, n => o.InRange n

/-- A number in range for the option, with its digits. -/
structure Numeral (o : OptionKind) (text digits : Bytes) : Prop where
  parts : Decimal [] digits text ∨ Decimal [43] digits text
  admits : o.Admits (decimal digits)

/-- A number after a minus sign, whose negation modulo the word size is in
range for the option. -/
structure Negated (o : OptionKind) (text digits : Bytes) : Prop where
  parts : Decimal [45] digits text
  fits : decimal digits < 2 ^ 64
  admits : o.Admits ((2 ^ 64 - decimal digits) % 2 ^ 64)

section

variable {memory text sign digits : Bytes} {o : OptionKind} {q : ℕ}

theorem admits_lt (ho : o ≠ .readType) {n : ℕ} (h : o.Admits n) : n < 2 ^ 64 := by
  cases o with
  | tsize => exact h
  | readType => exact (ho rfl).elim
  | _ => exact lt_of_le_of_lt h.2 (by decide)

/-- A value in range was not cut off at the word size, unless it is a size. -/
theorem fits_of_inRange (h : Decimal sign digits text) (ho : o ≠ .readType) (hs : o ≠ .tsize)
    (hr : o.InRange (strtoul text).value) : decimal digits < 2 ^ 64 := by
  by_contra hn
  rw [h.strtoul_eq, if_pos (not_lt.mp hn)] at hr
  cases o with
  | tsize => exact hs rfl
  | readType => exact ho rfl
  | _ => exact absurd hr.2 (by decide)

/-- The value recorded for a number. -/
theorem optionValue_decimal (ho : o ≠ .readType) (h : Decimal sign digits (cstr memory q))
    (hr : o.Admits (strtoul (cstr memory q)).value) (hf : decimal digits < 2 ^ 64) :
    (optionValue memory o q).map (OptionValue.text memory) = some
      (if o = .tsize ∧ cstr memory q = ascii "0" then [] else
        if sign = [45] then 45 :: digits else digits) := by
  have stripped : (OptionValue.inPlace (q + ((cstr memory q).takeWhile fun b =>
      isSpace b || b == 43).length)).text memory = if sign = [45] then 45 :: digits else digits :=
    (text_stripped memory q).trans h.stripped
  have parsed : cstr memory q ≠ [] ∧ (strtoul (cstr memory q)).notParsed = [] := by
    obtain ⟨spaces, ht, -⟩ := h.text
    refine ⟨fun hn => h.ne_nil ?_, ?_⟩
    · rw [hn] at ht
      exact (List.append_eq_nil_iff.mp (List.append_eq_nil_iff.mp ht.symm).2).2
    · rw [h.strtoul_eq]
      split <;> rfl
  unfold optionValue
  cases o with
  | readType => exact (ho rfl).elim
  | tsize =>
      dsimp only
      by_cases zero : cstr memory q = ascii "0"
      · simp [zero, OptionValue.text]
      · have small : (strtoul (cstr memory q)).outOfRange = false := by
          rw [h.strtoul_eq, if_neg (by omega)]
        rw [if_neg zero, if_pos ⟨parsed, by simp [small]⟩, if_neg (fun h => zero h.2), Option.map_some,
          stripped]
  | _ =>
      dsimp only
      rw [if_pos ⟨parsed, hr⟩, if_neg (by simp), Option.map_some, stripped]

/-- Nothing else is recorded. -/
theorem decimal_of_optionValue (ho : o ≠ .readType) (h : (optionValue memory o q).isSome) :
    ∃ sign digits, Decimal sign digits (cstr memory q) ∧
      o.Admits (strtoul (cstr memory q)).value ∧ decimal digits < 2 ^ 64 := by
  obtain ⟨v, hv⟩ := Option.isSome_iff_exists.mp h
  unfold optionValue at hv
  cases o with
  | readType => exact (ho rfl).elim
  | tsize =>
      dsimp only at hv
      split at hv
      · rename_i zero
        have zeros : Decimal [] (ascii "0") (cstr memory q) :=
          ⟨⟨[], by simp [zero], by simp⟩, .inl rfl, by decide, List.forall_mem_singleton.mpr rfl⟩
        refine ⟨_, _, zeros, ?_, by decide⟩
        have nothing : (strtoul (ascii "0")).value = 0 := by decide
        rw [zero]
        show (strtoul (ascii "0")).value < 2 ^ 64
        omega
      · obtain ⟨⟨⟨hne, parsed⟩, fits⟩, -⟩ := Option.ite_none_right_eq_some.mp hv
        obtain ⟨sign, digits, parts⟩ := Decimal.of_parsed hne parsed
        have small : decimal digits < 2 ^ 64 := by
          by_contra hn
          rw [parts.strtoul_eq, if_pos (not_lt.mp hn)] at fits
          exact fits ⟨rfl, rfl⟩
        refine ⟨sign, digits, parts, ?_, small⟩
        show (strtoul (cstr memory q)).value < 2 ^ 64
        rw [parts.strtoul_eq, if_neg (by omega)]
        dsimp only
        split
        · exact Nat.mod_lt _ (by decide)
        · exact small
  | _ =>
      obtain ⟨⟨⟨hne, parsed⟩, range⟩, -⟩ := Option.ite_none_right_eq_some.mp hv
      obtain ⟨sign, digits, parts⟩ := Decimal.of_parsed hne parsed
      exact ⟨sign, digits, parts, range, fits_of_inRange parts ho (by simp) range⟩

/-- What is recorded depends on the text of the value only. -/
theorem optionValue_text_congr {memory' : Bytes} {q' : ℕ} (h : cstr memory q = cstr memory' q')
    (o : OptionKind) : (optionValue memory o q).map (OptionValue.text memory) =
      (optionValue memory' o q').map (OptionValue.text memory') := by
  have stripped := (text_stripped memory q).trans ((congrArg _ h).trans (text_stripped memory' q').symm)
  unfold optionValue
  rw [h] at stripped ⊢
  cases o with
  | readType =>
      dsimp only
      split
      · exact congrArg some h
      · rfl
  | tsize =>
      dsimp only
      split
      · rfl
      · split
        · exact congrArg some stripped
        · rfl
  | _ =>
      dsimp only
      split
      · exact congrArg some stripped
      · rfl

end

/-! ## The option strings of a request -/

/-- The text recorded for a name and a value, if they are taken for the
option. -/
def takenText (o : OptionKind) (nv : Bytes × Bytes) : Option Bytes :=
  if strcaseEq nv.1 o.string then
    (optionValue (nv.2 ++ [0]) o 0).map (OptionValue.text (nv.2 ++ [0]))
  else none

/-- A pair that sets the option to a number in range. -/
structure Offers (o : OptionKind) (nv : Bytes × Bytes) (digits : Bytes) : Prop where
  name : strcaseEq nv.1 o.string
  value : Numeral o nv.2 digits

/-- A pair whose value has a minus sign and is taken all the same. -/
structure Negates (o : OptionKind) (nv : Bytes × Bytes) (digits : Bytes) : Prop where
  name : strcaseEq nv.1 o.string
  value : Negated o nv.2 digits

section

variable {memory after : Bytes} {entries : List (Bytes × Bytes)} {nv : Bytes × Bytes}
  {digits : Bytes} {o : OptionKind} {p rounds : ℕ}

/-- A numeral is recorded without white space and sign; a size of zero leaves
an empty text for the server to fill in. -/
theorem Offers.takenText (h : Offers o nv digits) (ho : o ≠ .readType) (hz : 0 ∉ nv.2) :
    takenText o nv = some (if o = .tsize ∧ nv.2 = ascii "0" then [] else digits) := by
  have text : cstr (nv.2 ++ [0]) 0 = nv.2 := cstr_of_drop rfl hz
  have fits := admits_lt ho h.value.admits
  rw [Tftp.takenText, if_pos h.name]
  rcases h.value.parts with parts | parts
  · rw [← text] at parts
    have value := parts.strtoul_eq
    have unsigned : ¬([] : Bytes) = [45] := by decide
    rw [if_neg (by omega), if_neg unsigned] at value
    rw [optionValue_decimal ho parts (by rw [value]; exact h.value.admits) fits, text,
      if_neg unsigned]
  · rw [← text] at parts
    have value := parts.strtoul_eq
    have plus : ¬([43] : Bytes) = [45] := by decide
    rw [if_neg (by omega), if_neg plus] at value
    rw [optionValue_decimal ho parts (by rw [value]; exact h.value.admits) fits, text, if_neg plus]

/-- A negated number is recorded with its sign. -/
theorem Negates.takenText (h : Negates o nv digits) (ho : o ≠ .readType) (hz : 0 ∉ nv.2) :
    takenText o nv = some (45 :: digits) := by
  have text : cstr (nv.2 ++ [0]) 0 = nv.2 := cstr_of_drop rfl hz
  have parts := h.value.parts
  have fits := h.value.fits
  rw [Tftp.takenText, if_pos h.name]
  rw [← text] at parts
  have value := parts.strtoul_eq
  rw [if_neg (by omega), if_pos rfl] at value
  rw [optionValue_decimal ho parts (by rw [value]; exact h.value.admits) fits, text, if_pos rfl,
    if_neg]
  rintro ⟨-, zero⟩
  obtain ⟨spaces, ht, -⟩ := h.value.parts.text
  have sign : (45 : UInt8) ∈ ascii "0" := by
    rw [← zero, ht]
    simp
  exact absurd sign (by decide)

/-- These are all that is recorded. -/
theorem offers_or_negates (ho : o ≠ .readType) (hz : 0 ∉ nv.2) (h : (takenText o nv).isSome) :
    (∃ digits, Offers o nv digits) ∨ ∃ digits, Negates o nv digits := by
  have text : cstr (nv.2 ++ [0]) 0 = nv.2 := cstr_of_drop rfl hz
  unfold Tftp.takenText at h
  split at h
  · rename_i name
    obtain ⟨sign, digits, parts, range, fits⟩ := decimal_of_optionValue ho (by simpa using h)
    have value := parts.strtoul_eq
    rw [if_neg (by omega)] at value
    rw [text] at parts range value
    rw [value] at range
    rcases parts.sign with rfl | rfl | rfl
    · exact .inl ⟨digits, name, .inl parts, range⟩
    · exact .inl ⟨digits, name, .inr parts, range⟩
    · exact .inr ⟨digits, name, parts, fits, range⟩
  · simp at h

/-- The walk comes by every pair, whatever follows the option string. -/
theorem walk_encode (hz : ∀ nv ∈ entries, 0 ∉ nv.1 ∧ 0 ∉ nv.2)
    (hm : memory.drop p = encodeOptions entries ++ after)
    (hr : (encodeOptions entries).length ≤ rounds) :
    (optionWalk memory (p + (encodeOptions entries).length) rounds p).map
      (fun nv => (nv.1, cstr memory nv.2)) = entries := by
  induction entries generalizing p rounds with
  | nil =>
      cases rounds with
      | zero => rfl
      | succ rounds => rw [optionWalk, if_neg (by simp [encodeOptions])]; rfl
  | cons nv entries ih =>
      obtain ⟨hn, hv⟩ := hz nv List.mem_cons_self
      rw [encodeOptions_cons] at hm hr ⊢
      have length : (nv.1 ++ 0 :: (nv.2 ++ 0 :: encodeOptions entries)).length =
          nv.1.length + 1 + nv.2.length + 1 + (encodeOptions entries).length := by
        simp only [List.length_append, List.length_cons]
        omega
      cases rounds with
      | zero => omega
      | succ rounds =>
          have name : cstr memory p = nv.1 :=
            cstr_of_drop (r := nv.2 ++ 0 :: encodeOptions entries ++ after) (by simp [hm]) hn
          have value : cstr memory (p + nv.1.length + 1) = nv.2 :=
            cstr_of_drop (OptionText.drop_value hm) hv
          have next := ih (fun nv hm => hz nv (List.mem_cons_of_mem _ hm)) (OptionText.drop_next hm)
            (show (encodeOptions entries).length ≤ rounds by omega)
          have stop : p + (nv.1.length + 1 + nv.2.length + 1 + (encodeOptions entries).length) =
              p + nv.1.length + 1 + nv.2.length + 1 + (encodeOptions entries).length := by omega
          rw [optionWalk, if_pos (by omega)]
          dsimp only
          rw [name, value, List.map_cons, value, length, stop, next]

/-- An option is set by the last pair that is taken for it. -/
theorem parse_text (hz : ∀ nv ∈ entries, 0 ∉ nv.1 ∧ 0 ∉ nv.2)
    (hm : memory.drop p = encodeOptions entries ++ after) (o : OptionKind) :
    (tftpParseOptions memory p (encodeOptions entries).length {}).texts memory o =
      (entries.filterMap (takenText o)).getLast? := by
  have rounds : (encodeOptions entries).length ≤ memory.length := by
    have length := congrArg List.length hm
    rw [List.length_drop, List.length_append] at length
    omega
  have none_ : ({} : OptionTable).get o = none := by cases o <;> rfl
  conv_rhs => rw [← walk_encode hz hm rounds]
  rw [OptionTable.texts, tftpParseOptions, parseOptionsFrom_eq, foldl_recordOption_get, none_,
    Option.or_none, recordedValues, ← List.getLast?_map, List.map_filterMap, List.filterMap_map]
  congr 2
  funext nv
  have text : cstr memory nv.2 = cstr (cstr memory nv.2 ++ [0]) 0 :=
    (cstr_of_drop (r := []) rfl (zero_notMem_cstr memory nv.2)).symm
  simp only [Function.comp, takenText]
  split
  · exact optionValue_text_congr text o
  · rfl

/-- The text of a numeric option is that of the last numeral in range for it. -/
structure SetsExactly (o : OptionKind) (entries : List (Bytes × Bytes)) (text : Option Bytes) :
    Prop where
  active : text.isSome ↔ ∃ nv ∈ entries, ∃ digits, Offers o nv digits
  last : ∀ before nv rest digits, entries = before ++ nv :: rest → Offers o nv digits →
    (∀ nv' ∈ rest, ¬∃ digits, Offers o nv' digits) →
      text = some (if o = .tsize ∧ nv.2 = ascii "0" then [] else digits)

/-- Every value with a minus sign that is taken for the option is followed by a
numeral in range for it. -/
def Overridden (o : OptionKind) (entries : List (Bytes × Bytes)) : Prop :=
  ∀ before nv rest digits, entries = before ++ nv :: rest → Negates o nv digits →
    ∃ nv' ∈ rest, ∃ digits, Offers o nv' digits

/-- The last element of a list with a property that one of them has. -/
theorem exists_last {α : Type} {P : α → Prop} {l : List α} (h : ∃ x ∈ l, P x) :
    ∃ before x rest, l = before ++ x :: rest ∧ P x ∧ ∀ y ∈ rest, ¬P y := by
  induction l with
  | nil => simp at h
  | cons x l ih =>
      by_cases later : ∃ y ∈ l, P y
      · obtain ⟨before, z, rest, rfl, hz, hrest⟩ := ih later
        exact ⟨x :: before, z, rest, rfl, hz, hrest⟩
      · obtain ⟨y, hy, hp⟩ := h
        rcases List.mem_cons.mp hy with rfl | hy
        · exact ⟨[], y, l, rfl, hp, fun z hz hpz => later ⟨z, hz, hpz⟩⟩
        · exact (later ⟨y, hy, hp⟩).elim

/-- What the pairs after the last one that is taken do not change. -/
theorem getLast?_takenText {before rest : List (Bytes × Bytes)} {text : Bytes}
    (h : takenText o nv = some text) (hr : ∀ nv' ∈ rest, takenText o nv' = none) :
    ((before ++ nv :: rest).filterMap (takenText o)).getLast? = some text := by
  have none_ : rest.filterMap (takenText o) = [] := List.filterMap_eq_nil_iff.mpr hr
  rw [List.filterMap_append, List.filterMap_cons_some h, none_]
  simp

/-- An option is set exactly as its numerals say unless a value with a minus
sign is the last that is taken. -/
theorem setsExactly_iff (ho : o ≠ .readType) (hz : ∀ nv ∈ entries, 0 ∉ nv.1 ∧ 0 ∉ nv.2) :
    SetsExactly o entries (entries.filterMap (takenText o)).getLast? ↔ Overridden o entries := by
  have taken {nv : Bytes × Bytes} {digits : Bytes} (hm : nv ∈ entries) (h : Offers o nv digits) :=
    h.takenText ho (hz nv hm).2
  have negated {nv : Bytes × Bytes} {digits : Bytes} (hm : nv ∈ entries) (h : Negates o nv digits) :=
    h.takenText ho (hz nv hm).2
  have skipped {nv : Bytes × Bytes} (hm : nv ∈ entries) (hn : ¬∃ digits, Offers o nv digits)
      (hn' : ¬∃ digits, Negates o nv digits) : takenText o nv = none := by
    by_contra h
    have some_ : (takenText o nv).isSome := Option.isSome_iff_ne_none.mpr h
    exact (offers_or_negates ho (hz nv hm).2 some_).elim hn hn'
  constructor
  · intro exact_ before nv rest digits he hneg
    by_contra none_
    -- the last pair with a minus sign is the last that is taken
    obtain ⟨middle, last, rest', hsplit, ⟨digits', hlast⟩, hrest⟩ :=
      exists_last (P := fun nv => ∃ digits, Negates o nv digits) (l := nv :: rest)
        ⟨nv, List.mem_cons_self, digits, hneg⟩
    have he' : entries = (before ++ middle) ++ last :: rest' := by
      rw [he, hsplit, List.append_assoc]
    have sub : ∀ nv' ∈ rest', nv' ∈ rest := fun nv' hm => by
      cases middle with
      | nil =>
          obtain ⟨-, rfl⟩ := List.cons_eq_cons.mp hsplit
          exact hm
      | cons m middle =>
          obtain ⟨-, rfl⟩ := List.cons_eq_cons.mp hsplit
          simp [hm]
    have value : (entries.filterMap (takenText o)).getLast? = some (45 :: digits') := by
      have after : ∀ nv' ∈ rest', takenText o nv' = none := fun nv' hm =>
        skipped (by simp [he', hm]) (fun ⟨d, h⟩ => none_ ⟨nv', sub nv' hm, d, h⟩) (hrest nv' hm)
      have own := negated (by simp [he']) hlast
      conv_lhs => rw [he']
      exact getLast?_takenText own after
    -- so an earlier numeral would have to be what is recorded
    have some_ : (entries.filterMap (takenText o)).getLast?.isSome := by
      rw [value]
      rfl
    obtain ⟨before', nv', rest'', he'', ⟨digits'', hoff⟩, hnone⟩ :=
      exists_last (P := fun nv => ∃ digits, Offers o nv digits) (exact_.active.mp some_)
    have recorded := exact_.last before' nv' rest'' digits'' he'' hoff hnone
    rw [value, Option.some.injEq] at recorded
    split at recorded
    · simp at recorded
    · have digit : isDigit 45 := by
        rcases hoff.value.parts with parts | parts
        · exact parts.digits _ (recorded ▸ List.mem_cons_self)
        · exact parts.digits _ (recorded ▸ List.mem_cons_self)
      exact absurd digit (by decide)
  · intro overridden
    have recorded (before : List (Bytes × Bytes)) (nv : Bytes × Bytes)
        (rest : List (Bytes × Bytes)) (digits : Bytes) (he : entries = before ++ nv :: rest)
        (hoff : Offers o nv digits) (hnone : ∀ nv' ∈ rest, ¬∃ digits, Offers o nv' digits) :
        (entries.filterMap (takenText o)).getLast? =
          some (if o = .tsize ∧ nv.2 = ascii "0" then [] else digits) := by
      have own := taken (by simp [he]) hoff
      have after : ∀ nv' ∈ rest, takenText o nv' = none := by
        intro nv' hm
        refine skipped (by simp [he, hm]) (hnone nv' hm) ?_
        rintro ⟨digits', hneg⟩
        obtain ⟨front, back, rfl⟩ := List.append_of_mem hm
        obtain ⟨nv'', hm'', off⟩ := overridden (before ++ nv :: front) nv' back digits' (by simp [he]) hneg
        exact hnone nv'' (by simp [hm'']) off
      conv_lhs => rw [he]
      exact getLast?_takenText own after
    refine ⟨⟨fun some_ => ?_, fun off => ?_⟩, recorded⟩
    · obtain ⟨text, htext⟩ := Option.isSome_iff_exists.mp some_
      obtain ⟨nv, hm, hnv⟩ := List.mem_filterMap.mp (List.mem_of_getLast? htext)
      rcases offers_or_negates ho (hz nv hm).2 (by simp [hnv]) with ⟨digits, off⟩ | ⟨digits, neg⟩
      · exact ⟨nv, hm, digits, off⟩
      · obtain ⟨front, back, he⟩ := List.append_of_mem hm
        obtain ⟨nv', hm', off⟩ := overridden front nv back digits he neg
        exact ⟨nv', by simp [he, hm'], off⟩
    · obtain ⟨before, nv, rest, he, ⟨digits, hoff⟩, hnone⟩ :=
        exists_last (P := fun nv => ∃ digits, Offers o nv digits) off
      rw [recorded before nv rest digits he hoff hnone]
      rfl

/-- When the values of numeric options are taken exactly. -/
theorem options_exact_iff (hz : ∀ nv ∈ entries, 0 ∉ nv.1 ∧ 0 ∉ nv.2)
    (hm : memory.drop p = encodeOptions entries ++ after) :
    (∀ o : OptionKind, o ≠ .readType → SetsExactly o entries
      ((tftpParseOptions memory p (encodeOptions entries).length {}).texts memory o)) ↔
    ∀ o : OptionKind, o ≠ .readType → Overridden o entries := by
  refine forall_congr' fun o => imp_congr_right fun ho => ?_
  rw [parse_text hz hm]
  exact setsExactly_iff ho hz

end

/-- Only the sign of a number is a minus sign. -/
theorem Decimal.minus {sign digits text : Bytes} (h : Decimal sign digits text) (hm : 45 ∈ text) :
    sign = [45] := by
  obtain ⟨spaces, rfl, hs⟩ := h.text
  rcases List.mem_append.mp hm with hm | hm
  · exact absurd (hs 45 hm) (by decide)
  · rcases List.mem_append.mp hm with hm | hm
    · rcases h.sign with rfl | rfl | rfl
      · simp at hm
      · exact absurd hm (by decide)
      · rfl
    · exact absurd (h.digits 45 hm) (by decide)

/-- A request with two sizes. -/
def twoSizes : List (Bytes × Bytes) := [(ascii "tsize", ascii "-5"), (ascii "TSIZE", ascii " +7")]

theorem twoSizes_overridden (o : OptionKind) : Overridden o twoSizes := by
  intro before nv rest digits he hneg
  have seven : decimal (ascii "7") = 7 := by decide
  have second : Offers .tsize (ascii "TSIZE", ascii " +7") (ascii "7") :=
    ⟨by decide, .inr ⟨⟨[32], by decide, List.forall_mem_singleton.mpr rfl⟩, .inr (.inl rfl),
      by decide, List.forall_mem_singleton.mpr rfl⟩,
      show decimal (ascii "7") < 2 ^ 64 by omega⟩
  cases before with
  | nil =>
      obtain ⟨rfl, rfl⟩ := List.cons_eq_cons.mp he
      have name := hneg.name
      obtain rfl : o = .tsize := by cases o <;> first | rfl | exact absurd name (by decide)
      exact ⟨_, List.mem_cons_self, _, second⟩
  | cons x before =>
      have later : [(ascii "TSIZE", ascii " +7")] = before ++ nv :: rest :=
        (List.cons_eq_cons.mp he).2
      cases before with
      | nil =>
          obtain ⟨rfl, rfl⟩ := List.cons_eq_cons.mp later
          obtain ⟨spaces, ht, -⟩ := hneg.value.parts.text
          have minus : (45 : UInt8) ∈ ascii " +7" := by
            rw [show ascii " +7" = _ from ht]
            simp
          exact absurd minus (by decide)
      | cons y before => simp at later

/-- The second size is the one that is recorded. -/
theorem twoSizes_exact : SetsExactly .tsize twoSizes
    ((tftpParseOptions (encodeOptions twoSizes) 0 (encodeOptions twoSizes).length {}).texts
      (encodeOptions twoSizes) .tsize) :=
  (options_exact_iff (by decide)
    (show (encodeOptions twoSizes).drop 0 = encodeOptions twoSizes ++ [] by simp)).mpr
    (fun o _ => twoSizes_overridden o) .tsize (by decide)

/-- A size with a minus sign is taken. -/
theorem negative_size_taken :
    ¬∀ (memory after : Bytes) (entries : List (Bytes × Bytes)) (p : ℕ),
      (∀ nv ∈ entries, 0 ∉ nv.1 ∧ 0 ∉ nv.2) → memory.drop p = encodeOptions entries ++ after →
      ∀ o : OptionKind, o ≠ .readType → SetsExactly o entries
        ((tftpParseOptions memory p (encodeOptions entries).length {}).texts memory o) := by
  intro h
  have sets := h (encodeOptions [(ascii "tsize", ascii "-5")]) [] [(ascii "tsize", ascii "-5")] 0
    (by decide) (by simp) .tsize (by decide)
  obtain ⟨nv, hm, digits, off⟩ := sets.active.mp (by decide)
  obtain rfl := List.mem_singleton.mp hm
  rcases off.value.parts with parts | parts
  · exact absurd (parts.minus (by decide)) (by decide)
  · exact absurd (parts.minus (by decide)) (by decide)

end Tftp
