import Mathlib.Data.List.Induction
import Tftp.OptionReads
import Tftp.OptionValues

/-!
# How long formatted options are

`tftp_format_options` and `tftp_format_option_strings` write into buffers of
`tftp_option_formatted_string_max_size` bytes. The length of what they write is
compared with that of the option string it comes from.
-/

namespace Tftp

/-- `tftp_option_formatted_string_max_size` -/
def optionFormattedStringMaxSize : ℕ := (requestPacketMaxSize - 2 - 4) * 2 - 1

/-- The loop of `tftp_format_options`. -/
def formatOptionsFrom (memory : Bytes) (table : OptionTable) : List OptionKind → Bytes
  | [] => []
  | o :: later =>
      match table.get o with
      | none => formatOptionsFrom memory table later
      | some v =>
          o.string ++ ascii ":" ++ v.text memory ++
            (if later.any table.isActive then ascii ", " else []) ++
            formatOptionsFrom memory table later

/-- `tftp_format_options` -/
def tftpFormatOptions (memory : Bytes) (table : OptionTable) : Bytes :=
  ascii "[" ++ formatOptionsFrom memory table OptionKind.all ++ ascii "]"

/-- The text and its terminator fit in the buffer. -/
def FitsBuffer (text : Bytes) : Prop := text.length + 1 ≤ optionFormattedStringMaxSize

/-! ## The size of a table -/

/-- What an option takes in an option string. -/
def entrySize (o : OptionKind) (text : Option Bytes) : ℕ :=
  (text.map fun t => o.string.length + t.length + 2).getD 0

@[simp] theorem entrySize_none (o : OptionKind) : entrySize o none = 0 := rfl

@[simp] theorem entrySize_some (o : OptionKind) (t : Bytes) :
    entrySize o (some t) = o.string.length + t.length + 2 := rfl

def textsSize (texts : OptionKind → Option Bytes) (kinds : List OptionKind) : ℕ :=
  (kinds.map fun o => entrySize o (texts o)).sum

def activeCount (texts : OptionKind → Option Bytes) (kinds : List OptionKind) : ℕ :=
  kinds.countP fun o => (texts o).isSome

section

variable {memory : Bytes} {table : OptionTable} {kinds : List OptionKind}
  {texts : OptionKind → Option Bytes} {o : OptionKind} {t : Bytes}

theorem isActive_texts (memory : Bytes) (table : OptionTable) (o : OptionKind) :
    (table.texts memory o).isSome = table.isActive o := by
  rw [OptionTable.texts, Option.isSome_map, OptionTable.isActive]

/-- Each option is followed by a colon and, but for the last one, a separator. -/
theorem length_formatOptionsFrom (memory : Bytes) (table : OptionTable) (kinds : List OptionKind) :
    (formatOptionsFrom memory table kinds).length + (if kinds.any table.isActive then 2 else 0) =
      textsSize (table.texts memory) kinds + activeCount (table.texts memory) kinds := by
  induction kinds with
  | nil => rfl
  | cons o kinds ih =>
      have active := isActive_texts memory table o
      have count := List.countP_cons (p := fun o => (table.texts memory o).isSome) (a := o) (l := kinds)
      rw [formatOptionsFrom, activeCount, count, textsSize, List.map_cons, List.sum_cons, List.any_cons]
      rw [activeCount, textsSize] at ih
      cases hv : table.get o with
      | none =>
          have none_ : table.texts memory o = none := by rw [OptionTable.texts, hv]; rfl
          rw [none_] at active ⊢
          rw [← active, entrySize_none]
          simpa using ih
      | some v =>
          have some_ : table.texts memory o = some (v.text memory) := by
            rw [OptionTable.texts, hv]
            rfl
          rw [some_] at active ⊢
          rw [← active, entrySize_some]
          have colon : (ascii ":").length = 1 := rfl
          have comma : (ascii ", ").length = 2 := rfl
          simp only [List.length_append, Option.isSome_some, Bool.true_or, if_true, colon]
          split at ih
          · rename_i more
            rw [if_pos more, comma]
            omega
          · rename_i last
            rw [if_neg last, List.length_nil]
            omega

/-- The brackets and the terminator come on top. -/
theorem length_tftpFormatOptions (memory : Bytes) (table : OptionTable) :
    (tftpFormatOptions memory table).length + (if OptionKind.all.any table.isActive then 2 else 0) =
      textsSize (table.texts memory) OptionKind.all +
        activeCount (table.texts memory) OptionKind.all + 2 := by
  have inner := length_formatOptionsFrom memory table OptionKind.all
  have opening : (ascii "[").length = 1 := rfl
  have closing : (ascii "]").length = 1 := rfl
  rw [tftpFormatOptions, List.length_append, List.length_append, opening, closing]
  omega

theorem length_tftpFormatOptions_le (memory : Bytes) (table : OptionTable) :
    (tftpFormatOptions memory table).length ≤
      textsSize (table.texts memory) OptionKind.all + 5 := by
  have length := length_tftpFormatOptions memory table
  have few : activeCount (table.texts memory) OptionKind.all ≤ 5 := List.countP_le_length
  split at length
  · omega
  · rename_i none_
    have zero : activeCount (table.texts memory) OptionKind.all = 0 := by
      rw [activeCount, List.countP_eq_zero]
      intro o ho active
      rw [isActive_texts] at active
      exact none_ (List.any_eq_true.mpr ⟨o, ho, active⟩)
    omega

/-- A text for an option adds what the option then takes, at most. -/
theorem textsSize_update (texts : OptionKind → Option Bytes) (o : OptionKind) (t : Bytes) :
    textsSize (Function.update texts o (some t)) OptionKind.all =
      textsSize (Function.update texts o none) OptionKind.all + (o.string.length + t.length + 2) := by
  cases o <;> simp [textsSize, OptionKind.all, Function.update] <;> omega

theorem textsSize_forget (texts : OptionKind → Option Bytes) (o : OptionKind) :
    textsSize (Function.update texts o none) OptionKind.all ≤ textsSize texts OptionKind.all := by
  cases o <;> simp [textsSize, OptionKind.all, Function.update]

end

/-! ## The options of an option string -/

section

variable {memory after : Bytes} {entries : List (Bytes × Bytes)} {nv : Bytes × Bytes}
  {o : OptionKind} {t : Bytes} {p stop rounds : ℕ}

theorem length_of_strcaseEq {a b : Bytes} (h : strcaseEq a b) : a.length = b.length := by
  have same : a.map toLower = b.map toLower := by simpa [strcaseEq] using h
  simpa using congrArg List.length same

/-- The text that is taken is not longer than the value. -/
theorem length_takenText (hz : 0 ∉ nv.2) (h : takenText o nv = some t) :
    o.string.length + t.length ≤ nv.1.length + nv.2.length := by
  unfold takenText at h
  split at h
  · rename_i name
    have text : cstr (nv.2 ++ [0]) 0 = nv.2 := cstr_of_drop rfl hz
    obtain ⟨v, hv, rfl⟩ := Option.map_eq_some_iff.mp h
    have shorter : (v.text (nv.2 ++ [0])).length ≤ nv.2.length := by
      have stripped := text_stripped (nv.2 ++ [0]) 0
      rw [text] at stripped
      have le := (List.dropWhile_suffix (l := nv.2) fun b => isSpace b || b == 43).length_le
      unfold optionValue at hv
      rw [text] at hv
      cases o with
      | readType =>
          obtain ⟨-, he⟩ := Option.ite_none_right_eq_some.mp hv
          obtain rfl := Option.some.inj he
          rw [OptionValue.text, text]
      | tsize =>
          dsimp only at hv
          split at hv
          · obtain rfl := Option.some.inj hv
            exact Nat.zero_le _
          · obtain ⟨-, he⟩ := Option.ite_none_right_eq_some.mp hv
            obtain rfl := Option.some.inj he
            rwa [stripped]
      | _ =>
          obtain ⟨-, he⟩ := Option.ite_none_right_eq_some.mp hv
          obtain rfl := Option.some.inj he
          rwa [stripped]
    rw [length_of_strcaseEq name]
    omega
  · simp at h

/-- The texts of the options in an option string. -/
def lastTexts (entries : List (Bytes × Bytes)) (o : OptionKind) : Option Bytes :=
  (entries.filterMap (takenText o)).getLast?

/-- A name is that of one option at most. -/
theorem takenText_unique {o o' : OptionKind} (ho : strcaseEq nv.1 o.string) (hne : o' ≠ o) :
    takenText o' nv = none := by
  rw [takenText, if_neg]
  intro ho'
  have same := ((find_kind_iff nv.1 o).mpr ho).symm.trans ((find_kind_iff nv.1 o').mpr ho')
  exact hne (Option.some.inj same).symm

/-- Another pair sets at most one option. -/
theorem lastTexts_snoc (entries : List (Bytes × Bytes)) (nv : Bytes × Bytes) :
    lastTexts (entries ++ [nv]) = lastTexts entries ∨
      ∃ o t, takenText o nv = some t ∧
        lastTexts (entries ++ [nv]) = Function.update (lastTexts entries) o (some t) := by
  by_cases taken : ∃ o t, takenText o nv = some t
  · obtain ⟨o, t, ht⟩ := taken
    have name : strcaseEq nv.1 o.string := by
      by_contra other
      rw [takenText, if_neg other] at ht
      simp at ht
    refine .inr ⟨o, t, ht, ?_⟩
    funext o'
    rw [lastTexts, List.filterMap_append]
    by_cases ho : o' = o
    · subst ho
      simp [ht]
    · rw [Function.update_of_ne ho, lastTexts]
      simp [takenText_unique name ho]
  · refine .inl ?_
    funext o
    have none_ : takenText o nv = none := by
      cases ht : takenText o nv with
      | none => rfl
      | some t => exact (taken ⟨o, t, ht⟩).elim
    rw [lastTexts, lastTexts, List.filterMap_append]
    simp [none_]

/-- The options take no more than the option string they are read from. -/
theorem textsSize_lastTexts (hz : ∀ nv ∈ entries, 0 ∉ nv.1 ∧ 0 ∉ nv.2) :
    textsSize (lastTexts entries) OptionKind.all ≤ (encodeOptions entries).length := by
  induction entries using List.reverseRecOn with
  | nil => exact Nat.le_refl _
  | append_singleton entries nv ih =>
      have before := ih fun nv hm => hz nv (List.mem_append_left _ hm)
      rw [length_encodeOptions] at before ⊢
      rw [List.map_append, List.sum_append, List.map_singleton, List.sum_singleton]
      rcases lastTexts_snoc entries nv with same | ⟨o, t, ht, he⟩
      · rw [same]
        omega
      · have shorter := length_takenText (hz nv (by simp)).2 ht
        have forget := textsSize_forget (lastTexts entries) o
        rw [he, textsSize_update]
        omega

/-- So do they with an adaptive timeout, if it is asked for there. -/
theorem textsSize_adaptive (hz : ∀ nv ∈ entries, 0 ∉ nv.1 ∧ 0 ∉ nv.2) (hm : nv ∈ entries)
    (hname : strcaseEq nv.1 OptionKind.timeout.string)
    (hvalue : strcaseEq nv.2 (ascii "adaptive")) :
    textsSize (Function.update (lastTexts entries) .timeout (some (ascii "adaptive")))
      OptionKind.all ≤ (encodeOptions entries).length := by
  obtain ⟨before, rest, rfl⟩ := List.mem_iff_append.mp hm
  -- without this pair only the timeout may change
  have others : Function.update (lastTexts (before ++ nv :: rest)) .timeout none =
      Function.update (lastTexts (before ++ rest)) .timeout none := by
    funext o
    by_cases ho : o = .timeout
    · subst ho
      rw [Function.update_self, Function.update_self]
    · rw [Function.update_of_ne ho, Function.update_of_ne ho, lastTexts, lastTexts,
        List.filterMap_append, List.filterMap_append, List.filterMap_cons,
        takenText_unique hname ho]
  have others_zero : ∀ nv ∈ before ++ rest, 0 ∉ nv.1 ∧ 0 ∉ nv.2 := by
    intro nv hm
    rcases List.mem_append.mp hm with hm | hm
    · exact hz nv (List.mem_append_left _ hm)
    · exact hz nv (List.mem_append_right _ (List.mem_cons_of_mem _ hm))
  have size := textsSize_lastTexts others_zero
  have forget := textsSize_forget (lastTexts (before ++ rest)) .timeout
  have name := length_of_strcaseEq hname
  have value := length_of_strcaseEq hvalue
  rw [length_encodeOptions] at size ⊢
  rw [textsSize_update, others]
  simp only [List.map_append, List.sum_append, List.map_cons, List.sum_cons] at size ⊢
  omega

/-- The strings of an option string are printed with one byte more for each
pair, but for the last one. -/
theorem length_formatOptionStrings (hz : ∀ nv ∈ entries, 0 ∉ nv.1 ∧ 0 ∉ nv.2)
    (hm : memory.drop p = encodeOptions entries ++ after)
    (hstop : stop = p + (encodeOptions entries).length) :
    2 * (formatOptionStringsFrom memory stop rounds p).length ≤
      3 * (encodeOptions entries).length := by
  induction rounds generalizing p entries with
  | zero => exact Nat.zero_le _
  | succ rounds ih =>
      rw [formatOptionStringsFrom]
      dsimp only
      split
      · cases entries with
        | nil =>
            rename_i more
            simp only [encodeOptions, List.flatMap_nil, List.length_nil] at hstop
            omega
        | cons nv entries =>
            obtain ⟨hn, hv⟩ := hz nv List.mem_cons_self
            rw [encodeOptions_cons] at hm hstop ⊢
            have name : cstr memory p = nv.1 :=
              cstr_of_drop (r := nv.2 ++ 0 :: encodeOptions entries ++ after) (by simp [hm]) hn
            have first : stringEnd memory p = p + nv.1.length + 1 := by rw [stringEnd, name]
            have value : cstr memory (stringEnd memory p) = nv.2 := by
              rw [first]
              exact cstr_of_drop (OptionText.drop_value hm) hv
            have second : stringEnd memory (stringEnd memory p) =
                p + nv.1.length + 1 + nv.2.length + 1 := by
              rw [stringEnd, value, first]
            simp only [List.length_append, List.length_cons] at hstop ⊢
            have later := ih (fun nv hm => hz nv (List.mem_cons_of_mem _ hm))
              (OptionText.drop_next hm) (by omega)
            have colon : (ascii ":").length = 1 := rfl
            have comma : (ascii ", ").length = 2 := rfl
            rw [second, name, value, colon]
            split
            · rename_i more
              rw [comma]
              omega
            · rw [List.length_nil]
              omega
      · exact Nat.zero_le _

end

end Tftp
