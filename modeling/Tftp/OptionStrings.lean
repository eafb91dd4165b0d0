import Tftp.Options
import Mathlib.Data.List.TakeWhile

/-!
# Option strings as lists

A request after its opcode is a list of terminated strings, and so is an OACK.
The source walks over them by position; here its walk is shown to read the
list, whatever the memory around it holds.
-/

namespace Tftp

/-! ## Terminated strings -/

/-- The terminated strings of a buffer, without what follows the last one. -/
def strings : Bytes → List Bytes
  | [] => []
  | b :: rest =>
      if b = 0 then [] :: strings rest
      else
        match strings rest with
        | [] => []
        | s :: ss => (b :: s) :: ss

/-- The elements of a list two by two. -/
def paired {α : Type} : List α → List (α × α)
  | a :: b :: l => (a, b) :: paired l
  | _ => []

theorem strings_cons {s : Bytes} (h : 0 ∉ s) (rest : Bytes) :
    strings (s ++ 0 :: rest) = s :: strings rest := by
  induction s with
  | nil => simp [strings]
  | cons b s ih =>
      simp only [List.mem_cons, not_or] at h
      obtain ⟨hb, hs⟩ := h
      rw [List.cons_append, strings, if_neg (Ne.symm hb), ih hs]

theorem strings_unterminated {s : Bytes} (h : 0 ∉ s) : strings s = [] := by
  induction s with
  | nil => rfl
  | cons b s ih =>
      simp only [List.mem_cons, not_or] at h
      obtain ⟨hb, hs⟩ := h
      rw [strings, if_neg (Ne.symm hb), ih hs]

theorem zero_notMem_cstr (memory : Bytes) (p : ℕ) : 0 ∉ cstr memory p := by
  intro h
  have nonzero := List.mem_takeWhile_imp h
  simp at nonzero

theorem cstr_of_drop {memory s r : Bytes} {p : ℕ} (h : memory.drop p = s ++ 0 :: r)
    (hs : 0 ∉ s) : cstr memory p = s := by
  have nonzero : ∀ b ∈ s, (b != 0) = true := fun b hb => by
    simpa using fun he : b = 0 => hs (he ▸ hb)
  rw [cstr, h, List.takeWhile_append_of_pos nonzero]
  simp

/-- Memory reads as zero past the end. -/
theorem cstr_of_zeros {memory s : Bytes} {p k : ℕ} (h : memory.drop p = s ++ List.replicate k 0)
    (hs : 0 ∉ s) : cstr memory p = s := by
  cases k with
  | zero =>
      rw [cstr, h, List.replicate_zero, List.append_nil, List.takeWhile_eq_self_iff]
      exact fun b hb => by simpa using fun he : b = 0 => hs (he ▸ hb)
  | succ k => exact cstr_of_drop h hs

theorem cstr_add {memory : Bytes} {p k : ℕ} (h : k ≤ (cstr memory p).length) :
    cstr memory (p + k) = (cstr memory p).drop k := by
  unfold cstr at h ⊢
  rw [← List.drop_drop]
  generalize memory.drop p = m at h ⊢
  induction k generalizing m with
  | zero => rfl
  | succ k ih =>
      cases m with
      | nil => simp
      | cons b m =>
          by_cases hb : (b != 0) = true
          · rw [List.takeWhile_cons_of_pos (p := (· != 0)) hb] at h ⊢
            exact ih m (Nat.le_of_succ_le_succ h)
          · rw [List.takeWhile_cons_of_neg (p := (· != 0)) hb] at h
            simp at h

/-! ## Numbers -/

theorem dropWhile_dropWhile {p q : UInt8 → Bool} (h : ∀ b, q b → p b) (s : Bytes) :
    (s.dropWhile q).dropWhile p = s.dropWhile p := by
  induction s with
  | nil => rfl
  | cons b s ih =>
      by_cases hq : q b
      · rw [List.dropWhile_cons_of_pos hq, ih, List.dropWhile_cons_of_pos (h b hq)]
      · rw [List.dropWhile_cons_of_neg hq]

theorem isDigit_toNat {b : UInt8} (h : isDigit b) : 48 ≤ b.toNat ∧ b.toNat ≤ 57 := by
  simpa [isDigit, UInt8.le_iff_toNat_le] using h

/-- A digit is neither white space nor a sign. -/
theorem digit_not_stripped {b : UInt8} (h : isDigit b) :
    isSpace b = false ∧ b ≠ 43 ∧ b ≠ 45 := by
  have bounds := isDigit_toNat h
  refine ⟨?_, ?_, ?_⟩
  · by_contra hs
    simp only [isSpace, Bool.not_eq_false, Bool.or_eq_true, beq_iff_eq, Bool.and_eq_true,
      decide_eq_true_eq, UInt8.le_iff_toNat_le] at hs
    rcases hs with rfl | ⟨-, hs⟩
    · exact absurd bounds.1 (by decide)
    · have := (show (13 : UInt8).toNat = 13 from rfl) ▸ hs
      omega
  · rintro rfl
    exact absurd bounds.1 (by decide)
  · rintro rfl
    exact absurd bounds.1 (by decide)

theorem dropWhile_of_head {p : UInt8 → Bool} {b : UInt8} {s : Bytes} (h : p b = false) :
    (b :: s).dropWhile p = b :: s := by
  rw [List.dropWhile_cons_of_neg (by simp [h])]

/-- The digits after white space and sign. -/
def numberPart (t : Bytes) : Bytes :=
  if t.head? == some 45 || t.head? == some 43 then t.tail else t

theorem digits_ne_nil {s : Bytes} (hne : s ≠ []) (h : (strtoul s).notParsed = []) :
    (numberPart (s.dropWhile isSpace)).takeWhile isDigit ≠ [] := by
  intro none_
  rw [numberPart] at none_
  simp only [strtoul, none_, if_true] at h
  exact hne h

/-- With digits to read only the text after the white space matters. -/
theorem strtoul_congr {s s' : Bytes} (hs : s.dropWhile isSpace = s'.dropWhile isSpace)
    (h : (numberPart (s.dropWhile isSpace)).takeWhile isDigit ≠ []) : strtoul s = strtoul s' := by
  rw [numberPart] at h
  simp only [strtoul, ← hs, h, if_false]

/-- A number that was parsed to its end is one without the white space and the
plus sign before it. -/
theorem strtoul_strip {s : Bytes} (hne : s ≠ []) (h : (strtoul s).notParsed = []) :
    strtoul (s.dropWhile fun b => isSpace b || b == 43) = strtoul s := by
  have digits := digits_ne_nil hne h
  rw [← dropWhile_dropWhile (q := isSpace) fun b hb => by simp [hb]]
  cases ht : s.dropWhile isSpace with
  | nil => simp [ht, numberPart] at digits
  | cons b t =>
      have hb : isSpace b = false := by
        have head := List.dropWhile_get_zero_not isSpace s (by simp [ht])
        simpa [ht] using head
      have same : (b :: t).dropWhile isSpace = b :: t := dropWhile_of_head hb
      by_cases plus : b = 43
      · subst plus
        rw [ht, numberPart, if_pos (by simp)] at digits
        cases t with
        | nil => simp at digits
        | cons d t =>
            have hd : isDigit d := by
              by_contra hd
              simp [List.takeWhile_cons_of_neg hd] at digits
            obtain ⟨hspace, hplus, hminus⟩ := digit_not_stripped hd
            rw [List.dropWhile_cons_of_pos (by simp), dropWhile_of_head (by simp [hspace, hplus])]
            have bare : (d :: t).dropWhile isSpace = d :: t := dropWhile_of_head hspace
            simp [strtoul, ht, bare, hplus, hminus, List.takeWhile_cons_of_pos hd]
      · rw [dropWhile_of_head (by simp [hb, plus])]
        refine strtoul_congr (same.trans ht.symm) ?_
        rw [same, ← ht]
        exact digits

/-! ## Values -/

theorem drop_takeWhile_length (p : UInt8 → Bool) (s : Bytes) :
    s.drop (s.takeWhile p).length = s.dropWhile p := by
  calc s.drop (s.takeWhile p).length
      = (s.takeWhile p ++ s.dropWhile p).drop (s.takeWhile p).length := by
        rw [List.takeWhile_append_dropWhile]
    _ = s.dropWhile p := List.drop_left

/-- The numbers `tftp_parse_options` takes for an option. -/
def OptionKind.InRange : OptionKind → ℕ → Prop
  | .blksize, n => 8 ≤ n ∧ n ≤ 65464
  | .timeout, n => 1 ≤ n ∧ n ≤ 255
  | .windowsize, n => 1 ≤ n ∧ n ≤ 65535
  | _, _ => True

/-- The text of a number recorded in place. -/
theorem text_stripped (memory : Bytes) (val : ℕ) :
    (OptionValue.inPlace (val + ((cstr memory val).takeWhile fun b =>
      isSpace b || b == 43).length)).text memory =
      (cstr memory val).dropWhile fun b => isSpace b || b == 43 := by
  rw [OptionValue.text, cstr_add (List.takeWhile_prefix _).length_le, drop_takeWhile_length]

/-- A recorded number reads as the text it was accepted for. -/
theorem optionValue_number {memory : Bytes} {o : OptionKind} {val : ℕ} {v : OptionValue}
    (ho : o ≠ .readType) (h : optionValue memory o val = some v) :
    (strtoul (v.text memory)).notParsed = [] ∧
      (strtoul (v.text memory)).value = (strtoul (cstr memory val)).value ∧
      o.InRange (strtoul (cstr memory val)).value := by
  have stripped (hne : cstr memory val ≠ []) (hp : (strtoul (cstr memory val)).notParsed = []) :
      (strtoul ((OptionValue.inPlace (val + ((cstr memory val).takeWhile fun b =>
        isSpace b || b == 43).length)).text memory)) = strtoul (cstr memory val) := by
    rw [text_stripped, strtoul_strip hne hp]
  unfold optionValue at h
  cases o with
  | readType => exact (ho rfl).elim
  | tsize =>
      dsimp only at h
      split at h
      · rename_i zero
        cases h
        rw [zero]
        exact ⟨rfl, rfl, trivial⟩
      · obtain ⟨⟨hne, hp⟩, -⟩ := (Option.ite_none_right_eq_some.mp h).1
        obtain ⟨-, rfl⟩ := Option.ite_none_right_eq_some.mp h |>.imp_right Option.some.inj
        rw [stripped hne hp]
        exact ⟨hp, rfl, trivial⟩
  | _ =>
      obtain ⟨⟨⟨hne, hp⟩, range⟩, he⟩ := Option.ite_none_right_eq_some.mp h
      obtain rfl := Option.some.inj he
      rw [stripped hne hp]
      exact ⟨hp, rfl, range⟩

/-- An empty value is never taken. -/
theorem optionValue_empty {memory : Bytes} {val : ℕ} (h : cstr memory val = []) (o : OptionKind) :
    optionValue memory o val = none := by
  cases o <;> simp [optionValue, h] <;> decide

/-- Whether a value is taken, and as what number, depends on its text. -/
theorem optionValue_congr {memory memory' : Bytes} {val val' : ℕ}
    (h : cstr memory val = cstr memory' val') (o : OptionKind) :
    (optionValue memory o val).isSome = (optionValue memory' o val').isSome := by
  unfold optionValue
  rw [h]
  cases o <;> dsimp only <;> repeat' split
  all_goals rfl

/-! ## The walk over an option string -/

/-- The names the loop of `tftp_parse_options` comes by, and where their values
start. -/
def optionWalk (memory : Bytes) (stop : ℕ) : ℕ → ℕ → List (Bytes × ℕ)
  | 0, _ => []
  | rounds + 1, option =>
      if option + 1 < stop then
        let name := cstr memory option
        let val := option + name.length + 1
        (name, val) :: optionWalk memory stop rounds (val + (cstr memory val).length + 1)
      else []

/-- What the loop does for one of them. -/
def recordOption (memory : Bytes) (table : OptionTable) (nv : Bytes × ℕ) : OptionTable :=
  match OptionKind.all.find? fun o => strcaseEq nv.1 o.string with
  | none => table
  | some o =>
      match optionValue memory o nv.2 with
      | none => table
      | some v => table.set o (some v)

theorem parseOptionsFrom_eq (memory : Bytes) (stop rounds p : ℕ) (table : OptionTable) :
    parseOptionsFrom memory stop rounds p table =
      (optionWalk memory stop rounds p).foldl (recordOption memory) table := by
  induction rounds generalizing p table with
  | zero => rfl
  | succ rounds ih =>
      rw [parseOptionsFrom, optionWalk]
      split
      · exact ih _ _
      · rfl

theorem hasAdaptiveTimeoutFrom_eq (memory : Bytes) (stop rounds p : ℕ) :
    hasAdaptiveTimeoutFrom memory stop rounds p = (optionWalk memory stop rounds p).any fun nv =>
      strcaseEq nv.1 OptionKind.timeout.string &&
        strcaseEq (cstr memory nv.2) (ascii "adaptive") := by
  induction rounds generalizing p with
  | zero => rfl
  | succ rounds ih =>
      rw [hasAdaptiveTimeoutFrom, optionWalk]
      split
      · dsimp only
        rw [List.any_cons, ← ih]
        split <;> simp_all
      · rfl

/-! ### What is recorded -/

theorem strcaseEq_string (o o' : OptionKind) :
    strcaseEq o.string o'.string = decide (o = o') := by
  cases o <;> cases o' <;> decide

/-- A name is that of one option at most. -/
theorem find_kind_iff (name : Bytes) (o : OptionKind) :
    (OptionKind.all.find? fun o => strcaseEq name o.string) = some o ↔
      strcaseEq name o.string := by
  have named (h : strcaseEq name o.string) (o' : OptionKind) :
      strcaseEq name o'.string = decide (o = o') := by
    rw [← strcaseEq_string o o']
    simp only [strcaseEq, beq_iff_eq] at h ⊢
    rw [h]
  constructor
  · intro h
    simpa using List.find?_some (p := fun o : OptionKind => strcaseEq name o.string) h
  · intro h
    simp only [named h]
    cases o <;> rfl

@[simp] theorem OptionTable.get_set (t : OptionTable) (o o' : OptionKind)
    (v : Option OptionValue) : (t.set o v).get o' = if o' = o then v else t.get o' := by
  cases o <;> cases o' <;> rfl

/-- The values taken for an option, in the order of the walk. -/
def recordedValues (memory : Bytes) (o : OptionKind) (walk : List (Bytes × ℕ)) :
    List OptionValue :=
  walk.filterMap fun nv => if strcaseEq nv.1 o.string then optionValue memory o nv.2 else none

theorem recordOption_get (memory : Bytes) (table : OptionTable) (nv : Bytes × ℕ)
    (o : OptionKind) : (recordOption memory table nv).get o =
      (if strcaseEq nv.1 o.string then optionValue memory o nv.2 else none).or (table.get o) := by
  unfold recordOption
  cases hf : OptionKind.all.find? fun o => strcaseEq nv.1 o.string with
  | none =>
      have other : ¬strcaseEq nv.1 o.string := by
        rw [← find_kind_iff, hf]
        simp
      simp [other]
  | some o' =>
      have same : strcaseEq nv.1 o.string ↔ o = o' := by
        rw [← find_kind_iff, hf]
        simp [eq_comm]
      dsimp only
      by_cases ho : o = o'
      · subst ho
        rw [if_pos (same.mpr rfl)]
        cases optionValue memory o nv.2 <;> simp
      · rw [if_neg (fun h => ho (same.mp h)), Option.none_or]
        cases optionValue memory o' nv.2 <;> simp [ho]

/-- The last value taken for an option is the one that stays. -/
theorem foldl_recordOption_get (memory : Bytes) (walk : List (Bytes × ℕ)) (table : OptionTable)
    (o : OptionKind) : (walk.foldl (recordOption memory) table).get o =
      (recordedValues memory o walk).getLast?.or (table.get o) := by
  induction walk generalizing table with
  | nil => rfl
  | cons nv walk ih =>
      rw [List.foldl_cons, ih, recordOption_get, recordedValues, recordedValues,
        List.filterMap_cons]
      cases h : if strcaseEq nv.1 o.string then optionValue memory o nv.2 else none with
      | none => rw [Option.none_or]
      | some v =>
          cases walk.filterMap fun nv =>
            if strcaseEq nv.1 o.string then optionValue memory o nv.2 else none with
          | nil => rfl
          | cons v' vs =>
              rw [List.getLast?_cons_cons, List.getLast?_eq_some_getLast (List.cons_ne_nil v' vs)]
              rfl

/-! ## Option strings of a request -/

/-- Names and values, and at the end at most a byte or a name without its
terminator. -/
inductive OptionText : Bytes → List (Bytes × Bytes) → Prop where
  | short {rest : Bytes} : rest.length ≤ 1 → OptionText rest []
  | unterminated {rest : Bytes} : 2 ≤ rest.length → 0 ∉ rest → OptionText rest [(rest, [])]
  | cons {name val rest : Bytes} {pairs : List (Bytes × Bytes)} : 0 ∉ name → 0 ∉ val →
      OptionText rest pairs → OptionText (name ++ 0 :: (val ++ 0 :: rest)) ((name, val) :: pairs)

namespace OptionText

variable {rest memory : Bytes} {pairs : List (Bytes × Bytes)} {p k : ℕ}

/-- An option with a value is a pair of strings. -/
theorem mem_strings (h : OptionText rest pairs) {nv : Bytes × Bytes} (hm : nv ∈ pairs)
    (hv : nv.2 ≠ []) : nv ∈ paired (strings rest) := by
  induction h with
  | short => simp at hm
  | unterminated => simp_all
  | cons hn hz _ ih =>
      rw [strings_cons hn, strings_cons hz, paired]
      rcases List.mem_cons.mp hm with rfl | hm
      · exact List.mem_cons_self
      · exact List.mem_cons_of_mem _ (ih hm)

theorem drop_value {name val rest zeros : Bytes}
    (hm : memory.drop p = name ++ 0 :: (val ++ 0 :: rest) ++ zeros) :
    memory.drop (p + name.length + 1) = val ++ 0 :: (rest ++ zeros) := by
  rw [Nat.add_assoc, ← List.drop_drop, hm]
  simp [List.append_assoc]

theorem drop_next {name val rest zeros : Bytes}
    (hm : memory.drop p = name ++ 0 :: (val ++ 0 :: rest) ++ zeros) :
    memory.drop (p + name.length + 1 + val.length + 1) = rest ++ zeros := by
  rw [Nat.add_assoc _ val.length, ← List.drop_drop, drop_value hm]
  simp

/-- The walk comes by every name, and finds the values. -/
theorem walk_eq (h : OptionText rest pairs) (hm : memory.drop p = rest ++ List.replicate k 0)
    {rounds : ℕ} (hr : rest.length ≤ rounds) :
    (optionWalk memory (p + rest.length) rounds p).map (fun nv => (nv.1, cstr memory nv.2)) =
      pairs := by
  induction h generalizing p rounds with
  | @short rest hle =>
      cases rounds with
      | zero => rfl
      | succ rounds => rw [optionWalk, if_neg (by omega)]; rfl
  | @unterminated rest hle hz =>
      cases rounds with
      | zero => omega
      | succ rounds =>
          have name : cstr memory p = rest := cstr_of_zeros hm hz
          -- the value is read from the zeros after the request
          have val : cstr memory (p + rest.length + 1) = [] := by
            refine cstr_of_zeros (k := k - 1) ?_ (by simp)
            rw [Nat.add_assoc, ← List.drop_drop, hm]
            simp
          have past (rounds q : ℕ) (hq : p + rest.length ≤ q) :
              optionWalk memory (p + rest.length) rounds q = [] := by
            cases rounds with
            | zero => rfl
            | succ rounds => rw [optionWalk, if_neg (by omega)]
          rw [optionWalk, if_pos (by omega)]
          dsimp only
          rw [name, past _ _ (by omega), List.map_cons, val, List.map_nil]
  | @cons name val rest pairs hn hv _ ih =>
      cases rounds with
      | zero => simp at hr
      | succ rounds =>
          have hname : cstr memory p = name := by
            refine cstr_of_drop (r := val ++ 0 :: rest ++ List.replicate k 0) ?_ hn
            rw [hm]
            simp
          have hval : cstr memory (p + name.length + 1) = val := cstr_of_drop (drop_value hm) hv
          have length : (name ++ 0 :: (val ++ 0 :: rest)).length =
              name.length + 1 + val.length + 1 + rest.length := by
            simp only [List.length_append, List.length_cons]
            omega
          have next := ih (drop_next hm) (show rest.length ≤ rounds by omega)
          rw [optionWalk, if_pos (by omega)]
          dsimp only
          have stop : p + (name.length + 1 + val.length + 1 + rest.length) =
              p + name.length + 1 + val.length + 1 + rest.length := by omega
          rw [hname, hval, List.map_cons, hval, length, stop, next]

theorem length_le (hm : memory.drop p = rest ++ List.replicate k 0) :
    rest.length ≤ memory.length := by
  have length := congrArg List.length hm
  rw [List.length_drop, List.length_append] at length
  omega

theorem parse_get (table : OptionTable) (o : OptionKind) : (tftpParseOptions memory p rest.length table).get o =
      (recordedValues memory o (optionWalk memory (p + rest.length) memory.length p)).getLast?.or
        (table.get o) := by
  rw [tftpParseOptions, parseOptionsFrom_eq, foldl_recordOption_get]

/-- An active option was in the table before, or the option string has it. -/
theorem get_some (h : OptionText rest pairs) (hm : memory.drop p = rest ++ List.replicate k 0)
    {table : OptionTable} {o : OptionKind} {v : OptionValue}
    (hv : (tftpParseOptions memory p rest.length table).get o = some v) :
    table.get o = some v ∨ ∃ nv ∈ pairs, strcaseEq nv.1 o.string ∧
      ∃ q, cstr memory q = nv.2 ∧ optionValue memory o q = some v := by
  rw [parse_get, Option.or_eq_some_iff] at hv
  rcases hv with hv | ⟨-, hv⟩
  · obtain ⟨nv, hmem, he⟩ := List.mem_filterMap.mp (List.mem_of_getLast? hv)
    obtain ⟨hname, hvalue⟩ := Option.ite_none_right_eq_some.mp he
    refine .inr ⟨(nv.1, cstr memory nv.2), ?_, hname, nv.2, rfl, hvalue⟩
    rw [← h.walk_eq hm (length_le hm)]
    exact List.mem_map_of_mem hmem
  · exact .inl hv

/-- An option the string has with a value that is taken is active. -/
theorem get_isSome (h : OptionText rest pairs) (hm : memory.drop p = rest ++ List.replicate k 0)
    (table : OptionTable) {o : OptionKind} {e : Bytes × Bytes} (he : e ∈ pairs)
    (hname : strcaseEq e.1 o.string) (htaken : (optionValue (e.2 ++ [0]) o 0).isSome)
    (hz : 0 ∉ e.2) : ((tftpParseOptions memory p rest.length table).get o).isSome := by
  rw [← h.walk_eq hm (length_le hm)] at he
  obtain ⟨⟨name, q⟩, hmem, rfl⟩ := List.mem_map.mp he
  have text : cstr memory q = cstr (cstr memory q ++ [0]) 0 :=
    (cstr_of_drop (r := []) rfl hz).symm
  rw [← optionValue_congr text] at htaken
  obtain ⟨v, hv⟩ := Option.isSome_iff_exists.mp htaken
  have recorded : v ∈ recordedValues memory o
      (optionWalk memory (p + rest.length) memory.length p) := by
    refine List.mem_filterMap.mpr ⟨_, hmem, ?_⟩
    rw [if_pos hname, hv]
  rw [parse_get, List.getLast?_eq_some_getLast (List.ne_nil_of_mem recorded)]
  rfl

end OptionText

/-! ## Encoded options -/

/-- The names and values of the active options, in enumeration order. -/
def optionEntries (values : OptionKind → Option Bytes) : List (Bytes × Bytes) :=
  OptionKind.all.filterMap fun o => (values o).map fun value => (o.string, value)

/-- How both parties write options down. -/
def encodeOptions (entries : List (Bytes × Bytes)) : Bytes :=
  entries.flatMap fun nv => nv.1 ++ [0] ++ nv.2 ++ [0]

theorem encodeOptions_cons (nv : Bytes × Bytes) (entries : List (Bytes × Bytes)) :
    encodeOptions (nv :: entries) = nv.1 ++ 0 :: (nv.2 ++ 0 :: encodeOptions entries) := by
  simp [encodeOptions]

theorem length_encodeOptions (entries : List (Bytes × Bytes)) : (encodeOptions entries).length =
    (entries.map fun nv => nv.1.length + 1 + (nv.2.length + 1)).sum := by
  induction entries with
  | nil => rfl
  | cons nv entries ih =>
      rw [encodeOptions_cons, List.map_cons, List.sum_cons, ← ih]
      simp only [List.length_append, List.length_cons]
      omega

theorem mem_optionEntries {values : OptionKind → Option Bytes} {nv : Bytes × Bytes} :
    nv ∈ optionEntries values ↔ ∃ o, nv.1 = o.string ∧ values o = some nv.2 := by
  have all (o : OptionKind) : o ∈ OptionKind.all := by cases o <;> decide
  constructor
  · intro h
    obtain ⟨o, -, he⟩ := List.mem_filterMap.mp h
    obtain ⟨value, hvalue, rfl⟩ := Option.map_eq_some_iff.mp he
    exact ⟨o, rfl, hvalue⟩
  · rintro ⟨o, hname, hvalue⟩
    refine List.mem_filterMap.mpr ⟨o, all o, ?_⟩
    rw [hvalue, Option.map_some, ← hname]

theorem OptionText.encode {entries : List (Bytes × Bytes)}
    (h : ∀ nv ∈ entries, 0 ∉ nv.1 ∧ 0 ∉ nv.2) : OptionText (encodeOptions entries) entries := by
  induction entries with
  | nil => exact .short (by simp [encodeOptions])
  | cons nv entries ih =>
      rw [encodeOptions_cons]
      obtain ⟨hn, hv⟩ := h nv List.mem_cons_self
      exact .cons hn hv (ih fun nv hm => h nv (List.mem_cons_of_mem _ hm))

theorem zero_notMem_string (o : OptionKind) : 0 ∉ o.string := by cases o <;> decide

/-- The texts of a table in its memory. -/
def OptionTable.texts (memory : Bytes) (table : OptionTable) (o : OptionKind) : Option Bytes :=
  (table.get o).map (OptionValue.text memory)

/-- The body of an OACK is the encoding of its table. -/
theorem optionsValues_eq (memory : Bytes) (table : OptionTable) :
    optionsValues memory table = encodeOptions (optionEntries (table.texts memory)) := by
  rw [optionsValues, optionEntries, encodeOptions]
  generalize OptionKind.all = kinds
  induction kinds with
  | nil => rfl
  | cons o kinds ih =>
      rw [List.flatMap_cons, ih, List.filterMap_cons, OptionTable.texts]
      cases table.get o <;> simp

theorem paired_strings_encode {entries : List (Bytes × Bytes)}
    (h : ∀ nv ∈ entries, 0 ∉ nv.1 ∧ 0 ∉ nv.2) :
    paired (strings (encodeOptions entries)) = entries := by
  induction entries with
  | nil => rfl
  | cons nv entries ih =>
      obtain ⟨hn, hv⟩ := h nv List.mem_cons_self
      rw [encodeOptions_cons, strings_cons hn, strings_cons hv, paired,
        ih fun nv hm => h nv (List.mem_cons_of_mem _ hm)]

end Tftp
