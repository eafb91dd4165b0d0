import Mathlib.Data.UInt
import Tftp.Lib.Checked
import Tftp.OptionValues

/-!
# What the scanners of an option string read

The scanners step from string to string with `strlen`, each with a test of its
own for the end of the option string. Here each of them has a twin over checked
memory, which is the option string with what comes before it and nothing behind
it: a string that does not end there is a fault. A twin that meets no fault
computes what the scanner does, whatever lies behind the option string.
-/

namespace Tftp

/-- The end of what `strlen` reads at `p`: one past the terminator. -/
def stringEnd (memory : Bytes) (p : ℕ) : ℕ := p + (cstr memory p).length + 1

/-- The loop of `tftp_format_option_strings`. -/
def formatOptionStringsFrom (memory : Bytes) (stop : ℕ) : ℕ → ℕ → Bytes
  | 0, _ => []
  | rounds + 1, option =>
      let value := stringEnd memory option
      if option < stop then
        let next := stringEnd memory value
        cstr memory option ++ ascii ":" ++ cstr memory value ++
          (if next < stop then ascii ", " else []) ++
          formatOptionStringsFrom memory stop rounds next
      else []

/-- `tftp_format_option_strings(n, options, formatted_options)` with `options`
at position `start`. -/
def tftpFormatOptionStrings (memory : Bytes) (start n : ℕ) : Bytes :=
  formatOptionStringsFrom memory (start + n) (memory.length + 1) start

/-- Two options are separated by a comma. -/
example : tftpFormatOptionStrings (ascii "a" ++ [0] ++ ascii "1" ++ [0] ++ ascii "b" ++ [0, 0]) 0 7 =
    ascii "a:1, b:" := by
  decide

/-! ## The scanners over checked memory -/

namespace Scan

open Checked

/-- The C string at position `p`, read up to its terminator. -/
def cstr (memory : Bytes) (p : ℕ) : Except Fault Bytes := string (memory.drop p)

/-- The loop of `tftp_parse_options`. Both strings of a round are read to their
ends by its `strlen`, and a value lies in the string it is taken from. -/
def parseOptionsFrom (memory : Bytes) (stop : ℕ) : ℕ → ℕ → OptionTable → Except Fault OptionTable
  | 0, _, table => .ok table
  | rounds + 1, option, table =>
      if option + 1 < stop then do
        let name ← cstr memory option
        let val := option + name.length + 1
        let text ← cstr memory val
        let table' :=
          match OptionKind.all.find? fun o => strcaseEq name o.string with
          | none => table
          | some o =>
              match optionValue memory o val with
              | none => table
              | some v => table.set o (some v)
        parseOptionsFrom memory stop rounds (val + text.length + 1) table'
      else .ok table

/-- `tftp_parse_options` -/
def tftpParseOptions (memory : Bytes) (start n : ℕ) (table : OptionTable) :
    Except Fault OptionTable :=
  parseOptionsFrom memory (start + n) memory.length start table

/-- The second scan of `parse_options` and of `handle_oack_packet`. -/
def hasAdaptiveTimeoutFrom (memory : Bytes) (stop : ℕ) : ℕ → ℕ → Except Fault Bool
  | 0, _ => .ok false
  | rounds + 1, option =>
      if option + 1 < stop then do
        let name ← cstr memory option
        let val := option + name.length + 1
        let text ← cstr memory val
        if strcaseEq name OptionKind.timeout.string && strcaseEq text (ascii "adaptive") then
          .ok true
        else hasAdaptiveTimeoutFrom memory stop rounds (val + text.length + 1)
      else .ok false

def hasAdaptiveTimeout (memory : Bytes) (start n : ℕ) : Except Fault Bool :=
  hasAdaptiveTimeoutFrom memory (start + n) memory.length start

/-- The loop of `tftp_format_option_strings`: the length of the next option is
taken before the test that ends it. -/
def formatOptionStringsFrom (memory : Bytes) (stop : ℕ) : ℕ → ℕ → Except Fault Bytes
  | 0, _ => .ok []
  | rounds + 1, option => do
      let name ← cstr memory option
      if option < stop then
        let value := option + name.length + 1
        let text ← cstr memory value
        let next := value + text.length + 1
        let rest ← formatOptionStringsFrom memory stop rounds next
        return name ++ ascii ":" ++ text ++ (if next < stop then ascii ", " else []) ++ rest
      else return []

/-- `tftp_format_option_strings` -/
def tftpFormatOptionStrings (memory : Bytes) (start n : ℕ) : Except Fault Bytes :=
  formatOptionStringsFrom memory (start + n) (memory.length + 1) start

end Scan

/-! ## Strings that end in the memory -/

section

open Checked

variable {region after : Bytes} {stop p rounds : ℕ}

theorem drop_string {memory s r : Bytes} (h : memory.drop p = s ++ 0 :: r) :
    memory.drop (p + s.length + 1) = r := by
  rw [Nat.add_assoc, ← List.drop_drop, h]
  have whole : s ++ 0 :: r = (s ++ [0]) ++ r := by simp
  rw [whole]
  exact List.drop_left' (by simp)

theorem scan_cstr {s r : Bytes} (h : region.drop p = s ++ 0 :: r) (hs : 0 ∉ s) :
    Scan.cstr region p = .ok s := by
  rw [Scan.cstr, h, string_append hs]

/-- A string that is read without a fault is the one at that position, whatever
lies behind the memory. -/
theorem scan_cstr_ok {s : Bytes} (h : Scan.cstr region p = .ok s) :
    ∃ r, region.drop p = s ++ 0 :: r ∧ 0 ∉ s ∧ ∀ after, cstr (region ++ after) p = s := by
  obtain ⟨r, hr, hs⟩ := string_eq_ok h
  refine ⟨r, hr, hs, fun after => cstr_of_drop (r := r ++ after) ?_ hs⟩
  have inside : p ≤ region.length := by
    by_contra outside
    rw [List.drop_eq_nil_of_le (by omega)] at hr
    simp at hr
  rw [List.drop_append_of_le_length inside, hr, List.append_assoc, List.cons_append]

/-- The value of an option depends on nothing but the text at its place. -/
theorem optionValue_eq {memory memory' : Bytes} {val : ℕ} (h : cstr memory val = cstr memory' val)
    (o : OptionKind) : optionValue memory o val = optionValue memory' o val := by
  unfold optionValue
  rw [h]

/-- Terminated names and values, and after them a byte at most, which the loops
do not come to. -/
def Terminated (body : Bytes) : Prop :=
  ∃ entries tail, body = encodeOptions entries ++ tail ∧ tail.length ≤ 1 ∧
    ∀ nv ∈ entries, 0 ∉ nv.1 ∧ 0 ∉ nv.2

theorem Terminated.short {body : Bytes} (h : body.length ≤ 1) : Terminated body :=
  ⟨[], body, rfl, h, by simp⟩

theorem Terminated.cons {name value rest : Bytes} (h : Terminated rest) (hn : 0 ∉ name)
    (hv : 0 ∉ value) : Terminated (name ++ 0 :: (value ++ 0 :: rest)) := by
  obtain ⟨entries, tail, rfl, short, hz⟩ := h
  refine ⟨(name, value) :: entries, tail, ?_, short, List.forall_mem_cons.mpr ⟨⟨hn, hv⟩, hz⟩⟩
  rw [encodeOptions_cons]
  simp

/-- What is longer than a byte starts with a name and a value. -/
theorem Terminated.uncons {body : Bytes} (h : Terminated body) (more : 1 < body.length) :
    ∃ name value rest, body = name ++ 0 :: (value ++ 0 :: rest) ∧ 0 ∉ name ∧ 0 ∉ value ∧
      Terminated rest := by
  obtain ⟨entries, tail, rfl, short, hz⟩ := h
  cases entries with
  | nil =>
      simp only [encodeOptions, List.flatMap_nil, List.nil_append] at more
      omega
  | cons nv entries =>
      obtain ⟨⟨hn, hv⟩, hz⟩ := List.forall_mem_cons.mp hz
      refine ⟨nv.1, nv.2, encodeOptions entries ++ tail, ?_, hn, hv, entries, tail, rfl, short, hz⟩
      rw [encodeOptions_cons]
      simp

/-- A round over a name and a value reads both, with or without checks. -/
structure ReadsPair (region after : Bytes) (p : ℕ) (name value rest : Bytes) : Prop where
  first : Scan.cstr region p = .ok name
  second : Scan.cstr region (p + name.length + 1) = .ok value
  left : region.drop (p + name.length + 1 + value.length + 1) = rest
  freeFirst : cstr (region ++ after) p = name
  freeSecond : cstr (region ++ after) (p + name.length + 1) = value

theorem readsPair {name value rest : Bytes}
    (h : region.drop p = name ++ 0 :: (value ++ 0 :: rest)) (hn : 0 ∉ name) (hv : 0 ∉ value)
    (after : Bytes) : ReadsPair region after p name value rest := by
  have first := scan_cstr h hn
  have second := scan_cstr (drop_string h) hv
  obtain ⟨-, -, -, freeFirst⟩ := scan_cstr_ok first
  obtain ⟨-, -, -, freeSecond⟩ := scan_cstr_ok second
  exact ⟨first, second, drop_string (drop_string h), freeFirst after, freeSecond after⟩

/-- Terminated strings are parsed as they are without checks. -/
theorem scan_parse {k : ℕ} {table : OptionTable} (h : Terminated (region.drop p))
    (hr : region.length ≤ p + rounds) (hr' : region.length ≤ p + k) :
    Scan.parseOptionsFrom region region.length rounds p table =
      .ok (parseOptionsFrom (region ++ after) region.length k p table) := by
  induction rounds generalizing k p table with
  | zero =>
      cases k with
      | zero => rfl
      | succ k =>
          rw [Scan.parseOptionsFrom, parseOptionsFrom, if_neg (by omega)]
  | succ rounds ih =>
      rw [Scan.parseOptionsFrom]
      split
      next more =>
        cases k with
        | zero => omega
        | succ k =>
            obtain ⟨name, value, rest, hbody, hn, hv, left⟩ :=
              h.uncons (by rw [List.length_drop]; omega)
            have pair := readsPair hbody hn hv after
            have inPlace : cstr (region ++ after) (p + name.length + 1) =
                cstr region (p + name.length + 1) := by
              obtain ⟨-, -, -, alone⟩ := scan_cstr_ok pair.second
              rw [pair.freeSecond, ← alone [], List.append_nil]
            rw [pair.first, ok_bind]
            dsimp only
            rw [pair.second, ok_bind, ih (pair.left ▸ left) (by omega) (k := k) (by omega),
              parseOptionsFrom, if_pos more, pair.freeFirst]
            dsimp only
            rw [pair.freeSecond]
            cases OptionKind.all.find? fun o => strcaseEq name o.string with
            | none => rfl
            | some o =>
                exact congrArg (fun taken => Except.ok (parseOptionsFrom _ _ _ _ (match taken with
                  | none => table
                  | some v => table.set o (some v)))) (optionValue_eq inPlace o).symm
      next past =>
        cases k with
        | zero => rfl
        | succ k => rw [parseOptionsFrom, if_neg past]

/-- Nothing else is parsed without a fault. -/
theorem terminated_of_parse {table table' : OptionTable} (hr : region.length ≤ p + rounds)
    (h : Scan.parseOptionsFrom region region.length rounds p table = .ok table') :
    Terminated (region.drop p) := by
  induction rounds generalizing p table with
  | zero => exact .short (by rw [List.length_drop]; omega)
  | succ rounds ih =>
      rw [Scan.parseOptionsFrom] at h
      split at h
      next more =>
        obtain ⟨name, hname, h⟩ := bind_eq_ok h
        obtain ⟨value, hvalue, h⟩ := bind_eq_ok h
        obtain ⟨r, hr₁, hn, -⟩ := scan_cstr_ok hname
        obtain ⟨rest, hr₂, hv, -⟩ := scan_cstr_ok hvalue
        have left := ih (by omega) h
        rw [drop_string hr₁] at hr₂
        rw [hr₁, hr₂]
        refine .cons ?_ hn hv
        rwa [drop_string (by rw [drop_string hr₁, hr₂])] at left
      next => exact .short (by rw [List.length_drop]; omega)

/-- The scan for an adaptive timeout reads no more than the parser. -/
theorem scan_adaptive {k : ℕ} (h : Terminated (region.drop p))
    (hr : region.length ≤ p + rounds) (hr' : region.length ≤ p + k) :
    Scan.hasAdaptiveTimeoutFrom region region.length rounds p =
      .ok (hasAdaptiveTimeoutFrom (region ++ after) region.length k p) := by
  induction rounds generalizing k p with
  | zero =>
      cases k with
      | zero => rfl
      | succ k =>
          rw [Scan.hasAdaptiveTimeoutFrom, hasAdaptiveTimeoutFrom, if_neg (by omega)]
  | succ rounds ih =>
      rw [Scan.hasAdaptiveTimeoutFrom]
      split
      next more =>
        cases k with
        | zero => omega
        | succ k =>
            obtain ⟨name, value, rest, hbody, hn, hv, left⟩ :=
              h.uncons (by rw [List.length_drop]; omega)
            have pair := readsPair hbody hn hv after
            rw [pair.first, ok_bind]
            dsimp only
            rw [pair.second, ok_bind, ih (pair.left ▸ left) (by omega) (k := k) (by omega),
              hasAdaptiveTimeoutFrom, if_pos more, pair.freeFirst]
            dsimp only
            rw [pair.freeSecond]
            split <;> rfl
      next past =>
        cases k with
        | zero => rfl
        | succ k => rw [hasAdaptiveTimeoutFrom, if_neg past]

/-- The values of a table read the same whatever lies behind the memory. -/
def InMemory (region : Bytes) (table : OptionTable) : Prop :=
  ∀ o v, table.get o = some v → ∀ after, v.text (region ++ after) = v.text region

theorem InMemory.empty : InMemory region {} := by
  intro o v hv
  cases o <;> cases hv

/-- The values that are parsed lie in the memory. -/
theorem inMemory_of_parse {table table' : OptionTable} (ht : InMemory region table)
    (h : Scan.parseOptionsFrom region stop rounds p table = .ok table') :
    InMemory region table' := by
  induction rounds generalizing p table with
  | zero =>
      cases h
      exact ht
  | succ rounds ih =>
      rw [Scan.parseOptionsFrom] at h
      split at h
      next =>
        obtain ⟨name, -, h⟩ := bind_eq_ok h
        obtain ⟨value, hvalue, h⟩ := bind_eq_ok h
        refine ih ?_ h
        split
        next => exact ht
        next o _ =>
          split
          next => exact ht
          next v taken =>
            intro o' v' hv' after
            rw [OptionTable.get_set] at hv'
            split at hv'
            next =>
              cases hv'
              obtain ⟨-, -, -, free⟩ := scan_cstr_ok hvalue
              have alone := free []
              rw [List.append_nil] at alone
              have same := (free after).trans alone.symm
              have texts := optionValue_text_congr same o
              rw [optionValue_eq same o, taken] at texts
              exact Option.some.inj texts
            next => exact ht o' v' hv' after
      next =>
        cases h
        exact ht

/-- The last length is taken behind the option string. -/
theorem scan_format_faults (hr : region.length - p < rounds) (out : Bytes) :
    Scan.formatOptionStringsFrom region region.length rounds p ≠ .ok out := by
  intro h
  induction rounds generalizing p out with
  | zero => omega
  | succ rounds ih =>
      rw [Scan.formatOptionStringsFrom] at h
      obtain ⟨name, hname, h⟩ := bind_eq_ok h
      obtain ⟨r, hr₁, -⟩ := scan_cstr_ok hname
      have inside : p < region.length := by
        by_contra outside
        rw [List.drop_eq_nil_of_le (by omega)] at hr₁
        simp at hr₁
      rw [if_pos inside] at h
      obtain ⟨value, -, h⟩ := bind_eq_ok h
      obtain ⟨rest, hrest, -⟩ := bind_eq_ok h
      exact ih (by omega) rest hrest

end

end Tftp
