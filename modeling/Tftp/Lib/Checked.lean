import Mathlib.Data.List.TakeWhile
import Mathlib.Data.Vector.Basic

/-!
# Checked memory

A pointer into a buffer is what the buffer holds from there on, and an object
that is written to has a fixed number of cells. A read past the end of the
buffer, or a write past the end of the object, is a fault: it ends the
computation, and nothing that comes after it can hide it.
-/

namespace Checked

inductive Fault where
  | read
  | write
deriving DecidableEq, Repr

variable {α : Type*}

@[simp] theorem ok_bind {β γ : Type} (b : β) (f : β → Except Fault γ) :
    ((Except.ok b : Except Fault β) >>= f) = f b := rfl

@[simp] theorem error_bind {β γ : Type} (fault : Fault) (f : β → Except Fault γ) :
    ((Except.error fault : Except Fault β) >>= f) = .error fault := rfl

theorem bind_eq_ok {β γ : Type} {x : Except Fault β} {f : β → Except Fault γ} {c : γ}
    (h : (x >>= f) = .ok c) : ∃ b, x = .ok b ∧ f b = .ok c := by
  cases x with
  | error fault => cases h
  | ok b => exact ⟨b, rfl, h⟩

/-! ## Reads -/

/-- `p[i]` -/
def load (p : List α) (i : ℕ) : Except Fault α :=
  match p[i]? with
  | some a => .ok a
  | none => .error .read

theorem load_of_le {p : List α} {i : ℕ} (h : p.length ≤ i) : load p i = .error .read := by
  rw [load, List.getElem?_eq_none h]

section Strings

variable [DecidableEq α] [Zero α]

/-- The cells before the first zero. -/
def text (p : List α) : List α := p.takeWhile (· ≠ 0)

/-- `strnlen(p, max)` looks at one cell after the other. -/
def strnlen : List α → ℕ → Except Fault ℕ
  | _, 0 => .ok 0
  | [], _ + 1 => .error .read
  | a :: p, max + 1 => if a = 0 then .ok 0 else (strnlen p max).map (· + 1)

/-- The string at `p`, read cell by cell up to its terminator. -/
def string : List α → Except Fault (List α)
  | [] => .error .read
  | a :: p => if a = 0 then .ok [] else (string p).map (a :: ·)

theorem text_cons_zero (p : List α) : text (0 :: p) = [] := by simp [text]

theorem text_cons {a : α} (h : a ≠ 0) (p : List α) : text (a :: p) = a :: text p := by
  simp [text, h]

theorem zero_notMem_text (p : List α) : 0 ∉ text p := by
  intro h
  have nonzero := List.mem_takeWhile_imp h
  simp at nonzero

theorem text_append {s : List α} (h : 0 ∉ s) (r : List α) : text (s ++ 0 :: r) = s := by
  have nonzero : ∀ a ∈ s, decide (a ≠ 0) = true := fun a ha => by
    simpa using fun he : a = 0 => h (he ▸ ha)
  rw [text, List.takeWhile_append_of_pos nonzero]
  simp

/-- A string can be read up to its terminator where there is one. -/
theorem string_append {s : List α} (h : 0 ∉ s) (r : List α) : string (s ++ 0 :: r) = .ok s := by
  induction s with
  | nil => simp [string]
  | cons a s ih =>
      obtain ⟨ha, hs⟩ := not_or.mp (List.mem_cons.not.mp h)
      rw [List.cons_append, string, if_neg (Ne.symm ha), ih hs]
      rfl

theorem string_eq_ok {p s : List α} (h : string p = .ok s) : ∃ r, p = s ++ 0 :: r ∧ 0 ∉ s := by
  induction p generalizing s with
  | nil => cases h
  | cons a p ih =>
      rw [string] at h
      split at h
      next ha =>
        cases h
        exact ⟨p, by rw [ha, List.nil_append], List.not_mem_nil⟩
      next ha =>
        cases hp : string p with
        | error fault =>
            rw [hp] at h
            cases h
        | ok t =>
            rw [hp] at h
            cases h
            obtain ⟨r, rfl, ht⟩ := ih hp
            exact ⟨r, rfl, List.not_mem_cons_of_ne_of_not_mem (Ne.symm ha) ht⟩

/-- Where there is a zero, the text ends at it. -/
theorem eq_text_append {p : List α} (h : 0 ∈ p) :
    p = text p ++ 0 :: p.drop ((text p).length + 1) := by
  induction p with
  | nil => simp at h
  | cons a p ih =>
      by_cases ha : a = 0
      · subst ha
        simp [text_cons_zero]
      · have later : 0 ∈ p := by simpa [Ne.symm ha] using h
        rw [text_cons ha, List.cons_append, List.length_cons, List.drop_succ_cons, ← ih later]

theorem text_of_notMem {p : List α} (h : 0 ∉ p) : text p = p := by
  rw [text, List.takeWhile_eq_self_iff]
  intro a ha
  simpa using fun he : a = 0 => h (he ▸ ha)

theorem load_text {p : List α} (h : 0 ∈ p) : load p (text p).length = .ok 0 := by
  have split := eq_text_append h
  have found : p[(text p).length]? = some 0 := by
    conv_lhs => rw [split]
    rw [text_append (zero_notMem_text p), List.getElem?_append_right le_rfl, Nat.sub_self]
    rfl
  rw [load, found]

/-- The text with its terminator. -/
theorem take_text_add_one {p : List α} (h : 0 ∈ p) :
    p.take ((text p).length + 1) = text p ++ [0] := by
  calc p.take ((text p).length + 1)
      = (text p ++ 0 :: p.drop ((text p).length + 1)).take ((text p).length + 1) :=
        congrArg (List.take _) (eq_text_append h)
    _ = text p ++ [0] := by
        rw [List.take_append, List.take_of_length_le (Nat.le_succ _), Nat.add_sub_cancel_left]
        rfl

theorem length_text_le (p : List α) : (text p).length ≤ p.length :=
  (List.takeWhile_sublist _).length_le

/-- The scan stays inside the buffer when its limit does, or when a zero stops
it. -/
theorem strnlen_eq (p : List α) (max : ℕ) :
    strnlen p max =
      if max ≤ p.length ∨ 0 ∈ p then .ok (min max (text p).length) else .error .read := by
  induction p generalizing max with
  | nil => cases max <;> simp [strnlen, text]
  | cons a p ih =>
      cases max with
      | zero => simp [strnlen]
      | succ max =>
          rw [strnlen]
          split
          next ha => simp [ha, text_cons_zero]
          next ha =>
            rw [ih, text_cons ha]
            have same : (max + 1 ≤ (a :: p).length ∨ 0 ∈ a :: p) ↔ (max ≤ p.length ∨ 0 ∈ p) := by
              simp [Ne.symm ha]
            by_cases h : max ≤ p.length ∨ 0 ∈ p
            · rw [if_pos h, if_pos (same.mpr h)]
              simp [Except.map]
            · rw [if_neg h, if_neg (mt same.mp h)]
              rfl

theorem strnlen_length (p : List α) : strnlen p p.length = .ok (text p).length := by
  rw [strnlen_eq, if_pos (Or.inl le_rfl), min_eq_right (length_text_le p)]

theorem zero_mem_of_length_text {p : List α} (h : (text p).length < p.length) : 0 ∈ p := by
  by_contra none_
  rw [text_of_notMem none_] at h
  omega

end Strings

/-! ## Writes -/

/-- An object of `size` cells. -/
abbrev Object (α : Type*) (size : ℕ) := List.Vector α size

namespace Object

variable {size : ℕ}

/-- `memcpy(object + offset, source, source.length)` -/
def store (object : Object α size) (offset : ℕ) (source : List α) :
    Except Fault (Object α size) :=
  if h : offset + source.length ≤ size then
    .ok ⟨object.val.take offset ++ source ++ object.val.drop (offset + source.length), by
      simp only [List.length_append, List.length_take, List.length_drop, object.property]
      omega⟩
  else .error .write

/-- What the object holds from an offset on. -/
def suffix (object : Object α size) (offset : ℕ) : List α := object.val.drop offset

variable {object object' : Object α size} {offset : ℕ} {source : List α}

theorem store_of_le (h : offset + source.length ≤ size) :
    ∃ object', object.store offset source = .ok object' := by
  rw [store, dif_pos h]
  exact ⟨_, rfl⟩

theorem store_of_lt (h : size < offset + source.length) :
    object.store offset source = .error .write := by
  rw [store, dif_neg (by omega)]

theorem store_eq (h : object.store offset source = .ok object') :
    offset + source.length ≤ size ∧
      object'.val = object.val.take offset ++ source ++ object.val.drop (offset + source.length) := by
  unfold store at h
  split at h
  next fits =>
    cases h
    exact ⟨fits, rfl⟩
  next => cases h

theorem length_take (object : Object α size) (h : offset ≤ size) :
    (object.val.take offset).length = offset := by
  rw [List.length_take, object.property]
  omega

/-- What was written is there. -/
theorem suffix_store (h : object.store offset source = .ok object') :
    object'.suffix offset = source ++ object.suffix (offset + source.length) := by
  obtain ⟨fits, stored⟩ := store_eq h
  rw [suffix, stored, List.append_assoc, List.drop_left' (object.length_take (by omega))]
  rfl

/-- What lies before it is left alone. -/
theorem take_store (h : object.store offset source = .ok object') :
    object'.val.take offset = object.val.take offset := by
  obtain ⟨fits, stored⟩ := store_eq h
  rw [stored, List.append_assoc, List.take_left' (object.length_take (by omega))]

/-- Writing on where the last write ended. -/
theorem take_store_add (h : object.store offset source = .ok object') :
    object'.val.take (offset + source.length) = object.val.take offset ++ source := by
  obtain ⟨fits, stored⟩ := store_eq h
  rw [stored, List.take_left']
  rw [List.length_append, object.length_take (by omega)]

/-- Two writes, one after the other, from the start of the object. -/
theorem take_store_store {object'' : Object α size} {next : List α}
    (first : object.store 0 source = .ok object')
    (second : object'.store source.length next = .ok object'') :
    object''.val.take (source.length + next.length) = source ++ next := by
  have front := take_store_add first
  rw [List.take_zero, List.nil_append, Nat.zero_add] at front
  rw [take_store_add second, front]

end Object

end Checked
