import Tftp.Lib.Ownership
import Mathlib.Logic.Function.Basic
import Mathlib.Algebra.Notation.Defs

/-!
# Open files

The agents of `Ownership` share one table of descriptors. A descriptor that is open
for writing stands for a file and an offset in it, and a `write` goes where the table
says at that time: the call itself does not name the file.

Calls on what an agent holds reach the files it has opened and no others (`reach`),
and a file that is written through one descriptor grows at its end (`AtEnd.run`).
-/

namespace OpenFiles

open Ownership

variable {ι D F α : Type}

/-! ## Calls -/

inductive Call (D F α : Type) where
  /-- open a file for writing and empty it -/
  | create (d : D) (f : F)
  /-- open anything else: a socket, a pipe, a file to read -/
  | acquire (d : D)
  | read (d : D)
  | write (d : D) (bytes : List α)
  | close (d : D)

namespace Call

def descriptor : Call D F α → D
  | create d _ => d
  | acquire d => d
  | read d => d
  | write d _ => d
  | close d => d

def move : Call D F α → Move D
  | create d _ => .acquire d
  | acquire d => .acquire d
  | read d => .use d
  | write d _ => .use d
  | close d => .release d

def bytes : Call D F α → List α
  | write _ bytes => bytes
  | _ => []

end Call

/-- The table and the files. -/
structure Files (D F α : Type) where
  table : D → Option (F × ℕ)
  disk : F → List α

variable [Zero α] [DecidableEq D] [DecidableEq F]

/-- `write` at an offset; a gap behind the end of the file is filled with zeros. -/
def overwrite (file : List α) (offset : ℕ) : List α → List α
  | [] => file
  | b :: bytes =>
      let padded := file ++ List.replicate (offset - file.length) 0
      padded.take offset ++ (b :: bytes) ++ padded.drop (offset + (b :: bytes).length)

omit [DecidableEq D] [DecidableEq F] in
/-- At the end of the file it appends. -/
theorem overwrite_end (file bytes : List α) :
    overwrite file file.length bytes = file ++ bytes := by
  cases bytes with
  | nil => exact (List.append_nil file).symm
  | cons b bytes =>
      unfold overwrite
      dsimp only
      rw [Nat.sub_self, List.replicate_zero, List.append_nil, List.take_length,
        List.drop_eq_nil_of_le (by omega), List.append_nil]

namespace Files

def call (s : Files D F α) : Call D F α → Files D F α
  | .create d f =>
      ⟨Function.update s.table d (some (f, 0)), Function.update s.disk f []⟩
  | .acquire d => { s with table := Function.update s.table d none }
  | .read _ => s
  | .write d bytes =>
      match s.table d with
      | none => s
      | some (f, offset) =>
          ⟨Function.update s.table d (some (f, offset + bytes.length)),
            Function.update s.disk f (overwrite (s.disk f) offset bytes)⟩
  | .close d => { s with table := Function.update s.table d none }

def run (s : Files D F α) (calls : List (Call D F α)) : Files D F α := calls.foldl call s

variable {s : Files D F α} {c : Call D F α} {calls : List (Call D F α)} {d : D} {f : F}

theorem call_write_none {bytes : List α} (h : s.table d = none) :
    s.call (.write d bytes) = s := by
  simp only [call, h]

theorem call_write_some {bytes : List α} {offset : ℕ} (h : s.table d = some (f, offset)) :
    s.call (.write d bytes) =
      ⟨Function.update s.table d (some (f, offset + bytes.length)),
        Function.update s.disk f (overwrite (s.disk f) offset bytes)⟩ := by
  simp only [call, h]

theorem call_table_of_ne (h : d ≠ c.descriptor) : (s.call c).table d = s.table d := by
  cases c with
  | create x y => exact Function.update_of_ne h ..
  | acquire x => exact Function.update_of_ne h ..
  | read x => rfl
  | write x bytes =>
      cases ht : s.table x with
      | none => rw [call_write_none ht]
      | some at_ =>
          rw [call_write_some ht]
          exact Function.update_of_ne h ..
  | close x => exact Function.update_of_ne h ..

/-! ## What an agent reaches -/

/-- Some descriptor in `held` is open for writing to `f`. -/
def Reaches (s : Files D F α) (held : Finset D) (f : F) : Prop :=
  ∃ d ∈ held, ∃ offset, s.table d = some (f, offset)

omit [Zero α] [DecidableEq D] [DecidableEq F] in
theorem Reaches.of_table {t : Files D F α} {held : Finset D} (h : t.Reaches held f)
    (same : ∀ d ∈ held, t.table d = s.table d) : s.Reaches held f := by
  obtain ⟨d, hd, offset, opened⟩ := h
  exact ⟨d, hd, offset, (same d hd).symm.trans opened⟩

/-- A call on what is held leaves a file alone that is out of reach, and brings none
within reach but the one it opens. -/
theorem call_unreached {held : Finset D} (own : ∀ d, c.move.Touches d → d ∈ held)
    (h : ¬s.Reaches held f) (hc : ∀ d, c ≠ .create d f) :
    (s.call c).disk f = s.disk f ∧ ¬(s.call c).Reaches (c.move.apply held) f := by
  have elsewhere {d : D} (hd : d ∈ held) (hne : d ≠ c.descriptor) (offset : ℕ) :
      (s.call c).table d ≠ some (f, offset) := by
    rw [call_table_of_ne hne]
    exact fun opened => h ⟨d, hd, offset, opened⟩
  cases c with
  | create x y =>
      have other : y ≠ f := fun same => hc x (same ▸ rfl)
      refine ⟨Function.update_of_ne other.symm .., ?_⟩
      rintro ⟨d, hd, offset, opened⟩
      by_cases same : d = x
      · simp only [call, same, Function.update_self, Option.some.injEq, Prod.mk.injEq] at opened
        exact other opened.1
      · exact elsewhere ((Finset.mem_insert.mp hd).resolve_left same) same offset opened
  | acquire x =>
      refine ⟨rfl, ?_⟩
      rintro ⟨d, hd, offset, opened⟩
      by_cases same : d = x
      · simp [call, same] at opened
      · exact elsewhere ((Finset.mem_insert.mp hd).resolve_left same) same offset opened
  | read x => exact ⟨rfl, h⟩
  | write x bytes =>
      cases ht : s.table x with
      | none =>
          rw [call_write_none ht]
          exact ⟨rfl, h⟩
      | some at_ =>
          obtain ⟨y, offset⟩ := at_
          have other : y ≠ f := fun same => h ⟨x, own x rfl, offset, same ▸ ht⟩
          refine ⟨?_, ?_⟩
          · rw [call_write_some ht]
            exact Function.update_of_ne other.symm ..
          · rintro ⟨d, hd, offset', opened⟩
            by_cases same : d = x
            · simp only [call_write_some ht, same, Function.update_self, Option.some.injEq,
                Prod.mk.injEq] at opened
              exact other opened.1
            · exact elsewhere hd same offset' opened
  | close x =>
      refine ⟨rfl, ?_⟩
      rintro ⟨d, hd, offset, opened⟩
      obtain ⟨other, hd⟩ := Finset.mem_erase.mp hd
      exact elsewhere hd other offset opened

/-- Calls of agent `i` that keep to what it holds: a file out of its reach stays as it
is and out of its reach, unless it opens it, and the descriptors of the other agents
stay where they are. -/
theorem reach [DecidableEq ι] {g : ι → Finset D} {own : Finset D} {history : List (ι × Move D)}
    {i : ι} {P : Finset D → Prop} (h : Kept g own history)
    (hy : Yields (held g history i) (calls.map Call.move) P)
    (ha : Allocates (inUse own history) (calls.map Call.move)) :
    (∀ f, ¬s.Reaches (held g history i) f → (∀ d, .create d f ∉ calls) →
      (s.run calls).disk f = s.disk f ∧
        ¬(s.run calls).Reaches (held g (history ++ (calls.map Call.move).map (i, ·)) i) f) ∧
    ∀ j, j ≠ i → ∀ d ∈ held g history j, (s.run calls).table d = s.table d := by
  induction calls generalizing s history with
  | nil => exact ⟨fun f hf _ => ⟨rfl, by simpa [run] using hf⟩, fun _ _ _ _ => rfl⟩
  | cons c calls ih =>
      obtain ⟨first, touched, free, hy, ha⟩ := h.head hy ha
      obtain ⟨unreached, tables⟩ := ih (s := s.call c) first hy ha
      have assoc : history ++ ((c :: calls).map Call.move).map (i, ·) =
          history ++ [(i, c.move)] ++ (calls.map Call.move).map (i, ·) := by
        simp
      refine ⟨fun f hf created => ?_, fun j hj d hd => ?_⟩
      · obtain ⟨disk, away⟩ := call_unreached touched hf fun d hd =>
          created d (hd ▸ List.mem_cons_self)
        have mine : held g (history ++ [(i, c.move)]) i = c.move.apply (held g history i) := by
          rw [held_snoc, if_pos rfl]
        obtain ⟨disk', away'⟩ := unreached f (mine ▸ away) fun d hd =>
          created d (List.mem_cons_of_mem _ hd)
        rw [assoc]
        exact ⟨disk'.trans disk, away'⟩
      · have theirs : held g (history ++ [(i, c.move)]) j = held g history j := by
          rw [held_snoc, if_neg hj.symm]
        obtain ⟨untouched, unacquired⟩ := h.elsewhere touched free hj hd
        refine (tables j hj d (theirs ▸ hd)).trans (call_table_of_ne ?_)
        rintro rfl
        cases c with
        | create d f => exact unacquired rfl
        | acquire d => exact unacquired rfl
        | read d => exact untouched rfl
        | write d bytes => exact untouched rfl
        | close d => exact untouched rfl

/-! ## A file with one writer -/

/-- `d` is open at the end of `f`, and `f` holds `content`. -/
structure AtEnd (s : Files D F α) (d : D) (f : F) (content : List α) : Prop where
  table : s.table d = some (f, content.length)
  disk : s.disk f = content

omit [Zero α] [DecidableEq D] [DecidableEq F] in
theorem AtEnd.same {t : Files D F α} {content : List α} (h : s.AtEnd d f content)
    (table : t.table d = s.table d) (disk : t.disk f = s.disk f) : t.AtEnd d f content :=
  ⟨table.trans h.table, disk.trans h.disk⟩

/-- What is read and written on `d` alone goes behind the content. -/
theorem AtEnd.run {content : List α} (h : s.AtEnd d f content)
    (uses : ∀ c ∈ calls, c = .read d ∨ ∃ bytes, c = .write d bytes) :
    (s.run calls).AtEnd d f (content ++ calls.flatMap Call.bytes) := by
  induction calls generalizing s content with
  | nil =>
      rw [List.flatMap_nil, List.append_nil]
      exact h
  | cons c calls ih =>
      have rest : ∀ c ∈ calls, c = .read d ∨ ∃ bytes, c = .write d bytes :=
        fun c hc => uses c (List.mem_cons_of_mem _ hc)
      rw [List.flatMap_cons, ← List.append_assoc]
      refine ih ?_ rest
      rcases uses c List.mem_cons_self with rfl | ⟨bytes, rfl⟩
      · have nothing : content ++ Call.bytes (.read d : Call D F α) = content :=
          List.append_nil content
        rw [nothing]
        exact h
      · rw [call_write_some h.table, Call.bytes]
        constructor
        · rw [List.length_append]
          exact Function.update_self ..
        · refine (Function.update_self ..).trans ?_
          rw [h.disk, overwrite_end]

/-- An agent that opens `f` for writing on `d`, and writes nothing yet. -/
theorem atEnd_of_created {held : Finset D}
    (opens : ∀ c ∈ calls, c ≠ .acquire d ∧ (∀ x y, c = .create x y → y = f) ∧
      ∀ x bytes, c ≠ .write x bytes)
    (h : d ∈ held → s.AtEnd d f [])
    (hd : d ∈ (calls.map Call.move).foldl Move.apply held) : (s.run calls).AtEnd d f [] := by
  induction calls generalizing s held with
  | nil => exact h hd
  | cons c calls ih =>
      obtain ⟨other, files, unwritten⟩ := opens c List.mem_cons_self
      refine ih (fun c hc => opens c (List.mem_cons_of_mem _ hc)) (fun hd => ?_) hd
      cases c with
      | create x y =>
          obtain rfl := files x y rfl
          by_cases same : d = x
          · subst same
            exact ⟨Function.update_self .., Function.update_self ..⟩
          · have kept := h ((Finset.mem_insert.mp hd).resolve_left same)
            exact ⟨(Function.update_of_ne same ..).trans kept.table, Function.update_self ..⟩
      | acquire x =>
          have same : d ≠ x := fun same => other (same ▸ rfl)
          have kept := h ((Finset.mem_insert.mp hd).resolve_left same)
          exact kept.same (Function.update_of_ne same ..) rfl
      | read x => exact h hd
      | write x bytes => exact (unwritten x bytes rfl).elim
      | close x =>
          obtain ⟨same, hd⟩ := Finset.mem_erase.mp hd
          exact (h hd).same (Function.update_of_ne same ..) rfl

end Files

end OpenFiles
