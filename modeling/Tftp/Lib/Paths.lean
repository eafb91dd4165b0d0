import Mathlib.Data.List.Infix
import Mathlib.Order.Nat

/-!
# Lexical resolution of paths

A path is read from left to right without a look at the file system: an empty
component or a single dot stays where it is, two dots cancel the component
before them, and what is left over of them climbs out of where the path
starts. At the top of the tree there is nothing to climb to.
-/

namespace Paths

variable {α : Type*}

/-- Where a path leads: up some levels from where it starts, and then down
through some names. A path that starts at the top does not climb. -/
structure Place (α : Type*) where
  absolute : Bool
  ups : ℕ
  names : List α
  top : absolute = true → ups = 0

namespace Place

/-- Where a path starts. -/
def start (absolute : Bool) : Place α := ⟨absolute, 0, [], fun _ => rfl⟩

def down (p : Place α) (name : α) : Place α := { p with names := p.names ++ [name] }

def up (p : Place α) : Place α :=
  if p.names ≠ [] then { p with names := p.names.dropLast }
  else if h : p.absolute = true then p
  else ⟨p.absolute, p.ups + 1, p.names, fun absolute => absurd absolute h⟩

/-- A place in the tree under another one. -/
structure Inside (root p : Place α) : Prop where
  absolute : p.absolute = root.absolute
  ups : p.ups = root.ups
  names : root.names <+: p.names

end Place

/-- What a component of a path asks for. -/
inductive Component (α : Type*) where
  | stay
  | parent
  | name (a : α)

def Place.step (p : Place α) : Component α → Place α
  | .stay => p
  | .parent => p.up
  | .name a => p.down a

def Place.walk (p : Place α) (cs : List (Component α)) : Place α := cs.foldl step p

/-! ## Relative paths -/

namespace Place

@[simp] theorem absolute_up (p : Place α) : p.up.absolute = p.absolute := by
  unfold up
  split
  · rfl
  · split <;> rfl

@[simp] theorem absolute_down (p : Place α) (a : α) : (p.down a).absolute = p.absolute := rfl

@[simp] theorem ups_down (p : Place α) (a : α) : (p.down a).ups = p.ups := rfl

@[simp] theorem names_down (p : Place α) (a : α) : (p.down a).names = p.names ++ [a] := rfl

/-- A parent takes back a name, where there is one. -/
theorem names_up (p : Place α) : p.up.names = p.names.dropLast := by
  unfold up
  split
  · rfl
  · rename_i none_
    rw [ne_eq, not_not] at none_
    split
    · rw [none_, List.dropLast_nil]
    · rw [none_, List.dropLast_nil]

/-- Where there is none, it climbs. -/
theorem ups_up (p : Place α) :
    p.up.ups = if p.names = [] ∧ p.absolute = false then p.ups + 1 else p.ups := by
  unfold up
  by_cases hn : p.names = []
  · rw [if_neg (not_not.mpr hn)]
    by_cases ha : p.absolute = true
    · rw [dif_pos ha, if_neg (by simp [ha])]
    · rw [dif_neg ha, if_pos ⟨hn, by simpa using ha⟩]
  · rw [if_pos hn, if_neg fun h => hn h.1]

@[simp] theorem absolute_walk (p : Place α) (cs : List (Component α)) :
    (p.walk cs).absolute = p.absolute := by
  induction cs using List.reverseRecOn with
  | nil => rfl
  | append_singleton cs c ih =>
      rw [walk, List.foldl_append]
      show ((p.walk cs).step c).absolute = p.absolute
      cases c with
      | stay => exact ih
      | parent => exact (absolute_up _).trans ih
      | name a => exact ih

theorem walk_append (p : Place α) (cs cs' : List (Component α)) :
    p.walk (cs ++ cs') = (p.walk cs).walk cs' := List.foldl_append

theorem walk_snoc (p : Place α) (cs : List (Component α)) (c : Component α) :
    p.walk (cs ++ [c]) = (p.walk cs).step c := by
  rw [walk_append]
  rfl

/-- The names that are left of `p` after a climb. -/
def left (p : Place α) (ups : ℕ) : List α := p.names.take (p.names.length - ups)

theorem left_succ (p : Place α) (ups : ℕ) : p.left (ups + 1) = (p.left ups).dropLast := by
  rw [left, left, List.dropLast_eq_take, List.take_take, List.length_take]
  congr 1
  omega

theorem left_eq_nil (p : Place α) (ups : ℕ) : p.left ups = [] ↔ p.names.length ≤ ups := by
  rw [left, List.take_eq_nil_iff, ← List.length_eq_zero_iff]
  omega

/-- `q` is where the relative path to `r` leads from `p`: first the climb, which
takes back names as long as there are any, and then the way down. -/
structure From (p r q : Place α) : Prop where
  absolute : q.absolute = p.absolute
  names : q.names = p.left r.ups ++ r.names
  ups : p.absolute = false → q.ups = p.ups + (r.ups - p.names.length)

theorem From.step {p r q : Place α} (h : p.From r q) (relative : r.absolute = false)
    (c : Component α) : p.From (r.step c) (q.step c) := by
  cases c with
  | stay => exact h
  | name a =>
      constructor
      · exact h.absolute
      · show q.names ++ [a] = p.left r.ups ++ (r.names ++ [a])
        rw [h.names, List.append_assoc]
      · exact h.ups
  | parent =>
      show p.From r.up q.up
      by_cases climbs : r.names = []
      · -- the climb takes one more name of `p` back
        have ups : r.up.ups = r.ups + 1 := by
          rw [ups_up, if_pos ⟨climbs, relative⟩]
        have names : q.names = p.left r.ups := by
          rw [h.names, climbs, List.append_nil]
        constructor
        · rw [absolute_up, h.absolute]
        · rw [names_up, names_up, names, climbs, ups, left_succ, List.dropLast_nil,
            List.append_nil]
        · intro rel
          have bottom : q.names = [] ↔ p.names.length ≤ r.ups := by
            rw [names, left_eq_nil]
          have before := h.ups rel
          rw [ups_up, ups]
          split
          · rename_i none_
            have exhausted := bottom.mp none_.1
            omega
          · rename_i some_
            have remains : ¬p.names.length ≤ r.ups := fun le =>
              some_ ⟨bottom.mpr le, h.absolute.trans rel⟩
            omega
      · have ups : r.up.ups = r.ups := by
          rw [ups_up, if_neg fun h => climbs h.1]
        have names : q.names ≠ [] := by
          rw [h.names]
          exact List.append_ne_nil_of_right_ne_nil _ climbs
        constructor
        · rw [absolute_up, h.absolute]
        · rw [names_up, names_up, ups, h.names, List.dropLast_append_of_ne_nil climbs]
        · intro rel
          rw [ups_up, if_neg fun h => names h.1, ups, h.ups rel]

/-- The place of a relative path. -/
def relative (cs : List (Component α)) : Place α := (start false).walk cs

theorem absolute_relative (cs : List (Component α)) : (relative cs).absolute = false :=
  absolute_walk _ cs

theorem from_walk (p : Place α) (cs : List (Component α)) : p.From (relative cs) (p.walk cs) := by
  induction cs using List.reverseRecOn with
  | nil =>
      constructor
      · rfl
      · simp [relative, walk, left, start]
      · intro _
        simp [relative, walk, start]
  | append_singleton cs c ih =>
      rw [relative, walk_snoc, walk_snoc]
      exact ih.step (absolute_relative cs) c

/-- A relative path leads back into `p`: what it climbs out of is what it then
goes down through first. -/
def Returns (p r : Place α) : Prop :=
  (p.absolute = true ∨ r.ups ≤ p.names.length) ∧
    p.names.drop (p.names.length - r.ups) <+: r.names

/-- A walk stays inside exactly if its relative path leads back. -/
theorem inside_walk_iff (p : Place α) (cs : List (Component α)) :
    p.Inside (p.walk cs) ↔ p.Returns (relative cs) := by
  have reached := from_walk p cs
  generalize relative cs = r at reached
  have whole : p.names = p.left r.ups ++ p.names.drop (p.names.length - r.ups) :=
    (List.take_append_drop _ _).symm
  have names : p.names <+: (p.walk cs).names ↔
      p.names.drop (p.names.length - r.ups) <+: r.names := by
    rw [reached.names]
    nth_rewrite 1 [whole]
    exact List.prefix_append_right_inj _
  have ups : (p.walk cs).ups = p.ups ↔ p.absolute = true ∨ r.ups ≤ p.names.length := by
    cases habs : p.absolute with
    | true =>
        have still := (p.walk cs).top (reached.absolute.trans habs)
        rw [still, p.top habs]
        exact iff_of_true rfl (.inl rfl)
    | false =>
        rw [reached.ups habs]
        simp only [Bool.false_eq_true, false_or]
        omega
  constructor
  · intro inside
    exact ⟨ups.mp inside.ups, names.mp inside.names⟩
  · intro returns
    exact ⟨reached.absolute, ups.mpr returns.1, names.mpr returns.2⟩

end Place

end Paths
