import Mathlib.Data.Finset.Basic
import Mathlib.Data.Finset.Insert
import Mathlib.Data.Finset.Disjoint
import Mathlib.Data.List.Count

/-!
# Ownership of recycled resources

Agents acquire, use and release resources. The allocator names a resource that
nobody has, and may name one again once it was released, so an agent that keeps
a name too long, or makes one up, acts on what another agent owns.

`Yields` says of one agent alone that it acts on nothing but what it holds. If
every agent is like this, and the allocator does its part, then no agent ever
acts on what another one holds (`Kept.burst`), whatever the interleaving.
-/

namespace Ownership

variable {ι R : Type} [DecidableEq ι] [DecidableEq R]

inductive Move (R : Type) where
  | acquire (r : R)
  | use (r : R)
  | release (r : R)
deriving DecidableEq, Repr

namespace Move

/-- What is held after the move. -/
def apply (held : Finset R) : Move R → Finset R
  | acquire r => insert r held
  | use _ => held
  | release r => held.erase r

/-- The move acts on a resource that must be there already. -/
def Touches : Move R → R → Prop
  | acquire _, _ => False
  | use r, r' => r = r'
  | release r, r' => r = r'

end Move

/-! ## One agent -/

/-- The moves touch only what is held at that point and end with a share in
`P`, if what is acquired on the way is new. -/
def Yields : Finset R → List (Move R) → (Finset R → Prop) → Prop
  | held, [], P => P held
  | held, .acquire r :: ms, P => r ∉ held → Yields (insert r held) ms P
  | held, .use r :: ms, P => r ∈ held ∧ Yields held ms P
  | held, .release r :: ms, P => r ∈ held ∧ Yields (held.erase r) ms P

theorem yields_append {held : Finset R} {ms ns : List (Move R)} {P : Finset R → Prop} :
    Yields held (ms ++ ns) P ↔ Yields held ms fun s => Yields s ns P := by
  induction ms generalizing held with
  | nil => rfl
  | cons m ms ih =>
      cases m with
      | acquire r => exact imp_congr_right fun _ => ih
      | use r => exact and_congr_right fun _ => ih
      | release r => exact and_congr_right fun _ => ih

theorem Yields.mono {held : Finset R} {ms : List (Move R)} {P Q : Finset R → Prop}
    (h : Yields held ms P) (hPQ : ∀ s, P s → Q s) : Yields held ms Q := by
  induction ms generalizing held with
  | nil => exact hPQ _ h
  | cons m ms ih =>
      cases m with
      | acquire r => exact fun hr => ih (h hr)
      | use r => exact ⟨h.1, ih h.2⟩
      | release r => exact ⟨h.1, ih h.2⟩

/-- Using what is held changes nothing. -/
theorem yields_of_uses {held : Finset R} {ms : List (Move R)} {P : Finset R → Prop}
    (h : ∀ m ∈ ms, ∃ r ∈ held, m = .use r) (hP : P held) : Yields held ms P := by
  induction ms with
  | nil => exact hP
  | cons m ms ih =>
      obtain ⟨r, hr, rfl⟩ := h m List.mem_cons_self
      exact ⟨hr, ih fun m hm => h m (List.mem_cons_of_mem _ hm)⟩

/-! ## The allocator -/

/-- Every resource the moves acquire was free. -/
def Allocates : Finset R → List (Move R) → Prop
  | _, [] => True
  | table, .acquire r :: ms => r ∉ table ∧ Allocates (insert r table) ms
  | table, .use _ :: ms => Allocates table ms
  | table, .release r :: ms => Allocates (table.erase r) ms

instance : ∀ (table : Finset R) (ms : List (Move R)), Decidable (Allocates table ms)
  | _, [] => isTrue trivial
  | table, .acquire r :: ms =>
      have := instDecidableAllocates (insert r table) ms
      inferInstanceAs (Decidable (r ∉ table ∧ Allocates (insert r table) ms))
  | table, .use _ :: ms => instDecidableAllocates table ms
  | table, .release r :: ms => instDecidableAllocates (table.erase r) ms

theorem allocates_cons {table : Finset R} {m : Move R} {ms : List (Move R)} :
    Allocates table (m :: ms) ↔
      (∀ r, m = .acquire r → r ∉ table) ∧ Allocates (m.apply table) ms := by
  cases m <;> simp [Allocates, Move.apply]

/-! ## Many agents -/

/-- What agent `i` holds after a history, if the agents held `g` before it. -/
def held (g : ι → Finset R) (history : List (ι × Move R)) (i : ι) : Finset R :=
  history.foldl (fun s p => if p.1 = i then p.2.apply s else s) (g i)

/-- The resources in use after a history. -/
def inUse (table : Finset R) (history : List (ι × Move R)) : Finset R :=
  history.foldl (fun s p => p.2.apply s) table

@[simp] theorem held_snoc (g : ι → Finset R) (history : List (ι × Move R)) (i j : ι)
    (m : Move R) : held g (history ++ [(i, m)]) j =
      if i = j then m.apply (held g history j) else held g history j := by
  simp [held]

omit [DecidableEq ι] in
@[simp] theorem inUse_snoc (table : Finset R) (history : List (ι × Move R)) (i : ι)
    (m : Move R) : inUse table (history ++ [(i, m)]) = m.apply (inUse table history) := by
  simp [inUse]

/-- A run of moves of one agent. -/
theorem held_burst (g : ι → Finset R) (history : List (ι × Move R)) (i : ι) (ms : List (Move R)) :
    held g (history ++ ms.map (i, ·)) i = ms.foldl Move.apply (held g history i) := by
  simp [held, List.foldl_map]

/-- It leaves the other agents alone. -/
theorem held_burst_of_ne (g : ι → Finset R) (history : List (ι × Move R)) {i j : ι} (hj : j ≠ i)
    (ms : List (Move R)) : held g (history ++ ms.map (i, ·)) j = held g history j := by
  induction ms generalizing history with
  | nil => rw [List.map_nil, List.append_nil]
  | cons m ms ih =>
      rw [List.map_cons, List.append_cons, ih, held_snoc, if_neg hj.symm]

/-- Every move of a history touched only what its agent held and nobody else. -/
def Exclusive (g : ι → Finset R) (history : List (ι × Move R)) : Prop :=
  ∀ before i m after, history = before ++ (i, m) :: after → ∀ r, m.Touches r →
    r ∈ held g before i ∧ ∀ j, j ≠ i → r ∉ held g before j

/-- How often a set contains `r`. -/
def share (s : Finset R) (r : R) : ℕ := if r ∈ s then 1 else 0

theorem share_of_mem {s : Finset R} {r : R} (h : r ∈ s) : share s r = 1 := if_pos h

theorem share_of_notMem {s : Finset R} {r : R} (h : r ∉ s) : share s r = 0 := if_neg h

theorem share_congr {s t : Finset R} {r : R} (h : r ∈ s ↔ r ∈ t) : share s r = share t r := by
  simp [share, h]

/-- How often agent `i` acquired `r`. -/
def acquired (history : List (ι × Move R)) (i : ι) (r : R) : ℕ := history.count (i, .acquire r)

/-- How often agent `i` released `r`. -/
def released (history : List (ι × Move R)) (i : ι) (r : R) : ℕ := history.count (i, .release r)

/-- Each agent released what it acquired once, except for what it holds. -/
def Balanced (g : ι → Finset R) (history : List (ι × Move R)) : Prop :=
  ∀ i r, acquired history i r + share (g i) r =
    released history i r + share (held g history i) r

/-- The agents shared out the resources in use among themselves. -/
structure Kept (g : ι → Finset R) (table : Finset R) (history : List (ι × Move R)) : Prop where
  within : ∀ i, held g history i ⊆ inUse table history
  apart : ∀ i j, i ≠ j → Disjoint (held g history i) (held g history j)
  exclusive : Exclusive g history
  balanced : Balanced g history

namespace Kept

variable {g : ι → Finset R} {table : Finset R} {history : List (ι × Move R)} {i : ι}

theorem nil (hw : ∀ i, g i ⊆ table) (ha : ∀ i j, i ≠ j → Disjoint (g i) (g j)) :
    Kept g table [] where
  within := hw
  apart := ha
  exclusive before i m after h := by simp at h
  balanced i r := rfl

/-- A move that touches only what its agent holds, and acquires only what is
free. -/
theorem move (h : Kept g table history) {m : Move R}
    (hfree : ∀ r, m = .acquire r → r ∉ inUse table history)
    (hown : ∀ r, m.Touches r → r ∈ held g history i) :
    Kept g table (history ++ [(i, m)]) where
  within j := by
    rw [held_snoc, inUse_snoc]
    have within := h.within j
    split
    · cases m with
      | acquire r => exact Finset.insert_subset_insert r within
      | use r => exact within
      | release r => exact Finset.erase_subset_erase r within
    · rename_i hij
      cases m with
      | acquire r => exact within.trans (Finset.subset_insert r _)
      | use r => exact within
      | release r =>
          -- what is released belongs to `i`, so `j` does not lose it
          have hr : r ∉ held g history j :=
            Finset.disjoint_left.mp (h.apart i j hij) (hown r rfl)
          intro x hx
          exact Finset.mem_erase.mpr ⟨fun he => hr (he ▸ hx), within hx⟩
  apart := by
    have fresh (r : R) (hr : m = .acquire r) (j : ι) : r ∉ held g history j :=
      fun hm => hfree r hr (h.within j hm)
    have grows (j : ι) (hij : i ≠ j) : Disjoint (m.apply (held g history i)) (held g history j) := by
      have apart := h.apart i j hij
      cases m with
      | acquire r => exact Finset.disjoint_insert_left.mpr ⟨fresh r rfl j, apart⟩
      | use r => exact apart
      | release r => exact apart.mono_left (Finset.erase_subset r _)
    intro j k hjk
    rw [held_snoc, held_snoc]
    by_cases hj : i = j
    · subst hj
      rw [if_pos rfl, if_neg hjk]
      exact grows k hjk
    · rw [if_neg hj]
      by_cases hk : i = k
      · subst hk
        rw [if_pos rfl]
        exact (grows j hj).symm
      · rw [if_neg hk]
        exact h.apart j k hjk
  exclusive before j n after hsplit r hr := by
    rcases List.append_eq_append_iff.mp hsplit with ⟨as, rfl, hrest⟩ | ⟨bs, hbefore, hrest⟩
    · -- the move is the last one of the history
      cases as with
      | nil =>
          obtain ⟨⟨rfl, rfl⟩, -⟩ : (i = j ∧ m = n) ∧ after = [] := by simpa using hrest
          rw [List.append_nil]
          have owned := hown r hr
          exact ⟨owned, fun k hk hm =>
            Finset.disjoint_left.mp (h.apart i k hk.symm) owned hm⟩
      | cons a as => simp at hrest
    · cases bs with
      | nil =>
          obtain ⟨⟨rfl, rfl⟩, -⟩ : (j = i ∧ n = m) ∧ after = [] := by simpa using hrest
          rw [List.append_nil] at hbefore
          subst hbefore
          have owned := hown r hr
          exact ⟨owned, fun k hk hm =>
            Finset.disjoint_left.mp (h.apart _ k hk.symm) owned hm⟩
      | cons b bs =>
          obtain ⟨rfl, hbs⟩ := List.cons_eq_cons.mp hrest
          exact h.exclusive before j n bs hbefore r hr
  balanced j r := by
    have balanced := h.balanced j r
    unfold acquired released at balanced ⊢
    rw [List.count_append, List.count_append, held_snoc]
    by_cases hij : i = j
    · subst hij
      rw [if_pos rfl]
      have fresh : m = .acquire r → r ∉ held g history i := fun hr hm =>
        hfree r hr (h.within i hm)
      have owned := hown r
      cases m with
      | acquire r' =>
          by_cases hr : r' = r
          · subst hr
            rw [share_of_notMem (fresh rfl)] at balanced
            rw [Move.apply, share_of_mem (Finset.mem_insert_self _ _)]
            simp
            omega
          · have same : r ∈ insert r' (held g history i) ↔ r ∈ held g history i := by
              simp [Ne.symm hr]
            rw [Move.apply, share_congr same]
            simpa [hr] using balanced
      | use r' => simpa [Move.apply] using balanced
      | release r' =>
          by_cases hr : r' = r
          · subst hr
            rw [share_of_mem (owned rfl)] at balanced
            rw [Move.apply, share_of_notMem (Finset.notMem_erase _ _)]
            simp
            omega
          · have same : r ∈ (held g history i).erase r' ↔ r ∈ held g history i := by
              simp [Ne.symm hr]
            rw [Move.apply, share_congr same]
            simpa [hr] using balanced
    · simpa [hij] using balanced

/-- The first of the moves that an agent makes, and those that follow it. -/
theorem head {m : Move R} {ms : List (Move R)} {P : Finset R → Prop} (h : Kept g table history)
    (hy : Yields (held g history i) (m :: ms) P) (ha : Allocates (inUse table history) (m :: ms)) :
    Kept g table (history ++ [(i, m)]) ∧
      (∀ r, m.Touches r → r ∈ held g history i) ∧ (∀ r, m = .acquire r → r ∉ inUse table history) ∧
      Yields (held g (history ++ [(i, m)]) i) ms P ∧
      Allocates (inUse table (history ++ [(i, m)])) ms := by
  obtain ⟨hfree, ha⟩ := allocates_cons.mp ha
  have touched : (∀ r, m.Touches r → r ∈ held g history i) ∧
      Yields (m.apply (held g history i)) ms P := by
    cases m with
    | acquire r => exact ⟨fun _ hf => hf.elim, hy fun hm => hfree r rfl (h.within i hm)⟩
    | use r => exact ⟨fun _ he => he ▸ hy.1, hy.2⟩
    | release r => exact ⟨fun _ he => he ▸ hy.1, hy.2⟩
  refine ⟨h.move hfree touched.1, touched.1, hfree, ?_, ?_⟩
  · rw [held_snoc, if_pos rfl]
    exact touched.2
  · rw [inUse_snoc]
    exact ha

/-- It is not about what another agent holds. -/
theorem elsewhere {m : Move R} {j : ι} {r : R} (h : Kept g table history)
    (hown : ∀ r, m.Touches r → r ∈ held g history i)
    (hfree : ∀ r, m = .acquire r → r ∉ inUse table history) (hj : j ≠ i)
    (hr : r ∈ held g history j) : ¬m.Touches r ∧ m ≠ .acquire r := by
  refine ⟨fun touches => ?_, fun acquires => hfree r acquires (h.within j hr)⟩
  exact Finset.disjoint_left.mp (h.apart i j hj.symm) (hown r touches) hr

/-- A run of moves of one agent that yields what it says keeps the shares
apart, and leaves the other agents alone. -/
theorem burst {ms : List (Move R)} {P : Finset R → Prop} (h : Kept g table history)
    (hy : Yields (held g history i) ms P) (ha : Allocates (inUse table history) ms) :
    Kept g table (history ++ ms.map (i, ·)) ∧ P (held g (history ++ ms.map (i, ·)) i) ∧
      ∀ j, j ≠ i → held g (history ++ ms.map (i, ·)) j = held g history j := by
  induction ms generalizing history with
  | nil => exact ⟨by simpa using h, by simpa [Yields] using hy, fun j hj => held_burst_of_ne _ _ hj _⟩
  | cons m ms ih =>
      obtain ⟨first, -, -, hy, ha⟩ := h.head hy ha
      obtain ⟨kept, yielded, -⟩ := ih first hy ha
      rw [List.append_assoc, List.singleton_append, ← List.map_cons] at kept yielded
      exact ⟨kept, yielded, fun j hj => held_burst_of_ne _ _ hj _⟩

end Kept

end Ownership
