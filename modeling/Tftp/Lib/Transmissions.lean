import Mathlib.Data.List.Basic
import Mathlib.Order.Lattice

/-!
# Transmissions and round trips

What a sender has put on the wire, in order: the positions it sent, each with
the time it was sent. A round trip can be told from such a history only where
its position was sent once: of two transmissions nobody knows which of them was
answered.
-/

namespace Transmissions

variable {α τ : Type*} [LinearOrder α] {sends : List (α × τ)} {p q : α} {t u : τ}

/-- Position `p` was sent at `t` for the first time, beyond everything before
it, and each transmission since then goes further: nothing was sent again. -/
def Single (sends : List (α × τ)) (p : α) (t : τ) : Prop :=
  ∃ pre post, sends = pre ++ (p, t) :: post ∧ (∀ s ∈ pre, s.1 < p) ∧
    ((p, t) :: post).Pairwise fun s s' => s.1 < s'.1

namespace Single

/-- Such a position was sent exactly once. -/
theorem once (h : Single sends p t) : sends.filter (fun s => s.1 = p) = [(p, t)] := by
  obtain ⟨pre, post, rfl, before, after⟩ := h
  have earlier : pre.filter (fun s => s.1 = p) = [] := by
    refine List.filter_eq_nil_iff.mpr ?_
    intro s hs
    simpa using (before s hs).ne
  have later : post.filter (fun s => s.1 = p) = [] := by
    refine List.filter_eq_nil_iff.mpr ?_
    intro s hs
    simpa using ((List.pairwise_cons.mp after).1 s hs).ne'
  rw [List.filter_append, earlier, List.filter_cons_of_pos (by simp), later]
  rfl

/-- A position beyond all others. -/
theorem fresh (h : ∀ s ∈ sends, s.1 < q) : Single (sends ++ [(q, u)]) q u :=
  ⟨sends, [], rfl, h, List.pairwise_singleton _ _⟩

/-- It takes nothing away from a single transmission. -/
theorem extend (h : Single sends p t) (beyond : ∀ s ∈ sends, s.1 < q) :
    Single (sends ++ [(q, u)]) p t := by
  obtain ⟨pre, post, rfl, before, after⟩ := h
  refine ⟨pre, post ++ [(q, u)], by simp, before, ?_⟩
  rw [← List.cons_append, List.pairwise_append]
  refine ⟨after, List.pairwise_singleton _ _, ?_⟩
  intro s hs s' hs'
  obtain rfl := List.mem_singleton.mp hs'
  exact beyond s (List.mem_append_right _ hs)

end Single

end Transmissions
