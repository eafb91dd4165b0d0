import Mathlib.Data.List.Basic
import Mathlib.Order.Nat

/-!
# Runs of a step function

A run is a list of labels that the step function accepts one after the other.
What holds in every state of a run is settled step by step.
-/

namespace Runs

variable {σ ι : Type*} (step : σ → ι → Option σ)

/-- The state a run ends in. -/
def run : σ → List ι → Option σ
  | s, [] => some s
  | s, i :: is => (step s i).bind fun s' => run s' is

/-- `P` holds in every state of the run, its first and its last among them. -/
def Always (P : σ → Prop) : σ → List ι → Prop
  | s, [] => P s
  | s, i :: is => P s ∧ ∀ s', step s i = some s' → Always P s' is

/-- Every step of the run starts in a state that meets `Q`. -/
def EachStep (Q : σ → ι → Prop) : σ → List ι → Prop
  | _, [] => True
  | s, i :: is => Q s i ∧ ∀ s', step s i = some s' → EachStep Q s' is

instance decidableEachStep (Q : σ → ι → Prop) [∀ s i, Decidable (Q s i)] :
    ∀ (s : σ) (is : List ι), Decidable (EachStep step Q s is)
  | _, [] => isTrue trivial
  | s, i :: is =>
      have := fun s' => decidableEachStep Q s' is
      inferInstanceAs (Decidable (Q s i ∧ ∀ s' ∈ step s i, EachStep step Q s' is))

variable {step} {P : σ → Prop} {Q : σ → ι → Prop} {s s' : σ} {i : ι} {is : List ι}

theorem exists_step (h : run step s (i :: is) = some s') :
    ∃ next, step s i = some next ∧ run step next is = some s' :=
  Option.bind_eq_some_iff.mp h

theorem Always.start (h : Always step P s is) : P s := by
  cases is with
  | nil => exact h
  | cons i is => exact h.1

theorem Always.finish (h : Always step P s is) (hs : run step s is = some s') : P s' := by
  induction is generalizing s with
  | nil => exact Option.some.inj hs ▸ h
  | cons i is ih =>
      obtain ⟨next, taken, rest⟩ := exists_step hs
      exact ih (h.2 next taken) rest

/-- If a step keeps `P` exactly when it meets `Q`, as long as the invariant `I`
holds, then `P` holds throughout a run exactly when every step of it meets `Q`. -/
theorem always_iff_eachStep {I : σ → Prop}
    (inv : ∀ s i s', I s → step s i = some s' → I s')
    (keeps : ∀ s i s', I s → P s → step s i = some s' → (P s' ↔ Q s i)) (initial : I s)
    (start : P s) (h : run step s is = some s') : Always step P s is ↔ EachStep step Q s is := by
  induction is generalizing s with
  | nil => exact iff_of_true start trivial
  | cons i is ih =>
      obtain ⟨next, taken, rest⟩ := exists_step h
      have inv_next := inv s i next initial taken
      constructor
      · rintro ⟨-, later⟩
        have good := (later next taken).start
        refine ⟨(keeps s i next initial start taken).mp good, fun s'' same => ?_⟩
        obtain rfl := Option.some.inj (taken.symm.trans same)
        exact (ih inv_next good rest).mp (later _ taken)
      · rintro ⟨meets, later⟩
        have good := (keeps s i next initial start taken).mpr meets
        refine ⟨start, fun s'' same => ?_⟩
        obtain rfl := Option.some.inj (taken.symm.trans same)
        exact (ih inv_next good rest).mpr (later _ taken)

/-- A run along which a rank falls comes to an end, if every step either ends it or
keeps the invariant. -/
theorem foldl_ends {next : σ → ι → σ} {I End : σ → Prop} {rank : σ → ℕ}
    (falls : ∀ s, ∀ i ∈ is, I s → End (next s i) ∨ I (next s i) ∧ rank (next s i) < rank s)
    (stays : ∀ s i, End s → End (next s i)) (initial : I s) (long : rank s < is.length) :
    End (is.foldl next s) := by
  have ended (is : List ι) : ∀ s, End s → End (is.foldl next s) := by
    induction is with
    | nil => exact fun s h => h
    | cons i is ih => exact fun s h => ih _ (stays s i h)
  induction is generalizing s with
  | nil => exact absurd long (Nat.not_lt_zero _)
  | cons i is ih =>
      rcases falls s i List.mem_cons_self initial with done | ⟨kept, less⟩
      · exact ended is _ done
      · refine ih (fun s j hj => falls s j (List.mem_cons_of_mem i hj)) kept ?_
        have long : rank s < is.length + 1 := long
        exact lt_of_lt_of_le less (Nat.le_of_lt_succ long)

end Runs
