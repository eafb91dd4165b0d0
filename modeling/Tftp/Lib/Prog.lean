import Mathlib.Logic.Basic

/-!
# Stateful programs that may stop early

`Prog σ ε α` is a deterministic computation over a state `σ`. It returns an
`α` or stops with an `ε`; what it did to the state before stopping survives.
A C function whose failures all travel straight up to the caller is such a
program, with `ε` the ways in which the whole call can end badly.

`Prog.wp` is the weakest precondition for two postconditions, one for each
way out. The rules below push it through the program structure, so a
specification of a compound program is assembled from those of its parts.
-/

/-- A program over the state `σ` that returns an `α` or stops with an `ε`. -/
def Prog (σ ε α : Type) : Type := σ → Except ε α × σ

namespace Prog

variable {σ ε α β : Type}

instance : Monad (Prog σ ε) where
  pure a := fun s => (.ok a, s)
  bind x f := fun s =>
    match x s with
    | (.ok a, t) => f a t
    | (.error e, t) => (.error e, t)

/-- Stop the whole program. -/
def stop (e : ε) : Prog σ ε α := fun s => (.error e, s)

/-- Read a part of the state. -/
def gets (f : σ → α) : Prog σ ε α := fun s => (.ok (f s), s)

/-- Change the state. -/
def update (f : σ → σ) : Prog σ ε Unit := fun s => (.ok (), f s)

theorem bind_apply (x : Prog σ ε α) (f : α → Prog σ ε β) (s : σ) :
    (x >>= f) s =
      match x s with
      | (.ok a, t) => f a t
      | (.error e, t) => (.error e, t) := rfl

/-! ## Weakest preconditions -/

/-- From `s` the program returns into `Q` or stops in `E`. -/
def wp (x : Prog σ ε α) (Q : α → σ → Prop) (E : ε → σ → Prop) (s : σ) : Prop :=
  match x s with
  | (.ok a, t) => Q a t
  | (.error e, t) => E e t

variable {Q Q' : α → σ → Prop} {E E' : ε → σ → Prop} {s : σ}

@[simp] theorem wp_pure {a : α} : wp (pure a : Prog σ ε α) Q E s ↔ Q a s := Iff.rfl

@[simp] theorem wp_stop {e : ε} : wp (stop e : Prog σ ε α) Q E s ↔ E e s := Iff.rfl

@[simp] theorem wp_gets {f : σ → α} : wp (gets f : Prog σ ε α) Q E s ↔ Q (f s) s := Iff.rfl

@[simp] theorem wp_update {f : σ → σ} {Q : Unit → σ → Prop} :
    wp (update f : Prog σ ε Unit) Q E s ↔ Q () (f s) := Iff.rfl

@[simp] theorem wp_bind {x : Prog σ ε α} {f : α → Prog σ ε β} {Q : β → σ → Prop} :
    wp (x >>= f) Q E s ↔ wp x (fun a t => wp (f a) Q E t) E s := by
  unfold wp
  rw [bind_apply]
  rcases x s with ⟨_ | a, t⟩ <;> rfl

@[simp] theorem wp_ite {c : Prop} [Decidable c] {x y : Prog σ ε α} :
    wp (if c then x else y) Q E s ↔ (c → wp x Q E s) ∧ (¬c → wp y Q E s) := by
  by_cases h : c <;> simp [h]

theorem wp_mono {x : Prog σ ε α} (h : wp x Q E s) (hQ : ∀ a t, Q a t → Q' a t)
    (hE : ∀ e t, E e t → E' e t) : wp x Q' E' s := by
  unfold wp at h ⊢
  rcases hx : x s with ⟨_ | a, t⟩
  · rw [hx] at h
    exact hE _ _ h
  · rw [hx] at h
    exact hQ _ _ h

/-- Two specifications of one program are one. -/
theorem wp_and {x : Prog σ ε α} (h : wp x Q E s) (h' : wp x Q' E' s) :
    wp x (fun a t => Q a t ∧ Q' a t) (fun e t => E e t ∧ E' e t) s := by
  unfold wp at h h' ⊢
  generalize x s = r at h h' ⊢
  rcases r with ⟨_ | a, t⟩
  · exact ⟨h, h'⟩
  · exact ⟨h, h'⟩

/-- A postcondition that always holds of the states reached. -/
theorem wp_of_forall {x : Prog σ ε α} (hQ : ∀ a t, Q a t) : wp x Q (fun _ _ => True) s := by
  unfold wp
  split
  · exact hQ _ _
  · trivial

/-- Postconditions that always hold of the states reached. -/
theorem wp_of_both {x : Prog σ ε α} (hQ : ∀ a t, Q a t) (hE : ∀ e t, E e t) : wp x Q E s := by
  unfold wp
  split
  · exact hQ _ _
  · exact hE _ _

/-- The state reached is the one the program computes. -/
theorem wp_result (x : Prog σ ε α) (s : σ) :
    wp x (fun _ t => t = (x s).2) (fun _ t => t = (x s).2) s := by
  unfold wp
  rcases x s with ⟨_ | a, t⟩
  · rfl
  · rfl

/-- What holds of the state reached however the program ends. -/
theorem state_of_wp {x : Prog σ ε α} {P : σ → Prop}
    (h : wp x (fun _ t => P t) (fun _ t => P t) s) : P (x s).2 := by
  unfold wp at h
  generalize x s = r at h ⊢
  rcases r with ⟨_ | a, t⟩
  · exact h
  · exact h

/-! ## Preserved properties

A property of the state that every primitive keeps is kept by everything
built from these primitives, on both ways out. -/

/-- The program keeps `I`, whether it returns or stops. -/
def Keeps (I : σ → Prop) (x : Prog σ ε α) : Prop :=
  ∀ s, I s → wp x (fun _ t => I t) (fun _ t => I t) s

variable {I : σ → Prop}

theorem Keeps.pure (a : α) : Keeps I (Pure.pure a : Prog σ ε α) := fun _ h => h

theorem Keeps.stop (e : ε) : Keeps I (Prog.stop e : Prog σ ε α) := fun _ h => h

theorem Keeps.gets (f : σ → α) : Keeps I (Prog.gets f : Prog σ ε α) := fun _ h => h

theorem Keeps.update {f : σ → σ} (h : ∀ s, I s → I (f s)) :
    Keeps I (Prog.update f : Prog σ ε Unit) := h

theorem Keeps.bind {x : Prog σ ε α} {f : α → Prog σ ε β} (hx : Keeps I x)
    (hf : ∀ a, Keeps I (f a)) : Keeps I (x >>= f) := fun s hs =>
  wp_bind.mpr (wp_mono (hx s hs) (fun a t ht => hf a t ht) (fun _ _ ht => ht))

theorem Keeps.ite {c : Prop} [Decidable c] {x y : Prog σ ε α} (hx : Keeps I x)
    (hy : Keeps I y) : Keeps I (if c then x else y) := by
  split
  · exact hx
  · exact hy

/-! ## Ways of stopping -/

/-- The program stops in none but these ways. -/
def StopsIn (P : ε → Prop) (x : Prog σ ε α) : Prop :=
  ∀ s, wp x (fun _ _ => True) (fun e _ => P e) s

variable {P : ε → Prop}

theorem StopsIn.pure (a : α) : StopsIn P (Pure.pure a : Prog σ ε α) := fun _ => trivial

theorem StopsIn.stop {e : ε} (h : P e) : StopsIn P (Prog.stop e : Prog σ ε α) := fun _ => h

theorem StopsIn.gets (f : σ → α) : StopsIn P (Prog.gets f : Prog σ ε α) := fun _ => trivial

theorem StopsIn.update (f : σ → σ) : StopsIn P (Prog.update f : Prog σ ε Unit) := fun _ => trivial

theorem StopsIn.bind {x : Prog σ ε α} {f : α → Prog σ ε β} (hx : StopsIn P x)
    (hf : ∀ a, StopsIn P (f a)) : StopsIn P (x >>= f) := fun s =>
  wp_bind.mpr (wp_mono (hx s) (fun a t _ => hf a t) fun _ _ he => he)

theorem StopsIn.ite {c : Prop} [Decidable c] {x y : Prog σ ε α} (hx : StopsIn P x)
    (hy : StopsIn P y) : StopsIn P (if c then x else y) := by
  split
  · exact hx
  · exact hy

end Prog
