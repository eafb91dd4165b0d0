import Tftp.Lib.Checked
import Tftp.Lib.Prog

/-!
# Programs that read checked memory

A program may stop in ways of its own; a program over checked memory may also
stop at a fault. The first kind is lifted to the second, where it has no fault.
A program that reads its memory freely is compared with one that reads it
checked: `Follows` says that the two do the same where the latter has no fault.
-/

namespace Checked

/-- A program that can stop at a fault. -/
abbrev Accessing (σ ε α : Type) : Type := Prog σ (Fault ⊕ ε) α

variable {σ ε α β : Type}

/-- A program that reads no checked memory. -/
def lift (x : Prog σ ε α) : Accessing σ ε α := fun s =>
  match x s with
  | (.ok a, t) => (.ok a, t)
  | (.error e, t) => (.error (.inr e), t)

/-- The result of a read. -/
def access : Except Fault α → Accessing σ ε α
  | .ok a => pure a
  | .error fault => Prog.stop (.inl fault)

/-- From `s` the program meets no fault. -/
def Safe (c : Accessing σ ε α) (s : σ) : Prop :=
  Prog.wp c (fun _ _ => True) (fun e _ => e.isRight = true) s

/-- Where it meets no fault, `c` does what `x` does. -/
def Follows (c : Accessing σ ε α) (x : Prog σ ε α) (s : σ) : Prop := Safe c s → c s = lift x s

/-! ## Safety -/

section Safe

variable {c : Accessing σ ε α} {x : Prog σ ε α} {s : σ}

theorem safe_of_eq (h : c s = lift x s) : Safe c s := by
  unfold Safe Prog.wp
  rw [h, lift]
  rcases x s with ⟨e | a, t⟩
  · rfl
  · trivial

@[simp] theorem safe_lift : Safe (lift x : Accessing σ ε α) s := safe_of_eq rfl

@[simp] theorem safe_pure {a : α} : Safe (pure a : Accessing σ ε α) s := trivial

theorem safe_access_bind {r : Except Fault α} {f : α → Accessing σ ε β} :
    Safe (access r >>= f) s ↔ ∃ a, r = .ok a ∧ Safe (f a) s := by
  cases r with
  | ok a =>
      constructor
      · exact fun h => ⟨a, rfl, h⟩
      · rintro ⟨b, same, h⟩
        cases same
        exact h
  | error fault => exact iff_of_false (by simp [Safe, access]) (by simp)

theorem safe_lift_bind {f : α → Accessing σ ε β} :
    Safe ((lift x : Accessing σ ε α) >>= f) s ↔
      Prog.wp x (fun a t => Safe (f a) t) (fun _ _ => True) s := by
  unfold Safe
  rw [Prog.wp_bind]
  unfold Prog.wp lift
  rcases x s with ⟨e | a, t⟩
  · simp
  · exact Iff.rfl

/-- What follows and meets no fault does not matter. -/
theorem safe_bind_of_safe {f : α → Accessing σ ε β} (h : ∀ a t, Safe (f a) t) :
    Safe (c >>= f) s ↔ Safe c s := by
  unfold Safe
  rw [Prog.wp_bind]
  exact ⟨fun safe => Prog.wp_mono safe (fun _ _ _ => trivial) fun _ _ safe => safe,
    fun safe => Prog.wp_mono safe (fun a t _ => h a t) fun _ _ safe => safe⟩

end Safe

/-! ## The same without checks -/

namespace Follows

variable {c : Accessing σ ε α} {x : Prog σ ε α} {s : σ}

theorem lift (x : Prog σ ε α) (s : σ) : Follows (Checked.lift x) x s := fun _ => rfl

theorem pure (a : α) (s : σ) : Follows (Pure.pure a : Accessing σ ε α) (Pure.pure a) s :=
  fun _ => rfl

theorem bind {f : α → Accessing σ ε β} {g : α → Prog σ ε β} (hx : Follows c x s)
    (hf : ∀ a t, x s = (.ok a, t) → Follows (f a) (g a) t) : Follows (c >>= f) (x >>= g) s := by
  intro safe
  have safe : Prog.wp c (fun a t => Safe (f a) t) (fun e _ => e.isRight = true) s :=
    Prog.wp_bind.mp safe
  have first : c s = Checked.lift x s :=
    hx (Prog.wp_mono safe (fun _ _ _ => trivial) fun _ _ h => h)
  unfold Prog.wp at safe
  rw [first] at safe
  rw [Prog.bind_apply, first, Checked.lift, Checked.lift, Prog.bind_apply]
  rw [Checked.lift] at safe
  cases hr : x s with
  | mk result t =>
      rw [hr] at safe
      cases result with
      | error e => rfl
      | ok a => exact hf a t hr safe

/-- The other program looks at its state. -/
theorem gets {f : σ → β} {g : β → Prog σ ε α} (h : Follows c (g (f s)) s) :
    Follows c (Prog.gets f >>= g) s := h

/-- A read the other program makes freely. -/
theorem access {r : Except Fault β} {f : β → Accessing σ ε α}
    (h : ∀ b, r = .ok b → Follows (f b) x s) : Follows (Checked.access r >>= f) x s := by
  intro safe
  obtain ⟨b, rfl, safe⟩ := safe_access_bind.mp safe
  exact h b rfl safe

theorem ite {p : Prop} [Decidable p] {c' : Accessing σ ε α} {x' : Prog σ ε α}
    (h : p → Follows c x s) (h' : ¬p → Follows c' x' s) :
    Follows (if p then c else c') (if p then x else x') s := by
  by_cases hp : p
  · rw [if_pos hp, if_pos hp]
    exact h hp
  · rw [if_neg hp, if_neg hp]
    exact h' hp

/-- The two agree exactly where no read faults. -/
theorem eq_iff (h : Follows c x s) : c s = Checked.lift x s ↔ Safe c s := ⟨safe_of_eq, h⟩

end Follows

end Checked
