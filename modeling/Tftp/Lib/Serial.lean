import Mathlib.Data.Nat.ModEq
import Mathlib.Tactic.Ring

/-!
# Sixteen-bit serial numbers

A counter that only grows is sent as its residue modulo `2 ^ 16`. As long as
two positions differ by less than `2 ^ 16`, their residues determine their
distance; this module collects that arithmetic. Positions are natural
numbers, numbers on the wire are `UInt16`.
-/

namespace Serial

/-! ## Arcs -/

/-- `n` lies on the arc that starts at `b` and goes up to `e`, wrapping
round. The arc is never empty: when `e` is just below `b` it is the whole
circle. -/
def OnArc (n b e : UInt16) : Prop := n - b ≤ e - b

instance (n b e : UInt16) : Decidable (OnArc n b e) := by unfold OnArc; infer_instance

/-- The usual comparison-based membership test decides the arc. -/
theorem test_iff_onArc (n b e : UInt16) :
    (if b ≤ e then b ≤ n ∧ n ≤ e else b ≤ n ∨ n ≤ e) ↔ OnArc n b e := by
  unfold OnArc
  simp only [UInt16.le_iff_toNat_le, UInt16.toNat_sub]
  have hn := n.toNat_lt
  have hb := b.toNat_lt
  have he := e.toNat_lt
  split <;> omega

/-! ## Distances -/

/-- A member of an arc that ends before `n` leaves less of it behind. -/
theorem distance_lt {a b n : UInt16} (hne : b ≠ n) (ha : OnArc a b (n - 1)) :
    (n - (a + 1)).toNat < (n - b).toNat := by
  unfold OnArc at ha
  simp only [UInt16.le_iff_toNat_le, ← UInt16.toNat_inj, ne_eq, UInt16.toNat_sub, UInt16.toNat_add,
    UInt16.toNat_one] at *
  have hn := n.toNat_lt
  have ha' := a.toNat_lt
  have hb := b.toNat_lt
  omega

theorem ne_of_onArc {a b n : UInt16} (hne : b ≠ n) (ha : OnArc a b (n - 1)) : a ≠ n := by
  have hlt := distance_lt hne ha
  rintro rfl
  simp only [UInt16.toNat_sub, UInt16.toNat_add, UInt16.toNat_one] at hlt
  have hn := a.toNat_lt
  omega

/-- The arc of `w` numbers from `b` on holds those closer than `w`. -/
theorem distance_lt_of_onArc {n b w : UInt16} (hw : w ≠ 0) (h : OnArc n b (b + w - 1)) :
    (n - b).toNat < w.toNat := by
  unfold OnArc at h
  simp only [UInt16.le_iff_toNat_le, ← UInt16.toNat_inj, ne_eq, UInt16.toNat_sub, UInt16.toNat_add,
    UInt16.toNat_one, UInt16.toNat_zero] at *
  have hn := n.toNat_lt
  have hb := b.toNat_lt
  have hw' := w.toNat_lt
  omega

/-- The number just after `n` is the furthest from it. -/
theorem ne_succ_of_distance_lt {n b w : UInt16} (h : (n - b).toNat < w.toNat) : b ≠ n + 1 := by
  rintro rfl
  simp only [UInt16.toNat_sub, UInt16.toNat_add, UInt16.toNat_one] at h
  have hn := n.toNat_lt
  have hw := w.toNat_lt
  omega

theorem distance_succ {n b : UInt16} (h : (n - b).toNat < 65535) :
    (n + 1 - b).toNat = (n - b).toNat + 1 := by
  simp only [UInt16.toNat_sub, UInt16.toNat_add, UInt16.toNat_one] at *
  have hn := n.toNat_lt
  have hb := b.toNat_lt
  omega

/-! ## Positions and their numbers -/

theorem toNat_ofNat (a : ℕ) : (UInt16.ofNat a).toNat = a % 65536 := by simp

theorem ofNat_eq_iff (a b : ℕ) : UInt16.ofNat a = UInt16.ofNat b ↔ a % 65536 = b % 65536 := by
  rw [← UInt16.toNat_inj, toNat_ofNat, toNat_ofNat]

theorem ofNat_succ (a : ℕ) : UInt16.ofNat (a + 1) = UInt16.ofNat a + 1 := by
  rw [← UInt16.toNat_inj, UInt16.toNat_add, toNat_ofNat, toNat_ofNat]
  simp

/-- Positions less than a full turn apart have the same number only if equal. -/
theorem ofNat_inj_near {a b : ℕ} (h : a ≤ b) (hd : b - a < 65536) :
    UInt16.ofNat a = UInt16.ofNat b ↔ a = b := by
  rw [ofNat_eq_iff]
  omega

theorem toNat_sub_near {a b : ℕ} (h : a ≤ b) (hd : b - a < 65536) :
    (UInt16.ofNat b - UInt16.ofNat a).toNat = b - a := by
  rw [UInt16.toNat_sub, toNat_ofNat, toNat_ofNat]
  omega

/-- The arc of the positions `b .. n - 1` ends before `n`. -/
theorem onArc_before {k b n : ℕ} (hbn : b < n) (hd : n - b < 65536) (hbk : b ≤ k) (hkn : k ≤ n) :
    OnArc (UInt16.ofNat k) (UInt16.ofNat b) (UInt16.ofNat n - 1) ↔ k < n := by
  unfold OnArc
  simp only [UInt16.le_iff_toNat_le, UInt16.toNat_sub, toNat_ofNat, UInt16.toNat_one]
  omega

/-- Membership in a window of `w` numbers that starts at `b`, for a position
`n` at or after `b`. -/
theorem onArc_window {n b w : ℕ} (hbn : b ≤ n) (hd : n - b < 65536) (hw : 0 < w)
    (hw' : w < 65536) :
    OnArc (UInt16.ofNat n) (UInt16.ofNat b) (UInt16.ofNat b + UInt16.ofNat w - 1) ↔
      n < b + w := by
  unfold OnArc
  simp only [UInt16.le_iff_toNat_le, UInt16.toNat_sub, UInt16.toNat_add, toNat_ofNat,
    UInt16.toNat_one]
  omega

/-- Every number on the arc of the positions `b .. m - 1` belongs to one of
them. -/
theorem exists_of_onArc {b m : ℕ} {x : UInt16} (h : b < m)
    (hx : OnArc x (UInt16.ofNat b) (UInt16.ofNat m - 1)) :
    ∃ k, b ≤ k ∧ k < m ∧ UInt16.ofNat k = x := by
  refine ⟨b + (x - UInt16.ofNat b).toNat, Nat.le_add_right _ _, ?_, ?_⟩
  · unfold OnArc at hx
    simp only [UInt16.le_iff_toNat_le, UInt16.toNat_sub, toNat_ofNat, UInt16.toNat_one] at hx ⊢
    have hlt := x.toNat_lt
    omega
  · rw [← UInt16.toNat_inj, toNat_ofNat, UInt16.toNat_sub, toNat_ofNat]
    have hlt := x.toNat_lt
    omega

/-! ## Counting without wrap -/

/-- The position reached from `p` when the number moves from `x` up to `y`. -/
def advance (p : ℕ) (x y : UInt16) : ℕ := p + (y - x).toNat

@[simp] theorem advance_self (p : ℕ) (x : UInt16) : advance p x x = p := by
  simp [advance]

theorem advance_succ (p : ℕ) (x : UInt16) : advance p x (x + 1) = p + 1 := by
  unfold advance
  rw [UInt16.toNat_sub, UInt16.toNat_add, UInt16.toNat_one]
  have hx := x.toNat_lt
  omega

/-- An advanced position has the number it was advanced to. -/
theorem ofNat_advance {p : ℕ} {x : UInt16} (h : UInt16.ofNat p = x) (y : UInt16) :
    UInt16.ofNat (advance p x y) = y := by
  subst h
  rw [← UInt16.toNat_inj, toNat_ofNat, advance, UInt16.toNat_sub, toNat_ofNat]
  have hy := y.toNat_lt
  omega

/-- Moving on from the position `b` to just after a later one. -/
theorem advance_after {b k : ℕ} (h : b ≤ k) (hd : k - b < 65535) :
    advance b (UInt16.ofNat b) (UInt16.ofNat k + 1) = k + 1 := by
  rw [← ofNat_succ, advance, toNat_sub_near (by omega) (by omega)]
  omega

/-- The latest position up to `m` whose number is `x`. -/
def latest (m : ℕ) (x : UInt16) : ℕ := m - (UInt16.ofNat m - x).toNat

theorem latest_le (m : ℕ) (x : UInt16) : latest m x ≤ m := Nat.sub_le _ _

/-- The number of the next position was not used last there. -/
theorem latest_le_of_ne {m : ℕ} {x : UInt16} (h : x ≠ UInt16.ofNat (m + 1)) :
    latest (m + 1) x ≤ m := by
  have distance : (UInt16.ofNat (m + 1) - x).toNat ≠ 0 := by
    intro zero
    rw [UInt16.toNat_sub, toNat_ofNat] at zero
    refine h (UInt16.toNat_inj.mp ?_)
    rw [toNat_ofNat]
    have bound := x.toNat_lt
    omega
  unfold latest
  omega

theorem latest_ofNat {k m : ℕ} (h : k ≤ m) (hd : m - k < 65536) :
    latest m (UInt16.ofNat k) = k := by
  unfold latest
  rw [toNat_sub_near h hd]
  omega

/-! ## Slots -/

theorem toNat_ofNat_succ_sub (i : ℕ) : (UInt16.ofNat (i + 1) - 1).toNat = i % 65536 := by
  rw [ofNat_succ, UInt16.add_sub_cancel, toNat_ofNat]

/-- In a ring of `size` slots that is addressed by number, positions less than a ring
apart have slots of their own, if a full turn is a multiple of the ring or the numbers
do not wrap. -/
theorem slot_ne {size i j : ℕ} (h : i < j) (near : j < i + size)
    (fits : size ∣ 65536 ∨ j < 65536) :
    (UInt16.ofNat (i + 1) - 1).toNat % size ≠ (UInt16.ofNat (j + 1) - 1).toNat % size := by
  rw [toNat_ofNat_succ_sub, toNat_ofNat_succ_sub]
  have reduced : i % 65536 % size = i % size ∧ j % 65536 % size = j % size := by
    rcases fits with divides | below
    · exact ⟨Nat.mod_mod_of_dvd i divides, Nat.mod_mod_of_dvd j divides⟩
    · rw [Nat.mod_eq_of_lt (h.trans below), Nat.mod_eq_of_lt below]
      exact ⟨rfl, rfl⟩
  rw [reduced.1, reduced.2]
  intro same
  have multiple : (j - i) % size = 0 := Nat.sub_mod_eq_zero_of_mod_eq same.symm
  rw [Nat.mod_eq_of_lt (by omega)] at multiple
  omega

end Serial
