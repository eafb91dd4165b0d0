import Mathlib.Data.List.Basic
import Mathlib.Data.List.Induction
import Mathlib.Order.Nat

/-!
# Blocks of a stream

A stream is cut into pieces of one size, the last of which may be shorter.
-/

namespace Blocks

variable {α : Type*} {size : ℕ}

/-- All pieces have the full size. -/
def Full (size : ℕ) (pieces : List (List α)) : Prop := ∀ piece ∈ pieces, piece.length = size

namespace Full

variable {pieces : List (List α)}

theorem nil : Full size ([] : List (List α)) := fun _ h => by simp at h

theorem snoc (h : Full size pieces) {piece : List α} (hp : piece.length = size) :
    Full size (pieces ++ [piece]) := by
  intro q hq
  rcases List.mem_append.mp hq with hq | hq
  · exact h q hq
  · rw [List.mem_singleton.mp hq]
    exact hp

theorem length_flatten (h : Full size pieces) : pieces.flatten.length = pieces.length * size := by
  induction pieces with
  | nil => simp
  | cons piece pieces ih =>
      have rest : Full size pieces := fun q hq => h q (List.mem_cons_of_mem _ hq)
      rw [List.flatten_cons, List.length_append, ih rest, h piece List.mem_cons_self,
        List.length_cons, Nat.succ_mul, Nat.add_comm]

theorem take (h : Full size pieces) (m : ℕ) : Full size (pieces.take m) :=
  fun piece hp => h piece (List.mem_of_mem_take hp)

theorem length_flatten_take (h : Full size pieces) {m : ℕ} (hm : m ≤ pieces.length) :
    (pieces.take m).flatten.length = m * size := by
  rw [(h.take m).length_flatten, List.length_take, Nat.min_eq_left hm]

end Full

/-! ## The blocks of a given stream -/

variable {stream : List α} {k : ℕ}

/-- The `k`-th block of a stream, counted from one. -/
def block (size : ℕ) (stream : List α) (k : ℕ) : List α := (stream.drop ((k - 1) * size)).take size

/-- The number of the last block, the one that is not full. -/
def last (size : ℕ) (stream : List α) : ℕ := stream.length / size + 1

/-- The first `m` blocks. -/
def firstBlocks (size : ℕ) (stream : List α) (m : ℕ) : List (List α) :=
  (List.range m).map fun i => block size stream (i + 1)

theorem block_succ (size : ℕ) (stream : List α) (k : ℕ) :
    block size stream (k + 1) = (stream.drop (k * size)).take size := rfl

/-- The blocks before the last one are full, and the last one is not. -/
theorem length_block_lt_iff (hs : 0 < size) (hk : k < last size stream) :
    (block size stream (k + 1)).length < size ↔ k + 1 = last size stream := by
  unfold last at hk ⊢
  have low : stream.length / size * size ≤ stream.length := Nat.div_mul_le_self _ _
  have high : stream.length < (stream.length / size + 1) * size :=
    Nat.lt_mul_of_div_lt (Nat.lt_succ_self _) hs
  rw [block_succ, List.length_take, List.length_drop]
  constructor
  · intro short
    by_contra other
    have before : (k + 1) * size ≤ stream.length / size * size :=
      Nat.mul_le_mul_right _ (by omega)
    rw [Nat.add_mul] at before
    omega
  · intro isLast
    obtain rfl : k = stream.length / size := by omega
    rw [Nat.add_mul] at high
    omega

/-- What is left of a stream after a block. -/
theorem drop_block (size : ℕ) (stream : List α) (k : ℕ) :
    (stream.drop (k * size)).drop (block size stream (k + 1)).length =
      stream.drop ((k + 1) * size) := by
  rw [block_succ, List.drop_drop, List.length_take, List.length_drop, Nat.add_mul, Nat.one_mul]
  rcases Nat.le_total size (stream.length - k * size) with full | short
  · rw [Nat.min_eq_left full]
  · rw [Nat.min_eq_right short, List.drop_eq_nil_of_le (by omega), List.drop_eq_nil_of_le (by omega)]

theorem firstBlocks_succ (size : ℕ) (stream : List α) (m : ℕ) :
    firstBlocks size stream (m + 1) = firstBlocks size stream m ++ [block size stream (m + 1)] := by
  unfold firstBlocks
  rw [List.range_succ, List.map_append]
  rfl

@[simp] theorem length_firstBlocks (size : ℕ) (stream : List α) (m : ℕ) :
    (firstBlocks size stream m).length = m := by simp [firstBlocks]

/-- The first blocks are the beginning of the stream. -/
theorem flatten_firstBlocks (size : ℕ) (stream : List α) (m : ℕ) :
    (firstBlocks size stream m).flatten = stream.take (m * size) := by
  induction m with
  | zero => simp [firstBlocks]
  | succ m ih =>
      rw [firstBlocks_succ, List.flatten_append, ih, List.flatten_singleton, block_succ,
        Nat.add_mul, Nat.one_mul, List.take_add]

/-- All the blocks are the stream. -/
theorem flatten_all (hs : 0 < size) (stream : List α) :
    (firstBlocks size stream (last size stream)).flatten = stream := by
  rw [flatten_firstBlocks]
  exact List.take_of_length_le (Nat.lt_mul_of_div_lt (Nat.lt_succ_self _) hs).le

/-- A piece that is full, or that ends the stream, is the next block. -/
theorem snoc_eq_firstBlocks {pieces : List (List α)} {piece rest : List α} {m : ℕ}
    (h : pieces = firstBlocks size stream m) (full : pieces.flatten.length = m * size)
    (follows : pieces.flatten ++ (piece ++ rest) = stream)
    (ends : piece.length = size ∨ piece.length ≤ size ∧ rest = []) :
    pieces ++ [piece] = firstBlocks size stream (m + 1) := by
  have behind : stream.drop (m * size) = piece ++ rest := by
    rw [← follows, ← full, List.drop_left]
  have next : block size stream (m + 1) = piece := by
    rw [block_succ, behind]
    rcases ends with whole | ⟨short, rfl⟩
    · rw [← whole, List.take_left]
    · rw [List.append_nil, List.take_of_length_le short]
  rw [firstBlocks_succ, next, h]

/-- Full pieces that begin a stream are its first blocks. -/
theorem Full.eq_firstBlocks {pieces : List (List α)} (h : Full size pieces)
    (begins : pieces.flatten <+: stream) : pieces = firstBlocks size stream pieces.length := by
  induction pieces using List.reverseRecOn with
  | nil => rfl
  | append_singleton pieces piece ih =>
      have before : Full size pieces := fun p hp => h p (List.mem_append_left _ hp)
      have size : piece.length = size := h piece (by simp)
      obtain ⟨rest, follows⟩ := begins
      rw [List.flatten_append, List.flatten_singleton, List.append_assoc] at follows
      rw [List.length_append, List.length_singleton]
      exact snoc_eq_firstBlocks (ih before ⟨_, follows⟩) before.length_flatten follows (.inl size)

end Blocks
