import Tftp.Wire

/-!
# Netascii

The netascii form of a file, and what the encoder of a read session makes of the
file instead. The encoder puts the byte that a line end is made of first where
the form has it last, and when the second byte of a sequence falls into the next
block it repeats the first one there. Its output depends on the place a byte
gets in its block.
-/

namespace Tftp

namespace Netascii

/-- The netascii form of a byte. -/
def escape (c : UInt8) : Bytes :=
  if c = 10 then [13, 10] else if c = 13 then [13, 0] else [c]

/-- The netascii form of a file. -/
def encode (content : Bytes) : Bytes := content.flatMap escape

/-- What the encoder makes of a byte at place `k` of a block. -/
def put (size k : ℕ) (c : UInt8) : Bytes :=
  if c = 10 ∨ c = 13 then [c, if k + 1 = size then c else if c = 10 then 13 else 0] else [c]

/-- What it makes of a file from place `k` of a block on. -/
def output (size : ℕ) : ℕ → Bytes → Bytes
  | _, [] => []
  | k, c :: rest => put size k c ++ output size ((k + (put size k c).length) % size) rest

/-- There is no line end in the file, and no carriage return takes the last
place of a block. -/
structure Aligned (size k : ℕ) (content : Bytes) : Prop where
  no_lf : 10 ∉ content
  fits : ∀ before after, content = before ++ 13 :: after →
    (k + (encode before).length) % size + 1 ≠ size

variable {size k : ℕ} {c : UInt8} {rest content : Bytes}

theorem encode_cons (c : UInt8) (rest : Bytes) : encode (c :: rest) = escape c ++ encode rest := rfl

/-- The encoder gets a byte right where the form of the file fits. -/
theorem put_eq_escape (hlf : c ≠ 10) (hcr : c = 13 → k + 1 ≠ size) : put size k c = escape c := by
  unfold put escape
  by_cases h : c = 13
  · subst h
    rw [if_pos (.inr rfl), if_neg (hcr rfl), if_neg hlf, if_pos rfl]
    rfl
  · rw [if_neg (by simp [hlf, h]), if_neg hlf, if_neg h]

/-- The first byte decides, and then the rest behind its form. -/
theorem aligned_cons (hk : k < size) : Aligned size k (c :: rest) ↔
    c ≠ 10 ∧ (c = 13 → k + 1 ≠ size) ∧ Aligned size ((k + (escape c).length) % size) rest := by
  constructor
  · intro h
    refine ⟨?_, ?_, ?_, ?_⟩
    · rintro rfl
      exact h.no_lf List.mem_cons_self
    · rintro rfl
      have first := h.fits [] rest rfl
      simpa [encode, Nat.mod_eq_of_lt hk] using first
    · exact fun hm => h.no_lf (List.mem_cons_of_mem c hm)
    · intro before after he
      have later := h.fits (c :: before) after (congrArg (List.cons c) he)
      rwa [encode_cons, List.length_append, ← Nat.add_assoc, ← Nat.mod_add_mod] at later
  · rintro ⟨hlf, hcr, h⟩
    constructor
    · intro hm
      rcases List.mem_cons.mp hm with he | hm
      · exact hlf he.symm
      · exact h.no_lf hm
    · intro before after he
      cases before with
      | nil =>
          obtain ⟨rfl, -⟩ := List.cons_eq_cons.mp he
          simpa [encode, Nat.mod_eq_of_lt hk] using hcr rfl
      | cons b before =>
          obtain ⟨rfl, later⟩ := List.cons_eq_cons.mp he
          rw [encode_cons, List.length_append, ← Nat.add_assoc, ← Nat.mod_add_mod]
          exact h.fits before after later

/-- The output is the netascii form of the file exactly where nothing of it has
to be put in the other order or on two sides of a block boundary. -/
theorem output_eq_encode_iff (hk : k < size) :
    output size k content = encode content ↔ Aligned size k content := by
  induction content generalizing k with
  | nil =>
      constructor
      · intro _
        exact ⟨List.not_mem_nil, fun before after he => by simp at he⟩
      · intro _
        rfl
  | cons c rest ih =>
      have hpos : 0 < size := by omega
      rw [aligned_cons hk, output, encode_cons]
      by_cases right : c ≠ 10 ∧ (c = 13 → k + 1 ≠ size)
      · rw [put_eq_escape right.1 right.2, List.append_cancel_left_eq, ih (Nat.mod_lt _ hpos)]
        exact ⟨fun h => ⟨right.1, right.2, h⟩, fun h => h.2.2⟩
      · constructor
        · intro same
          -- the first byte that is wrong is seen at once
          by_cases hlf : c = 10
          · subst hlf
            simp [put, escape] at same
          · by_cases hcr : c = 13
            · subst hcr
              have boundary : k + 1 = size := by
                by_contra hne
                exact right ⟨hlf, fun _ => hne⟩
              simp [put, escape, boundary] at same
            · exact (right ⟨hlf, fun he => (hcr he).elim⟩).elim
        · intro h
          exact (right ⟨h.1, h.2.1⟩).elim

/-- What is still to come: the block at hand, the byte that is left over for the
next one, and the output for the rest of the file. -/
def pendingOutput (size : ℕ) (block : Bytes) (left : Option UInt8) (rest : Bytes) : Bytes :=
  block ++ left.toList ++ output size ((block.length + left.toList.length) % size) rest

/-- A byte that is left over goes to the next block. -/
theorem pendingOutput_full {block : Bytes} (h : block.length = size) (left : Option UInt8)
    (rest : Bytes) :
    pendingOutput size block left rest = block ++ pendingOutput size [] left rest := by
  simp [pendingOutput, h]

/-- It is put in front of what follows. -/
theorem pendingOutput_left (block : Bytes) (left : Option UInt8) (rest : Bytes) :
    pendingOutput size (block ++ left.toList) none rest = pendingOutput size block left rest := by
  simp [pendingOutput]

/-- A byte is put in the block, with the second byte of its sequence. -/
theorem pendingOutput_put {block : Bytes} (h : block.length < size) (c : UInt8) (rest : Bytes) :
    pendingOutput size (block ++ put size block.length c) none rest =
      pendingOutput size block none (c :: rest) := by
  simp [pendingOutput, output, Nat.mod_eq_of_lt h]

/-- The second byte of the sequence is left over. -/
theorem pendingOutput_boundary {block : Bytes} (h : block.length + 1 = size) (hc : c = 10 ∨ c = 13)
    (rest : Bytes) :
    pendingOutput size (block ++ [c]) (some c) rest = pendingOutput size block none (c :: rest) := by
  have both : put size block.length c = [c] ++ [c] := by
    rw [put, if_pos hc, if_pos h]
    rfl
  rw [← pendingOutput_put (by omega), both, ← List.append_assoc]
  exact (pendingOutput_left (block ++ [c]) (some c) rest).symm

end Netascii

end Tftp
