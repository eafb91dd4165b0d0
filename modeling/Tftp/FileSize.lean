import Tftp.Netascii
import Tftp.Options

/-!
# The size of a file

`io.c`: the size of a file as it is announced with `tsize`. For netascii the file
is read through once, and each line end and carriage return in the buffer counts
twice. The whole buffer is looked at after every read, also behind the bytes the
read has brought.
-/

namespace Tftp

namespace Netascii

/-- How many bytes of a file take two in its netascii form. -/
def escapes (content : Bytes) : ℕ := content.countP fun c => c = 10 || c = 13

theorem escapes_append (a b : Bytes) : escapes (a ++ b) = escapes a + escapes b :=
  List.countP_append

theorem escapes_eq_zero {content : Bytes} :
    escapes content = 0 ↔ ∀ c ∈ content, c ≠ 10 ∧ c ≠ 13 := by
  unfold escapes
  rw [List.countP_eq_zero]
  simp

theorem length_put (size k : ℕ) (c : UInt8) : (put size k c).length = 1 + escapes [c] := by
  by_cases h : c = 10 ∨ c = 13
  · have counted : escapes [c] = 1 := by simp [escapes, h]
    rw [put, if_pos h, counted]
    rfl
  · have uncounted : escapes [c] = 0 := by simp [escapes, h]
    rw [put, if_neg h, uncounted]
    rfl

/-- What the encoder makes of a file is as long as its netascii form, wherever
the blocks end. -/
theorem length_output (size k : ℕ) (content : Bytes) :
    (output size k content).length = content.length + escapes content := by
  induction content generalizing k with
  | nil => rfl
  | cons c rest ih =>
      have split : escapes (c :: rest) = escapes [c] + escapes rest := escapes_append [c] rest
      rw [output, List.length_append, ih, length_put, split, List.length_cons]
      omega

end Netascii

open Netascii

/-! ## io.c -/

/-- What `fstat` finds, with the answer of `ioctl` for a block device. -/
inductive FileStat where
  | regular (size : ℕ)
  | block (size : Option ℕ)
  | other

/-- `file_size_octet` -/
def fileSizeOctet (fd : ℤ) (stat : Option FileStat) : Option ℕ :=
  if fd < 0 then none
  else
    match stat with
    | some (.regular size) => some size
    | some (.block size) => size
    | _ => none

/-- The loop of `file_size_netascii`; `reads` are the answers of `read`. It never
ends when `bytes_to_read` goes below zero. -/
def scan : Bytes → ℕ → List (Option Bytes) → ℕ → Option ℕ
  | _, 0, _, size => some size
  | buffer, toRead + 1, some bytes :: reads, size =>
      let buffer := poke buffer 0 bytes
      if bytes.length ≤ toRead + 1 then
        scan buffer (toRead + 1 - bytes.length) reads (size + bytes.length + escapes buffer)
      else none
  | _, _ + 1, _, _ => none

/-- `file_size_netascii`; `heap` is what `malloc` gives, and `rewinds` whether
`lseek` succeeds. -/
def fileSizeNetascii (fd : ℤ) (stat : Option FileStat) (heap : Option Bytes)
    (reads : List (Option Bytes)) (rewinds : Bool) : Option ℕ := do
  let bytesToRead ← fileSizeOctet fd stat
  let buffer ← heap
  let size ← scan buffer bytesToRead reads 0
  if rewinds then some size else none

/-- The size that `parse_options` announces. -/
def fileSize (mode : Mode) (fd : ℤ) (stat : Option FileStat) (heap : Option Bytes)
    (reads : List (Option Bytes)) (rewinds : Bool) : Option ℕ :=
  if mode = .octet then fileSizeOctet fd stat else fileSizeNetascii fd stat heap reads rewinds

/-! ## What it counts -/

/-- What is counted in the rest of the buffer behind the bytes of each read. -/
def stale : Bytes → List Bytes → ℕ
  | _, [] => 0
  | buffer, bytes :: reads =>
      escapes (buffer.drop bytes.length) + stale (poke buffer 0 bytes) reads

/-- There is nothing to count behind any of the reads. -/
def CleanBehind : Bytes → List Bytes → Prop
  | _, [] => True
  | buffer, bytes :: reads =>
      (∀ c ∈ buffer.drop bytes.length, c ≠ 10 ∧ c ≠ 13) ∧ CleanBehind (poke buffer 0 bytes) reads

instance : ∀ (buffer : Bytes) (reads : List Bytes), Decidable (CleanBehind buffer reads)
  | _, [] => .isTrue trivial
  | buffer, bytes :: reads =>
      have := instDecidableCleanBehind (poke buffer 0 bytes) reads
      inferInstanceAs (Decidable (_ ∧ _))

variable {buffer : Bytes} {reads : List Bytes} {bytes : Bytes}

theorem stale_eq_zero : stale buffer reads = 0 ↔ CleanBehind buffer reads := by
  induction reads generalizing buffer with
  | nil => exact iff_of_true rfl trivial
  | cons bytes reads ih =>
      rw [stale, CleanBehind, Nat.add_eq_zero_iff, escapes_eq_zero, ih]

theorem poke_zero (buffer bytes : Bytes) :
    poke buffer 0 bytes = bytes ++ buffer.drop bytes.length := by
  unfold poke
  rw [List.take_zero, List.nil_append, Nat.zero_add]

/-- Every read counts its own bytes, and what is behind them. -/
theorem scan_eq (h : ∀ bytes ∈ reads, 0 < bytes.length ∧ bytes.length ≤ buffer.length) (size : ℕ) :
    scan buffer reads.flatten.length (reads.map some) size =
      some (size + reads.flatten.length + escapes reads.flatten + stale buffer reads) := by
  induction reads generalizing buffer size with
  | nil => rfl
  | cons bytes reads ih =>
      obtain ⟨some_, fits⟩ := h bytes List.mem_cons_self
      have length : (poke buffer 0 bytes).length = buffer.length := by
        rw [poke_zero, List.length_append, List.length_drop]
        omega
      have rest : ∀ bytes' ∈ reads,
          0 < bytes'.length ∧ bytes'.length ≤ (poke buffer 0 bytes).length := by
        intro bytes' hb
        rw [length]
        exact h bytes' (List.mem_cons_of_mem _ hb)
      have counted : escapes (poke buffer 0 bytes) =
          escapes bytes + escapes (buffer.drop bytes.length) := by
        rw [poke_zero, escapes_append]
      obtain ⟨n, hn⟩ : ∃ n, bytes.length + reads.flatten.length = n + 1 :=
        ⟨bytes.length - 1 + reads.flatten.length, by omega⟩
      have left : n + 1 - bytes.length = reads.flatten.length := by omega
      rw [List.flatten_cons, List.length_append, hn, List.map_cons, scan, if_pos (by omega), left,
        ih rest, counted, stale, escapes_append, ← hn]
      congr 1
      omega

/-- The size of a file that is read through without failures. -/
theorem fileSizeNetascii_eq {fd : ℤ} (hfd : 0 ≤ fd)
    (h : ∀ bytes ∈ reads, 0 < bytes.length ∧ bytes.length ≤ buffer.length) :
    fileSizeNetascii fd (some (.regular reads.flatten.length)) (some buffer) (reads.map some) true =
      some (reads.flatten.length + escapes reads.flatten + stale buffer reads) := by
  have size : fileSizeOctet fd (some (.regular reads.flatten.length)) = some reads.flatten.length :=
    if_neg (not_lt.mpr hfd)
  have counted := scan_eq h 0
  rw [Nat.zero_add] at counted
  unfold fileSizeNetascii
  rw [size]
  show (scan buffer reads.flatten.length (reads.map some) 0).bind _ = _
  rw [counted]
  rfl

end Tftp
