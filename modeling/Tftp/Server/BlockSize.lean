import Tftp.Server.Negotiation
import Tftp.Server.Transfer

/-!
# The block size of a session

A session that is asked for no acceptable block size keeps the default, so its
blocks have at least 8 bytes.
-/

namespace Tftp.Server

open Prog Act

/-- The block size the options ask for, if any, is an acceptable one. -/
def AsksBlksize (memory : Bytes) (table : OptionTable) : Prop :=
  ∀ v, table.blksize = some v → OptionKind.blksize.InRange (strtoul (v.text memory)).value

theorem asksBlksize_empty (memory : Bytes) : AsksBlksize memory {} := fun v hv => by simp at hv

theorem AsksBlksize.parse {memory : Bytes} {table : OptionTable} (h : AsksBlksize memory table)
    (start size : ℕ) : AsksBlksize memory (tftpParseOptions memory start size table) := by
  intro v hv
  have found : (tftpParseOptions memory start size table).get .blksize = some v := hv
  rw [tftpParseOptions, parseOptionsFrom_eq, foldl_recordOption_get, Option.or_eq_some_iff] at found
  rcases found with found | ⟨-, before⟩
  · obtain ⟨nv, -, he⟩ := List.mem_filterMap.mp (List.mem_of_getLast? found)
    obtain ⟨-, hvalue⟩ := Option.ite_none_right_eq_some.mp he
    obtain ⟨-, value, range⟩ := optionValue_number (by decide) hvalue
    exact value ▸ range
  · exact h v before

theorem AsksBlksize.accepted {s : Session} (h : AsksBlksize s.options.storage s.options.recognized) :
    AsksBlksize s.options.storage (acceptedOptions s).1 := by
  have recognized : AsksBlksize s.options.storage (recognizedOptions s) := by
    unfold recognizedOptions
    dsimp only
    split
    · exact h.parse _ _
    · exact fun v hv => h.parse _ _ v hv
  unfold acceptedOptions
  dsimp only
  split
  · exact fun v hv => recognized v hv
  · exact recognized

/-- `parse_options` sets a block size that was asked for. -/
theorem parseOptions_blockSize {s : Session} (fileSize : Option ℕ)
    (h : AsksBlksize s.options.storage s.options.recognized) (hs : 8 ≤ s.blockSize.toNat) :
    8 ≤ (parseOptions fileSize s).blockSize.toNat := by
  obtain ⟨blockSize, -⟩ := parseOptions_terms fileSize s _ rfl
  rw [blockSize, SessionOptions.number, OptionTable.get]
  dsimp only
  cases hv : (acceptedOptions s).1.blksize with
  | none => exact hs
  | some v =>
      obtain ⟨lower, upper⟩ := h.accepted v hv
      show 8 ≤ (UInt16.ofNat (strtoul (v.text s.options.storage)).value).toNat
      rw [UInt16.toNat_ofNat', Nat.mod_eq_of_lt (by omega)]
      exact lower

section Start

variable {w : World}

theorem startTransfer_blockSize (h : AsksBlksize w.session.options.storage w.session.options.recognized)
    (hs : 8 ≤ w.session.blockSize.toNat) :
    wp startTransfer (fun _ t => 8 ≤ t.session.blockSize.toNat) (fun _ _ => True) w := by
  have kept {v : World} (hv : 8 ≤ v.session.blockSize.toNat) :
      wp prepareTransfer (fun _ t => 8 ≤ t.session.blockSize.toNat) (fun _ _ => True) v := by
    refine prepareTransfer_terms.wp fun _ t ht => ?_
    have same : t.session.blockSize = v.session.blockSize := congrArg Terms.blockSize ht
    rw [same]
    exact hv
  rw [startTransfer, wp_bind, wp_session, wp_ite]
  refine ⟨fun _ => kept hs, fun _ => wp_bind.mpr (wp_queryFileSize fun size t ht => ?_)⟩
  rw [wp_bind, wp_modify, wp_bind, wp_modify]
  refine kept ?_
  rw [ht]
  exact parseOptions_blockSize size h hs

theorem openFile_blockSize (ha : AsksBlksize w.session.options.storage w.session.options.recognized)
    (hs : 8 ≤ w.session.blockSize.toNat) :
    wp openFile (fun _ t => 8 ≤ t.session.blockSize.toNat) (fun _ _ => True) w := by
  have asks : AsksBlksize w.session.options.storage w.session.readType.2 := by
    unfold Session.readType
    split
    · unfold getReadType
      dsimp only
      split
      · exact ha.parse _ _
      · split <;> exact ha.parse _ _
    · exact ha
  rw [openFile, wp_bind, wp_session, wp_bind, wp_sys, wp_bind, wp_modify, wp_bind]
  refine (Fixes.sessionFileInit _ _ _ : Fixes World.offer _).wp fun fd t ht => ?_
  have options : t.session.options =
      { w.session.options with recognized := w.session.readType.2 } := congrArg Offer.options ht
  have size : t.session.blockSize = w.session.blockSize := congrArg Offer.blockSize ht
  have hs' : 8 ≤ t.session.blockSize.toNat := size ▸ hs
  rw [wp_bind, wp_modify, wp_ite]
  refine ⟨fun _ => hs', fun _ => startTransfer_blockSize ?_ hs'⟩
  show AsksBlksize t.session.options.storage t.session.options.recognized
  rw [options]
  exact asks

/-- Whatever the request asks for, the blocks have at least 8 bytes. -/
theorem onStart_blockSize (hs : 8 ≤ w.session.blockSize.toNat) :
    wp onStart (fun _ t => 8 ≤ t.session.blockSize.toNat) (fun _ _ => True) w := by
  have begins : wp start (fun _ t => 8 ≤ t.session.blockSize.toNat) (fun _ _ => True) w := by
    rw [start, wp_bind, wp_session, wp_ite]
    refine ⟨fun _ => hs, fun _ => wp_bind.mpr (wp_mono (readRequest_spec w) ?_ fun _ _ _ => trivial)⟩
    rintro _ _ ⟨fd, -, rfl⟩
    rw [wp_bind, wp_session, wp_ite]
    refine ⟨fun _ => ?_, fun _ => openFile_blockSize (asksBlksize_empty _) hs⟩
    refine (Fixes.recordFailure _ _ : KeepsSettings _).wp fun _ t ht => ?_
    have same : t.session.blockSize = w.session.blockSize := congrArg Settings.blockSize ht
    rw [same]
    exact hs
  refine wp_bind.mpr (wp_mono begins ?_ fun _ _ _ => trivial)
  intro _ t ht
  refine greet_source.wp fun _ t' source => ?_
  have same : t'.session.blockSize = t.session.blockSize :=
    congrArg (fun s => s.buffer.blockSize) source
  rw [same]
  exact ht

end Start

end Tftp.Server
