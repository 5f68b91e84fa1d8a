import LightPeer.Proofs.MerkleBlock.Reading

/-! # No merkle block begins another

The walk stops at the end of a tree, so what it reads tells where the writing of
the tree ends. Hashes or flags that are added to a merkle block, or taken from
its end, are noticed. -/

namespace LightPeer

namespace Merkle

namespace PartialTree

variable {α : Type} {total k position : Nat} {s t : PartialTree α}

/-- Fitting trees are equal if the writing of one goes on where that of the other ends. -/
theorem eq_of_prefix (hs : s.Fits total k position) (ht : t.Fits total k position)
    {p q : List Bool} (hflags : s.flags ++ p = t.flags ++ q)
    (hhashes : s.hashes <+: t.hashes ∨ t.hashes <+: s.hashes) : s = t := by
  rcases hhashes with ⟨rest, hrest⟩ | ⟨rest, hrest⟩
  · have hwritten : s.writtenBefore ⟨p, rest⟩ = t.writtenBefore ⟨q, []⟩ := by
      simp only [writtenBefore, hflags, hrest, List.append_nil]
    exact (eq_of_writtenBefore hs ht hwritten).1
  · have hwritten : s.writtenBefore ⟨p, []⟩ = t.writtenBefore ⟨q, rest⟩ := by
      simp only [writtenBefore, hflags, hrest, List.append_nil]
    exact (eq_of_writtenBefore hs ht hwritten).1

end PartialTree

end Merkle

namespace MerkleBlock

open Merkle

variable {block other : MerkleBlock} {height height' : Nat} {tree tree' : PartialTree Hash}

/-- Merkle blocks carry the same tree if the hashes, and the flags, of one begin those of the
other. -/
theorem Carries.eq_of_prefix (h : block.Carries height tree) (h' : other.Carries height' tree')
    (htotal : block.total = other.total)
    (hhashes : block.hashes <+: other.hashes ∨ other.hashes <+: block.hashes)
    (hflags : block.flags <+: other.flags ∨ other.flags <+: block.flags) : tree = tree' := by
  have hfits := h.fits
  have hfits' := h'.fits
  rw [h.height_eq] at hfits
  rw [h'.height_eq, ← htotal] at hfits'
  rw [h.hashes_eq, h'.hashes_eq] at hhashes
  obtain ⟨padding, _, hbits⟩ := h.exists_padding
  obtain ⟨padding', _, hbits'⟩ := h'.exists_padding
  rcases hflags with ⟨more, hmore⟩ | ⟨more, hmore⟩
  · rw [← hmore, List.flatMap_append, hbits, List.append_assoc] at hbits'
    exact PartialTree.eq_of_prefix hfits hfits' hbits' hhashes
  · rw [← hmore, List.flatMap_append, hbits', List.append_assoc] at hbits
    exact PartialTree.eq_of_prefix hfits hfits' hbits.symm hhashes

/-- The number of bytes of flags that a merkle block needs for its tree. -/
theorem Carries.length_flags (h : block.Carries height tree) :
    block.flags.length = (tree.flags.length + 7) / 8 := by
  obtain ⟨padding, hpadding, hbits⟩ := h.exists_padding
  have hlength := congrArg List.length hbits
  rw [Bytes.length_flatMap_bitsLE, List.length_append] at hlength
  omega

/-- If the hashes, and the flags, of a readable merkle block begin those of another one
for as many transactions, or the other way round, then either the two are the same or
the other one cannot be read. -/
theorem extract_prefix_free {result : Hash × List Hash} (h : block.extract = .ok result)
    (htotal : block.total = other.total)
    (hhashes : block.hashes <+: other.hashes ∨ other.hashes <+: block.hashes)
    (hflags : block.flags <+: other.flags ∨ other.flags <+: block.flags) :
    (∀ result', other.extract = .ok result' →
      block.hashes = other.hashes ∧ block.flags = other.flags) ∧
    (block.hashes ≠ other.hashes ∨ block.flags ≠ other.flags →
      ∃ defect, other.extract = .error defect) := by
  have hsame : ∀ result', other.extract = .ok result' →
      block.hashes = other.hashes ∧ block.flags = other.flags := by
    intro result' h'
    obtain ⟨_, _, _, tree, hcarries, _⟩ := extract_eq_ok_iff_carries.mp h
    obtain ⟨_, _, _, tree', hcarries', _⟩ := extract_eq_ok_iff_carries.mp h'
    obtain rfl := hcarries.eq_of_prefix hcarries' htotal hhashes hflags
    have hlength := hcarries.length_flags.trans hcarries'.length_flags.symm
    refine ⟨hcarries.hashes_eq.trans hcarries'.hashes_eq.symm, ?_⟩
    rcases hflags with hmore | hmore
    · exact hmore.eq_of_length hlength
    · exact (hmore.eq_of_length hlength.symm).symm
  refine ⟨hsame, ?_⟩
  intro hdiffers
  cases hextract : other.extract with
  | error defect => exact ⟨defect, rfl⟩
  | ok result' =>
      obtain ⟨hhashes, hflags⟩ := hsame result' hextract
      rcases hdiffers with hne | hne
      · exact absurd hhashes hne
      · exact absurd hflags hne

/-- A second hash and a second byte of flags behind a proof for three transactions. -/
theorem extract_prefix_free_odd_width :
    let leaf : UInt8 → Hash := fun n => ⟨List.replicate 32 n, List.length_replicate⟩
    let first := Hash.node (leaf 0) (leaf 1)
    let header : Header := ⟨1, .zero, .zero, 0, 0, 0⟩
    let block : MerkleBlock := ⟨header, 3, [first, leaf 2], [0x0d]⟩
    let other : MerkleBlock := ⟨header, 3, [first, leaf 2, leaf 2], [0x0d, 0x00]⟩
    block.extract = .ok (Hash.node first (Hash.node (leaf 2) (leaf 2)), [leaf 2]) ∧
      block.total = other.total ∧ block.hashes <+: other.hashes ∧ block.flags <+: other.flags ∧
      block.hashes ≠ other.hashes ∧ ∃ defect, other.extract = .error defect := by
  intro leaf first header block other
  have hnode : Hash.node (leaf 2) (leaf 2) ≠ first := by decide +kernel
  have hextract : block.extract =
      .ok (Hash.node first (Hash.node (leaf 2) (leaf 2)), [leaf 2]) :=
    extract_eq_ok_iff_carries.mpr ⟨by decide, by decide, 2,
      .pair (.pruned first) (.single (.leaf (leaf 2) true)),
      carries_iff_padding.mpr ⟨isLeast_height 3, by simp [PartialTree.Fits, block], rfl,
        [false, false, false, false], by decide, by decide⟩,
      ⟨trivial, trivial, hnode⟩, rfl, rfl⟩
  have htotal : block.total = other.total := rfl
  have hhashes : block.hashes <+: other.hashes := ⟨[leaf 2], rfl⟩
  have hflags : block.flags <+: other.flags := ⟨[0x00], rfl⟩
  have hmore : block.hashes ≠ other.hashes := by simp [block, other]
  have hrefused := (extract_prefix_free hextract htotal (.inl hhashes) (.inl hflags)).2 (.inl hmore)
  exact ⟨hextract, htotal, hhashes, hflags, hmore, hrefused⟩

end MerkleBlock

end LightPeer
