import LightPeer.Proofs.Merkle.Soundness
import LightPeer.Proofs.MerkleBlock.Reading

/-! # Good proofs match transactions of the block -/

namespace LightPeer

namespace MerkleBlock

open Merkle

/-- The proof of a block whose transactions have the header's root matches
transactions of the block, each at the position of its leaf and in the order of
the block, unless a node of the proof collides with the block's own tree. Of the
digest nothing is used. -/
theorem matched_sound {block : MerkleBlock} {txids matched : List Hash}
    (hlength : txids.length = block.total.toNat)
    (hroot : root? Hash.node txids = some block.header.root)
    (h : block.matched = .ok matched) :
    ∃ height tree, block.Carries height tree ∧ tree.matched = matched ∧
      (((tree.positions 0).Pairwise (· < ·) ∧
          matched.map some = (tree.positions 0).map (txids[·]?)) ∨
        ∃ joint ∈ tree.joints Hash.node height 0, joint.Collides Hash.node txids) := by
  obtain ⟨_, _, height, tree, hcarries, _, htree, hmatched⟩ :=
    extract_eq_ok_iff_carries.mp (matched_eq_ok_iff.mp h)
  have hfits := hcarries.fits
  have htop : nodeAt? Hash.node txids height 0 = some (tree.root Hash.node) := by
    rw [hcarries.height_eq, ← hlength, ← root?_eq, hroot, htree]
  refine ⟨height, tree, hcarries, hmatched, ?_⟩
  rw [← hlength] at hfits
  rcases PartialTree.matched_or_collides hfits htop with hplaces | hcollides
  · rw [hmatched] at hplaces
    exact .inl ⟨PartialTree.positions_pairwise hfits, hplaces⟩
  · exact .inr hcollides

theorem matched_sound_odd_width :
    let leaf : UInt8 → Hash := fun n => ⟨List.replicate 32 n, List.length_replicate⟩
    let root := Hash.node (Hash.node (leaf 0) (leaf 1)) (Hash.node (leaf 2) (leaf 2))
    let txids := [leaf 0, leaf 1, leaf 2]
    let block : MerkleBlock := ⟨⟨1, .zero, root, 0, 0, 0⟩, 3, txids, [0x37]⟩
    txids.length = block.total.toNat ∧ root? Hash.node txids = some root ∧
      block.matched = .ok [leaf 0, leaf 2] ∧
      ∃ height tree, block.Carries height tree ∧ tree.matched = [leaf 0, leaf 2] ∧
        (((tree.positions 0).Pairwise (· < ·) ∧
            [leaf 0, leaf 2].map some = (tree.positions 0).map (txids[·]?)) ∨
          ∃ joint ∈ tree.joints Hash.node height 0, joint.Collides Hash.node txids) := by
  intro leaf root txids block
  have hroot : root? Hash.node txids = some root := by simp [root?, parents, txids, root]
  have hleaf : leaf 1 ≠ leaf 0 := by decide +kernel
  have hnode : Hash.node (leaf 2) (leaf 2) ≠ Hash.node (leaf 0) (leaf 1) := by decide +kernel
  have hmatched : block.matched = .ok [leaf 0, leaf 2] :=
    matched_eq_ok_iff.mpr (extract_eq_ok_iff_carries.mpr ⟨by decide, by decide, 2,
      .pair (.pair (.leaf (leaf 0) true) (.leaf (leaf 1) false)) (.single (.leaf (leaf 2) true)),
      carries_iff_padding.mpr ⟨isLeast_height 3, by simp [PartialTree.Fits, block], rfl,
        [false, false], by decide, by decide⟩,
      ⟨⟨trivial, trivial, hleaf⟩, trivial, hnode⟩, rfl, rfl⟩)
  exact ⟨rfl, hroot, hmatched, matched_sound rfl hroot hmatched⟩

end MerkleBlock

end LightPeer
