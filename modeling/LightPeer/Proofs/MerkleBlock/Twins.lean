import LightPeer.Proofs.Merkle.Twins
import LightPeer.Proofs.MerkleBlock.Reading

/-! # Repeated transactions are not matched

A block's transactions can be padded with the last of them without a change of the
root. A merkle block that is read with such a root matches none of the transactions
that are there twice. -/

namespace LightPeer

namespace MerkleBlock

open Merkle

/-- A merkle block with the root of some transactions matches none that lies below a
node with two equal children, unless a node of the proof collides with the tree of the
transactions. So where a shorter list was padded with its own tail, which keeps its
root, neither the padding nor what it repeats is matched. -/
theorem unmatched_below_twins {block : MerkleBlock} {txids matched : List Hash} {root : Hash}
    (hlength : txids.length = block.total.toNat) (hroot : root? Hash.node txids = some root)
    (h : block.extract = .ok (root, matched)) :
    ∃ height tree, block.Carries height tree ∧ tree.matched = matched ∧
      ((matched.map some = (tree.positions 0).map (txids[·]?) ∧
          (∀ k position, Twins Hash.node txids k position →
            ∀ place ∈ tree.positions 0, place / 2 ^ (k + 1) ≠ position) ∧
          ∀ shorter k position, RepeatsTail shorter txids k position →
            root? Hash.node shorter = some root ∧
              ∀ place ∈ tree.positions 0, place < 2 * position * 2 ^ k) ∨
        ∃ joint ∈ tree.joints Hash.node height 0, joint.Collides Hash.node txids) := by
  obtain ⟨_, _, height, tree, hcarries, hdistinct, htree, hmatched⟩ :=
    extract_eq_ok_iff_carries.mp h
  have hheight : height = Merkle.height txids.length := by rw [hcarries.height_eq, hlength]
  have hfits := hcarries.fits
  rw [← hlength] at hfits
  have htop : nodeAt? Hash.node txids height 0 = some (tree.root Hash.node) := by
    rw [hheight, ← root?_eq, hroot, htree]
  refine ⟨height, tree, hcarries, hmatched, ?_⟩
  by_cases hsafe : ∀ joint ∈ tree.joints Hash.node height 0, ¬ joint.Collides Hash.node txids
  · left
    have hplaces := (PartialTree.matched_or_collides hfits htop).resolve_right
      fun ⟨joint, hmem, hcollides⟩ => hsafe joint hmem hcollides
    have hagree := PartialTree.children?_of_mem_joints hfits htop hsafe
    have hapart : ∀ k position, Twins Hash.node txids k position →
        ∀ place ∈ tree.positions 0, place / 2 ^ (k + 1) ≠ position := by
      intro k position htwins place hplace
      have hbelow : k < height := hheight ▸ htwins.lt_height
      exact PartialTree.div_ne_of_twins hfits hdistinct hagree htwins hbelow hplace
    refine ⟨hmatched ▸ hplaces, hapart, ?_⟩
    intro shorter k position hrepeats
    refine ⟨(hrepeats.root?_eq Hash.node).symm.trans hroot, ?_⟩
    intro place hplace
    exact hrepeats.lt_of_div_ne (PartialTree.lt_length_of_mem_positions hplaces hplace)
      (hapart k position (hrepeats.twins Hash.node) place hplace)
  · right
    simpa using hsafe

theorem unmatched_below_twins_padded :
    let leaf : UInt8 → Hash := fun n => ⟨List.replicate 32 n, List.length_replicate⟩
    let shorter := [leaf 0, leaf 1, leaf 2]
    let txids := [leaf 0, leaf 1, leaf 2, leaf 2]
    let last := Hash.node (leaf 2) (leaf 2)
    let root := Hash.node (Hash.node (leaf 0) (leaf 1)) last
    let block : MerkleBlock := ⟨⟨1, .zero, root, 0, 0, 0⟩, 4, [leaf 0, leaf 1, last], [0x07]⟩
    txids.length = block.total.toNat ∧ root? Hash.node txids = some root ∧
      block.extract = .ok (root, [leaf 0]) ∧ RepeatsTail shorter txids 0 1 ∧
      ∃ height tree, block.Carries height tree ∧ tree.matched = [leaf 0] ∧
        (([leaf 0].map some = (tree.positions 0).map (txids[·]?) ∧
            (∀ k position, Twins Hash.node txids k position →
              ∀ place ∈ tree.positions 0, place / 2 ^ (k + 1) ≠ position) ∧
            ∀ shorter k position, RepeatsTail shorter txids k position →
              root? Hash.node shorter = some root ∧
                ∀ place ∈ tree.positions 0, place < 2 * position * 2 ^ k) ∨
          ∃ joint ∈ tree.joints Hash.node height 0, joint.Collides Hash.node txids) := by
  intro leaf shorter txids last root block
  have hroot : root? Hash.node txids = some root := by simp [root?, parents, txids, root, last]
  have hleaf : leaf 1 ≠ leaf 0 := by decide +kernel
  have hnode : last ≠ Hash.node (leaf 0) (leaf 1) := by decide +kernel
  have hextract : block.extract = .ok (root, [leaf 0]) :=
    extract_eq_ok_iff_carries.mpr ⟨by decide, by decide, 2,
      .pair (.pair (.leaf (leaf 0) true) (.leaf (leaf 1) false)) (.pruned last),
      carries_iff_padding.mpr ⟨isLeast_height 4, by simp [PartialTree.Fits, block], rfl,
        [false, false, false], by decide, by decide⟩,
      ⟨⟨trivial, trivial, hleaf⟩, trivial, hnode⟩, rfl, rfl⟩
  have hrepeats : RepeatsTail shorter txids 0 1 := ⟨Nat.one_pos, rfl, rfl⟩
  exact ⟨rfl, hroot, hextract, hrepeats, unmatched_below_twins rfl hroot hextract⟩

end MerkleBlock

end LightPeer
