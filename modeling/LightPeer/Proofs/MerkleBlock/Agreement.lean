import LightPeer.Proofs.Merkle.Agreement
import LightPeer.Proofs.MerkleBlock.Reading

/-! # Merkle blocks with one root do not contradict each other -/

namespace LightPeer

namespace MerkleBlock

open Merkle

/-- Two merkle blocks for as many transactions that are read with the same root agree on
every node that both trees have, whatever else their hashes and flags are: the
transactions that both match are reported alike and in the same order. Otherwise a node
that both expand joins two different pairs of hashes that are hashed alike. -/
theorem extract_agree {block other : MerkleBlock} {root : Hash} {matched matched' : List Hash}
    (htotal : block.total = other.total) (h : block.extract = .ok (root, matched))
    (h' : other.extract = .ok (root, matched')) :
    ∃ height tree tree', block.Carries height tree ∧ other.Carries height tree' ∧
      (tree.report 0).map Prod.snd = matched ∧ (tree'.report 0).map Prod.snd = matched' ∧
      ((tree.Agree Hash.node tree' height 0 ∧
          (tree.report 0).filter (·.1 ∈ tree'.positions 0) =
            (tree'.report 0).filter (·.1 ∈ tree.positions 0)) ∨
        ∃ joint ∈ tree.joints Hash.node height 0, ∃ joint' ∈ tree'.joints Hash.node height 0,
          joint.Clashes Hash.node joint') := by
  obtain ⟨_, _, height, tree, hcarries, _, hroot, hmatched⟩ := extract_eq_ok_iff_carries.mp h
  obtain ⟨_, _, height', tree', hcarries', _, hroot', hmatched'⟩ := extract_eq_ok_iff_carries.mp h'
  obtain rfl : height = height' := by
    rw [hcarries.height_eq, hcarries'.height_eq, htotal]
  have hfits := hcarries.fits
  have hfits' := hcarries'.fits
  rw [← htotal] at hfits'
  refine ⟨height, tree, tree', hcarries, hcarries', ?_, ?_, ?_⟩
  · rw [PartialTree.map_snd_report, hmatched]
  · rw [PartialTree.map_snd_report, hmatched']
  by_cases hsafe : ∀ joint ∈ tree.joints Hash.node height 0,
      ∀ joint' ∈ tree'.joints Hash.node height 0, ¬ joint.Clashes Hash.node joint'
  · have hagree : tree.Agree Hash.node tree' height 0 := fun spot hspot spot' hspot' =>
      PartialTree.hash_eq_of_mem_spots hfits hfits' (hroot.trans hroot'.symm) hsafe hspot hspot'
    exact .inl ⟨hagree, hagree.filter_report hfits hfits'⟩
  · right
    simpa using hsafe

/-- One proof matches the first and the third of three transactions, and the other one
the third alone. -/
theorem extract_agree_odd_width :
    let leaf : UInt8 → Hash := fun n => ⟨List.replicate 32 n, List.length_replicate⟩
    let first := Hash.node (leaf 0) (leaf 1)
    let root := Hash.node first (Hash.node (leaf 2) (leaf 2))
    let header : Header := ⟨1, .zero, root, 0, 0, 0⟩
    let block : MerkleBlock := ⟨header, 3, [leaf 0, leaf 1, leaf 2], [0x37]⟩
    let other : MerkleBlock := ⟨header, 3, [first, leaf 2], [0x0d]⟩
    block.total = other.total ∧ block.extract = .ok (root, [leaf 0, leaf 2]) ∧
      other.extract = .ok (root, [leaf 2]) ∧
      ∃ height tree tree', block.Carries height tree ∧ other.Carries height tree' ∧
        (tree.report 0).map Prod.snd = [leaf 0, leaf 2] ∧
        (tree'.report 0).map Prod.snd = [leaf 2] ∧
        ((tree.Agree Hash.node tree' height 0 ∧
            (tree.report 0).filter (·.1 ∈ tree'.positions 0) =
              (tree'.report 0).filter (·.1 ∈ tree.positions 0)) ∨
          ∃ joint ∈ tree.joints Hash.node height 0, ∃ joint' ∈ tree'.joints Hash.node height 0,
            joint.Clashes Hash.node joint') := by
  intro leaf first root header block other
  have hleaf : leaf 1 ≠ leaf 0 := by decide +kernel
  have hnode : Hash.node (leaf 2) (leaf 2) ≠ first := by decide +kernel
  have hextract : block.extract = .ok (root, [leaf 0, leaf 2]) :=
    extract_eq_ok_iff_carries.mpr ⟨by decide, by decide, 2,
      .pair (.pair (.leaf (leaf 0) true) (.leaf (leaf 1) false)) (.single (.leaf (leaf 2) true)),
      carries_iff_padding.mpr ⟨isLeast_height 3, by simp [PartialTree.Fits, block], rfl,
        [false, false], by decide, by decide⟩,
      ⟨⟨trivial, trivial, hleaf⟩, trivial, hnode⟩, rfl, rfl⟩
  have hextract' : other.extract = .ok (root, [leaf 2]) :=
    extract_eq_ok_iff_carries.mpr ⟨by decide, by decide, 2,
      .pair (.pruned first) (.single (.leaf (leaf 2) true)),
      carries_iff_padding.mpr ⟨isLeast_height 3, by simp [PartialTree.Fits, other], rfl,
        [false, false, false, false], by decide, by decide⟩,
      ⟨trivial, trivial, hnode⟩, rfl, rfl⟩
  exact ⟨rfl, hextract, hextract', extract_agree rfl hextract hextract'⟩

end MerkleBlock

end LightPeer
