import LightPeer.Proofs.Bits
import LightPeer.Proofs.Merkle.Pruning
import LightPeer.Proofs.MerkleBlock.Reading

/-! # Merkle blocks made from a block's transactions -/

namespace LightPeer

namespace MerkleBlock

open Merkle

theorem toNat_total {total : Nat} (hmax : total ≤ maxTransactions) :
    (UInt32.ofNat total).toNat = total :=
  UInt32.toNat_ofNat_of_lt' (Nat.lt_of_le_of_lt hmax (by decide))

/-- A merkle block made from a cut tree carries that tree. -/
theorem carries_of_tree {header : Header} {total : Nat} {tree : PartialTree Hash}
    (hmax : total ≤ maxTransactions) (hfits : tree.Fits total (Merkle.height total) 0) :
    Carries ⟨header, .ofNat total, tree.hashes, Bytes.packBits tree.flags⟩
      (Merkle.height total) tree := by
  obtain ⟨n, hn, hflags⟩ := Bytes.flatMap_bitsLE_packBits tree.flags
  refine carries_iff_padding.mpr
    ⟨?_, ?_, rfl, List.replicate n false, by simpa using hn, hflags⟩
  · rw [toNat_total hmax]
    exact isLeast_height total
  · rw [toNat_total hmax]
    exact hfits

/-- A merkle block made from a block's transactions is read back: its root is
that of the transactions and it matches the marked ones in order, if no siblings
in the cut tree are equal. -/
theorem extract_ofTxids? {txids : List (Hash × Bool)} (hne : txids ≠ [])
    (hmax : txids.length ≤ maxTransactions) :
    ∃ tree root, PartialTree.ofLeaves? Hash.node txids = some tree ∧
      root? Hash.node (txids.map (·.1)) = some root ∧
      (tree.Distinct Hash.node → ∀ header, ∃ block, ofTxids? header txids = some block ∧
        block.extract = .ok (root, (txids.filter (·.2)).map (·.1)) ∧
        (header.root = root → block.matched = .ok ((txids.filter (·.2)).map (·.1)))) := by
  obtain ⟨tree, root, htree, hroot, hfits, htop, hmatched⟩ :=
    PartialTree.exists_ofLeaves? Hash.node hne
  refine ⟨tree, root, htree, hroot, ?_⟩
  intro hdistinct header
  have hpos : 0 < txids.length := List.length_pos_iff.mpr hne
  have hextract : extract ⟨header, .ofNat txids.length, tree.hashes, Bytes.packBits tree.flags⟩ =
      .ok (root, (txids.filter (·.2)).map (·.1)) := by
    refine extract_eq_ok_iff_carries.mpr ⟨?_, ?_, _, tree, carries_of_tree hmax hfits, hdistinct,
      htop, hmatched⟩
    · rwa [toNat_total hmax]
    · rwa [toNat_total hmax]
  refine ⟨_, congrArg (Option.map _) htree, hextract, ?_⟩
  intro hheader
  rw [matched_eq_ok_iff, hextract]
  exact congrArg (fun r => Except.ok (r, _)) hheader.symm

theorem extract_ofTxids?_odd_width :
    let leaf : UInt8 → Hash := fun n => ⟨List.replicate 32 n, List.length_replicate⟩
    let txids := [(leaf 0, true), (leaf 1, false), (leaf 2, true)]
    txids ≠ [] ∧ txids.length ≤ maxTransactions ∧
      ∃ tree root, PartialTree.ofLeaves? Hash.node txids = some tree ∧
        root? Hash.node (txids.map (·.1)) = some root ∧ tree.Distinct Hash.node ∧
        ∀ header, ∃ block, ofTxids? header txids = some block ∧
          block.extract = .ok (root, [leaf 0, leaf 2]) ∧
          (header.root = root → block.matched = .ok [leaf 0, leaf 2]) := by
  intro leaf txids
  have hne : txids ≠ [] := List.cons_ne_nil _ _
  have hmax : txids.length ≤ maxTransactions := by decide
  have hleaf : leaf 1 ≠ leaf 0 := by decide +kernel
  have hnode : Hash.node (leaf 2) (leaf 2) ≠ Hash.node (leaf 0) (leaf 1) := by decide +kernel
  obtain ⟨tree, root, htree, hroot, hread⟩ := extract_ofTxids? hne hmax
  have hcut : PartialTree.ofLeaves? Hash.node txids =
      some (.pair (.pair (.leaf (leaf 0) true) (.leaf (leaf 1) false))
        (.single (.leaf (leaf 2) true))) := by decide +kernel
  have hdistinct : tree.Distinct Hash.node := by
    cases hcut.symm.trans htree
    exact ⟨⟨trivial, trivial, hleaf⟩, trivial, hnode⟩
  exact ⟨hne, hmax, tree, root, htree, hroot, hdistinct, hread hdistinct⟩

end MerkleBlock

end LightPeer
