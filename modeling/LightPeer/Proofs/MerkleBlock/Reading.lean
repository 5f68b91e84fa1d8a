import LightPeer.MerkleBlock
import LightPeer.Proofs.Bits
import LightPeer.Proofs.Merkle.Walk

/-! # The merkle blocks that can be read

A merkle block can be read exactly if its hashes and flags are the writing of a
partial tree of its transactions in which no siblings are equal. -/

namespace LightPeer

namespace MerkleBlock

open Merkle

/-- The hashes and flags of a merkle block are those of a partial tree, from the
least height that covers all transactions. Flag `i` is bit `i % 8` of byte `i / 8`,
counted from the least significant bit, and less than a byte of flags is left. -/
structure Carries (block : MerkleBlock) (height : Nat) (tree : PartialTree Hash) : Prop where
  least : IsLeast {k | block.total.toNat ≤ 2 ^ k} height
  fits : tree.Fits block.total.toNat height 0
  hashes_eq : block.hashes = tree.hashes
  flags_eq : ∀ i flag, tree.flags[i]? = some flag →
    ∃ b, block.flags[i / 8]? = some b ∧ flag = b.toNat.testBit (i % 8)
  flags_short : 8 * block.flags.length < tree.flags.length + 8

variable {block : MerkleBlock} {height height' : Nat} {tree tree' : PartialTree Hash}

theorem Carries.height_eq (h : block.Carries height tree) :
    height = Merkle.height block.total.toNat :=
  eq_height_of_isLeast h.least

/-- The flags of the tree are those that are read first. -/
theorem carries_iff_padding : block.Carries height tree ↔
    IsLeast {k | block.total.toNat ≤ 2 ^ k} height ∧ tree.Fits block.total.toNat height 0 ∧
      block.hashes = tree.hashes ∧ ∃ padding : List Bool, padding.length < 8 ∧
        block.flags.flatMap Bytes.bitsLE = tree.flags ++ padding := by
  rw [Bytes.flatMap_bitsLE_eq_append_iff]
  constructor
  · rintro ⟨hleast, hfits, hhashes, hflags, hshort⟩
    exact ⟨hleast, hfits, hhashes, hflags, hshort⟩
  · rintro ⟨hleast, hfits, hhashes, hflags, hshort⟩
    exact ⟨hleast, hfits, hhashes, hflags, hshort⟩

theorem Carries.exists_padding (h : block.Carries height tree) :
    ∃ padding : List Bool, padding.length < 8 ∧
      block.flags.flatMap Bytes.bitsLE = tree.flags ++ padding :=
  (carries_iff_padding.mp h).2.2.2

/-- A merkle block carries one tree at most, since trees that are written alike are equal. -/
theorem Carries.unique (h : block.Carries height tree) (h' : block.Carries height' tree') :
    height = height' ∧ tree = tree' := by
  obtain ⟨padding, _, hflags⟩ := h.exists_padding
  obtain ⟨padding', _, hflags'⟩ := h'.exists_padding
  have hheight : height = height' := h.height_eq.trans h'.height_eq.symm
  subst hheight
  have hwritten : tree.writtenBefore ⟨padding, []⟩ = tree'.writtenBefore ⟨padding', []⟩ := by
    simp only [PartialTree.writtenBefore, ← h.hashes_eq, ← h'.hashes_eq, ← hflags, ← hflags',
      List.append_nil]
  exact ⟨rfl, (PartialTree.eq_of_writtenBefore h.fits h'.fits hwritten).1⟩

/-- A tree that a merkle block carries has no more hashes than transactions or flags. -/
theorem Carries.length_hashes_le (h : block.Carries height tree) (hsome : 0 < block.total.toNat) :
    block.hashes.length ≤ block.total.toNat ∧ block.hashes.length ≤ 8 * block.flags.length := by
  obtain ⟨padding, _, hflags⟩ := h.exists_padding
  have hfits := h.fits
  rw [h.height_eq] at hfits
  have hfew := tree.length_hashes_le_flags
  rw [h.hashes_eq, ← Bytes.length_flatMap_bitsLE, hflags, List.length_append]
  exact ⟨PartialTree.length_hashes_le_total hsome hfits, by omega⟩

theorem extract_eq_ok_iff_carries {root : Hash} {matched : List Hash} :
    block.extract = .ok (root, matched) ↔
      1 ≤ block.total.toNat ∧ block.total.toNat ≤ maxTransactions ∧
        ∃ height tree, block.Carries height tree ∧ tree.Distinct Hash.node ∧
          tree.root Hash.node = root ∧ tree.matched = matched := by
  rw [extract, read_eq_ok_iff]
  constructor
  · rintro ⟨hsome, hmax, tree, padding, hfits, hdistinct, hhashes, hflags, hpadding, hroot,
      hmatched⟩
    have hcarries : block.Carries (Merkle.height block.total.toNat) tree :=
      carries_iff_padding.mpr ⟨isLeast_height _, hfits, hhashes, padding, hpadding, hflags⟩
    exact ⟨hsome, hmax, _, tree, hcarries, hdistinct, hroot, hmatched⟩
  · rintro ⟨hsome, hmax, height, tree, hcarries, hdistinct, hroot, hmatched⟩
    obtain ⟨padding, hpadding, hflags⟩ := hcarries.exists_padding
    have hfits := hcarries.fits
    rw [hcarries.height_eq] at hfits
    exact ⟨hsome, hmax, tree, padding, hfits, hdistinct, hcarries.hashes_eq, hflags, hpadding,
      hroot, hmatched⟩

/-- Reading succeeds on the merkle blocks that carry a tree without equal
siblings, and gives its root and matched leaves. The tree is the only one, and
it never has too many hashes for the tests before the walk. -/
theorem extract_grammar (block : MerkleBlock) :
    (∀ root matched, block.extract = .ok (root, matched) ↔
      1 ≤ block.total.toNat ∧ block.total.toNat ≤ maxTransactions ∧
        ∃ height tree, block.Carries height tree ∧ tree.Distinct Hash.node ∧
          tree.root Hash.node = root ∧ tree.matched = matched) ∧
    (∀ height height' tree tree', block.Carries height tree → block.Carries height' tree' →
      height = height' ∧ tree = tree') ∧
    (∀ height tree, 1 ≤ block.total.toNat → block.Carries height tree →
      block.hashes.length ≤ block.total.toNat ∧ block.hashes.length ≤ 8 * block.flags.length) :=
  ⟨fun _ _ => extract_eq_ok_iff_carries, fun _ _ _ _ h h' => h.unique h',
    fun _ _ hsome h => h.length_hashes_le hsome⟩

/-- A proof is good if the tree that is carried has the header's root. -/
theorem matched_eq_ok_iff {matched : List Hash} :
    block.matched = .ok matched ↔ block.extract = .ok (block.header.root, matched) := by
  unfold MerkleBlock.matched
  cases hextract : block.extract with
  | error defect => simp
  | ok result =>
      obtain ⟨root, txids⟩ := result
      by_cases hroot : root = block.header.root
      · simp [hroot]
      · simp [hroot]

end MerkleBlock

end LightPeer
