import LightPeer.MerkleBlock
import LightPeer.Proofs.Merkle.Words
import Mathlib.Algebra.Order.Floor.Div
import Mathlib.GroupTheory.GroupAction.Ring

/-! # Reading a merkle block takes no more than machine words -/

namespace LightPeer

namespace MerkleBlock

open Merkle

/-- For any number of transactions the height and the widths of the tree are computed without
overflow. The walk through any merkle block with a transaction calls itself on nodes of the
tree only, at most once more than there are flags, and all its arithmetic is exact. -/
theorem walk_fits_words (total : UInt32) :
    ∃ top, height? total.toBitVec = some top ∧ IsLeast {h | total.toNat ≤ 2 ^ h} top.toNat ∧
      (∀ k ≤ top, ∃ count, width? total.toBitVec k = some count ∧
        count.toNat = total.toNat ⌈/⌉ 2 ^ k.toNat) ∧
      ∀ block : MerkleBlock, block.total = total → 0 < total →
        let unread : Unread Hash := ⟨block.flags.flatMap Bytes.bitsLE, block.hashes⟩
        ∃ trace, trace? Hash.node total.toBitVec top 0 unread = some trace ∧
          trace.result = walk Hash.node total.toNat (Merkle.height total.toNat) 0 unread ∧
          (∀ call ∈ trace.calls, call.height ≤ top ∧
            (∃ count, width? total.toBitVec call.height = some count ∧ call.position < count) ∧
            (call.height ≠ 0 ∨ total.toNat ≤ maxTransactions →
              2 * call.position.toNat + 1 < 2 ^ 32)) ∧
          trace.calls.length ≤ 8 * block.flags.length + 1 ∧
          (trace.result ≠ .error .flagsExhausted →
            trace.calls.length ≤ 8 * block.flags.length) := by
  obtain ⟨top, htop, hheight⟩ := exists_height? total.toBitVec
  have hmax : top.toNat ≤ 32 := by
    rw [hheight]
    exact height_le total.toBitVec
  refine ⟨top, htop, ?_, ?_, ?_⟩
  · rw [hheight]
    exact isLeast_height _
  · intro k hk
    obtain ⟨count, hcount, heq⟩ := exists_width? total.toBitVec (Nat.le_trans hk hmax)
    refine ⟨count, hcount, ?_⟩
    rw [heq, width_eq, Nat.ceilDiv_eq_add_pred_div]
    rfl
  · intro block htotal hpos unread
    have hsome : 0 < total.toNat := hpos
    have htop : 0 < width total.toNat top.toNat := by
      rw [hheight, UInt32.toNat_toBitVec, width_height hsome]
      exact Nat.one_pos
    obtain ⟨trace, htrace, hresult, hkeeps⟩ :=
      follows Hash.node total.toBitVec top 0 hmax htop unread
    rw [hheight] at hresult
    have hflags : unread.flags.length = 8 * block.flags.length := Bytes.length_flatMap_bitsLE _
    rw [hflags] at hkeeps
    refine ⟨trace, htrace, hresult, ?_, hkeeps.length_le⟩
    intro call hcall
    have hinside := hkeeps.inside call hcall
    obtain ⟨count, hcount, heq⟩ := exists_width? total.toBitVec (Nat.le_trans hinside.1 hmax)
    refine ⟨hinside.1, ⟨count, hcount, ?_⟩, ?_⟩
    · rw [BitVec.lt_def, heq]
      exact hinside.2
    · rintro (hinner | hmax)
      · exact hinside.two_mul_lt hinner
      · have hposition := hinside.2
        have hwidth := width_le_total total.toNat call.height.toNat
        have hfew : maxTransactions < 2 ^ 31 - 1 := by decide
        rw [UInt32.toNat_toBitVec] at hposition
        omega

/-- A proof for the last of three transactions has flags to spare, and less calls than flags. -/
theorem walk_fits_words_odd_width :
    let leaf : UInt8 → Hash := fun n => ⟨List.replicate 32 n, List.length_replicate⟩
    let first := Hash.node (leaf 0) (leaf 1)
    let block : MerkleBlock := ⟨⟨1, .zero, .zero, 0, 0, 0⟩, 3, [first, leaf 2], [0x0d]⟩
    let unread : Unread Hash := ⟨block.flags.flatMap Bytes.bitsLE, block.hashes⟩
    block.total = 3 ∧ (0 : UInt32) < 3 ∧
      ∃ top trace, height? (UInt32.toBitVec 3) = some top ∧
        trace? Hash.node (UInt32.toBitVec 3) top 0 unread = some trace ∧
        trace.result ≠ .error .flagsExhausted ∧ trace.calls.length ≤ 8 := by
  intro leaf first block unread
  have htotal : block.total = 3 := rfl
  have hsome : (0 : UInt32) < 3 := by decide
  obtain ⟨top, htop, -, -, hwalk⟩ := walk_fits_words 3
  obtain ⟨trace, htrace, hresult, -, -, hcalls⟩ := hwalk block htotal hsome
  have hread : trace.result ≠ .error .flagsExhausted := by
    have hnode : Hash.node (leaf 2) (leaf 2) ≠ first := by decide +kernel
    let tree : PartialTree Hash := .pair (.pruned first) (.single (.leaf (leaf 2) true))
    have hfits : tree.Fits 3 2 0 := by simp [PartialTree.Fits, tree]
    have hdistinct : tree.Distinct Hash.node := ⟨trivial, trivial, hnode⟩
    have hvisit := walk_writtenBefore Hash.node 3 hfits hdistinct ⟨List.replicate 4 false, []⟩
    have hunread : unread = tree.writtenBefore ⟨List.replicate 4 false, []⟩ := by
      refine Unread.ext ?_ rfl
      decide
    have hok := hresult.trans ((congrArg (walk Hash.node 3 2 0) hunread).trans hvisit)
    rw [hok]
    intro herror
    cases herror
  exact ⟨htotal, hsome, top, trace, htop, htrace, hread, hcalls hread⟩

end MerkleBlock

end LightPeer
