import LightPeer.Merkle.Walk
import LightPeer.Proofs.Merkle.Level

/-! # Partial trees and how they are written

A partial tree fits below a node when its top has the children that the node
has. Written depth first before other flags and hashes, fitting trees are told
apart, and none has more hashes than flags or than leaves below it. -/

namespace LightPeer.Merkle

open PartialTree

variable {α : Type}

/-- What is unread before a set flag was read. -/
def Unread.expand (unread : Unread α) : Unread α := ⟨true :: unread.flags, unread.hashes⟩

theorem Unread.expand_injective {p q : Unread α} (h : p.expand = q.expand) : p = q := by
  obtain ⟨hflags, hhashes⟩ := Unread.mk.inj h
  exact Unread.ext (List.tail_eq_of_cons_eq hflags) hhashes

/-! ## Fitting trees -/

namespace PartialTree

variable {total k position : Nat}

theorem fits_leaf_iff {hash : α} {matched : Bool} :
    (leaf hash matched).Fits total k position ↔ k = 0 := by
  cases k <;> simp [Fits]

theorem fits_pruned_iff {hash : α} :
    (pruned hash).Fits total k position ↔ ∃ j, k = j + 1 := by
  cases k <;> simp [Fits]

theorem fits_single_iff {left : PartialTree α} :
    (single left).Fits total k position ↔
      ∃ j, k = j + 1 ∧ ¬ 2 * position + 1 < width total j ∧ left.Fits total j (2 * position) := by
  cases k <;> simp [Fits, width_eq]

theorem fits_pair_iff {left right : PartialTree α} :
    (pair left right).Fits total k position ↔
      ∃ j, k = j + 1 ∧ 2 * position + 1 < width total j ∧ left.Fits total j (2 * position) ∧
        right.Fits total j (2 * position + 1) := by
  cases k <;> simp [Fits, width_eq]

/-! ## Writing a tree -/

/-- The writing of a tree, before what else is unread. -/
def writtenBefore (tree : PartialTree α) (rest : Unread α) : Unread α :=
  ⟨tree.flags ++ rest.flags, tree.hashes ++ rest.hashes⟩

/-- What a walk over the writing of a tree finds. -/
def visit (node : α → α → α) (tree : PartialTree α) (rest : Unread α) : Visit α :=
  ⟨tree.root node, tree.matched, rest⟩

theorem writtenBefore_single (left : PartialTree α) (rest : Unread α) :
    (single left).writtenBefore rest = (left.writtenBefore rest).expand := rfl

theorem writtenBefore_pair (left right : PartialTree α) (rest : Unread α) :
    (pair left right).writtenBefore rest =
      (left.writtenBefore (right.writtenBefore rest)).expand := by
  simp only [writtenBefore, Unread.expand, flags, hashes, List.append_assoc, List.cons_append]

/-- A writing belongs to one tree at a height and position, and ends at one place. -/
theorem eq_of_writtenBefore {s t : PartialTree α} (hs : s.Fits total k position)
    (ht : t.Fits total k position) {p q : Unread α}
    (h : s.writtenBefore p = t.writtenBefore q) : s = t ∧ p = q := by
  induction s generalizing t k position p q with
  | leaf hash matched =>
      obtain rfl := fits_leaf_iff.mp hs
      cases t with
      | leaf hash' matched' =>
          simp only [writtenBefore, flags, hashes, Unread.mk.injEq, List.cons_append,
            List.nil_append, List.cons.injEq] at h
          obtain ⟨⟨rfl, hflags⟩, rfl, hhashes⟩ := h
          exact ⟨rfl, Unread.ext hflags hhashes⟩
      | _ => exact ht.elim
  | pruned hash =>
      obtain ⟨j, rfl⟩ := fits_pruned_iff.mp hs
      cases t with
      | leaf hash' matched' => exact ht.elim
      | pruned hash' =>
          simp only [writtenBefore, flags, hashes, Unread.mk.injEq, List.cons_append,
            List.nil_append, List.cons.injEq, true_and] at h
          obtain ⟨hflags, rfl, hhashes⟩ := h
          exact ⟨rfl, Unread.ext hflags hhashes⟩
      | single left' => cases congrArg Unread.flags h
      | pair left' right' => cases congrArg Unread.flags h
  | single left ih =>
      obtain ⟨j, rfl, hlast, hleft⟩ := fits_single_iff.mp hs
      cases t with
      | leaf hash' matched' => exact ht.elim
      | pruned hash' => cases congrArg Unread.flags h
      | single left' =>
          obtain ⟨_, hj, _, hleft'⟩ := fits_single_iff.mp ht
          cases hj
          rw [writtenBefore_single, writtenBefore_single] at h
          obtain ⟨rfl, rfl⟩ := ih hleft hleft' (Unread.expand_injective h)
          exact ⟨rfl, rfl⟩
      | pair left' right' =>
          obtain ⟨_, hj, hinner, _⟩ := fits_pair_iff.mp ht
          cases hj
          exact absurd hinner hlast
  | pair left right ihl ihr =>
      obtain ⟨j, rfl, hinner, hleft, hright⟩ := fits_pair_iff.mp hs
      cases t with
      | leaf hash' matched' => exact ht.elim
      | pruned hash' => cases congrArg Unread.flags h
      | single left' =>
          obtain ⟨_, hj, hlast, _⟩ := fits_single_iff.mp ht
          cases hj
          exact absurd hinner hlast
      | pair left' right' =>
          obtain ⟨_, hj, _, hleft', hright'⟩ := fits_pair_iff.mp ht
          cases hj
          rw [writtenBefore_pair, writtenBefore_pair] at h
          obtain ⟨rfl, hrest⟩ := ihl hleft hleft' (Unread.expand_injective h)
          obtain ⟨rfl, rfl⟩ := ihr hright hright' hrest
          exact ⟨rfl, rfl⟩

/-! ## A tree has no more hashes than flags and leaves -/

theorem length_hashes_le_flags (tree : PartialTree α) :
    tree.hashes.length ≤ tree.flags.length := by
  induction tree with
  | leaf hash matched => simp [hashes, flags]
  | pruned hash => simp [hashes, flags]
  | single left ih =>
      simp only [hashes, flags, List.length_cons]
      omega
  | pair left right ihl ihr =>
      simp only [hashes, flags, List.length_cons, List.length_append]
      omega

theorem length_hashes_le_leaves {β : Type} (leaves : List β) {tree : PartialTree α}
    (hfits : tree.Fits leaves.length k position) (hposition : position < width leaves.length k) :
    tree.hashes.length ≤ (leavesBelow leaves k position).length := by
  induction tree generalizing k position with
  | leaf hash matched => exact length_leavesBelow_pos hposition
  | pruned hash => exact length_leavesBelow_pos hposition
  | single left ih =>
      obtain ⟨j, rfl, _, hleft⟩ := fits_single_iff.mp hfits
      rw [leavesBelow_succ, List.length_append]
      exact Nat.le_trans (ih hleft (two_mul_lt_width hposition)) (Nat.le_add_right _ _)
  | pair left right ihl ihr =>
      obtain ⟨j, rfl, hinner, hleft, hright⟩ := fits_pair_iff.mp hfits
      rw [leavesBelow_succ, hashes, List.length_append, List.length_append]
      exact Nat.add_le_add (ihl hleft (two_mul_lt_width hposition)) (ihr hright hinner)

theorem length_hashes_le_total {tree : PartialTree α} (h : 0 < total)
    (hfits : tree.Fits total (height total) 0) : tree.hashes.length ≤ total := by
  obtain ⟨leaves, rfl⟩ : ∃ leaves : List Unit, leaves.length = total :=
    ⟨List.replicate total (), List.length_replicate⟩
  have hle := length_hashes_le_leaves leaves hfits (by rw [width_height h]; exact Nat.one_pos)
  rwa [leavesBelow_height] at hle

end PartialTree

end LightPeer.Merkle
