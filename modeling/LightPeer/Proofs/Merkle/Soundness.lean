import LightPeer.Proofs.Merkle.PartialTree

/-! # A partial tree with the root of a list

A partial tree whose top node has the hash of a node over some leaves matches
leaves of that list, each at its place, unless a node joins hashes that are not
those of the list's tree and hashes them alike. -/

namespace LightPeer.Merkle

variable {α : Type} (node : α → α → α)

/-- The hashes joined at a node are not those of the leaves' tree, but their
parents have the same hash. -/
def PartialTree.Joint.Collides (leaves : List α) (joint : PartialTree.Joint α) : Prop :=
  ∃ left right, children? node leaves joint.height joint.position = some (left, right) ∧
    (joint.left, joint.right) ≠ (left, right) ∧ node joint.left joint.right = node left right

variable {node} {leaves : List α} {total k position : Nat}

/-! ## The children of a node on the last place and before it -/

theorem nodeAt?_of_children?_last {left right : α}
    (hlast : ¬ 2 * position + 1 < width leaves.length k)
    (h : children? node leaves (k + 1) position = some (left, right)) :
    nodeAt? node leaves k (2 * position) = some left ∧ left = right := by
  obtain ⟨hash, hleft, hpair⟩ := Option.map_eq_some_iff.mp h
  rw [nodeAt?_eq_none node hlast] at hpair
  cases hpair
  exact ⟨hleft, rfl⟩

theorem nodeAt?_of_children?_inner {left right : α}
    (hinner : 2 * position + 1 < width leaves.length k)
    (h : children? node leaves (k + 1) position = some (left, right)) :
    nodeAt? node leaves k (2 * position) = some left ∧
      nodeAt? node leaves k (2 * position + 1) = some right := by
  obtain ⟨hash, hleft, hpair⟩ := Option.map_eq_some_iff.mp h
  obtain ⟨hash', hright⟩ := exists_nodeAt? node hinner
  rw [hright] at hpair
  cases hpair
  exact ⟨hleft, hright⟩

namespace PartialTree

/-! ## Matched leaves stand in order -/

/-- The matched leaves lie below the top node. -/
theorem bounds_of_mem_positions {tree : PartialTree α} (hfits : tree.Fits total k position)
    {place : Nat} (h : place ∈ tree.positions position) :
    position * 2 ^ k ≤ place ∧ place < (position + 1) * 2 ^ k := by
  induction tree generalizing k position with
  | leaf hash matched =>
      obtain rfl := fits_leaf_iff.mp hfits
      have hplace : place = position := by
        cases matched
        · cases h
        · exact List.mem_singleton.mp h
      omega
  | pruned hash => cases h
  | single left ih =>
      obtain ⟨j, rfl, _, hleft⟩ := fits_single_iff.mp hfits
      have hbounds := ih hleft h
      rw [Nat.pow_succ]
      lia
  | pair left right ihl ihr =>
      obtain ⟨j, rfl, _, hleft, hright⟩ := fits_pair_iff.mp hfits
      rw [Nat.pow_succ]
      rcases List.mem_append.mp h with h | h
      · have hbounds := ihl hleft h
        lia
      · have hbounds := ihr hright h
        lia

theorem positions_pairwise {tree : PartialTree α} (hfits : tree.Fits total k position) :
    (tree.positions position).Pairwise (· < ·) := by
  induction tree generalizing k position with
  | leaf hash matched => cases matched <;> simp [positions]
  | pruned hash => exact List.Pairwise.nil
  | single left ih =>
      obtain ⟨j, rfl, _, hleft⟩ := fits_single_iff.mp hfits
      exact ih hleft
  | pair left right ihl ihr =>
      obtain ⟨j, rfl, _, hleft, hright⟩ := fits_pair_iff.mp hfits
      refine List.pairwise_append.mpr ⟨ihl hleft, ihr hright, ?_⟩
      intro a ha b hb
      have hbefore := (bounds_of_mem_positions hleft ha).2
      have hbehind := (bounds_of_mem_positions hright hb).1
      omega

/-! ## Matched leaves are leaves of the list -/

/-- Every matched leaf is the list's leaf at its place, or some node collides. -/
theorem matched_or_collides {tree : PartialTree α} (hfits : tree.Fits leaves.length k position)
    (hroot : nodeAt? node leaves k position = some (tree.root node)) :
    tree.matched.map some = (tree.positions position).map (leaves[·]?) ∨
      ∃ joint ∈ tree.joints node k position, joint.Collides node leaves := by
  induction tree generalizing k position with
  | leaf hash matched =>
      obtain rfl := fits_leaf_iff.mp hfits
      have hleaf : leaves[position]? = some hash := hroot
      left
      cases matched <;> simp [PartialTree.matched, positions, hleaf]
  | pruned hash => exact .inl rfl
  | single left ih =>
      obtain ⟨j, rfl, hlast, hleft⟩ := fits_single_iff.mp hfits
      rw [nodeAt?_succ] at hroot
      obtain ⟨⟨a, b⟩, hchildren, hhash⟩ := Option.map_eq_some_iff.mp hroot
      obtain ⟨ha, rfl⟩ := nodeAt?_of_children?_last hlast hchildren
      by_cases hsame : left.root node = a
      · rcases ih hleft (hsame ▸ ha) with hmatched | ⟨joint, hmem, hcollides⟩
        · exact .inl hmatched
        · exact .inr ⟨joint, List.mem_cons_of_mem _ hmem, hcollides⟩
      · exact .inr ⟨_, List.mem_cons_self, a, a, hchildren, fun h => hsame (Prod.mk.inj h).1,
          hhash.symm⟩
  | pair left right ihl ihr =>
      obtain ⟨j, rfl, hinner, hleft, hright⟩ := fits_pair_iff.mp hfits
      rw [nodeAt?_succ] at hroot
      obtain ⟨⟨a, b⟩, hchildren, hhash⟩ := Option.map_eq_some_iff.mp hroot
      obtain ⟨ha, hb⟩ := nodeAt?_of_children?_inner hinner hchildren
      by_cases hsame : (left.root node, right.root node) = (a, b)
      · obtain ⟨rfl, rfl⟩ := Prod.mk.inj hsame
        rcases ihl hleft ha with hlmatched | ⟨joint, hmem, hcollides⟩
        · rcases ihr hright hb with hrmatched | ⟨joint, hmem, hcollides⟩
          · left
            rw [PartialTree.matched, positions, List.map_append, List.map_append, hlmatched,
              hrmatched]
          · exact .inr ⟨joint, List.mem_cons_of_mem _ (List.mem_append_right _ hmem), hcollides⟩
        · exact .inr ⟨joint, List.mem_cons_of_mem _ (List.mem_append_left _ hmem), hcollides⟩
      · exact .inr ⟨_, List.mem_cons_self, a, b, hchildren, hsame, hhash.symm⟩

end PartialTree

end LightPeer.Merkle
