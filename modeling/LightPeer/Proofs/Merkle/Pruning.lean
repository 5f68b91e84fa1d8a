import LightPeer.Proofs.Merkle.PartialTree

/-! # Trees cut down to their marked leaves

What is left of a full tree fits where the full tree stood, keeps its top hash,
and matches the marked leaves. -/

namespace LightPeer.Merkle

namespace PartialTree

variable {α : Type} {node : α → α → α} {leaves : List (α × Bool)} {k position : Nat}
  {tree : PartialTree α}

/-! ## Cutting below one node -/

variable (node) in
theorem prune?_eq_none (h : ¬ position < width leaves.length k) :
    prune? node leaves k position = none := by
  induction k generalizing position with
  | zero => rw [prune?, List.getElem?_eq_none (Nat.not_lt.mp h), Option.map_none]
  | succ k ih =>
      have hleft : ¬ 2 * position < width leaves.length k := by
        rw [width_succ] at h
        omega
      have hnode : nodeAt? node (leaves.map (·.1)) (k + 1) position = none :=
        nodeAt?_eq_none node (by rwa [List.length_map])
      rw [prune?, ih hleft, hnode]
      split <;> rfl

variable (node) in
theorem exists_prune? (h : position < width leaves.length k) :
    ∃ tree, prune? node leaves k position = some tree := by
  induction k generalizing position with
  | zero => exact ⟨_, congrArg (Option.map _) (List.getElem?_eq_getElem h)⟩
  | succ k ih =>
      have hposition : position < width (leaves.map (·.1)).length (k + 1) := by
        rwa [List.length_map]
      obtain ⟨left, hleft⟩ := ih (two_mul_lt_width h)
      obtain ⟨hash, hhash⟩ := exists_nodeAt? node hposition
      rw [prune?, hleft, hhash]
      split
      · cases prune? node leaves k (2 * position + 1) with
        | none => exact ⟨_, rfl⟩
        | some right => exact ⟨_, rfl⟩
      · exact ⟨_, rfl⟩

/-- A cut node joins what is left of the children that are there; one without a
marked leaf below keeps its hash alone. -/
theorem prune?_succ_eq_some (h : prune? node leaves (k + 1) position = some tree) :
    (¬ 2 * position + 1 < width leaves.length k ∧
        ∃ left, prune? node leaves k (2 * position) = some left ∧ tree = single left) ∨
      (2 * position + 1 < width leaves.length k ∧
        ∃ left right, prune? node leaves k (2 * position) = some left ∧
          prune? node leaves k (2 * position + 1) = some right ∧ tree = pair left right) ∨
      ((leavesBelow leaves (k + 1) position).any (·.2) = false ∧
        ∃ hash, nodeAt? node (leaves.map (·.1)) (k + 1) position = some hash ∧
          tree = pruned hash) := by
  rw [prune?] at h
  split at h
  · cases hleft : prune? node leaves k (2 * position) with
    | none => simp [hleft] at h
    | some left =>
        by_cases hinner : 2 * position + 1 < width leaves.length k
        · obtain ⟨right, hright⟩ := exists_prune? node hinner
          simp only [hleft, hright, Option.some.injEq] at h
          exact .inr (.inl ⟨hinner, left, right, rfl, hright, h.symm⟩)
        · simp only [hleft, prune?_eq_none node hinner, Option.some.injEq] at h
          exact .inl ⟨hinner, left, rfl, h.symm⟩
  · rename_i hmarked
    obtain ⟨hash, hhash, rfl⟩ := Option.map_eq_some_iff.mp h
    exact .inr (.inr ⟨eq_false_of_ne_true hmarked, hash, hhash, rfl⟩)

/-! ## What a cut tree is -/

theorem fits_of_prune? (h : prune? node leaves k position = some tree) :
    tree.Fits leaves.length k position := by
  induction k generalizing position tree with
  | zero =>
      obtain ⟨_, _, rfl⟩ := Option.map_eq_some_iff.mp h
      exact fits_leaf_iff.mpr rfl
  | succ k ih =>
      rcases prune?_succ_eq_some h with ⟨hlast, left, hleft, rfl⟩ |
        ⟨hinner, left, right, hleft, hright, rfl⟩ | ⟨_, hash, _, rfl⟩
      · exact fits_single_iff.mpr ⟨k, rfl, hlast, ih hleft⟩
      · exact fits_pair_iff.mpr ⟨k, rfl, hinner, ih hleft, ih hright⟩
      · exact fits_pruned_iff.mpr ⟨k, rfl⟩

theorem nodeAt?_of_prune? (h : prune? node leaves k position = some tree) :
    nodeAt? node (leaves.map (·.1)) k position = some (tree.root node) := by
  induction k generalizing position tree with
  | zero =>
      obtain ⟨⟨hash, marked⟩, hleaf, rfl⟩ := Option.map_eq_some_iff.mp h
      simp [nodeAt?, level, hleaf, root]
  | succ k ih =>
      rcases prune?_succ_eq_some h with ⟨hlast, left, hleft, rfl⟩ |
        ⟨hinner, left, right, hleft, hright, rfl⟩ | ⟨_, hash, hhash, rfl⟩
      · have hnone : nodeAt? node (leaves.map (·.1)) k (2 * position + 1) = none :=
          nodeAt?_eq_none node (by rwa [List.length_map])
        rw [nodeAt?_succ, children?, ih hleft, hnone]
        rfl
      · rw [nodeAt?_succ, children?, ih hleft, ih hright]
        rfl
      · exact hhash

theorem matched_of_prune? (h : prune? node leaves k position = some tree) :
    tree.matched = ((leavesBelow leaves k position).filter (·.2)).map (·.1) := by
  induction k generalizing position tree with
  | zero =>
      obtain ⟨⟨hash, marked⟩, hleaf, rfl⟩ := Option.map_eq_some_iff.mp h
      rw [leavesBelow_zero hleaf]
      cases marked <;> rfl
  | succ k ih =>
      rcases prune?_succ_eq_some h with ⟨hlast, left, hleft, rfl⟩ |
        ⟨hinner, left, right, hleft, hright, rfl⟩ | ⟨hmarked, hash, _, rfl⟩
      · rw [leavesBelow_succ, leavesBelow_eq_nil hlast, List.append_nil, ← ih hleft]
        rfl
      · rw [leavesBelow_succ, List.filter_append, List.map_append, ← ih hleft, ← ih hright]
        rfl
      · have hnone : (leavesBelow leaves (k + 1) position).filter (·.2) = [] := by
          rw [List.filter_eq_nil_iff]
          intro leaf hleaf hmark
          exact absurd (List.any_eq_true.mpr ⟨leaf, hleaf, hmark⟩) (by simp [hmarked])
        rw [hnone]
        rfl

/-! ## Cutting a whole tree -/

/-- Every list of leaves has a cut tree, which fits, has the list's root, and
matches the marked leaves in order. -/
theorem exists_ofLeaves? (node : α → α → α) (h : leaves ≠ []) :
    ∃ tree root, ofLeaves? node leaves = some tree ∧ root? node (leaves.map (·.1)) = some root ∧
      tree.Fits leaves.length (height leaves.length) 0 ∧ tree.root node = root ∧
      tree.matched = (leaves.filter (·.2)).map (·.1) := by
  have hpos : 0 < leaves.length := List.length_pos_iff.mpr h
  obtain ⟨tree, htree⟩ := exists_prune? node (by rw [width_height hpos]; exact Nat.one_pos)
  have hmatched := matched_of_prune? htree
  have hroot := nodeAt?_of_prune? htree
  rw [leavesBelow_height] at hmatched
  refine ⟨tree, _, htree, ?_, fits_of_prune? htree, rfl, hmatched⟩
  rw [root?_eq, List.length_map, hroot]

end PartialTree

end LightPeer.Merkle
