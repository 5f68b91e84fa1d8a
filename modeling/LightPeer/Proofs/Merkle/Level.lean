import LightPeer.Proofs.Merkle.Shape

/-! The levels of a Merkle tree: every node above the leaves joins the hashes of
its two children, and joining level after level ends in the one node at the
tree's height. -/

namespace LightPeer.Merkle

variable {α : Type} (node : α → α → α)

/-! ## Nodes and their children -/

/-- A parent joins two neighbours, or the last node with itself. -/
theorem getElem?_parents :
    ∀ (nodes : List α) (i : Nat),
      (parents node nodes)[i]? =
        nodes[2 * i]?.map fun left => node left (nodes[2 * i + 1]?.getD left)
  | [], i => by simp [parents]
  | [a], 0 => by simp [parents]
  | [a], i + 1 => by simp [parents, Nat.mul_succ]
  | a :: b :: rest, 0 => by simp [parents]
  | a :: b :: rest, i + 1 => by
      simp only [parents, List.getElem?_cons_succ, Nat.mul_succ]
      exact getElem?_parents rest i

theorem nodeAt?_succ (leaves : List α) (k position : Nat) :
    nodeAt? node leaves (k + 1) position =
      (children? node leaves (k + 1) position).map fun pair => node pair.1 pair.2 := by
  simp only [nodeAt?, level, children?, getElem?_parents, Option.map_map]
  rfl

/-- The nodes of a level are those at the positions below its width. -/
theorem exists_nodeAt? {leaves : List α} {k position : Nat}
    (h : position < width leaves.length k) : ∃ hash, nodeAt? node leaves k position = some hash := by
  rw [← length_level node] at h
  exact ⟨_, List.getElem?_eq_getElem h⟩

theorem nodeAt?_eq_none {leaves : List α} {k position : Nat}
    (h : ¬ position < width leaves.length k) : nodeAt? node leaves k position = none := by
  rw [← length_level node, Nat.not_lt] at h
  exact List.getElem?_eq_none h

/-! ## The root -/

/-- The levels above a level of nodes are the higher levels of the same tree. -/
theorem level_parents (leaves : List α) (k : Nat) :
    level node (parents node leaves) k = level node leaves (k + 1) := by
  induction k with
  | zero => rfl
  | succ k ih => exact congrArg (parents node) ih

/-- The node that is left in the end is the one at the height of the tree. -/
theorem root?_eq (leaves : List α) :
    root? node leaves = nodeAt? node leaves (height leaves.length) 0 := by
  fun_induction root? node leaves with
  | case1 => rfl
  | case2 a => rfl
  | case3 a b rest ih =>
      have hheight : height (a :: b :: rest).length = height (((a :: b :: rest).length + 1) / 2) + 1 :=
        height_eq_succ (by simp)
      rw [ih, nodeAt?, nodeAt?, level_parents, length_parents, hheight]

end LightPeer.Merkle
