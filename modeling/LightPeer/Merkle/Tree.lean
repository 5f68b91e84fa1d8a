import LightPeer.Merkle.Shape

/-! Merkle trees, level by level. Neighbours are joined in pairs, and the last
node of an odd level is joined with itself. -/

namespace LightPeer.Merkle

variable {α : Type} (node : α → α → α)

def parents : List α → List α
  | a :: b :: rest => node a b :: parents rest
  | [a] => [node a a]
  | [] => []

theorem length_parents : ∀ nodes : List α, (parents node nodes).length = (nodes.length + 1) / 2
  | a :: b :: rest => by simp only [parents, List.length_cons, length_parents rest]; omega
  | [_] => by simp [parents]
  | [] => by simp [parents]

def level (leaves : List α) : Nat → List α
  | 0 => leaves
  | k + 1 => parents node (level leaves k)

theorem length_level (leaves : List α) (k : Nat) :
    (level node leaves k).length = width leaves.length k := by
  induction k with
  | zero => rfl
  | succ k ih => rw [level, length_parents, ih, width_succ]

/-- The node at a height and position, counted from the left. -/
def nodeAt? (leaves : List α) (height position : Nat) : Option α :=
  (level node leaves height)[position]?

/-- The leaves below a height and position. -/
def leavesBelow (leaves : List α) (height position : Nat) : List α :=
  (leaves.drop (position * Nat.pow 2 height)).take (Nat.pow 2 height)

/-- The hashes of a node's children; a missing right child counts as its left sibling. -/
def children? (leaves : List α) : Nat → Nat → Option (α × α)
  | 0, _ => none
  | k + 1, position =>
    (nodeAt? node leaves k (2 * position)).map fun left =>
      (left, (nodeAt? node leaves k (2 * position + 1)).getD left)

/-- The node above all leaves: level after level is joined until one node is left. -/
def root? : List α → Option α
  | [] => none
  | [a] => some a
  | a :: b :: rest => root? (parents node (a :: b :: rest))
termination_by nodes => nodes.length
decreasing_by simp only [length_parents, List.length_cons]; omega

end LightPeer.Merkle
