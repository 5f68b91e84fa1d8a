import LightPeer.Bytes
import LightPeer.Merkle.Tree

/-! Partial Merkle trees: what is left of a tree when every part without a
matched leaf is cut down to its top node. Written depth first, a partial tree
is a list of flags, one a node, and a list of hashes, one a node without
children. -/

namespace LightPeer.Merkle

/-- A tree whose unmatched parts are reduced to a hash. -/
inductive PartialTree (α : Type) where
  | leaf (hash : α) (matched : Bool)
  /-- A node above leaves of which none is matched. -/
  | pruned (hash : α)
  /-- The last node of an odd level's parents, which has a left child only. -/
  | single (left : PartialTree α)
  | pair (left right : PartialTree α)
deriving DecidableEq, Repr

namespace PartialTree

variable {α : Type} (node : α → α → α)

/-- One flag a node, depth first: set at a matched leaf and at a node with children. -/
def flags : PartialTree α → List Bool
  | leaf _ matched => [matched]
  | pruned _ => [false]
  | single left => true :: left.flags
  | pair left right => true :: (left.flags ++ right.flags)

/-- The hashes of the nodes without children, depth first. -/
def hashes : PartialTree α → List α
  | leaf hash _ => [hash]
  | pruned hash => [hash]
  | single left => left.hashes
  | pair left right => left.hashes ++ right.hashes

def matched : PartialTree α → List α
  | leaf hash true => [hash]
  | leaf _ false => []
  | pruned _ => []
  | single left => left.matched
  | pair left right => left.matched ++ right.matched

/-- The hash of the top node; a missing right child counts as its left sibling. -/
def root : PartialTree α → α
  | leaf hash _ => hash
  | pruned hash => hash
  | single left => node left.root left.root
  | pair left right => node left.root right.root

/-- Siblings never have the same hash. -/
def Distinct : PartialTree α → Prop
  | leaf _ _ => True
  | pruned _ => True
  | single left => left.Distinct
  | pair left right => left.Distinct ∧ right.Distinct ∧ right.root node ≠ left.root node

/-- The positions of the matched leaves, for a tree whose top node is at a position. -/
def positions : PartialTree α → Nat → List Nat
  | leaf _ matched, position => if matched then [position] else []
  | pruned _, _ => []
  | single left, position => left.positions (2 * position)
  | pair left right, position =>
    left.positions (2 * position) ++ right.positions (2 * position + 1)

/-- A node with children: where it is, and the hashes that it joins. -/
structure Joint (α : Type) where
  height : Nat
  position : Nat
  left : α
  right : α
deriving DecidableEq, Repr

/-- The nodes with children, for a tree whose top node is at a height and position. -/
def joints : PartialTree α → Nat → Nat → List (Joint α)
  | leaf _ _, _, _ => []
  | pruned _, _, _ => []
  | single left, height, position =>
    ⟨height, position, left.root node, left.root node⟩ ::
      left.joints (height - 1) (2 * position)
  | pair left right, height, position =>
    ⟨height, position, left.root node, right.root node⟩ ::
      (left.joints (height - 1) (2 * position) ++
        right.joints (height - 1) (2 * position + 1))

/-- The tree has the shape of the part below a height and position of a tree
with `total` leaves, which has `total / 2 ^ k` nodes, rounded up, at height `k`. -/
def Fits (total : Nat) : Nat → Nat → PartialTree α → Prop
  | 0, _, leaf _ _ => True
  | _ + 1, _, pruned _ => True
  | k + 1, position, single left =>
    ¬ 2 * position + 1 < (total + Nat.pow 2 k - 1) / Nat.pow 2 k ∧ Fits total k (2 * position) left
  | k + 1, position, pair left right =>
    2 * position + 1 < (total + Nat.pow 2 k - 1) / Nat.pow 2 k ∧ Fits total k (2 * position) left ∧
      Fits total k (2 * position + 1) right
  | _, _, _ => False

/-! ## Cutting a full tree down -/

/-- What is left of the tree of some leaves below a height and position: a node
has children where a leaf below it is marked. There is none beside the tree. -/
def prune? (leaves : List (α × Bool)) : Nat → Nat → Option (PartialTree α)
  | 0, position => leaves[position]?.map fun (hash, marked) => leaf hash marked
  | k + 1, position =>
    if (leavesBelow leaves (k + 1) position).any (·.2) then
      match prune? leaves k (2 * position), prune? leaves k (2 * position + 1) with
      | some left, some right => some (pair left right)
      | some left, none => some (single left)
      | none, _ => none
    else (nodeAt? node (leaves.map (·.1)) (k + 1) position).map pruned

/-- The partial tree that keeps the marked ones among some leaves. -/
def ofLeaves? (leaves : List (α × Bool)) : Option (PartialTree α) :=
  prune? node leaves (height leaves.length) 0

end PartialTree

end LightPeer.Merkle
