/-! The shape of a Merkle tree with a given number of leaves: how many nodes a
level holds, and the height at which a single node is left. -/

namespace LightPeer.Merkle

/-- The number of nodes at a height above `total` leaves: each level has half as
many as the one below, rounded up. -/
def width (total : Nat) : Nat → Nat
  | 0 => total
  | k + 1 => (width total k + 1) / 2

/-- The least height at which one node covers `total` leaves. -/
def height (total : Nat) : Nat := if total ≤ 1 then 0 else (total - 1).log2 + 1

@[simp] theorem width_zero (total : Nat) : width total 0 = total := rfl

@[simp] theorem width_succ (total k : Nat) : width total (k + 1) = (width total k + 1) / 2 := rfl

end LightPeer.Merkle
