import LightPeer.Merkle.Walk
import LightPeer.Word

/-! The walk through a partial Merkle tree in machine words: heights and positions have
32 bits, and the sizes of levels are computed in 64. Where a result does not fit its
word, there is none. -/

namespace LightPeer.Merkle

/-- The number of nodes at a height: the leaves are filled up to whole groups, and the
groups are counted. -/
def width? (total height : BitVec 32) : Option (BitVec 32) :=
  if height.toNat < 64 then do
    let filled ← Word.ofNat? 64 (total.toNat + ((1 : BitVec 64) <<< height.toNat).toNat)
    let last ← Word.pred? filled
    Word.ofNat? 32 (last >>> height.toNat).toNat
  else none

/-- The first height from a given one on that has no more than one node. -/
def heightFrom? (total height : BitVec 32) : Option (BitVec 32) := do
  if 1 < (← width? total height) then
    match _h : Word.ofNat? 32 (height.toNat + 1) with
    | none => none
    | some next => heightFrom? total next
  else some height
termination_by 4294967296 - height.toNat
decreasing_by
  have hnext := Word.ofNat?_eq_some_iff.mp _h
  have := next.isLt
  omega

/-- The height of the tree over some leaves, tried from the leaves up. -/
def height? (total : BitVec 32) : Option (BitVec 32) := heightFrom? total 0

/-- A call of the walk, for the part below a height and position. -/
structure Call where
  height : BitVec 32
  position : BitVec 32
deriving DecidableEq

/-- The calls that a walk took, in their order, and what it found. -/
structure Trace (α : Type) where
  calls : List Call
  result : Except Defect (Visit α)

variable {α : Type} [DecidableEq α] (node : α → α → α)

/-- The trace of the walk below a height and position. -/
def trace? (total height position : BitVec 32) (unread : Unread α) : Option (Trace α) :=
  match unread with
  | ⟨[], _⟩ => some ⟨[⟨height, position⟩], .error .flagsExhausted⟩
  | ⟨flag :: flags, hashes⟩ =>
    if height = 0 ∨ flag = false then
      match hashes with
      | [] => some ⟨[⟨height, position⟩], .error .hashesExhausted⟩
      | hash :: hashes =>
        let matched := if height = 0 ∧ flag then [hash] else []
        some ⟨[⟨height, position⟩], .ok ⟨hash, matched, ⟨flags, hashes⟩⟩⟩
    else
      match _h : Word.pred? height with
      | none => none
      | some below => do
        let first ← Word.ofNat? 32 (2 * position.toNat)
        let left ← trace? total below first ⟨flags, hashes⟩
        match left.result with
        | .error defect => some ⟨⟨height, position⟩ :: left.calls, .error defect⟩
        | .ok found =>
          let second ← Word.ofNat? 32 (first.toNat + 1)
          if second < (← width? total below) then
            let right ← trace? total below second found.rest
            some ⟨⟨height, position⟩ :: (left.calls ++ right.calls), do
              let last ← right.result
              if last.root = found.root then .error .equalSiblings
              else .ok ⟨node found.root last.root, found.matched ++ last.matched, last.rest⟩⟩
          else
            some ⟨⟨height, position⟩ :: left.calls,
              .ok ⟨node found.root found.root, found.matched, found.rest⟩⟩
termination_by height.toNat
decreasing_by all_goals exact Nat.lt_of_succ_le (Nat.le_of_eq (Word.pred?_eq_some_iff.mp _h).symm)

end LightPeer.Merkle
