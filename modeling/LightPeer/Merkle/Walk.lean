import LightPeer.Merkle.PartialTree

/-! Reading a partial Merkle tree from its flags and hashes. The walk goes depth
first, takes one flag for each node, and takes a hash where it goes no deeper. -/

namespace LightPeer.Merkle

/-- Why flags and hashes are not those of a partial tree. -/
inductive Defect where
  | noTransactions
  | tooManyTransactions (total : Nat)
  | moreHashesThanTransactions
  | fewerFlagsThanHashes
  | flagsExhausted
  | hashesExhausted
  /-- Equal siblings, which would give a list with repeated leaves the root of a shorter list. -/
  | equalSiblings
  | flagsLeftOver
  | hashesLeftOver
deriving DecidableEq, Repr

def Defect.message : Defect → String
  | noTransactions => "no transactions"
  | tooManyTransactions total => s!"too many transactions ({total})"
  | moreHashesThanTransactions => "more hashes than transactions"
  | fewerFlagsThanHashes => "fewer flag bits than hashes"
  | flagsExhausted => "overflowed the flag bits"
  | hashesExhausted => "overflowed the hash array"
  | equalSiblings => "duplicate sibling hashes"
  | flagsLeftOver => "not all flag bits were consumed"
  | hashesLeftOver => "not all hashes were consumed"

/-- The number of transactions that a block can hold: the greatest weight of a
block divided by the least weight of a transaction. -/
def maxTransactions : Nat := 4000000 / 240

variable {α : Type}

/-- What the walk has not read yet. -/
@[ext] structure Unread (α : Type) where
  flags : List Bool
  hashes : List α

/-- What the walk found below one node, and what it left unread. -/
structure Visit (α : Type) where
  root : α
  matched : List α
  rest : Unread α

variable [DecidableEq α] (node : α → α → α)

/-- Walks the part below a height and position of a tree with `total` leaves. -/
def walk (total : Nat) : Nat → Nat → Unread α → Except Defect (Visit α)
  | _, _, ⟨[], _⟩ => .error .flagsExhausted
  | 0, _, ⟨flag :: flags, hash :: hashes⟩ =>
    .ok ⟨hash, if flag then [hash] else [], ⟨flags, hashes⟩⟩
  | _ + 1, _, ⟨false :: flags, hash :: hashes⟩ => .ok ⟨hash, [], ⟨flags, hashes⟩⟩
  | k + 1, position, ⟨true :: flags, hashes⟩ => do
    let left ← walk total k (2 * position) ⟨flags, hashes⟩
    if 2 * position + 1 < width total k then
      let right ← walk total k (2 * position + 1) left.rest
      if right.root = left.root then .error .equalSiblings
      else .ok ⟨node left.root right.root, left.matched ++ right.matched, right.rest⟩
    else .ok ⟨node left.root left.root, left.matched, left.rest⟩
  | _, _, ⟨_ :: _, []⟩ => .error .hashesExhausted

/-- The root and the matched leaves of the partial tree that is written in a
list of hashes and in bytes of eight flags each. All hashes must be used, and
all flags but those that fill up the last byte. -/
def read (total : Nat) (hashes : List α) (flags : Bytes) : Except Defect (α × List α) :=
  if total = 0 then .error .noTransactions
  else if maxTransactions < total then .error (.tooManyTransactions total)
  else if total < hashes.length then .error .moreHashesThanTransactions
  else if 8 * flags.length < hashes.length then .error .fewerFlagsThanHashes
  else do
    let top ← walk node total (height total) 0 ⟨flags.flatMap Bytes.bitsLE, hashes⟩
    if 8 ≤ top.rest.flags.length then .error .flagsLeftOver
    else if 0 < top.rest.hashes.length then .error .hashesLeftOver
    else .ok (top.root, top.matched)

end LightPeer.Merkle
