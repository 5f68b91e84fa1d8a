import LightPeer.Header
import LightPeer.Merkle.Walk

/-! Merkle blocks: a block's header with a partial Merkle tree that proves which
of its transactions matched. A proof is good when its tree can be read and has
the header's root. -/

namespace LightPeer

/-- A header, and a partial tree of the block's transactions. -/
structure MerkleBlock where
  header : Header
  total : UInt32
  /-- The hashes of the partial tree, depth first. -/
  hashes : List Hash
  /-- The flags of the partial tree, eight a byte, the least significant bit first. -/
  flags : Bytes
deriving DecidableEq

namespace MerkleBlock

/-- Why a merkle block proves nothing. -/
inductive ProofFault where
  | unreadable (defect : Merkle.Defect)
  | rootMismatch (computed stated : Hash)
deriving DecidableEq

/-- The report of a fault, with hashes as they are shown. -/
def ProofFault.message : ProofFault → String
  | unreadable defect => defect.message
  | rootMismatch computed stated =>
    s!"merkle root mismatch: computed {computed.display}, header has {stated.display}"

/-- The root and the matched transactions of the tree, whatever the header says. -/
def extract (block : MerkleBlock) : Except Merkle.Defect (Hash × List Hash) :=
  Merkle.read Hash.node block.total.toNat block.hashes block.flags

/-- The matched transactions in block order, once the tree has the header's root. -/
def matched (block : MerkleBlock) : Except ProofFault (List Hash) :=
  match block.extract with
  | .error defect => .error (.unreadable defect)
  | .ok (root, txids) =>
    if root = block.header.root then .ok txids
    else .error (.rootMismatch root block.header.root)

/-- The merkle block that proves the marked ones among a block's transactions. -/
def ofTxids? (header : Header) (txids : List (Hash × Bool)) : Option MerkleBlock :=
  (Merkle.PartialTree.ofLeaves? Hash.node txids).map fun tree =>
    { header
      total := .ofNat txids.length
      hashes := tree.hashes
      flags := Bytes.packBits tree.flags }

def hash (block : MerkleBlock) : Hash := block.header.hash

end MerkleBlock

end LightPeer
