import LightPeer.MerkleBlock

/-! The messages that two nodes exchange, decoded. -/

namespace LightPeer

/-- The version that is stated in a request for block hashes. -/
def protocolVersion : UInt32 := 70002

/-- The number of block hashes that one announcement may hold. -/
def maxAnnouncedBlocks : Nat := 500

/-- The kinds of objects that an inventory names. -/
inductive InvKind where
  | error
  | tx
  | block
  /-- A block cut down to what matches a filter. -/
  | filteredBlock
deriving DecidableEq, Repr

structure Inv where
  kind : InvKind
  hash : Hash
deriving DecidableEq

/-- A transaction, as the bytes that were sent. -/
structure Tx where
  raw : Bytes
deriving DecidableEq

def Tx.id (tx : Tx) : Hash := Hash.ofData tx.raw

/-- What a node says about itself first. -/
structure VersionInfo where
  version : UInt32
  services : UInt64
  timestamp : Int64
  nonce : UInt64
  userAgent : String
  startHeight : Int32
  relay : Bool
deriving DecidableEq

/-- A request for the hashes of the blocks that follow a known one. -/
structure BlocksRequest where
  /-- Known blocks, the newest first. -/
  locators : List Hash
  /-- The last block wanted, or the zero hash for as many as are allowed. -/
  stop : Hash
  version : UInt32 := protocolVersion
deriving DecidableEq

/-- Word that a message was not accepted. -/
structure Rejection where
  command : String
  code : UInt8
  reason : String
  /-- The block or transaction refused, if it was one. -/
  hash : Option Hash
deriving DecidableEq

/-- A Bloom filter for the other side to apply. -/
structure Filter where
  bytes : Bytes
  hashFunctions : UInt32
  tweak : UInt32
  flags : UInt8
deriving DecidableEq

inductive Message where
  | version (info : VersionInfo)
  | verack
  | ping (nonce : UInt64)
  | pong (nonce : UInt64)
  | inv (items : List Inv)
  | getData (items : List Inv)
  | notFound (items : List Inv)
  | getBlocks (request : BlocksRequest)
  | merkleBlock (block : MerkleBlock)
  | tx (tx : Tx)
  | reject (rejection : Rejection)
  | filterLoad (filter : Filter)
  | memPool
deriving DecidableEq

namespace Message

def command : Message → String
  | version _ => "version"
  | verack => "verack"
  | ping _ => "ping"
  | pong _ => "pong"
  | inv _ => "inv"
  | getData _ => "getdata"
  | notFound _ => "notfound"
  | getBlocks _ => "getblocks"
  | merkleBlock _ => "merkleblock"
  | tx _ => "tx"
  | reject _ => "reject"
  | filterLoad _ => "filterload"
  | memPool => "mempool"

/-- A message that asks for an answer which can be recognised. -/
def isRequest : Message → Bool
  | getBlocks _ => true
  | getData _ => true
  | _ => false

end Message

end LightPeer
