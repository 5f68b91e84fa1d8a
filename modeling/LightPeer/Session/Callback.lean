import LightPeer.Message

/-! The messages that a session passes on to its client. -/

namespace LightPeer

/-- A message with news for the client. -/
inductive Callback where
  | inventory (items : List Inv)
  | merkleBlock (block : MerkleBlock)
  | tx (tx : Tx)
  | notFound (items : List Inv)
  | reject (rejection : Rejection)
deriving DecidableEq

/-- What a message has for the client; the other kinds have nothing. -/
def Callback.ofMessage? : Message → Option Callback
  | .inv i => some (.inventory i)
  | .merkleBlock b => some (.merkleBlock b)
  | .tx t => some (.tx t)
  | .notFound i => some (.notFound i)
  | .reject r => some (.reject r)
  | _ => none

end LightPeer
