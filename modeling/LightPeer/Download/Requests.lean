import LightPeer.FiniteSet
import LightPeer.Hash

/-! The transactions asked of the peer, whatever block they belong to. Asking
twice is the same as asking once, and an answer settles the request. -/

namespace LightPeer

/-- The transactions that were asked for and have not come. -/
abbrev Requests := FiniteSet Hash

namespace Requests

inductive Op where
  | request (txid : Hash)
  /-- Ends a request, and tells whether there was one. -/
  | settle (txid : Hash)
  /-- Tells whether a transaction is asked for. -/
  | asks (txid : Hash)
deriving DecidableEq

@[reducible] def Op.Result : Op → Type
  | request _ => Unit
  | settle _ => Bool
  | asks _ => Bool

def apply (requests : Requests) : (op : Op) → Requests × op.Result
  | .request txid => (requests.insert txid, ())
  | .settle txid => (requests.erase txid, decide (txid ∈ requests))
  | .asks txid => (requests, decide (txid ∈ requests))

end Requests

end LightPeer
