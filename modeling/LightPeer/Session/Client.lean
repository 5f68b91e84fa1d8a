import LightPeer.Session.Callback
import LightPeer.Session.Script

/-! Clients of a session. A client has a memory of its own and answers each
callback with a script. -/

namespace LightPeer

/-- What a client does about each callback, with its memory before and after. -/
structure Client (σ : Type) where
  react : Callback → σ → Script (σ × Except Error Unit)

namespace Client

inductive Note where
  | called (callback : Callback)
  | completed (delivery : Delivery)
deriving DecidableEq

def silent : Client (List Note) where
  react _ notes := pure (notes, .ok ())

/-- Writes down every callback, and fails where `failure` says so. -/
def recording (failure : Callback → Option Error) : Client (List Note) where
  react callback notes :=
    pure (notes ++ [.called callback],
      match failure callback with
      | some error => .error error
      | none => .ok ())

/-! ## Syncing -/

/-- Takes the block of a tracker, if it is complete, and writes it down. -/
def collect (id : TrackerId) (notes : List Note) : Script (List Note) := do
  match ← Script.perform (.tracker id .take) with
  | some delivery => return notes ++ [.completed delivery]
  | none => return notes

/-- Makes a block the current one and asks for the transactions that it matches. -/
def follow (block : MerkleBlock) (notes : List Note) : Script (List Note × Except Error Unit) := do
  match ← Script.perform (.track block) with
  | .error error => return (notes, .error error)
  | .ok id =>
    match block.matched with
    | .error fault => return (notes, .error (.invalidMerkleBlock fault.message))
    | .ok txids =>
      match ← Script.perform (.requestTxs txids) with
      | .error error => return (notes, .error error)
      | .ok () => return (← collect id notes, .ok ())

/-- Counts a transaction, and puts one that was asked for to the current block
if the block expects it. -/
def receive (tx : Tx) (notes : List Note) : Script (List Note × Except Error Unit) := do
  if ← Script.perform (.requests (.settle tx.id)) then
    Script.perform (.recordTx false)
    let id ← Script.perform .current
    if ← Script.perform (.tracker id (.resolve tx.id)) then
      Script.perform (.tracker id (.push tx))
    return (← collect id notes, .ok ())
  else
    Script.perform (.recordTx true)
    return (notes, .ok ())

/-- Records like `recording`, and downloads each block with its transactions. -/
def syncing (failure : Callback → Option Error) : Client (List Note) where
  react callback notes :=
    let notes := notes ++ [.called callback]
    match failure callback with
    | some error => pure (notes, .error error)
    | none =>
      match callback with
      | .merkleBlock block => follow block notes
      | .tx tx => receive tx notes
      | _ => pure (notes, .ok ())

end Client

end LightPeer
