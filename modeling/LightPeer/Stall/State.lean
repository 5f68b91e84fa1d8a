import LightPeer.FiniteSet
import LightPeer.Message

/-! The requests that are unanswered, and whether they have been for too long.
Any message starts the wait anew; an answer is recognised by the hash of what
came. Times are milliseconds from an arbitrary moment. -/

namespace LightPeer

/-- An answer that is waited for. -/
inductive Expectation where
  /-- An inventory, in answer to a request for block hashes. -/
  | inventory
  /-- The block or transaction of this hash. -/
  | data (hash : Hash)
deriving DecidableEq

/-- What to do about the peer. -/
inductive Verdict where
  | proceed
  | disconnect
deriving DecidableEq, Repr

/-- What is waited for, and since when. -/
structure StallState where
  pending : FiniteSet Expectation
  /-- When the last message was seen. -/
  lastActive : Option Nat
  /-- How long after that an answer may be missing. -/
  timeout : Nat

namespace StallState

/-- Nothing was seen yet. -/
def fresh (timeout : Nat) : StallState := ⟨.empty, none, timeout⟩

/-- The expectations after one more message. -/
def revise (pending : FiniteSet Expectation) : Message → FiniteSet Expectation
  | .getBlocks _ => pending.insert .inventory
  | .inv _ => pending.erase .inventory
  | .getData items => pending.insertAll (items.map fun item => .data item.hash)
  | .merkleBlock block => pending.erase (.data block.hash)
  | .tx tx => pending.erase (.data tx.id)
  | _ => pending

/-- What a message says about the peer: one that lacks what it announced is no use. -/
def judge : Message → Verdict
  | .notFound _ => .disconnect
  | _ => .proceed

/-- Accounts for a message sent or received at a time. -/
def observe (state : StallState) (message : Message) (now : Nat) : StallState × Verdict :=
  ({ state with pending := revise state.pending message, lastActive := some now }, judge message)

/-- Whether an answer is overdue at a time. -/
def check (state : StallState) (now : Nat) : Verdict :=
  if state.pending.isEmpty then .proceed
  else
    match state.lastActive with
    | none => .proceed
    | some seen => if now < seen + state.timeout then .proceed else .disconnect

end StallState

end LightPeer
