import LightPeer.Session.Run

/-! Sessions whose client syncs, move by move. A message comes, a request goes
out, or the connection fails; the client may fail over any message. -/

namespace LightPeer

namespace Client

def deliveries (notes : List Note) : List Delivery :=
  notes.filterMap fun | .completed delivery => some delivery | _ => none

end Client

/-- A session whose client syncs, with what the client wrote down. -/
abbrev Syncing := Running (List Client.Note)

namespace Syncing

/-- What can happen to the session. -/
inductive Move where
  /-- A message comes from the peer, and the client fails over it if there is an error. -/
  | receive (message : Message) (failure : Option Error)
  | requestHashes (locators : List Hash) (stop : Hash)
  | requestBlocks (hashes : List Hash)
  | requestTxs (txids : List Hash)
  | loadFilter (filter : Filter)
  | ping
  | disconnect
  /-- The link answers every message with an error from now on, or takes them again. -/
  | refuse (error : Option Error)
  | tick (now : Nat)

namespace Move

def step : Move → Running.Step
  | receive message _ => .handle message
  | requestHashes locators stop => .call (.requestHashes locators stop)
  | requestBlocks hashes => .call (.requestBlocks hashes)
  | requestTxs txids => .call (.requestTxs txids)
  | loadFilter filter => .call (.loadFilter filter)
  | ping => .call .ping
  | disconnect => .call .disconnect
  | refuse error => .refuse error
  | tick now => .tick now

/-- The error with which the client answers whatever comes at a move. -/
def failure : Move → Option Error
  | receive _ failure => failure
  | _ => none

/-- The news that the client acts on at a move: what comes, unless it fails over it. -/
def news? : Move → Option Callback
  | receive message none => Callback.ofMessage? message
  | _ => none

def arrival? (move : Move) : Option Tx :=
  match move.news? with
  | some (.tx tx) => some tx
  | _ => none

end Move

def arrivals (moves : List Move) : List Tx := moves.filterMap Move.arrival?

/-- The transactions that the client acts on after the move of a number. -/
def since (moves : List Move) (origin : Nat) : List Tx := arrivals (moves.drop (origin + 1))

def start (addr : Endpoint) (localHeight : UInt32) (settings : Settings) (clock : Nat) : Syncing :=
  ⟨.start addr localHeight settings clock, []⟩

def after (syncing : Syncing) (move : Move) : Syncing :=
  (Running.step (Client.syncing fun _ => move.failure) syncing move.step).1

def play (syncing : Syncing) (moves : List Move) : Syncing := moves.foldl after syncing

end Syncing

end LightPeer
