import LightPeer.Session.State

/-! The calls that a session answers, as data: those that make it do something,
and those that only read its state. Handling a message of the peer is none of them.
It is left to the connection, which hands over one message after the other. -/

namespace LightPeer

namespace Session

inductive Call where
  | notify (message : Message)
  | send (message : Message)
  | requestHashes (locators : List Hash) (stop : Hash)
  | requestBlocks (hashes : List Hash)
  | requestTxs (txids : List Hash)
  | loadFilter (filter : Filter)
  | ping
  | disconnect
  | resetTracker
  | track (block : MerkleBlock)
  | current
  | tracker (id : TrackerId) (op : BlockTracker.Op)
  | requests (op : Requests.Op)
  | recordTx (falsePositive : Bool)
  | resetTally
  | setHeight (height : UInt32)
  | queueBlock (hash : Hash)
  | nextBlock
  -- the others leave the session as it is
  | addr
  | isConnected
  /-- The peer's height, as far as it told. -/
  | height
  | counts
  | rate
  /-- How many announced blocks wait to be asked for. -/
  | queuedBlocks
  /-- How many transactions were asked for and have not come. -/
  | awaitedTxs
  /-- How many transactions a tracker expects. -/
  | pendingTxs (id : TrackerId)

@[reducible] def Call.Result : Call → Type
  | notify _ | send _ | requestHashes _ _ | requestBlocks _ | requestTxs _ | loadFilter _ | ping =>
    Except Error Unit
  | disconnect | resetTracker | recordTx _ | resetTally | setHeight _ => Unit
  | track _ => Except Error TrackerId
  | current => TrackerId
  | tracker _ op => op.Result
  | requests op => op.Result
  | queueBlock _ => Except Error Unit
  | nextBlock => Option Hash
  | addr => Endpoint
  | isConnected => Bool
  | height => UInt32
  | counts => Tally
  | rate => Option Float32
  | queuedBlocks | awaitedTxs | pendingTxs _ => Nat

def perform (session : Session) : (call : Call) → Session × call.Result
  | .notify message => session.notify message
  | .send message => session.send message
  | .requestHashes locators stop => session.requestHashes locators stop
  | .requestBlocks hashes => session.requestBlocks hashes
  | .requestTxs txids => session.requestTxs txids
  | .loadFilter filter => session.loadFilter filter
  | .ping => session.ping
  | .disconnect => (session.disconnect, ())
  | .resetTracker => (session.resetTracker, ())
  | .track block => session.track block
  | .current => (session, session.trackers.current)
  | .tracker id op =>
    let (tracker, result) := (session.trackers.get id).apply op
    ({ session with trackers := session.trackers.update id tracker }, result)
  | .requests op =>
    let (requests, result) := Requests.apply session.requests op
    ({ session with requests }, result)
  | .recordTx falsePositive => ({ session with tally := session.tally.record falsePositive }, ())
  | .resetTally => ({ session with tally := .empty }, ())
  | .setHeight height => ({ session with height }, ())
  | .queueBlock hash => session.queueBlock hash
  | .nextBlock => session.nextBlock
  | .addr => (session, session.addr)
  | .isConnected => (session, session.link.up)
  | .height => (session, session.height)
  | .counts => (session, session.tally)
  | .rate => (session, session.tally.rate?)
  | .queuedBlocks => (session, session.blockQueue.length)
  | .awaitedTxs => (session, session.requests.size)
  | .pendingTxs id => (session, (session.trackers.get id).pending)

end Session

end LightPeer
