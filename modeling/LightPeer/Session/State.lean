import LightPeer.Download.Requests
import LightPeer.Endpoint.Basic
import LightPeer.Log
import LightPeer.Session.Callback
import LightPeer.Session.Tally
import LightPeer.Session.Trackers
import LightPeer.Settings.Basic
import LightPeer.Stall.State

/-! The state of a session with one peer. Its watchdog keeps up with it: what
the session hands over is observed at once, and a watchdog that hangs up or
finds the link down is closed from then on. What the session does beside
changing its state is written to a journal, but for log records below its
threshold. What its watchdog logs is not among them: that is the log of a
`Watchdog.patrol`. -/

namespace LightPeer

/-- The connection to the peer. -/
structure Link where
  up : Bool
  /-- What a connection that is up answers to every message, if it takes none. -/
  refusal : Option Error
  /-- How often the link was told to hang up. -/
  hangUps : Nat

namespace Session

inductive Effect where
  /-- Hands a message to the watchdog. -/
  | watched (message : Message)
  /-- Offers a message to the link, which takes it or not. -/
  | offered (message : Message) (taken : Bool)
  /-- Turns to the client. -/
  | dispatched (callback : Callback)
  | logged (record : Log.Record)

/-- The messages that the watchdog was handed. -/
def watched (journal : List Effect) : List Message :=
  journal.filterMap fun | .watched m => some m | _ => none

/-- The messages that the link took. -/
def sent (journal : List Effect) : List Message :=
  journal.filterMap fun | .offered m true => some m | _ => none

def records (journal : List Effect) : List Log.Record :=
  journal.filterMap fun | .logged record => some record | _ => none

end Session

structure Session where
  addr : Endpoint
  /-- Our own height, which pings and pongs tell the peer. -/
  localHeight : UInt32
  blockQueueSize : Nat
  clock : Nat
  link : Link
  /-- What the watchdog knows, while it is open. -/
  watchdog : Option StallState
  requests : Requests
  trackers : Trackers
  tally : Tally
  /-- The announced blocks that wait to be asked for, the oldest first. -/
  blockQueue : List Hash
  /-- The peer's height, as far as it told. -/
  height : UInt32
  /-- What the session did, the first thing first. -/
  journal : List Session.Effect
  /-- Records below this level are not written down. -/
  threshold : Log.Level := .trace

namespace Session

/-- What is written down of an effect: all but a record below the threshold. -/
def kept (session : Session) : Effect → List Effect
  | .logged record =>
    if session.threshold.rank ≤ record.level.rank then [.logged record] else []
  | effect => [effect]

@[simp] theorem kept_watched (session : Session) (message : Message) :
    session.kept (.watched message) = [.watched message] := rfl

@[simp] theorem kept_offered (session : Session) (message : Message) (taken : Bool) :
    session.kept (.offered message taken) = [.offered message taken] := rfl

@[simp] theorem kept_dispatched (session : Session) (callback : Callback) :
    session.kept (.dispatched callback) = [.dispatched callback] := rfl

@[simp] theorem mem_kept_logged (session : Session) (record : Log.Record) (effect : Effect) :
    effect ∈ session.kept (.logged record) ↔
      session.threshold.rank ≤ record.level.rank ∧ effect = .logged record := by
  by_cases hlevel : session.threshold.rank ≤ record.level.rank
  · simp [kept, hlevel]
  · simp [kept, hlevel]

def emit (session : Session) (effect : Effect) : Session :=
  { session with journal := session.journal ++ session.kept effect }

def log (session : Session) (level : Log.Level) (text : String) : Session :=
  session.emit (.logged { level, text })

/-- A session that starts at a time over a link that is up. -/
def start (addr : Endpoint) (localHeight : UInt32) (settings : Settings) (clock : Nat)
    (threshold : Log.Level := .trace) : Session :=
  let session : Session := {
    addr, localHeight, clock, threshold
    blockQueueSize := settings.blockQueueSize
    link := ⟨true, none, 0⟩
    watchdog := some (.fresh settings.responseTimeout)
    requests := .empty
    trackers := .initial
    tally := .empty
    blockQueue := []
    height := 0
    journal := [] }
  session.log .debug s!"Started SPV session with {addr} ({settings.summary})"

/-- Hangs up, which the watchdog takes as its end. -/
def disconnect (session : Session) : Session :=
  { session with
    link := { session.link with up := false, hangUps := session.link.hangUps + 1 }
    watchdog := none }

/-- Hands a message to the watchdog. -/
def notify (session : Session) (message : Message) : Session × Except Error Unit :=
  match session.watchdog with
  | none => (session, .error .watchdogClosed)
  | some state =>
    let (state, verdict) := state.observe message session.clock
    let session := { session with watchdog := some state }.emit (.watched message)
    (if verdict = .disconnect then session.disconnect else session, .ok ())

/-- The watchdog's check, at a time. -/
def tick (session : Session) (now : Nat) : Session :=
  let session := { session with clock := now }
  match session.watchdog with
  | none => session
  | some state => if state.check now = .disconnect then session.disconnect else session

/-- Offers a message to the link. -/
def offer (session : Session) (message : Message) : Session × Except Error Unit :=
  let answer : Except Error Unit :=
    if session.link.up then
      match session.link.refusal with
      | some error => .error error
      | none => .ok ()
    else .error .linkDown
  (session.emit (.offered message answer.isOk), answer)

/-- Sends a message. The watchdog hears of a request first, and a request that
it does not hear of is not sent. -/
def send (session : Session) (message : Message) : Session × Except Error Unit :=
  let (session, heard) := if message.isRequest then session.notify message else (session, .ok ())
  match heard with
  | .error error => (session, .error error)
  | .ok () => (session.log .trace s!"Send {message.command} to {session.addr}").offer message

/-- Asks for the block hashes behind known blocks. -/
def requestHashes (session : Session) (locators : List Hash) (stop : Hash) :
    Session × Except Error Unit :=
  let session := session.log .debug
    s!"Send GetBlocks with {locators.length} locator hashes to {session.addr}"
  session.send (.getBlocks { locators, stop })

def requestBlocks (session : Session) : List Hash → Session × Except Error Unit
  | [] => (session, .ok ())
  | first :: rest =>
    let last := (first :: rest).getLast (List.cons_ne_nil first rest)
    let session := session.log .debug
      s!"Send GetData {first.display}-{last.display} to {session.addr}"
    session.send (.getData ((first :: rest).map (⟨.filteredBlock, ·⟩)))

/-- Asks for transactions, and remembers each of them whether or not the request gets out. -/
def requestTxs (session : Session) : List Hash → Session × Except Error Unit
  | [] => (session, .ok ())
  | first :: rest =>
    let session := { session with requests := session.requests.insertAll (first :: rest) }
    session.send (.getData ((first :: rest).map (⟨.tx, ·⟩)))

def resetTracker (session : Session) : Session :=
  { session with trackers := session.trackers.install .empty }

/-- Makes a block the current one, if its proof is good. -/
def track (session : Session) (block : MerkleBlock) : Session × Except Error TrackerId :=
  match BlockTracker.ofMerkleBlock block with
  | .error error => (session, .error error)
  | .ok tracker =>
    let trackers := session.trackers.install tracker
    ({ session with trackers }, .ok trackers.current)

/-- Loads a filter. The current block was cut down by the old one, so it is forgotten. -/
def loadFilter (session : Session) (filter : Filter) : Session × Except Error Unit :=
  session.resetTracker.send (.filterLoad filter)

def ping (session : Session) : Session × Except Error Unit :=
  session.send (.ping session.localHeight.toUInt64)

/-- Takes the peer's height from a nonce; a wider number is no height. -/
def learnHeight (session : Session) (nonce : UInt64) : Session :=
  if nonce ≤ 0xffffffff then { session with height := nonce.toUInt32 }
  else session.log .debug s!"Ignore non-height nonce {nonce} from {session.addr}"

/-- Puts an announced block at the end of the queue, if there is room. -/
def queueBlock (session : Session) (hash : Hash) : Session × Except Error Unit :=
  if session.blockQueueSize ≤ session.blockQueue.length then (session, .error .blockQueueFull)
  else ({ session with blockQueue := session.blockQueue ++ [hash] }, .ok ())

/-- Takes the oldest announced block from the queue. -/
def nextBlock (session : Session) : Session × Option Hash :=
  match session.blockQueue with
  | [] => (session, none)
  | hash :: rest => ({ session with blockQueue := rest }, some hash)

end Session

end LightPeer
