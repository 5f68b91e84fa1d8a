import LightPeer.Endpoint.Basic
import LightPeer.Log
import LightPeer.Stall.State

/-! The watchdog of a session. It waits for the next message or the next tick,
hangs up on a peer that lets it down, and stops once the connection is down or
the session is gone. A run is a list of events, and everything else that is
known about the run is read from that list. -/

namespace LightPeer

/-- What ends a wait. -/
inductive Wakeup where
  | message (message : Message) (now : Nat)
  /-- No message came before the tick. -/
  | timeout (now : Nat)
  /-- The session dropped its end of the channel. -/
  | sessionGone

/-- The message that ended a wait. -/
def Wakeup.message? : Wakeup → Option Message
  | message m _ => some m
  | _ => none

/-- Why the watchdog hangs up. -/
inductive Complaint where
  | notFound
  | silence
deriving DecidableEq, Repr

/-- The report of a complaint. -/
def Complaint.text : Complaint → String
  | notFound => "unexpected notfound from sync peer"
  | silence => "response timeout"

/-- What the watchdog does next. -/
inductive Reaction where
  | stay
  | hangUp (complaint : Complaint)
  | leave
deriving DecidableEq, Repr

/-- A watchdog between two waits. -/
structure Watchdog where
  state : StallState
  /-- The least time between two checks. -/
  interval : Nat
  /-- When the next check is due. -/
  nextTick : Nat

namespace Watchdog

/-- A watchdog that starts at a time. -/
def start (interval timeout now : Nat) : Watchdog :=
  ⟨.fresh timeout, interval, now + interval⟩

/-- How long to wait from a time on: until the next check is due, and not at all if it is overdue. -/
def wait (watchdog : Watchdog) (now : Nat) : Nat := watchdog.nextTick - now

/-- The watchdog after a wait, and what it does. A late check puts off the next
one, so checks never follow each other faster than the interval. -/
def wake (watchdog : Watchdog) : Wakeup → Watchdog × Reaction
  | .message m now =>
    let (state, verdict) := watchdog.state.observe m now
    ({ watchdog with state }, if verdict = .disconnect then .hangUp .notFound else .stay)
  | .timeout now =>
    ({ watchdog with nextTick := max watchdog.nextTick now + watchdog.interval },
      if watchdog.state.check now = .disconnect then .hangUp .silence else .stay)
  | .sessionGone => (watchdog, .leave)

/-- One turn of the watchdog: whether the link is up as far as others know, and
what the wait ends with if it is. -/
structure Turn where
  linkUp : Bool
  wakeup : Wakeup

/-- Something that happens in a run. -/
inductive Event where
  /-- The watchdog looked whether the link is up. -/
  | polled (up : Bool)
  | saw (message : Message) (now : Nat)
  | ticked (now : Nat)
  | hungUp (complaint : Complaint) (pending : Nat)
  | sessionLeft
  /-- The run is over, and the messages left in the channel are dropped. -/
  | stopped (dropped : List Message)

/-- What a wakeup is in the list of events. -/
def Event.ofWakeup : Wakeup → Event
  | .message m now => .saw m now
  | .timeout now => .ticked now
  | .sessionGone => .sessionLeft

/-- The messages that the turns still hold. -/
def held (turns : List Turn) : List Message := turns.filterMap (·.wakeup.message?)

/-- The events of a run. Having hung up, the watchdog finds the link down and stops,
also if there is no turn any more; a run that is on duty after the last turn is not over. -/
def run (watchdog : Watchdog) (hasHungUp : Bool) : List Turn → List Event
  | [] => if hasHungUp then [.polled false, .stopped []] else []
  | turn :: rest =>
    let up := turn.linkUp && !hasHungUp
    .polled up ::
      if up then
        let (next, reaction) := watchdog.wake turn.wakeup
        .ofWakeup turn.wakeup ::
          match reaction with
          | .stay => run next hasHungUp rest
          | .hangUp complaint => .hungUp complaint next.state.pending.size :: run next true rest
          | .leave => [.stopped (held rest)]
      else [.stopped (held (turn :: rest))]

/-- How often the link was looked at. -/
def polls (events : List Event) : Nat :=
  events.countP fun | .polled _ => true | _ => false

/-- How often the watchdog hung up. -/
def hangUps (events : List Event) : Nat :=
  events.countP fun | .hungUp _ _ => true | _ => false

/-- The messages that were taken from the channel and seen. -/
def seen (events : List Event) : List Message :=
  events.filterMap fun | .saw m _ => some m | _ => none

/-- What is logged of an event. -/
def Event.record? (addr : Endpoint) : Event → Option Log.Record
  | .polled _ => none
  | .saw m _ => some { level := .trace, text := s!"Stall handler for {addr} saw {m.command}" }
  | .ticked _ => none
  | .hungUp complaint pending =>
    some {
      level := .warn
      text := s!"Peer {addr} appears to be stalled or misbehaving, {complaint.text} -- disconnecting"
      values := [("pending_responses", pending)] }
  | .sessionLeft => some { level := .debug, text := s!"Peer session for {addr} went away" }
  | .stopped _ => some { level := .trace, text := s!"Peer stall handler done for {addr}" }

/-- The log of a run. -/
def records (addr : Endpoint) (events : List Event) : List Log.Record :=
  events.filterMap (·.record? addr)

/-- Writes down what is logged of an event. -/
def tell (addr : Endpoint) (event : Event) : Log.Logging Unit :=
  match event.record? addr with
  | some record => Log.Logging.write record
  | none => pure ()

/-- A run that logs as it goes. -/
def patrol (addr : Endpoint) (watchdog : Watchdog) (hasHungUp : Bool) :
    List Turn → Log.Logging (List Event)
  | [] =>
    if hasHungUp then do
      tell addr (.stopped [])
      pure [.polled false, .stopped []]
    else pure []
  | turn :: rest => do
    let up := turn.linkUp && !hasHungUp
    if up then
      tell addr (.ofWakeup turn.wakeup)
      let (next, reaction) := watchdog.wake turn.wakeup
      let later ← match reaction with
        | .stay => patrol addr next hasHungUp rest
        | .hangUp complaint => do
          tell addr (.hungUp complaint next.state.pending.size)
          let later ← patrol addr next true rest
          pure (.hungUp complaint next.state.pending.size :: later)
        | .leave => do
          tell addr (.stopped (held rest))
          pure [.stopped (held rest)]
      return .polled up :: .ofWakeup turn.wakeup :: later
    else
      tell addr (.stopped (held (turn :: rest)))
      return [.polled up, .stopped (held (turn :: rest))]

/-- The name of the thread that watches a peer. -/
def threadName (addr : Endpoint) : String := s!"stall-handler:{addr}"

end Watchdog

end LightPeer
