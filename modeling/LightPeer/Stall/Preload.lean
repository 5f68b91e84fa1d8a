import LightPeer.Stall.Watchdog

/-! A watchdog on a channel that was filled before it starts. Queued messages
come before ticks, and a channel that the session has left ends the run as soon
as it is empty. -/

namespace LightPeer

/-- A filled channel, and the link beside it. -/
structure Preload where
  messages : List Message
  /-- The session still holds its end of the channel. -/
  held : Bool
  linkUp : Bool
  /-- How often the link is found up before it is down for good. -/
  polls : Option Nat

namespace Preload

/-- How the waits end: first with the messages, then with ticks for as long as
the channel is held. `clock` gives the time at which each wait ends. -/
def wakeups (preload : Preload) (clock : Nat → Nat) (ticks : Nat) : List Wakeup :=
  preload.messages.mapIdx (fun i m => .message m (clock i)) ++
    if preload.held then
      (List.range ticks).map fun i => .timeout (clock (preload.messages.length + i))
    else [.sessionGone]

/-- The turns of a watchdog on the channel. -/
def turns (preload : Preload) (clock : Nat → Nat) (ticks : Nat) : List Watchdog.Turn :=
  (preload.wakeups clock ticks).mapIdx fun i wakeup =>
    { linkUp := preload.linkUp && preload.polls.all (i < ·), wakeup }

/-- The time of each wait's end when messages take no time and a tick comes as
soon as it is due, or after a millisecond if it is always due. -/
def punctualClock (preload : Preload) (interval : Nat) (i : Nat) : Nat :=
  (i + 1 - preload.messages.length) * max interval 1

/-- The link is down, or goes down, before the first tick. -/
def endsBeforeTicks (preload : Preload) : Bool :=
  !preload.linkUp || preload.messages.any fun m => StallState.judge m = .disconnect

/-- What is still waited for behind all messages. -/
def unanswered (preload : Preload) : FiniteSet Expectation :=
  preload.messages.foldl StallState.revise .empty

/-- A number of ticks after which the run is over, if it ever is: the watchdog
has lost patience, or the link is found down. -/
def enoughTicks (preload : Preload) (interval timeout : Nat) : Nat :=
  let untilSilence := timeout / max interval 1 + 3
  if preload.endsBeforeTicks then 1
  else
    match preload.polls with
    | none => untilSilence
    | some limit =>
      if preload.unanswered.isEmpty then limit + 1 else min untilSilence (limit + 1)

/-- The events of a run on a punctual clock. -/
def run (preload : Preload) (interval timeout : Nat) : List Watchdog.Event :=
  (Watchdog.start interval timeout 0).run false
    (preload.turns (preload.punctualClock interval) (preload.enoughTicks interval timeout))

/-- A run on a punctual clock that logs as it goes. -/
def patrol (addr : Endpoint) (preload : Preload) (interval timeout : Nat) :
    Log.Logging (List Watchdog.Event) :=
  (Watchdog.start interval timeout 0).patrol addr false
    (preload.turns (preload.punctualClock interval) (preload.enoughTicks interval timeout))

/-- The link after a run: down if it was, or if the watchdog hung up. -/
def linkUpAfter (preload : Preload) (events : List Watchdog.Event) : Bool :=
  preload.linkUp && Watchdog.hangUps events == 0

end Preload

end LightPeer
