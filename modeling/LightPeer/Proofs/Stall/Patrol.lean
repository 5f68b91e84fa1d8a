import LightPeer.Proofs.Log
import LightPeer.Stall.Watchdog

/-! # What a watchdog writes down

A watchdog that logs as it goes comes to the same events as one that does not, and
writes down what there is to log of each of them, from its threshold on. -/

namespace LightPeer

namespace Watchdog

open Log

variable (addr : Endpoint) (view : View)

@[simp] theorem run_tell (event : Event) :
    (tell addr event).run view.threshold = (view.select (event.record? addr).toList, ()) := by
  unfold tell
  cases event.record? addr with
  | none => rfl
  | some record => exact Logging.run_write view record

@[simp] theorem record?_polled (up : Bool) : (Event.polled up).record? addr = none := rfl

@[simp] theorem records_nil : records addr [] = [] := rfl

@[simp] theorem records_cons (event : Event) (events : List Event) :
    records addr (event :: events) = (event.record? addr).toList ++ records addr events := by
  unfold records
  cases hrecord : event.record? addr <;> simp [hrecord]

theorem run_patrol (watchdog : Watchdog) (hasHungUp : Bool) (turns : List Turn) :
    (watchdog.patrol addr hasHungUp turns).run view.threshold =
      (view.select (records addr (watchdog.run hasHungUp turns)),
        watchdog.run hasHungUp turns) := by
  induction turns generalizing watchdog hasHungUp with
  | nil =>
      cases hasHungUp with
      | false => rfl
      | true => simp [patrol, Watchdog.run]
  | cons turn rest ih =>
      unfold patrol Watchdog.run
      cases turn.linkUp && !hasHungUp with
      | false => simp
      | true =>
          cases hreaction : (watchdog.wake turn.wakeup).2 with
          | stay => simp [hreaction, ih]
          | hangUp complaint => simp [hreaction, ih]
          | leave => simp [hreaction]

theorem patrol_discreet (watchdog : Watchdog) (hasHungUp : Bool) (turns : List Turn) :
    (watchdog.patrol addr hasHungUp turns).Discreet :=
  Logging.discreet_of_run fun view => run_patrol addr view watchdog hasHungUp turns

end Watchdog

end LightPeer
