import LightPeer.Proofs.Session.Recast
import LightPeer.Proofs.Session.Traffic
import LightPeer.Proofs.Stall.Patrol

/-! # Logging does not interfere

A session that starts with a higher threshold does the same, step by step, as one that
writes down everything, whatever its client does. -/

namespace LightPeer

namespace Session

variable (level : Log.Level)

/-! ## The log in the journal -/

theorem traffic_filter_passes (journal : List Effect) :
    traffic (journal.filter (Effect.passes level)) = traffic journal := by
  unfold traffic
  rw [List.filter_filter]
  congr 1
  funext effect
  cases effect <;> simp [Effect.passes]

theorem records_filter_passes (view : Log.View) (journal : List Effect) :
    records (journal.filter (Effect.passes view.threshold)) = view.select (records journal) := by
  unfold records Log.View.select
  rw [List.filterMap_filter, List.filter_filterMap]
  congr 1
  funext effect
  cases effect with
  | logged record =>
      by_cases hlevel : view.threshold.rank ≤ record.level.rank <;>
        simp [Effect.passes, hlevel, Option.filter]
  | _ => rfl

/-- A session that starts with a threshold has written down less from the start. -/
theorem start_recast (addr : Endpoint) (localHeight : UInt32) (settings : Settings) (clock : Nat) :
    (start addr localHeight settings clock).recast level none [] =
      start addr localHeight settings clock level := by
  unfold start
  rw [← log_recast]
  simp [recast]

end Session

open Session

namespace Running

variable {σ : Type} (client : Client σ) (running : Running σ) (level : Log.Level)

/-- A session and its client without what only the log tells. -/
def unlogged : Running σ :=
  { running with
    session := { running.session with
      threshold := .trace
      journal := traffic running.session.journal } }

theorem unlogged_recast : (running.recast level none []).unlogged = running.unlogged := by
  simp [unlogged, recast, Session.recast, traffic_filter_passes]

/-- What comes of a step: its result, and all that can be seen after it. -/
structure Reply (σ : Type) where
  step : Step
  result : step.Result
  after : Running σ

/-- What comes of each step of a run. -/
def replies (running : Running σ) : List Step → List (Reply σ)
  | [] => []
  | step :: todo =>
    let (next, result) := Running.step client running step
    ⟨step, result, next.unlogged⟩ :: replies next todo

theorem steps_recast (todo : List Step) :
    steps client (running.recast level none []) todo =
        (steps client running todo).recast level none [] ∧
      replies client (running.recast level none []) todo = replies client running todo := by
  induction todo generalizing running with
  | nil => exact ⟨rfl, rfl⟩
  | cons step todo ih =>
      obtain ⟨known, hleft, hstep⟩ :=
        step_recast running level [] (.inl rfl) (.inl rfl)
      obtain rfl := hleft.eq_none
      obtain ⟨hsteps, hreplies⟩ := ih (Running.step client running step).1
      constructor
      · unfold steps at hsteps ⊢
        rw [List.foldl_cons, List.foldl_cons, hstep]
        exact hsteps
      · unfold replies
        rw [hstep]
        simp only [unlogged_recast, hreplies]

/-- A run of a session from its start, as a program that logs. -/
def service (addr : Endpoint) (localHeight : UInt32) (settings : Settings) (clock : Nat) (memory : σ)
    (todo : List Step) : Log.Logging (List (Reply σ)) where
  run threshold :=
    let start : Running σ := ⟨.start addr localHeight settings clock threshold, memory⟩
    (records (steps client start todo).session.journal, replies client start todo)

theorem run_service (addr : Endpoint) (localHeight : UInt32) (settings : Settings) (clock : Nat)
    (memory : σ) (todo : List Step) (view : Log.View) :
    let start : Running σ := ⟨.start addr localHeight settings clock, memory⟩
    (service client addr localHeight settings clock memory todo).run view.threshold =
      (view.select (records (steps client start todo).session.journal),
        replies client start todo) := by
  intro start
  have hstart : (⟨.start addr localHeight settings clock view.threshold, memory⟩ : Running σ) =
      start.recast view.threshold none [] := by
    simp only [recast, start, start_recast]
  obtain ⟨hsteps, hreplies⟩ := steps_recast client start view.threshold todo
  unfold service
  simp only
  rw [hstart, hsteps, hreplies, ← records_filter_passes]
  rfl

/-- Whatever writes one record of each level, watches a peer or runs a session, with
whatever client, logs without interfering with what it does, and the environment only
filters what is logged. A watchdog that logs goes through the events of its run. -/
theorem logging_only_filters (text : String) (key : Nat) (addr : Endpoint) (watchdog : Watchdog)
    (turns : List Watchdog.Turn) (localHeight : UInt32) (settings : Settings) (clock : Nat)
    (memory : σ) (todo : List Step) :
    (Log.emit text key).Discreet ∧
      (watchdog.patrol addr false turns).Discreet ∧
      (∀ view : Log.View, ((watchdog.patrol addr false turns).run view.threshold).2 =
        watchdog.run false turns) ∧
      (service client addr localHeight settings clock memory todo).Discreet := by
  refine ⟨Log.emit_discreet text key, Watchdog.patrol_discreet addr watchdog false turns, ?_, ?_⟩
  · intro view
    rw [Watchdog.run_patrol]
  · exact Log.Logging.discreet_of_run
      (run_service client addr localHeight settings clock memory todo)

end Running

end LightPeer
