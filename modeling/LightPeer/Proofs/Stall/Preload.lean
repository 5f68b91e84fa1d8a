import LightPeer.Proofs.Stall.HangUp
import LightPeer.Stall.Preload
import Mathlib.Data.ENat.Lattice

/-! # A watchdog on a channel that is already full

The session is gone, so the messages in the channel are all there will be. The
watchdog takes them in order, and stops at the first that is a cause for complaint,
at the first look that finds the link down, or when none is left. -/

namespace LightPeer

namespace Watchdog

variable {message : Message} {messages : List Message} {m hung : Nat} {events : List Event}

/-! ## What events come to -/

/-- A run that is over, in which the first `m` of the messages in the channel were
seen: the link was looked at before each of them and once more. -/
structure Settles (messages : List Message) (m hung : Nat) (events : List Event) : Prop where
  seen_eq : seen events = messages.take m
  hangUps_eq : hangUps events = hung
  polls_eq : polls events = m + 1
  /-- What was not seen is dropped in the end. -/
  stopped : ∃ earlier, events = earlier ++ [.stopped (messages.drop m)]

theorem Settles.linkDown : Settles messages 0 0 [.polled false, .stopped messages] :=
  ⟨rfl, rfl, rfl, [.polled false], rfl⟩

theorem Settles.sessionGone : Settles [] 0 0 [.polled true, .sessionLeft, .stopped []] :=
  ⟨rfl, rfl, rfl, [.polled true, .sessionLeft], rfl⟩

theorem Settles.hungUp (now : Nat) (complaint : Complaint) (pending : Nat) :
    Settles (message :: messages) 1 1 [.polled true, .saw message now, .hungUp complaint pending,
      .polled false, .stopped messages] :=
  ⟨rfl, rfl, rfl, [.polled true, .saw message now, .hungUp complaint pending, .polled false], rfl⟩

/-- A message is seen before the others. -/
theorem Settles.saw (h : Settles messages m hung events) (now : Nat) :
    Settles (message :: messages) (m + 1) hung (.polled true :: .saw message now :: events) where
  seen_eq := congrArg (message :: ·) h.seen_eq
  hangUps_eq := h.hangUps_eq
  polls_eq := by
    have hpolls := h.polls_eq
    unfold polls at hpolls ⊢
    rw [List.countP_cons_of_pos rfl, List.countP_cons_of_neg (by simp), hpolls]
  stopped := by
    obtain ⟨earlier, rfl⟩ := h.stopped
    exact ⟨.polled true :: .saw message now :: earlier, rfl⟩

end Watchdog

namespace Preload

open Watchdog

/-! ## How many messages are seen -/

/-- How many looks at the link find it up, if nobody hangs up. -/
def limit (preload : Preload) : ℕ∞ :=
  if preload.linkUp then preload.polls.elim ⊤ Nat.cast else 0

def isNotFound : Message → Bool
  | .notFound _ => true
  | _ => false

/-- The number of the first message that tells of missing data, counted from one. -/
def firstNotFound (messages : List Message) : ℕ∞ :=
  (messages.findIdx? isNotFound).elim ⊤ fun i => (i : ℕ∞) + 1

/-- How many of the messages the watchdog comes to see. -/
noncomputable def reach (preload : Preload) : ℕ∞ :=
  min preload.limit (min (firstNotFound preload.messages) preload.messages.length)

theorem isNotFound_iff {message : Message} :
    isNotFound message = true ↔ StallState.judge message = .disconnect := by
  cases message <;> simp [isNotFound, StallState.judge]

theorem firstNotFound_cons (message : Message) (messages : List Message) :
    firstNotFound (message :: messages) =
      if isNotFound message then 1 else firstNotFound messages + 1 := by
  unfold firstNotFound
  rw [List.findIdx?_cons]
  by_cases hbad : isNotFound message
  · simp [hbad]
  · cases h : messages.findIdx? isNotFound <;> simp [hbad]

variable {message : Message} {messages : List Message} {linkUp : Bool} {polls : Option Nat}

theorem firstNotFound_ne_zero : firstNotFound messages ≠ 0 := by
  unfold firstNotFound
  cases messages.findIdx? isNotFound <;> simp

/-- A look that finds the link up leaves one less of them. -/
theorem limit_eq_succ (hup : (linkUp && polls.all (0 < ·)) = true) :
    limit ⟨message :: messages, false, linkUp, polls⟩ =
      limit ⟨messages, false, linkUp, polls.map (· - 1)⟩ + 1 := by
  obtain ⟨rfl, hpolls⟩ := (Bool.and_eq_true _ _).mp hup
  cases polls with
  | none => rfl
  | some count =>
      have hpos : 0 < count := by simpa using hpolls
      obtain ⟨count, rfl⟩ := Nat.exists_eq_add_one.mpr hpos
      rfl

theorem reach_nil : reach ⟨[], false, linkUp, polls⟩ = 0 := by
  simp [reach]

/-- Once the link is found down, nothing is seen. -/
theorem reach_of_down (hdown : (linkUp && polls.all (0 < ·)) = false) :
    reach ⟨messages, false, linkUp, polls⟩ = 0 := by
  have hlimit : limit ⟨messages, false, linkUp, polls⟩ = 0 := by
    cases linkUp with
    | false => rfl
    | true =>
        cases polls with
        | none => exact nomatch hdown
        | some count =>
            obtain rfl : count = 0 := by simpa using hdown
            rfl
  simp [reach, hlimit]

theorem reach_notFound (hup : (linkUp && polls.all (0 < ·)) = true)
    (hbad : isNotFound message = true) :
    reach ⟨message :: messages, false, linkUp, polls⟩ = 1 := by
  simp [reach, limit_eq_succ hup, firstNotFound_cons, hbad]

theorem reach_cons (hup : (linkUp && polls.all (0 < ·)) = true)
    (hgood : isNotFound message = false) :
    reach ⟨message :: messages, false, linkUp, polls⟩ =
      reach ⟨messages, false, linkUp, polls.map (· - 1)⟩ + 1 := by
  simp [reach, limit_eq_succ hup, firstNotFound_cons, hgood, min_add_add_right]

/-! ## The turns of a channel that the session has left -/

section

variable (clock : Nat → Nat) (ticks : Nat)

theorem turns_nil :
    turns ⟨[], false, linkUp, polls⟩ clock ticks =
      [⟨linkUp && polls.all (0 < ·), .sessionGone⟩] := rfl

theorem turns_cons :
    turns ⟨message :: messages, false, linkUp, polls⟩ clock ticks =
      ⟨linkUp && polls.all (0 < ·), .message message (clock 0)⟩ ::
        turns ⟨messages, false, linkUp, polls.map (· - 1)⟩ (fun i => clock (i + 1)) ticks := by
  have hlink : ∀ i, polls.all (i + 1 < ·) = (polls.map (· - 1)).all (i < ·) := by
    intro i
    cases polls with
    | none => rfl
    | some count => simp [Nat.lt_sub_iff_add_lt]
  simp [turns, wakeups, List.mapIdx_cons, hlink]

theorem taken_turns :
    (taken (turns ⟨messages, false, linkUp, polls⟩ clock ticks)).map Prod.fst = messages := by
  induction messages generalizing polls clock with
  | nil => rfl
  | cons message messages ih =>
      rw [turns_cons]
      exact congrArg (message :: ·) (ih _)

/-- There is always a turn, if only one that finds the session gone. The turns take the
messages, all of them. -/
theorem exists_turns_eq :
    ∃ wakeup rest, turns ⟨messages, false, linkUp, polls⟩ clock ticks =
        ⟨linkUp && polls.all (0 < ·), wakeup⟩ :: rest ∧
      (taken (⟨linkUp && polls.all (0 < ·), wakeup⟩ :: rest)).map Prod.fst = messages := by
  cases messages with
  | nil => exact ⟨_, _, turns_nil clock ticks, rfl⟩
  | cons message messages =>
      refine ⟨_, _, turns_cons clock ticks, ?_⟩
      rw [← turns_cons]
      exact taken_turns clock ticks

theorem closing_turns :
    closing (turns ⟨messages, false, linkUp, polls⟩ clock ticks) =
      [.polled false, .stopped messages] := by
  rw [closing, taken_turns]

end

/-! ## How the run goes -/

variable (clock : Nat → Nat) (ticks : Nat) (watchdog : Watchdog)

theorem run_of_down (hdown : (linkUp && polls.all (0 < ·)) = false) :
    watchdog.run false (turns ⟨messages, false, linkUp, polls⟩ clock ticks) =
      [.polled false, .stopped messages] := by
  obtain ⟨wakeup, rest, hturns, htaken⟩ := exists_turns_eq clock ticks
  rw [hturns, run_linkDown hdown, htaken]

theorem run_nil (hup : (linkUp && polls.all (0 < ·)) = true) :
    watchdog.run false (turns ⟨[], false, linkUp, polls⟩ clock ticks) =
      [.polled true, .sessionLeft, .stopped []] := by
  rw [turns_nil, run_sessionGone hup rfl]
  rfl

theorem run_notFound (hup : (linkUp && polls.all (0 < ·)) = true)
    (hbad : isNotFound message = true) :
    ∃ pending, watchdog.run false (turns ⟨message :: messages, false, linkUp, polls⟩ clock ticks) =
      [.polled true, .saw message (clock 0), .hungUp .notFound pending, .polled false,
        .stopped messages] := by
  have hhangUp : (watchdog.wake (.message message (clock 0))).2 = .hangUp .notFound := by
    simp [wake, StallState.observe, isNotFound_iff.mp hbad]
  rw [turns_cons, Watchdog.run_hangUp hup hhangUp, closing_turns]
  exact ⟨_, rfl⟩

theorem run_cons (hup : (linkUp && polls.all (0 < ·)) = true)
    (hgood : isNotFound message = false) :
    ∃ next : Watchdog,
      watchdog.run false (turns ⟨message :: messages, false, linkUp, polls⟩ clock ticks) =
        .polled true :: .saw message (clock 0) :: next.run false
          (turns ⟨messages, false, linkUp, polls.map (· - 1)⟩ (fun i => clock (i + 1)) ticks) := by
  have hjudge : StallState.judge message ≠ .disconnect := by
    rw [Ne, ← isNotFound_iff, hgood]
    exact Bool.false_ne_true
  have hstay : (watchdog.wake (.message message (clock 0))).2 = .stay := by
    simp [wake, StallState.observe, hjudge]
  rw [turns_cons, run_stay hup hstay]
  exact ⟨_, rfl⟩

/-- The run is over after as many messages as are in reach. It ends with a complaint just
if the last one seen is the first that tells of missing data. -/
theorem exists_settles (messages : List Message) (linkUp : Bool) (polls : Option Nat) :
    ∃ m : Nat, (m : ℕ∞) = reach ⟨messages, false, linkUp, polls⟩ ∧
      Settles messages m (if firstNotFound messages = m then 1 else 0)
        (watchdog.run false (turns ⟨messages, false, linkUp, polls⟩ clock ticks)) := by
  -- the induction is on the messages: each that is seen leaves one look less and a later clock
  induction messages generalizing polls clock watchdog with
  | nil =>
      refine ⟨0, reach_nil.symm, ?_⟩
      rw [Nat.cast_zero, if_neg firstNotFound_ne_zero]
      cases hlink : linkUp && polls.all (0 < ·) with
      | false =>
          rw [run_of_down clock ticks watchdog hlink]
          exact .linkDown
      | true =>
          rw [run_nil clock ticks watchdog hlink]
          exact .sessionGone
  | cons message messages ih =>
      cases hlink : linkUp && polls.all (0 < ·) with
      | false =>
          refine ⟨0, (reach_of_down hlink).symm, ?_⟩
          rw [Nat.cast_zero, if_neg firstNotFound_ne_zero, run_of_down clock ticks watchdog hlink]
          exact .linkDown
      | true =>
          cases hbad : isNotFound message with
          | true =>
              obtain ⟨pending, hrun⟩ := run_notFound clock ticks watchdog hlink hbad
              refine ⟨1, (reach_notFound hlink hbad).symm, ?_⟩
              rw [hrun, firstNotFound_cons, if_pos hbad, Nat.cast_one, if_pos rfl]
              exact .hungUp (clock 0) .notFound pending
          | false =>
              obtain ⟨next, hrun⟩ := run_cons clock ticks watchdog hlink hbad
              obtain ⟨m, hm, hsettles⟩ := ih (fun i => clock (i + 1)) next (polls.map (· - 1))
              refine ⟨m + 1, ?_, ?_⟩
              · rw [reach_cons hlink hbad, ← hm, Nat.cast_succ]
              · have hsame : firstNotFound (message :: messages) = (m + 1 : Nat) ↔
                    firstNotFound messages = m := by
                  rw [firstNotFound_cons, if_neg (by simp [hbad]), Nat.cast_succ]
                  exact (ENat.add_left_injective_of_ne_top ENat.one_ne_top).eq_iff
                simp only [hsame]
                rw [hrun]
                exact hsettles.saw (clock 0)

/-- On a channel that the session has left, the watchdog sees just the messages up to the
first that tells of missing data, as long as its looks find the link up. It hangs up, once,
just if it comes to see that message. It looks at the link before each message that it
sees and once more, and what it has not seen is dropped in the end. -/
theorem run_left_channel (messages : List Message) (linkUp : Bool) (polls : Option Nat)
    (clock : Nat → Nat) (interval timeout now ticks : Nat) :
    let preload : Preload := ⟨messages, false, linkUp, polls⟩
    let events := (start interval timeout now).run false (preload.turns clock ticks)
    ∃ m : Nat, (m : ℕ∞) = min preload.limit (min (firstNotFound messages) messages.length) ∧
      seen events = messages.take m ∧
      hangUps events = (if firstNotFound messages = m then 1 else 0) ∧
      Watchdog.polls events = m + 1 ∧
      ∃ earlier, events = earlier ++ [.stopped (messages.drop m)] := by
  intro preload events
  obtain ⟨m, hm, hsettles⟩ :=
    exists_settles clock ticks (start interval timeout now) messages linkUp polls
  exact ⟨m, hm, hsettles.seen_eq, hsettles.hangUps_eq, hsettles.polls_eq, hsettles.stopped⟩

end Preload

end LightPeer
