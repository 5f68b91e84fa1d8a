import LightPeer.Proofs.Stall.HangUp

/-! # How checks follow each other

Before each wait the watchdog reads the clock and asks to wait until the next check is
due, and after the wait it reads the clock again. If the clock never goes back and no
wait is cut short, checks keep their distance however late they are, and a silent peer
is given up at the first check that comes after its time. -/

namespace LightPeer

namespace Watchdog

/-- A turn, with the time that the watchdog reads before it waits. -/
structure TimedTurn extends Turn where
  begun : Nat

/-- A wait in a run: the watchdog that waits, and the turn in which it does. -/
structure Vigil where
  watchdog : Watchdog
  turn : TimedTurn

namespace Vigil

variable (vigil : Vigil)

/-- The watchdog after the wait. -/
def next : Watchdog := (vigil.watchdog.wake vigil.turn.wakeup).1

def reaction : Reaction := (vigil.watchdog.wake vigil.turn.wakeup).2

/-- How long the watchdog asks to wait. -/
def asked : Nat := vigil.watchdog.wait vigil.turn.begun

/-- The time of the check, if the wait ends with one. -/
def tick? : Option Nat :=
  match vigil.turn.wakeup with
  | .timeout now => some now
  | _ => none

/-- The times that are read, before the wait and after it. -/
def readings : List Nat :=
  match vigil.turn.wakeup with
  | .message _ now | .timeout now => [vigil.turn.begun, now]
  | .sessionGone => [vigil.turn.begun]

/-- A wait that no message ends lasts at least as long as was asked for. -/
def Lasts : Prop := ∀ now ∈ vigil.tick?, vigil.turn.begun + vigil.asked ≤ now

instance : Decidable vigil.Lasts := inferInstanceAs (Decidable (∀ now ∈ vigil.tick?, _))

/-- What happens at a wait. -/
def events : List Event :=
  vigil.turn.events ++
    match vigil.reaction with
    | .hangUp complaint => [.hungUp complaint vigil.next.state.pending.size]
    | _ => []

end Vigil

/-- The waits of a run: one for each turn that finds the link up, until the watchdog is done. -/
def vigils (watchdog : Watchdog) : List TimedTurn → List Vigil
  | [] => []
  | turn :: rest =>
    if turn.linkUp then
      let vigil : Vigil := ⟨watchdog, turn⟩
      vigil :: if vigil.reaction = .stay then vigils vigil.next rest else []
    else []

/-- The time of the last check, or the start if there was none. -/
def lastTick (start : Nat) (vigils : List Vigil) : Nat :=
  (vigils.filterMap Vigil.tick?).getLast?.getD start

variable {watchdog : Watchdog} {interval timeout start : Nat} {vigil : Vigil} {vs : List Vigil}
  {turns : List TimedTurn}

/-! ## The waits of a run -/

/-- Waits that follow each other, the first one by a given watchdog. -/
inductive Follow : Watchdog → List Vigil → Prop where
  | none (watchdog : Watchdog) : Follow watchdog []
  | last (vigil : Vigil) : Follow vigil.watchdog [vigil]
  | cons {vigil : Vigil} {rest : List Vigil} (stay : vigil.reaction = .stay)
      (follow : Follow vigil.next rest) : Follow vigil.watchdog (vigil :: rest)

section

variable {turn : TimedTurn} {rest : List TimedTurn}

theorem vigils_of_stay (hup : turn.linkUp = true)
    (hstay : (watchdog.wake turn.wakeup).2 = .stay) :
    vigils watchdog (turn :: rest) =
      ⟨watchdog, turn⟩ :: vigils (watchdog.wake turn.wakeup).1 rest := by
  simp [vigils, hup, Vigil.reaction, hstay, Vigil.next]

theorem vigils_of_done (hup : turn.linkUp = true)
    (hdone : (watchdog.wake turn.wakeup).2 ≠ .stay) :
    vigils watchdog (turn :: rest) = [⟨watchdog, turn⟩] := by
  simp [vigils, hup, Vigil.reaction, hdone]

theorem vigils_of_down (hdown : turn.linkUp = false) : vigils watchdog (turn :: rest) = [] := by
  simp [vigils, hdown]

end

theorem follow_vigils (watchdog : Watchdog) (turns : List TimedTurn) :
    Follow watchdog (vigils watchdog turns) := by
  induction turns generalizing watchdog with
  | nil => exact .none watchdog
  | cons turn rest ih =>
      let vigil : Vigil := ⟨watchdog, turn⟩
      cases hup : turn.linkUp with
      | false =>
          rw [vigils_of_down hup]
          exact .none watchdog
      | true =>
          by_cases hstay : vigil.reaction = .stay
          · rw [vigils_of_stay hup hstay]
            exact .cons hstay (ih vigil.next)
          · rw [vigils_of_done hup hstay]
            exact .last vigil

/-- A wait after which there is another one gave no reason to stop. -/
theorem Follow.stay (h : Follow watchdog vs) {earlier later : List Vigil}
    (hsplit : vs = earlier ++ vigil :: later) (hlater : later ≠ []) : vigil.reaction = .stay := by
  induction h generalizing earlier with
  | none => simp at hsplit
  | last => exact absurd (List.append_eq_singleton_iff.mp hsplit.symm) (by simp [hlater])
  | cons stay follow ih =>
      cases earlier with
      | nil =>
          obtain ⟨rfl, -⟩ := List.cons.inj hsplit
          exact stay
      | cons first earlier => exact ih (List.cons.inj hsplit).2

/-- What is true of the watchdog and the waits so far at the start, and stays true in
every wait, is true at every wait. -/
theorem Follow.invariant {P : List Vigil → Watchdog → Prop} (h : Follow watchdog vs)
    (hstart : P [] watchdog)
    (hstep : ∀ vigil ∈ vs, ∀ earlier, P earlier vigil.watchdog → P (earlier ++ [vigil]) vigil.next)
    {earlier later : List Vigil} (hsplit : vs = earlier ++ vigil :: later) :
    P earlier vigil.watchdog := by
  -- the induction moves waits from the front of the list to the end of those so far
  suffices hdone : ∀ before, P before watchdog → P (before ++ earlier) vigil.watchdog from
    hdone [] hstart
  clear hstart
  induction h generalizing earlier with
  | none => simp at hsplit
  | last first =>
      intro before hbefore
      cases earlier with
      | nil =>
          obtain ⟨rfl, -⟩ := List.cons.inj hsplit
          rwa [List.append_nil]
      | cons => simp at hsplit
  | cons stay follow ih =>
      intro before hbefore
      cases earlier with
      | nil =>
          obtain ⟨rfl, -⟩ := List.cons.inj hsplit
          rwa [List.append_nil]
      | cons first earlier =>
          obtain ⟨rfl, hrest⟩ := List.cons.inj hsplit
          have hnext := hstep _ List.mem_cons_self before hbefore
          have hlater :=
            ih (fun other hmem => hstep other (List.mem_cons_of_mem _ hmem)) hrest _ hnext
          rwa [List.append_assoc, List.singleton_append] at hlater

/-- How a run ends after its last wait: the watchdog finds the link down or, the session
gone, just leaves. In either case nothing more is seen and no check is made. -/
inductive Over : List Event → Prop where
  | onDuty : Over []
  | linkDown (dropped : List Message) : Over [.polled false, .stopped dropped]
  | sessionGone (dropped : List Message) : Over [.stopped dropped]

/-- A run consists of its waits. -/
theorem exists_run_eq (watchdog : Watchdog) (turns : List TimedTurn) :
    ∃ ending, Over ending ∧ watchdog.run false (turns.map (·.toTurn)) =
      (vigils watchdog turns).flatMap Vigil.events ++ ending := by
  induction turns generalizing watchdog with
  | nil => exact ⟨[], .onDuty, rfl⟩
  | cons turn rest ih =>
      rw [List.map_cons]
      cases hup : turn.linkUp with
      | false =>
          rw [vigils_of_down hup, run_linkDown hup]
          exact ⟨_, .linkDown _, rfl⟩
      | true =>
          cases hreaction : (watchdog.wake turn.wakeup).2 with
          | stay =>
              obtain ⟨ending, hover, hrun⟩ := ih (watchdog.wake turn.wakeup).1
              refine ⟨ending, hover, ?_⟩
              rw [vigils_of_stay hup hreaction, run_stay hup hreaction, hrun]
              simp [Vigil.events, Vigil.reaction, hreaction]
          | hangUp complaint =>
              refine ⟨closing (rest.map (·.toTurn)), .linkDown _, ?_⟩
              rw [vigils_of_done hup (by simp [hreaction]), run_hangUp hup hreaction]
              simp [Vigil.events, Vigil.reaction, hreaction, Vigil.next]
          | leave =>
              have hgone := leave_iff.mp hreaction
              refine ⟨_, .sessionGone ((taken (rest.map (·.toTurn))).map Prod.fst), ?_⟩
              rw [vigils_of_done hup (by simp [hreaction]), run_sessionGone hup hgone]
              simp [Vigil.events, Vigil.reaction, Turn.events, hgone, Event.ofWakeup, wake]

/-! ## The next check -/

theorem lastTick_append_singleton :
    lastTick start (vs ++ [vigil]) = vigil.tick?.getD (lastTick start vs) := by
  unfold lastTick
  rw [List.filterMap_append]
  cases htick : vigil.tick? <;> simp [htick]

theorem Vigil.tick?_eq_some_iff {now : Nat} :
    vigil.tick? = some now ↔ vigil.turn.wakeup = .timeout now := by
  unfold tick?
  cases vigil.turn.wakeup <;> simp

theorem Vigil.tick?_of_message {message : Message}
    (h : vigil.turn.wakeup.message? = some message) : vigil.tick? = none := by
  unfold tick?
  cases hwakeup : vigil.turn.wakeup with
  | timeout now => simp [Wakeup.message?, hwakeup] at h
  | _ => rfl

theorem Vigil.nextTick_of_tick {now : Nat} (h : vigil.tick? = some now) :
    vigil.next.nextTick = max vigil.watchdog.nextTick now + vigil.watchdog.interval := by
  simp [next, wake, tick?_eq_some_iff.mp h]

theorem Vigil.nextTick_of_none (h : vigil.tick? = none) :
    vigil.next.nextTick = vigil.watchdog.nextTick := by
  cases hwakeup : vigil.turn.wakeup with
  | timeout now => simp [tick?_eq_some_iff.mpr hwakeup] at h
  | _ => simp [next, wake, hwakeup]

theorem Vigil.interval_next : vigil.next.interval = vigil.watchdog.interval := by
  unfold next
  cases vigil.turn.wakeup <;> rfl

/-- A check is made no earlier than it is due. -/
theorem Vigil.Lasts.due (h : vigil.Lasts) {now : Nat} (htick : vigil.tick? = some now) :
    vigil.watchdog.nextTick ≤ now := by
  have hnow := h now htick
  unfold asked wait at hnow
  omega

/-- The next check of a watchdog is due one interval after the last one so far. -/
structure Due (interval start : Nat) (earlier : List Vigil) (watchdog : Watchdog) : Prop where
  nextTick_eq : watchdog.nextTick = lastTick start earlier + interval
  interval_eq : watchdog.interval = interval

variable {earlier later : List Vigil}

theorem Due.next (h : Due interval start earlier vigil.watchdog) (hlasts : vigil.Lasts) :
    Due interval start (earlier ++ [vigil]) vigil.next where
  nextTick_eq := by
    rw [lastTick_append_singleton]
    cases htick : vigil.tick? with
    | none => exact (vigil.nextTick_of_none htick).trans h.nextTick_eq
    | some now =>
        rw [vigil.nextTick_of_tick htick, max_eq_right (hlasts.due htick), h.interval_eq]
        rfl
  interval_eq := vigil.interval_next.trans h.interval_eq

theorem due_at (hlasts : ∀ vigil ∈ vigils (.start interval timeout start) turns, vigil.Lasts)
    (hsplit : vigils (.start interval timeout start) turns = earlier ++ vigil :: later) :
    Due interval start earlier vigil.watchdog :=
  (follow_vigils _ turns).invariant (P := Due interval start) ⟨rfl, rfl⟩
    (fun vigil hmem _ hdue => hdue.next (hlasts vigil hmem)) hsplit

/-! ## Waits in order of time -/

/-- The times that are read at the start and in some waits, in the order of reading. -/
def readings (start : Nat) (vigils : List Vigil) : List Nat :=
  start :: vigils.flatMap Vigil.readings

theorem Vigil.mem_readings_of_tick {now : Nat} (h : vigil.tick? = some now) :
    now ∈ vigil.readings := by
  simp [readings, tick?_eq_some_iff.mp h]

theorem Vigil.begun_mem_readings : vigil.turn.begun ∈ vigil.readings := by
  unfold readings
  cases vigil.turn.wakeup <;> exact List.mem_cons_self

theorem lastTick_mem_readings (start : Nat) (vs : List Vigil) :
    lastTick start vs ∈ readings start vs := by
  unfold lastTick readings
  cases hlast : (vs.filterMap Vigil.tick?).getLast? with
  | none => exact List.mem_cons_self
  | some now =>
      obtain ⟨vigil, hmem, htick⟩ := List.mem_filterMap.mp (List.mem_of_getLast? hlast)
      exact List.mem_cons_of_mem _
        (List.mem_flatMap.mpr ⟨vigil, hmem, vigil.mem_readings_of_tick htick⟩)

/-- On a clock that never goes back, a wait begins no earlier than the last check. -/
theorem lastTick_le_begun (hclock : (readings start (earlier ++ vigil :: later)).Pairwise (· ≤ ·)) :
    lastTick start earlier ≤ vigil.turn.begun := by
  have hsplit : readings start (earlier ++ vigil :: later) =
      readings start earlier ++ (vigil.readings ++ later.flatMap Vigil.readings) := by
    simp [readings]
  rw [hsplit, List.pairwise_append] at hclock
  exact hclock.2.2 _ (lastTick_mem_readings start earlier) _
    (List.mem_append_left _ vigil.begun_mem_readings)

/-! ## Silence -/

/-- The messages that are taken in some waits, each with its time. -/
def heard (vigils : List Vigil) : List (Message × Nat) := taken (vigils.map (·.turn.toTurn))

theorem heard_append (first last : List Vigil) :
    heard (first ++ last) = heard first ++ heard last := by
  simp [heard, taken]

theorem heard_of_quiet (h : ∀ vigil ∈ vs, vigil.turn.wakeup.message? = none) : heard vs = [] := by
  unfold heard taken
  rw [List.filterMap_map, List.filterMap_eq_nil_iff]
  intro vigil hmem
  have hnone := h vigil hmem
  unfold Wakeup.message? at hnone
  unfold Function.comp Turn.entry?
  cases hwakeup : vigil.turn.wakeup <;> simp_all

/-- A watchdog knows what was heard before its wait. -/
theorem state_eq
    (hsplit : vigils (.start interval timeout start) turns = earlier ++ vigil :: later) :
    vigil.watchdog.state = StallState.after timeout (heard earlier) := by
  refine (follow_vigils _ turns).invariant
    (P := fun earlier watchdog => watchdog.state = StallState.after timeout (heard earlier))
    rfl ?_ hsplit
  intro vigil _ earlier hknows
  have hnext : Knows timeout (earlier.map (·.turn.toTurn) ++ [vigil.turn.toTurn]) vigil.next :=
    Knows.next hknows
  rwa [heard, List.map_append]

theorem Vigil.reaction_of_tick {now : Nat} (h : vigil.tick? = some now) :
    vigil.reaction =
      if vigil.watchdog.state.check now = .disconnect then .hangUp .silence else .stay := by
  simp [reaction, wake, tick?_eq_some_iff.mp h]

/-- At a check while something is unanswered, only the time since the last message counts. -/
theorem reaction_of_quiet {quiet : List Vigil} {expectation : Expectation} {seen now : Nat}
    (hsplit : vigils (.start interval timeout start) turns = (earlier ++ quiet) ++ vigil :: later)
    (hquiet : ∀ vigil ∈ quiet, vigil.turn.wakeup.message? = none)
    (hopen : Unanswered ((heard earlier).map Prod.fst) expectation)
    (hseen : (heard earlier).getLast?.map Prod.snd = some seen) (htick : vigil.tick? = some now) :
    vigil.reaction = if seen + timeout ≤ now then .hangUp .silence else .stay := by
  have hstate : vigil.watchdog.state = StallState.after timeout (heard earlier) := by
    rw [state_eq hsplit, heard_append, heard_of_quiet hquiet, List.append_nil]
  have hcheck : vigil.watchdog.state.check now = .disconnect ↔ seen + timeout ≤ now := by
    rw [hstate, StallState.check_after_eq_disconnect_iff, hseen]
    constructor
    · rintro ⟨-, last, hlast, hoverdue⟩
      obtain rfl := Option.some.inj hlast
      exact hoverdue
    · intro hoverdue
      exact ⟨⟨expectation, hopen⟩, seen, rfl, hoverdue⟩
  rw [vigil.reaction_of_tick htick]
  simp only [hcheck]

/-! ## The whole run -/

/-- The order that checks keep in a run, wait by wait. -/
structure Cadence (interval timeout start : Nat) (vs : List Vigil) : Prop where
  /-- No check is made before it is due. -/
  due : ∀ vigil ∈ vs, ∀ now, vigil.tick? = some now → vigil.watchdog.nextTick ≤ now
  /-- However late the others were, a check comes an interval or more after the last one. -/
  spaced : ∀ earlier vigil later now, vs = earlier ++ vigil :: later → vigil.tick? = some now →
    lastTick start earlier + interval ≤ now
  /-- Before and after every wait, the next check is due an interval after the last one. -/
  nextTick_eq : ∀ earlier vigil later, vs = earlier ++ vigil :: later →
    vigil.watchdog.nextTick = lastTick start earlier + interval ∧
      vigil.next.nextTick = lastTick start (earlier ++ [vigil]) + interval
  unmoved : ∀ vigil ∈ vs, ∀ message, vigil.turn.wakeup.message? = some message →
    vigil.next.nextTick = vigil.watchdog.nextTick
  asked_le : ∀ vigil ∈ vs, vigil.asked ≤ interval
  /-- Where something is unanswered and no message comes any more, the watchdog hangs up
  at a check just if the last message is a timeout or more ago. -/
  silence : ∀ earlier later expectation seen, vs = earlier ++ later →
    (∀ vigil ∈ later, vigil.turn.wakeup.message? = none) →
    Unanswered ((heard earlier).map Prod.fst) expectation →
    (heard earlier).getLast?.map Prod.snd = some seen →
    ∀ vigil ∈ later, ∀ now, vigil.tick? = some now →
      vigil.reaction = if seen + timeout ≤ now then .hangUp .silence else .stay
  /-- The first reason to stop ends the run. -/
  last : ∀ earlier vigil later, vs = earlier ++ vigil :: later → vigil.reaction ≠ .stay → later = []

/-- On a clock that never goes back, and if no wait is cut short, checks are never early
and never closer than an interval, and the next one is always due an interval after the
last. So the watchdog never asks to wait for longer than that, and gives up a silent
peer at the first check that comes a timeout or more after its last message. -/
theorem checks_keep_time (interval timeout start : Nat) (turns : List TimedTurn)
    (hclock : (readings start (vigils (.start interval timeout start) turns)).Pairwise (· ≤ ·))
    (hlasts : ∀ vigil ∈ vigils (.start interval timeout start) turns, vigil.Lasts) :
    Cadence interval timeout start (vigils (.start interval timeout start) turns) ∧
      ∃ ending, Over ending ∧ (Watchdog.start interval timeout start).run false
          (turns.map (·.toTurn)) =
        (vigils (.start interval timeout start) turns).flatMap Vigil.events ++ ending := by
  refine ⟨?_, exists_run_eq _ turns⟩
  constructor
  case due =>
    intro vigil hmem now htick
    exact (hlasts vigil hmem).due htick
  case spaced =>
    intro earlier vigil later now hsplit htick
    rw [← (due_at hlasts hsplit).nextTick_eq]
    exact (hlasts vigil (by simp [hsplit])).due htick
  case nextTick_eq =>
    intro earlier vigil later hsplit
    have hdue := due_at hlasts hsplit
    exact ⟨hdue.nextTick_eq, (hdue.next (hlasts vigil (by simp [hsplit]))).nextTick_eq⟩
  case unmoved =>
    intro vigil _ message hmessage
    exact vigil.nextTick_of_none (vigil.tick?_of_message hmessage)
  case asked_le =>
    intro vigil hmem
    obtain ⟨earlier, later, hsplit⟩ := List.append_of_mem hmem
    have hnext := (due_at hlasts hsplit).nextTick_eq
    rw [hsplit] at hclock
    have hbegun := lastTick_le_begun hclock
    unfold Vigil.asked wait
    omega
  case silence =>
    intro earlier later expectation seen hsplit hquiet hopen hseen vigil hmem now htick
    obtain ⟨quiet, rest, rfl⟩ := List.append_of_mem hmem
    rw [← List.append_assoc] at hsplit
    exact reaction_of_quiet hsplit
      (fun other hother => hquiet other (List.mem_append_left _ hother)) hopen hseen htick
  case last =>
    intro earlier vigil later hsplit hreaction
    by_contra hlater
    exact hreaction ((follow_vigils _ turns).stay hsplit hlater)

/-- A request is left unanswered. The first check is late, and still an interval lies
between it and the second one, at which the watchdog hangs up. -/
theorem checks_keep_time_late :
    let request : Message := .getBlocks ⟨[], .zero, protocolVersion⟩
    let turns : List TimedTurn :=
      [⟨⟨true, .message request 3⟩, 0⟩, ⟨⟨true, .timeout 27⟩, 3⟩, ⟨⟨true, .timeout 38⟩, 28⟩]
    let vs := vigils (.start 10 30 0) turns
    (readings 0 vs).Pairwise (· ≤ ·) ∧ (∀ vigil ∈ vs, vigil.Lasts) ∧
      vs.map Vigil.reaction = [.stay, .stay, .hangUp .silence] ∧ vs.map Vigil.asked = [10, 7, 9] ∧
      Cadence 10 30 0 vs := by
  intro request turns vs
  have hclock : (readings 0 vs).Pairwise (· ≤ ·) := by decide
  have hlasts : ∀ vigil ∈ vs, vigil.Lasts := by decide
  exact ⟨hclock, hlasts, by decide, by decide, (checks_keep_time 10 30 0 turns hclock hlasts).1⟩

end Watchdog

end LightPeer
