import LightPeer.Proofs.Stall.Unanswered

/-! # When the watchdog hangs up

A watchdog stays on duty as long as the link is up, the session is there and
the peer gives no cause for complaint. The first turn at which one of these
fails decides how the run ends, and a run that ends looks at no message more. -/

namespace LightPeer

namespace Watchdog

/-- The message that ends a wait, with the time at which it is taken. -/
def Turn.entry? (turn : Turn) : Option (Message × Nat) :=
  match turn.wakeup with
  | .message message now => some (message, now)
  | _ => none

/-- The messages that the turns take from the channel, each with its time. -/
def taken (turns : List Turn) : List (Message × Nat) := turns.filterMap Turn.entry?

/-- The cause that a wakeup gives for a complaint, after the turns before it. -/
inductive Complains (timeout : Nat) (before : List Turn) : Wakeup → Complaint → Prop where
  | notFound {items : List Inv} {now : Nat} :
      Complains timeout before (.message (.notFound items) now) .notFound
  /-- Something is unanswered, and the last message came a timeout ago or earlier. -/
  | silence {now seen : Nat} {expectation : Expectation}
      (unanswered : Unanswered ((taken before).map Prod.fst) expectation)
      (last : (taken before).getLast?.map Prod.snd = some seen) (overdue : seen + timeout ≤ now) :
      Complains timeout before (.timeout now) .silence

/-- A turn that gives the watchdog no reason to stop. -/
structure Calm (timeout : Nat) (before : List Turn) (turn : Turn) : Prop where
  linkUp : turn.linkUp = true
  attended : turn.wakeup ≠ .sessionGone
  content : ∀ complaint, ¬ Complains timeout before turn.wakeup complaint

/-- Every turn is calm after those before it. -/
def OnDuty (timeout : Nat) (turns : List Turn) : Prop :=
  ∀ before turn after, turns = before ++ turn :: after → Calm timeout before turn

/-- What happens at a turn on duty. -/
def Turn.events (turn : Turn) : List Event := [.polled true, .ofWakeup turn.wakeup]

/-- What happens once the watchdog has hung up: it finds the link down, and drops
what is still in the channel. -/
def closing (turns : List Turn) : List Event :=
  [.polled false, .stopped ((taken turns).map Prod.fst)]

/-- The messages that were taken from the channel in the end, and not seen. -/
def dropped (events : List Event) : List Message :=
  events.flatMap fun | .stopped messages => messages | _ => []

/-- How a run goes on after calm turns, if it goes on. -/
inductive Ending (timeout : Nat) (calm : List Turn) : List Turn → List Event → Prop where
  | onDuty : Ending timeout calm [] []
  | linkDown {turn : Turn} {rest : List Turn} (down : turn.linkUp = false) :
      Ending timeout calm (turn :: rest)
        [.polled false, .stopped ((taken (turn :: rest)).map Prod.fst)]
  | sessionGone {turn : Turn} {rest : List Turn} (up : turn.linkUp = true)
      (gone : turn.wakeup = .sessionGone) :
      Ending timeout calm (turn :: rest)
        [.polled true, .sessionLeft, .stopped ((taken rest).map Prod.fst)]
  | hungUp {turn : Turn} {rest : List Turn} {complaint : Complaint} {pending : Nat}
      (up : turn.linkUp = true) (cause : Complains timeout calm turn.wakeup complaint)
      (size_eq : {expectation | Unanswered ((taken calm).map Prod.fst) expectation}.encard = pending) :
      Ending timeout calm (turn :: rest)
        (turn.events ++ .hungUp complaint pending :: closing rest)

variable {timeout : Nat} {before calm turns : List Turn} {turn : Turn}

/-! ## One turn -/

theorem taken_append (turns more : List Turn) : taken (turns ++ more) = taken turns ++ taken more :=
  List.filterMap_append

theorem taken_cons (turn : Turn) (turns : List Turn) :
    taken (turn :: turns) = turn.entry?.toList ++ taken turns := by
  unfold taken
  cases hentry : turn.entry? <;> simp [hentry]

theorem taken_append_singleton : taken (turns ++ [turn]) = taken turns ++ turn.entry?.toList := by
  have hnil : taken [] = [] := rfl
  rw [taken_append, taken_cons, hnil, List.append_nil]

/-- The turns hold the messages that they would take. -/
theorem held_eq (turns : List Turn) : held turns = (taken turns).map Prod.fst := by
  unfold held taken
  rw [List.map_filterMap]
  congr
  funext turn
  cases hwakeup : turn.wakeup <;> simp [Wakeup.message?, Turn.entry?, hwakeup]

/-- A watchdog that was on duty at some turns knows what they took from the channel. -/
def Knows (timeout : Nat) (before : List Turn) (watchdog : Watchdog) : Prop :=
  watchdog.state = StallState.after timeout (taken before)

theorem Knows.next {watchdog : Watchdog} (h : Knows timeout before watchdog) :
    Knows timeout (before ++ [turn]) (watchdog.wake turn.wakeup).1 := by
  unfold Knows at h ⊢
  rw [taken_append_singleton]
  cases hwakeup : turn.wakeup with
  | message message now =>
      have hentry : turn.entry? = some (message, now) := by simp [Turn.entry?, hwakeup]
      rw [hentry, Option.toList_some, StallState.after_append_singleton, ← h]
      rfl
  | _ =>
      have hentry : turn.entry? = none := by simp [Turn.entry?, hwakeup]
      rw [hentry, Option.toList_none, List.append_nil]
      exact h

theorem complains_notFound_iff {message : Message} {now : Nat} {complaint : Complaint} :
    Complains timeout before (.message message now) complaint ↔
      StallState.judge message = .disconnect ∧ complaint = .notFound := by
  rw [StallState.judge_eq_disconnect_iff]
  constructor
  · rintro ⟨⟩
    exact ⟨⟨_, rfl⟩, rfl⟩
  · rintro ⟨⟨items, rfl⟩, rfl⟩
    exact .notFound

theorem complains_silence_iff {now : Nat} {complaint : Complaint} :
    Complains timeout before (.timeout now) complaint ↔
      (StallState.after timeout (taken before)).check now = .disconnect ∧ complaint = .silence := by
  rw [StallState.check_after_eq_disconnect_iff]
  constructor
  · rintro ⟨⟩
    rename_i seen expectation unanswered last overdue
    exact ⟨⟨⟨expectation, unanswered⟩, seen, last, overdue⟩, rfl⟩
  · rintro ⟨⟨⟨expectation, unanswered⟩, seen, last, overdue⟩, rfl⟩
    exact .silence unanswered last overdue

/-- The watchdog hangs up over exactly what is a cause for complaint. -/
theorem Knows.hangUp_iff {watchdog : Watchdog} (h : Knows timeout before watchdog)
    {wakeup : Wakeup} {complaint : Complaint} :
    (watchdog.wake wakeup).2 = .hangUp complaint ↔ Complains timeout before wakeup complaint := by
  cases wakeup with
  | message message now =>
      rw [complains_notFound_iff]
      by_cases hbad : StallState.judge message = .disconnect
      · simp [wake, StallState.observe, hbad, eq_comm]
      · simp [wake, StallState.observe, hbad]
  | timeout now =>
      rw [complains_silence_iff, ← h]
      by_cases hoverdue : watchdog.state.check now = .disconnect
      · simp [wake, hoverdue, eq_comm]
      · simp [wake, hoverdue]
  | sessionGone =>
      constructor
      · intro hhangUp
        cases hhangUp
      · intro hcomplains
        cases hcomplains

theorem leave_iff {watchdog : Watchdog} {wakeup : Wakeup} :
    (watchdog.wake wakeup).2 = .leave ↔ wakeup = .sessionGone := by
  cases wakeup with
  | message message now =>
      by_cases hbad : StallState.judge message = .disconnect
      · simp [wake, StallState.observe, hbad]
      · simp [wake, StallState.observe, hbad]
  | timeout now =>
      by_cases hoverdue : watchdog.state.check now = .disconnect
      · simp [wake, hoverdue]
      · simp [wake, hoverdue]
  | sessionGone => simp [wake]

/-! ## A run, turn by turn -/

theorem run_stay {watchdog : Watchdog} (hup : turn.linkUp = true)
    (hstay : (watchdog.wake turn.wakeup).2 = .stay) (rest : List Turn) :
    watchdog.run false (turn :: rest) =
      turn.events ++ (watchdog.wake turn.wakeup).1.run false rest := by
  simp [run, hup, hstay, Turn.events]

theorem run_hungUp (watchdog : Watchdog) (rest : List Turn) :
    watchdog.run true rest = closing rest := by
  cases rest with
  | nil => rfl
  | cons turn rest => simp [run, closing, held_eq]

theorem run_hangUp {watchdog : Watchdog} {complaint : Complaint} (hup : turn.linkUp = true)
    (hhangUp : (watchdog.wake turn.wakeup).2 = .hangUp complaint) (rest : List Turn) :
    watchdog.run false (turn :: rest) = turn.events ++
      .hungUp complaint (watchdog.wake turn.wakeup).1.state.pending.size :: closing rest := by
  simp [run, hup, hhangUp, Turn.events, run_hungUp]

theorem run_sessionGone {watchdog : Watchdog} (hup : turn.linkUp = true)
    (hgone : turn.wakeup = .sessionGone) (rest : List Turn) :
    watchdog.run false (turn :: rest) =
      [.polled true, .sessionLeft, .stopped ((taken rest).map Prod.fst)] := by
  simp [run, hup, hgone, wake, Event.ofWakeup, held_eq]

theorem run_linkDown {watchdog : Watchdog} (hdown : turn.linkUp = false) (rest : List Turn) :
    watchdog.run false (turn :: rest) =
      [.polled false, .stopped ((taken (turn :: rest)).map Prod.fst)] := by
  simp [run, hdown, held_eq]

/-! ## Calm turns, and the turn that ends them -/

theorem Knows.run_calm {watchdog : Watchdog} (h : Knows timeout before watchdog)
    (hcalm : Calm timeout before turn) (rest : List Turn) :
    watchdog.run false (turn :: rest) =
      turn.events ++ (watchdog.wake turn.wakeup).1.run false rest := by
  refine run_stay hcalm.linkUp ?_ rest
  cases hreaction : (watchdog.wake turn.wakeup).2 with
  | stay => rfl
  | hangUp complaint => exact absurd (h.hangUp_iff.mp hreaction) (hcalm.content complaint)
  | leave => exact absurd (leave_iff.mp hreaction) hcalm.attended

theorem Knows.run_hangUp {watchdog : Watchdog} (h : Knows timeout before watchdog)
    (hup : turn.linkUp = true) {complaint : Complaint}
    (hcause : Complains timeout before turn.wakeup complaint) (rest : List Turn) :
    watchdog.run false (turn :: rest) = turn.events ++
      .hungUp complaint (watchdog.wake turn.wakeup).1.state.pending.size :: closing rest :=
  Watchdog.run_hangUp hup (h.hangUp_iff.mpr hcause) rest

/-- A cause for complaint asks for nothing and answers nothing. -/
theorem Knows.pending_eq {watchdog : Watchdog} (h : Knows timeout before watchdog)
    {wakeup : Wakeup} {complaint : Complaint} (hcause : Complains timeout before wakeup complaint) :
    (watchdog.wake wakeup).1.state.pending =
      (StallState.after timeout (taken before)).pending := by
  rw [← h]
  cases hcause with
  | notFound => rfl
  | silence => rfl

/-- A turn that is not calm, or none, ends the run. -/
theorem Knows.ending {watchdog : Watchdog} (h : Knows timeout before watchdog) (rest : List Turn)
    (hfirst : ∀ turn later, rest = turn :: later → ¬ Calm timeout before turn) :
    Ending timeout before rest (watchdog.run false rest) := by
  cases rest with
  | nil => exact .onDuty
  | cons turn rest =>
      by_cases hup : turn.linkUp = true
      · cases hreaction : (watchdog.wake turn.wakeup).2 with
        | stay =>
            refine absurd ⟨hup, ?_, ?_⟩ (hfirst turn rest rfl)
            · intro hgone
              rw [leave_iff.mpr hgone] at hreaction
              exact nomatch hreaction
            · intro complaint hcause
              rw [h.hangUp_iff.mpr hcause] at hreaction
              exact nomatch hreaction
        | hangUp complaint =>
            have hcause := h.hangUp_iff.mp hreaction
            rw [h.run_hangUp hup hcause]
            refine .hungUp hup hcause ?_
            rw [h.pending_eq hcause]
            exact StallState.encard_unanswered timeout (taken before)
        | leave =>
            have hgone := leave_iff.mp hreaction
            rw [run_sessionGone hup hgone]
            exact .sessionGone hup hgone
      · have hdown : turn.linkUp = false := by simpa using hup
        rw [run_linkDown hdown]
        exact .linkDown hdown

theorem onDuty_append_singleton :
    OnDuty timeout (turns ++ [turn]) ↔ OnDuty timeout turns ∧ Calm timeout turns turn := by
  constructor
  · intro h
    refine ⟨?_, h turns turn [] rfl⟩
    rintro before other after rfl
    exact h before other (after ++ [turn]) (by simp)
  · rintro ⟨hduty, hcalm⟩ before other after heq
    rcases append_singleton_eq_iff.mp heq with ⟨rfl, rfl, rfl⟩ | ⟨between, hsplit, rfl⟩
    · exact hcalm
    · exact hduty before other between hsplit

/-- A run through calm turns leaves a watchdog that knows what they took, and goes on as that one does. -/
theorem OnDuty.run (h : OnDuty timeout calm) (interval now : Nat) :
    ∃ watchdog, Knows timeout calm watchdog ∧ ∀ rest,
      (start interval timeout now).run false (calm ++ rest) =
        calm.flatMap Turn.events ++ watchdog.run false rest := by
  induction calm using List.reverseRecOn with
  | nil => exact ⟨start interval timeout now, rfl, fun rest => rfl⟩
  | append_singleton calm turn ih =>
      obtain ⟨hduty, hcalm⟩ := onDuty_append_singleton.mp h
      obtain ⟨watchdog, hknows, hrun⟩ := ih hduty
      refine ⟨(watchdog.wake turn.wakeup).1, hknows.next, ?_⟩
      intro rest
      rw [List.append_assoc, List.singleton_append, hrun, hknows.run_calm hcalm]
      simp

/-- The turns up to the first one that is not calm. -/
theorem exists_onDuty (timeout : Nat) (turns : List Turn) :
    ∃ calm rest, turns = calm ++ rest ∧ OnDuty timeout calm ∧
      ∀ turn later, rest = turn :: later → ¬ Calm timeout calm turn := by
  induction turns using List.reverseRecOn with
  | nil => exact ⟨[], [], rfl, by simp [OnDuty], by simp⟩
  | append_singleton turns turn ih =>
      obtain ⟨calm, rest, rfl, hduty, hfirst⟩ := ih
      cases rest with
      | nil =>
          rw [List.append_nil]
          by_cases hcalm : Calm timeout calm turn
          · refine ⟨calm ++ [turn], [], by simp, ?_, by simp⟩
            exact onDuty_append_singleton.mpr ⟨hduty, hcalm⟩
          · exact ⟨calm, [turn], rfl, hduty, by simpa using hcalm⟩
      | cons first rest =>
          refine ⟨calm, first :: rest ++ [turn], by simp, hduty, ?_⟩
          rintro _ _ ⟨⟩
          exact hfirst first rest rfl

/-! ## The whole run -/

theorem hangUps_append (events more : List Event) :
    hangUps (events ++ more) = hangUps events + hangUps more := List.countP_append

theorem hangUps_events (turns : List Turn) : hangUps (turns.flatMap Turn.events) = 0 := by
  induction turns with
  | nil => rfl
  | cons turn turns ih =>
      rw [List.flatMap_cons, hangUps_append, ih]
      cases hwakeup : turn.wakeup <;> simp [Turn.events, hangUps, Event.ofWakeup, hwakeup]

theorem hangUps_closing (rest : List Turn) : hangUps (closing rest) = 0 := rfl

theorem hangUps_hungUp (complaint : Complaint) (pending : Nat) (rest : List Turn) :
    hangUps (turn.events ++ .hungUp complaint pending :: closing rest) = 1 := by
  have hevents : hangUps turn.events = 0 := by simpa using hangUps_events [turn]
  have hclosing := hangUps_closing rest
  unfold hangUps at hevents hclosing ⊢
  rw [List.countP_append, hevents, List.countP_cons_of_pos rfl, hclosing]

theorem Ending.hangUps_cases {rest : List Turn} {ending : List Event}
    (h : Ending timeout calm rest ending) :
    hangUps ending = 0 ∨ hangUps ending = 1 ∧ ∃ turn later complaint, rest = turn :: later ∧
      turn.linkUp = true ∧ Complains timeout calm turn.wakeup complaint := by
  cases h with
  | hungUp up cause size_eq => exact .inr ⟨hangUps_hungUp _ _ _, _, _, _, rfl, up, cause⟩
  | _ => exact .inl rfl

/-! ## The messages of a run -/

theorem seen_append (events more : List Event) :
    seen (events ++ more) = seen events ++ seen more := List.filterMap_append

theorem dropped_append (events more : List Event) :
    dropped (events ++ more) = dropped events ++ dropped more := List.flatMap_append

/-- At a turn on duty, the message that it takes is seen, and none is dropped. -/
theorem seen_events (turn : Turn) : seen turn.events = turn.entry?.toList.map Prod.fst := by
  cases hwakeup : turn.wakeup <;> simp [Turn.events, seen, Event.ofWakeup, Turn.entry?, hwakeup]

theorem dropped_events (turn : Turn) : dropped turn.events = [] := by
  cases hwakeup : turn.wakeup <;> simp [Turn.events, dropped, Event.ofWakeup, hwakeup]

theorem seen_flatMap_events (turns : List Turn) :
    seen (turns.flatMap Turn.events) = (taken turns).map Prod.fst := by
  induction turns with
  | nil => rfl
  | cons turn turns ih =>
      rw [List.flatMap_cons, seen_append, seen_events, ih, taken_cons, List.map_append]

theorem dropped_flatMap_events (turns : List Turn) :
    dropped (turns.flatMap Turn.events) = [] := by
  induction turns with
  | nil => rfl
  | cons turn turns ih => rw [List.flatMap_cons, dropped_append, dropped_events, ih, List.append_nil]

/-- An ending leaves no message in the channel. -/
theorem Ending.drains {rest : List Turn} {ending : List Event}
    (h : Ending timeout calm rest ending) :
    seen ending ++ dropped ending = (taken rest).map Prod.fst := by
  cases h with
  | onDuty => rfl
  | linkDown => simp [seen, dropped]
  | @sessionGone turn rest up gone => simp [seen, dropped, taken_cons, Turn.entry?, gone]
  | @hungUp turn rest complaint pending up cause size_eq =>
      rw [seen_append, dropped_append, seen_events, dropped_events, taken_cons, List.map_append]
      simp [seen, dropped, closing]

/-- The watchdog hangs up at most once, and exactly at the first turn that gives
cause for complaint, if no turn before found the link down or the session gone.
A run is over at the first turn that is not calm. Every message is taken from the
channel, in order: those that are not seen are dropped when the run stops. -/
theorem hangs_up_at_first_cause (interval timeout now : Nat) (turns : List Turn) :
    let events := (start interval timeout now).run false turns
    hangUps events ≤ 1 ∧
      (hangUps events = 1 ↔ ∃ calm turn rest complaint, turns = calm ++ turn :: rest ∧
        OnDuty timeout calm ∧ turn.linkUp = true ∧ Complains timeout calm turn.wakeup complaint) ∧
      (∃ calm rest ending, turns = calm ++ rest ∧ OnDuty timeout calm ∧
        Ending timeout calm rest ending ∧ events = calm.flatMap Turn.events ++ ending) ∧
      seen events ++ dropped events = (taken turns).map Prod.fst := by
  obtain ⟨calm, rest, hsplit, hduty, hfirst⟩ := exists_onDuty timeout turns
  obtain ⟨watchdog, hknows, hrun⟩ := hduty.run interval now
  have hending := hknows.ending rest hfirst
  have hevents := hrun rest
  rw [← hsplit] at hevents
  have hcount : hangUps ((start interval timeout now).run false turns) =
      hangUps (watchdog.run false rest) := by
    rw [hevents, hangUps_append, hangUps_events, Nat.zero_add]
  refine ⟨?_, ⟨?_, ?_⟩, ⟨calm, rest, _, hsplit, hduty, hending, hevents⟩, ?_⟩
  · rw [hcount]
    rcases hending.hangUps_cases with hzero | ⟨hone, -⟩ <;> omega
  · intro hone
    rw [hcount] at hone
    rcases hending.hangUps_cases with hzero | ⟨-, turn, later, complaint, rfl, hup, hcause⟩
    · omega
    · exact ⟨calm, turn, later, complaint, hsplit, hduty, hup, hcause⟩
  · rintro ⟨calm, turn, rest, complaint, rfl, hduty, hup, hcause⟩
    obtain ⟨watchdog, hknows, hrun⟩ := hduty.run interval now
    rw [hrun, hangUps_append, hangUps_events, hknows.run_hangUp hup hcause, hangUps_hungUp]
  · rw [hevents, seen_append, dropped_append, seen_flatMap_events, dropped_flatMap_events,
      List.nil_append, List.append_assoc, hending.drains, hsplit, taken_append, List.map_append]

end Watchdog

end LightPeer
