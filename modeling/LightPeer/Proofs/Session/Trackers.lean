import LightPeer.Proofs.Download.Lifecycle
import LightPeer.Proofs.Session.History

/-! # Trackers keep to themselves

Whoever holds on to a tracker goes on working with it when another one is current. Each
tracker starts with its own block and is changed by what is done with it and by nothing
else: not by work on another tracker, and not when it is replaced. -/

namespace LightPeer

open Session

namespace Session

/-! ## Deeds -/

namespace Moment

/-- The tracker that becomes the current one: one for a block whose proof is good, or one
without a block when the tracker is reset or a filter is loaded. -/
def installed? (moment : Moment) : Option BlockTracker :=
  match moment.deed with
  | .called .resetTracker | .called (.loadFilter _) => some .empty
  | .called (.track block) => (BlockTracker.ofMerkleBlock block).toOption
  | _ => none

/-- What is done with the tracker of a number. -/
def worked? (id : TrackerId) (moment : Moment) : Option BlockTracker.Op :=
  match moment.deed with
  | .called (.tracker other op) => if other = id then some op else none
  | _ => none

/-- What becomes of the trackers: another one is installed, or one of them is worked
with, or they stay as they are. -/
inductive Shift (moment : Moment) : Prop where
  | installing {tracker : BlockTracker} (installed : moment.installed? = some tracker)
      (idle : ∀ id, moment.worked? id = none)
      (trackers : moment.next.trackers = moment.session.trackers.install tracker)
  | working {id : TrackerId} {op : BlockTracker.Op} (deed : moment.deed = .called (.tracker id op))
      (trackers : moment.next.trackers =
        moment.session.trackers.update id ((moment.session.trackers.get id).apply op).1)
  | resting (same : moment.installed? = none) (idle : ∀ id, moment.worked? id = none)
      (trackers : moment.next.trackers = moment.session.trackers)

theorem shift (moment : Moment) : moment.Shift := by
  obtain ⟨session, deed⟩ := moment
  cases deed with
  | came message =>
      exact .resting rfl (fun _ => rfl) (congrArg Books.trackers (books_came session message))
  | called call =>
      have hbooks := congrArg Books.trackers (books_perform session call)
      cases call with
      | resetTracker => exact .installing rfl (fun _ => rfl) hbooks
      | loadFilter filter => exact .installing rfl (fun _ => rfl) hbooks
      | tracker id op => exact .working rfl hbooks
      | track block =>
          have hinstalled : (⟨session, .called (.track block)⟩ : Moment).installed? =
            (BlockTracker.ofMerkleBlock block).toOption := rfl
          cases hgood : BlockTracker.ofMerkleBlock block with
          | error error =>
              rw [hgood] at hinstalled
              simp only [Books.perform, hgood] at hbooks
              exact .resting hinstalled (fun _ => rfl) hbooks
          | ok tracker =>
              rw [hgood] at hinstalled
              simp only [Books.perform, hgood] at hbooks
              exact .installing hinstalled (fun _ => rfl) hbooks
      | _ => exact .resting rfl (fun _ => rfl) hbooks

variable (moment : Moment)

theorem installed?_of_deed {id : TrackerId} {op : BlockTracker.Op}
    (h : moment.deed = .called (.tracker id op)) : moment.installed? = none := by
  unfold installed?
  rw [h]

theorem worked?_of_deed {id : TrackerId} {op : BlockTracker.Op}
    (h : moment.deed = .called (.tracker id op)) (other : TrackerId) :
    moment.worked? other = if id = other then some op else none := by
  unfold worked?
  rw [h]

theorem length_next : moment.next.trackers.all.length =
    moment.session.trackers.all.length + moment.installed?.toList.length := by
  cases moment.shift with
  | installing installed idle trackers =>
      rw [trackers, installed]
      exact List.length_append
  | working deed trackers =>
      rw [trackers, moment.installed?_of_deed deed]
      exact List.length_set
  | resting same idle trackers =>
      rw [trackers, same]
      rfl

theorem current_next : moment.next.trackers.current =
    if moment.installed?.isSome then moment.session.trackers.all.length
    else moment.session.trackers.current := by
  cases moment.shift with
  | installing installed idle trackers =>
      rw [trackers, installed]
      rfl
  | working deed trackers =>
      rw [trackers, moment.installed?_of_deed deed]
      rfl
  | resting same idle trackers =>
      rw [trackers, same]
      rfl

/-- A tracker that there is already is changed by what is done with it, and by nothing else. -/
theorem get_next {id : TrackerId} (h : id < moment.session.trackers.all.length) :
    moment.next.trackers.get id =
      (moment.session.trackers.get id).after (moment.worked? id).toList := by
  cases moment.shift with
  | installing installed idle trackers =>
      rw [trackers, idle id]
      exact moment.session.trackers.get_install_of_lt _ h
  | @working other op deed trackers =>
      rw [trackers, moment.worked?_of_deed deed]
      by_cases hsame : other = id
      · subst hsame
        rw [if_pos rfl]
        exact moment.session.trackers.get_update_self _ h
      · rw [if_neg hsame]
        exact moment.session.trackers.get_update_of_ne _ hsame
  | resting same idle trackers =>
      rw [trackers, idle id]
      rfl

theorem now_next_of_installed {tracker : BlockTracker} (h : moment.installed? = some tracker) :
    moment.next.trackers.now = tracker := by
  cases moment.shift with
  | installing installed idle trackers =>
      rw [trackers, Trackers.now_install]
      exact Option.some.inj (installed.symm.trans h)
  | working deed trackers => exact nomatch (moment.installed?_of_deed deed).symm.trans h
  | resting same idle trackers => exact nomatch same.symm.trans h

end Moment

/-- What a deed does to the trackers, whoever holds them. -/
structure KeepsApart (moment : Moment) : Prop where
  /-- The current tracker is replaced by a new one, or stays the current one. -/
  current_iff : moment.next.trackers.current ≠ moment.session.trackers.current ↔
    moment.installed?.isSome
  fresh : moment.installed?.isSome →
    moment.next.trackers.current = moment.session.trackers.all.length
  /-- Nothing is carried into the new tracker. -/
  installed : ∀ tracker, moment.installed? = some tracker → moment.next.trackers.now = tracker
  /-- A tracker that is replaced stays as it is, and so do all others. -/
  kept : moment.installed?.isSome → ∀ id < moment.session.trackers.all.length,
    moment.next.trackers.get id = moment.session.trackers.get id
  /-- Work on one tracker changes that one and no other; the session shows it exactly if
  the tracker is the current one. -/
  worked : ∀ id op, moment.deed = .called (.tracker id op) →
    (∀ other, other ≠ id → moment.next.trackers.get other = moment.session.trackers.get other) ∧
      moment.next.trackers.now =
        if id = moment.session.trackers.current then (moment.session.trackers.now.apply op).1
        else moment.session.trackers.now
  /-- A block whose proof is not good is turned down, and leaves no trace. -/
  refused : ∀ block fault, moment.deed = .called (.track block) → block.matched = .error fault →
    moment.next = moment.session ∧
      (moment.session.track block).2 = .error (.invalidMerkleBlock fault.message)
  others : moment.installed? = none → (∀ id op, moment.deed ≠ .called (.tracker id op)) →
    moment.next.trackers = moment.session.trackers

theorem keeps_apart (moment : Moment) : KeepsApart moment where
  current_iff := by
    have hlt := moment.session.trackers.current_lt
    rw [moment.current_next]
    by_cases hinstalled : moment.installed?.isSome
    · rw [if_pos hinstalled]
      exact iff_of_true (Nat.ne_of_gt hlt) hinstalled
    · rw [if_neg hinstalled]
      exact iff_of_false (not_not_intro rfl) hinstalled
  fresh hinstalled := by rw [moment.current_next, if_pos hinstalled]
  installed _ := moment.now_next_of_installed
  kept hinstalled id hid := by
    have hidle : moment.worked? id = none := by
      cases moment.shift with
      | installing installed idle trackers => exact idle id
      | working deed trackers =>
          rw [moment.installed?_of_deed deed] at hinstalled
          exact nomatch hinstalled
      | resting same idle trackers => exact idle id
    rw [moment.get_next hid, hidle]
    rfl
  worked id op hdeed := by
    have htrackers : moment.next.trackers =
        moment.session.trackers.update id ((moment.session.trackers.get id).apply op).1 := by
      obtain ⟨session, deed⟩ := moment
      subst hdeed
      rfl
    rw [htrackers]
    refine ⟨fun other hother => Trackers.get_update_of_ne _ _ hother.symm, ?_⟩
    by_cases hcurrent : id = moment.session.trackers.current
    · rw [if_pos hcurrent, hcurrent]
      exact Trackers.now_update_current _ _
    · rw [if_neg hcurrent]
      exact Trackers.get_update_of_ne _ _ hcurrent
  refused block fault hdeed hmatched := by
    obtain ⟨session, deed⟩ := moment
    subst hdeed
    have htrack := track_of_error session hmatched
    exact ⟨congrArg Prod.fst htrack, congrArg Prod.snd htrack⟩
  others hsame hidle := by
    cases moment.shift with
    | installing installed idle trackers => exact nomatch hsame.symm.trans installed
    | working deed trackers => exact absurd deed (hidle _ _)
    | resting same idle trackers => exact trackers

/-! ## Runs -/

/-- The trackers that became the current one, the first one first. -/
def installed (course : List Moment) : List BlockTracker := course.filterMap Moment.installed?

/-- What was done with the tracker of a number, in its order. -/
def worked (id : TrackerId) (course : List Moment) : List BlockTracker.Op :=
  course.filterMap (Moment.worked? id)

variable {history : List Moment} {session : Session}

theorem installed_append (history course : List Moment) :
    installed (history ++ course) = installed history ++ installed course :=
  List.filterMap_append

theorem installed_append_singleton (history : List Moment) (moment : Moment) :
    installed (history ++ [moment]) = installed history ++ moment.installed?.toList :=
  installed_append history [moment]

theorem worked_append_singleton (id : TrackerId) (history : List Moment) (moment : Moment) :
    worked id (history ++ [moment]) = worked id history ++ (moment.worked? id).toList :=
  List.filterMap_append

theorem exists_installed_iff {course : List Moment} :
    (∃ moment ∈ course, moment.installed?.isSome) ↔ installed course ≠ [] := by
  unfold installed
  simp [List.filterMap_eq_nil_iff, Option.isSome_iff_ne_none]

theorem installed_split {earlier since : List Moment} {moment : Moment} {tracker : BlockTracker}
    (h : moment.installed? = some tracker) :
    installed (earlier ++ moment :: since) = installed earlier ++ tracker :: installed since := by
  rw [installed_append, installed, installed, installed, List.filterMap_cons_some h]

/-- The trackers after some deeds. They are numbered as they became the current one, after
the one that the session started with. -/
structure Isolated (history : List Moment) (session : Session) : Prop where
  current_eq : session.trackers.current = (installed history).length
  length_eq : session.trackers.all.length = (installed history).length + 1
  /-- Each tracker is in the state that its own block and the work on it alone give it. -/
  first : session.trackers.get 0 = BlockTracker.empty.after (worked 0 history)
  later : ∀ earlier moment since tracker, history = earlier ++ moment :: since →
    moment.installed? = some tracker →
      let id := (installed earlier).length + 1
      session.trackers.get id = tracker.after (worked id since)

namespace Isolated

theorem deed (moment : Moment) (h : Isolated history moment.session) :
    Isolated (history ++ [moment]) moment.next where
  current_eq := by
    rw [moment.current_next, h.length_eq, h.current_eq, installed_append_singleton]
    cases moment.installed? <;> simp
  length_eq := by
    rw [moment.length_next, h.length_eq, installed_append_singleton, List.length_append,
      Nat.add_right_comm]
  first := by
    have hzero : 0 < moment.session.trackers.all.length :=
      Nat.zero_lt_of_lt moment.session.trackers.current_lt
    rw [moment.get_next hzero, h.first, worked_append_singleton]
    exact (List.foldl_append ..).symm
  later earlier installing since tracker heq hinstalled := by
    intro id
    -- The deed has just installed the tracker, or finds it among the others.
    rcases append_singleton_eq_iff.mp heq with ⟨rfl, rfl, rfl⟩ | ⟨between, rfl, rfl⟩
    · have hcurrent : moment.next.trackers.current = id := by
        rw [moment.current_next, hinstalled, h.length_eq]
        rfl
      rw [← hcurrent]
      exact moment.now_next_of_installed hinstalled
    · have hid : id < moment.session.trackers.all.length := by
        rw [h.length_eq, installed_split hinstalled, List.length_append, List.length_cons]
        omega
      rw [moment.get_next hid, h.later earlier installing between tracker rfl hinstalled,
        worked_append_singleton]
      exact (List.foldl_append ..).symm

theorem of_books {next : Session} (h : Isolated history session)
    (hbooks : next.books = session.books) : Isolated history next := by
  have htrackers : next.trackers = session.trackers := congrArg Books.trackers hbooks
  exact ⟨htrackers ▸ h.current_eq, htrackers ▸ h.length_eq, htrackers ▸ h.first,
    htrackers ▸ h.later⟩

end Isolated

theorem historical_isolated : Historical Isolated where
  deed := Isolated.deed
  emit _ h := h.of_books rfl
  tick now h := h.of_books (books_tick _ now)
  refuse _ h := h.of_books rfl

end Session

end LightPeer
