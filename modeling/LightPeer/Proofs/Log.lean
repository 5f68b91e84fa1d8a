import LightPeer.Log
import Mathlib.Data.List.Basic

/-! # Logging only filters

A program is discreet if its log tells of it and does nothing else. It comes to the same
whatever is set in the environment, its records are those of a tracing run that are to
be shown, and the form in which they are printed changes none of them. -/

namespace LightPeer.Log

variable {α β : Type}

/-! ## What is shown -/

/-- Whether records of a level are shown under some variables: all of them when tracing,
all but trace records when debugging, and otherwise only the more important ones. -/
def Shown (value : String → Option String) (level : Level) : Prop :=
  value "SPV_TRACE" = some "1" ∨ value "SPV_DEBUG" = some "1" ∧ level ≠ .trace ∨
    level ∈ [.info, .warn, .error]

instance (value : String → Option String) (level : Level) : Decidable (Shown value level) :=
  inferInstanceAs (Decidable (_ ∨ _))

theorem shown_iff {value : String → Option String} {level : Level} :
    Shown value level ↔ (View.ofVariables value).threshold.rank ≤ level.rank := by
  unfold Shown View.ofVariables
  by_cases htrace : value "SPV_TRACE" = some "1"
  · simp [htrace, Level.rank]
  · by_cases hdebug : value "SPV_DEBUG" = some "1"
    · cases level <;> simp [htrace, hdebug, Level.rank]
    · cases level <;> simp [htrace, hdebug, Level.rank]

namespace View

variable (view : View)

@[simp] theorem select_nil : view.select [] = [] := rfl

@[simp] theorem select_append (first last : List Record) :
    view.select (first ++ last) = view.select first ++ view.select last :=
  List.filter_append ..

theorem select_of_trace {view : View} (h : view.threshold = .trace) (records : List Record) :
    view.select records = records :=
  List.filter_eq_self.mpr fun _ _ => by simp [h, Level.rank]

end View

/-! ## Programs -/

namespace Logging

variable (view : View)

@[simp] theorem run_pure (result : α) (threshold : Level) :
    (pure result : Logging α).run threshold = ([], result) := rfl

@[simp] theorem run_bind (program : Logging α) (next : α → Logging β) (threshold : Level) :
    (program >>= next).run threshold = ((program.run threshold).1 ++
      ((next (program.run threshold).2).run threshold).1,
      ((next (program.run threshold).2).run threshold).2) := rfl

@[simp] theorem run_write (record : Record) :
    (write record).run view.threshold = (view.select [record], ()) := by
  simp [write, View.select, List.filter_singleton]

theorem run_forM_write (records : List Record) :
    (records.forM write).run view.threshold = (view.select records, ()) := by
  induction records with
  | nil => rfl
  | cons record records ih =>
      have hcons : (record :: records).forM write = write record >>= fun _ => records.forM write :=
        rfl
      rw [hcons, run_bind, run_write, ih, ← View.select_append]
      rfl

/-- The records that a program writes down under some variables. -/
def recordsUnder (value : String → Option String) (program : Logging α) : List Record :=
  (program.run (View.ofVariables value).threshold).1

/-- The log tells of the program and does nothing else. -/
structure Discreet (program : Logging α) : Prop where
  result_eq : ∀ value value' : String → Option String,
    (program.under (.ofVariables value)).2 = (program.under (.ofVariables value')).2
  /-- The records are those of a tracing run that are to be shown. -/
  records_eq : ∀ value traced : String → Option String, traced "SPV_TRACE" = some "1" →
    program.recordsUnder value =
      (program.recordsUnder traced).filter fun record => Shown value record.level
  /-- The same records are there in either form. -/
  form_free : ∀ value value' : String → Option String, value "SPV_TRACE" = value' "SPV_TRACE" →
    value "SPV_DEBUG" = value' "SPV_DEBUG" →
    program.recordsUnder value = program.recordsUnder value'
  /-- Every record is printed once and in its turn. -/
  printed_eq : ∀ value : String → Option String, (program.under (.ofVariables value)).1 =
    (program.recordsUnder value).map fun record =>
      if value "SPV_LOG_JSON" = some "1" then .fields record.fields else .line record.line
  /-- To leave records out at once is the same as to leave them out when printing. -/
  print_eq : ∀ value traced : String → Option String, traced "SPV_TRACE" = some "1" →
    (program.under (.ofVariables value)).1 =
      (View.ofVariables value).print (program.recordsUnder traced)

/-- A program is discreet if it comes to the same under every view and writes down what
the view selects of the same records. -/
theorem discreet_of_run {program : Logging α} {records : List Record} {result : α}
    (h : ∀ view : View, program.run view.threshold = (view.select records, result)) :
    program.Discreet := by
  have hrecords (value : String → Option String) :
      program.recordsUnder value = (View.ofVariables value).select records := by
    unfold recordsUnder
    rw [h]
  have htraced {traced : String → Option String} (htraced : traced "SPV_TRACE" = some "1") :
      program.recordsUnder traced = records := by
    rw [hrecords]
    exact View.select_of_trace (if_pos htraced) records
  constructor
  case result_eq =>
    intro value value'
    simp only [under, h]
  case records_eq =>
    intro value traced htrace
    rw [hrecords, htraced htrace]
    simp only [View.select, shown_iff]
  case form_free =>
    intro value value' htrace hdebug
    have hthreshold : (View.ofVariables value).threshold = (View.ofVariables value').threshold := by
      simp only [View.ofVariables, htrace, hdebug]
    unfold recordsUnder
    rw [hthreshold]
  case printed_eq =>
    intro value
    unfold under recordsUnder
    refine List.map_congr_left fun record _ => ?_
    simp only [View.form, View.ofVariables, decide_eq_true_eq]
  case print_eq =>
    intro value traced htrace
    rw [htraced htrace]
    simp only [under, h, View.print]

end Logging

theorem emit_discreet (text : String) (key : Nat) : (emit text key).Discreet :=
  Logging.discreet_of_run fun view => Logging.run_forM_write view (everyLevel text key)

example : ((emit "up" 3).under (.ofVariables fun _ => none)).1 =
    [.line "INFO up", .line "WARN up, key: 3", .line "ERRO up"] := rfl

end LightPeer.Log
