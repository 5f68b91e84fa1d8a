import LightPeer.Proofs.Outstanding
import LightPeer.Stall.Watchdog

/-! # What is waited for are the unanswered requests

A request for block hashes is answered by an inventory, and a request for data
by a block or a transaction of the hash that was asked for. The expectations
after any messages are the requests among them that have no answer yet. -/

namespace LightPeer

namespace Message

/-- The answers that a message asks for. -/
def Asks : Message → Expectation → Prop
  | .getBlocks _, .inventory => True
  | .getData items, .data hash => ∃ item ∈ items, item.hash = hash
  | _, _ => False

/-- The expectations that a message meets. -/
def Answers : Message → Expectation → Prop
  | .inv _, .inventory => True
  | .merkleBlock block, .data hash => block.hash = hash
  | .tx transaction, .data hash => transaction.id = hash
  | _, _ => False

theorem isRequest_of_asks {message : Message} {expectation : Expectation}
    (h : message.Asks expectation) : message.isRequest = true := by
  cases message with
  | getBlocks request => rfl
  | getData items => rfl
  | _ => exact h.elim

end Message

/-- Among some messages, one asks for an answer and no later one gives it. -/
abbrev Unanswered : List Message → Expectation → Prop :=
  Outstanding Message.Asks Message.Answers

theorem unanswered_inventory_iff {messages : List Message} :
    Unanswered messages .inventory ↔ ∃ earlier request later,
      messages = earlier ++ .getBlocks request :: later ∧ ∀ items, .inv items ∉ later := by
  constructor
  · rintro ⟨earlier, message, later, rfl, hasks, hlater⟩
    cases message with
    | getBlocks request =>
        refine ⟨earlier, request, later, rfl, ?_⟩
        intro items hmem
        exact hlater _ hmem trivial
    | _ => exact hasks.elim
  · rintro ⟨earlier, request, later, rfl, hlater⟩
    refine ⟨earlier, .getBlocks request, later, rfl, trivial, ?_⟩
    intro message hmem hanswers
    cases message with
    | inv items => exact hlater items hmem
    | _ => exact hanswers

theorem unanswered_data_iff {messages : List Message} {hash : Hash} :
    Unanswered messages (.data hash) ↔ ∃ earlier items later,
      messages = earlier ++ .getData items :: later ∧ (∃ item ∈ items, item.hash = hash) ∧
        (∀ block, .merkleBlock block ∈ later → block.hash ≠ hash) ∧
        ∀ tx, .tx tx ∈ later → tx.id ≠ hash := by
  constructor
  · rintro ⟨earlier, message, later, rfl, hasks, hlater⟩
    cases message with
    | getData items =>
        refine ⟨earlier, items, later, rfl, hasks, ?_, ?_⟩
        · intro block hmem
          exact hlater _ hmem
        · intro tx hmem
          exact hlater _ hmem
    | _ => exact hasks.elim
  · rintro ⟨earlier, items, later, rfl, hasks, hblocks, htxs⟩
    refine ⟨earlier, .getData items, later, rfl, hasks, ?_⟩
    intro message hmem hanswers
    cases message with
    | merkleBlock block => exact hblocks block hmem hanswers
    | tx tx => exact htxs tx hmem hanswers
    | _ => exact hanswers

/-- Where nothing asks, nothing is unanswered. -/
theorem not_unanswered {messages : List Message} {expectation : Expectation}
    (h : ∀ message ∈ messages, message.isRequest = false) : ¬ Unanswered messages expectation := by
  intro hopen
  obtain ⟨message, hmem, hasks⟩ := hopen.exists_asks
  have hrequest := Message.isRequest_of_asks hasks
  rw [h message hmem] at hrequest
  exact nomatch hrequest

namespace StallState

theorem mem_revise_iff (pending : FiniteSet Expectation) (message : Message)
    (expectation : Expectation) :
    expectation ∈ revise pending message ↔
      message.Asks expectation ∨ (expectation ∈ pending ∧ ¬ message.Answers expectation) := by
  cases message <;> cases expectation <;>
    simp [revise, Message.Asks, Message.Answers, eq_comm, and_comm]

/-- From no expectation at all, messages leave the unanswered requests among them. -/
theorem mem_foldl_revise_iff {messages : List Message} {expectation : Expectation} :
    expectation ∈ messages.foldl revise .empty ↔ Unanswered messages expectation :=
  Outstanding.mem_foldl_empty_iff mem_revise_iff

/-- Where nothing is waited for, messages that ask for nothing leave it so. -/
theorem isEmpty_foldl_revise {messages : List Message} {pending : FiniteSet Expectation}
    (hempty : pending.isEmpty) (h : ∀ message ∈ messages, message.isRequest = false) :
    (messages.foldl revise pending).isEmpty := by
  rw [FiniteSet.isEmpty_iff] at hempty ⊢
  intro expectation hmem
  rcases (Outstanding.mem_foldl_iff mem_revise_iff pending).mp hmem with hopen | ⟨hold, -⟩
  · exact not_unanswered h hopen
  · exact hempty expectation hold

theorem check_of_isEmpty {state : StallState} (h : state.pending.isEmpty) (now : Nat) :
    state.check now = .proceed := by
  simp [check, h]

/-- Where something is waited for, the peer must not be silent for the timeout. -/
theorem check_eq_disconnect_iff {state : StallState} {now : Nat} :
    state.check now = .disconnect ↔ (∃ expectation, expectation ∈ state.pending) ∧
      ∃ seen, state.lastActive = some seen ∧ seen + state.timeout ≤ now := by
  by_cases hnone : state.pending.isEmpty
  · have hempty := FiniteSet.isEmpty_iff.mp hnone
    simp [check_of_isEmpty hnone, hempty]
  · have hsome : ∃ expectation, expectation ∈ state.pending := by
      rw [FiniteSet.isEmpty_iff, not_forall_not] at hnone
      exact hnone
    unfold check
    rw [if_neg hnone]
    cases hlast : state.lastActive with
    | none => simp
    | some seen =>
        by_cases hnow : now < seen + state.timeout
        · simp [hnow]
        · simp [hsome, hnow, Nat.le_of_not_lt hnow]

/-- The state after a message was seen at a time. -/
def see (state : StallState) (entry : Message × Nat) : StallState :=
  (state.observe entry.1 entry.2).1

theorem pending_foldl_see (state : StallState) (seen : List (Message × Nat)) :
    (seen.foldl see state).pending = (seen.map Prod.fst).foldl revise state.pending := by
  induction seen generalizing state with
  | nil => rfl
  | cons entry seen ih => exact ih _

/-- The state after some messages, each at a time. -/
def after (timeout : Nat) (history : List (Message × Nat)) : StallState :=
  history.foldl (fun state entry => (state.observe entry.1 entry.2).1) (fresh timeout)

variable (timeout : Nat) (history : List (Message × Nat))

theorem after_append_singleton (entry : Message × Nat) :
    after timeout (history ++ [entry]) = ((after timeout history).observe entry.1 entry.2).1 := by
  simp [after]

@[simp] theorem timeout_after : (after timeout history).timeout = timeout := by
  induction history using List.reverseRecOn with
  | nil => rfl
  | append_singleton history entry ih => rwa [after_append_singleton]

@[simp] theorem lastActive_after :
    (after timeout history).lastActive = history.getLast?.map Prod.snd := by
  induction history using List.reverseRecOn with
  | nil => rfl
  | append_singleton history entry ih => simp [after_append_singleton, observe]

theorem pending_after :
    (after timeout history).pending = (history.map Prod.fst).foldl revise .empty :=
  pending_foldl_see (fresh timeout) history

theorem mem_pending_after {expectation : Expectation} :
    expectation ∈ (after timeout history).pending ↔
      Unanswered (history.map Prod.fst) expectation := by
  rw [pending_after, mem_foldl_revise_iff]

/-- An answer is overdue if something is unanswered and nothing was seen for the timeout. -/
theorem check_after_eq_disconnect_iff {now : Nat} :
    (after timeout history).check now = .disconnect ↔
      (∃ expectation, Unanswered (history.map Prod.fst) expectation) ∧
        ∃ seen, history.getLast?.map Prod.snd = some seen ∧ seen + timeout ≤ now := by
  rw [check_eq_disconnect_iff, lastActive_after, timeout_after]
  simp only [mem_pending_after]

theorem encard_unanswered :
    {expectation | Unanswered (history.map Prod.fst) expectation}.encard =
      (after timeout history).pending.size := by
  rw [← FiniteSet.encard_setOf_mem]
  simp only [mem_pending_after]

theorem judge_eq_disconnect_iff {message : Message} :
    judge message = .disconnect ↔ ∃ items, message = .notFound items := by
  cases message <;> simp [judge]

/-- A state that knows of some messages, each seen at a time, what they leave open. -/
structure Reflects (timeout : Nat) (history : List (Message × Nat)) (state : StallState) :
    Prop where
  inventory_iff : .inventory ∈ state.pending ↔ ∃ earlier request later,
    history.map Prod.fst = earlier ++ .getBlocks request :: later ∧ ∀ items, .inv items ∉ later
  data_iff : ∀ hash, .data hash ∈ state.pending ↔ ∃ earlier items later,
    history.map Prod.fst = earlier ++ .getData items :: later ∧
      (∃ item ∈ items, item.hash = hash) ∧
      (∀ block, .merkleBlock block ∈ later → block.hash ≠ hash) ∧
      ∀ tx, .tx tx ∈ later → tx.id ≠ hash
  /-- Every key counts once, however often it was asked for. -/
  size_eq : {expectation | Unanswered (history.map Prod.fst) expectation}.encard =
    state.pending.size
  lastActive_eq : state.lastActive = history.getLast?.map Prod.snd
  isEmpty_of_unseen : state.lastActive = none → state.pending.isEmpty
  disconnect_iff : ∀ message now,
    (state.observe message now).2 = .disconnect ↔ ∃ items, message = .notFound items
  notFound_eq : ∀ items now, (state.observe (.notFound items) now).1.pending = state.pending
  check_iff : ∀ now, state.check now = .disconnect ↔
    (∃ expectation, Unanswered (history.map Prod.fst) expectation) ∧
      ∃ seen, history.getLast?.map Prod.snd = some seen ∧ seen + timeout ≤ now
  /-- A check is a question, and leaves the state as it is. -/
  tick_eq : ∀ interval nextTick now,
    (Watchdog.wake ⟨state, interval, nextTick⟩ (.timeout now)).1.state = state

/-- What is waited for is exactly what was asked for and not answered since, and a
check finds fault exactly when there is such a thing and the peer was silent for
the timeout. -/
theorem after_reflects : Reflects timeout history (after timeout history) where
  inventory_iff := (mem_pending_after timeout history).trans unanswered_inventory_iff
  data_iff _ := (mem_pending_after timeout history).trans unanswered_data_iff
  size_eq := encard_unanswered timeout history
  lastActive_eq := lastActive_after timeout history
  isEmpty_of_unseen hunseen := by
    rw [lastActive_after, Option.map_eq_none_iff, List.getLast?_eq_none_iff] at hunseen
    subst hunseen
    rfl
  disconnect_iff _ _ := judge_eq_disconnect_iff
  notFound_eq _ _ := rfl
  check_iff _ := check_after_eq_disconnect_iff timeout history
  tick_eq _ _ _ := rfl

end StallState

end LightPeer
