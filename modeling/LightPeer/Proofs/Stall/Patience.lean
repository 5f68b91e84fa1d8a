import LightPeer.Proofs.Stall.Unanswered

/-! # More traffic never makes a peer look stalled

A message that asks for nothing can meet expectations and move the deadline, but
it brings no expectation and no earlier deadline. What a state waits for less, or
with a later deadline, stays so under all messages that follow. -/

namespace LightPeer

namespace StallState

/-- A state that waits for nothing that another one does not wait for, and whose
last message is no older. -/
structure Milder (state other : StallState) : Prop where
  mem_pending : ∀ expectation ∈ state.pending, expectation ∈ other.pending
  lastActive_le : ∀ seen, other.lastActive = some seen →
    ∃ later, state.lastActive = some later ∧ seen ≤ later
  /-- A message was seen of which the other one awaits an answer, if it awaits any. -/
  lastActive_ne_none : ∀ expectation ∈ other.pending, other.lastActive ≠ none
  timeout_eq : state.timeout = other.timeout

variable {state other : StallState} {message : Message} {now time timeout : Nat}

/-- A message that is not a request brings no expectation. -/
theorem mem_of_mem_revise {pending : FiniteSet Expectation} {expectation : Expectation}
    (hnone : message.isRequest = false) (h : expectation ∈ revise pending message) :
    expectation ∈ pending := by
  rcases (mem_revise_iff _ _ _).mp h with hasks | ⟨hold, -⟩
  · rw [Message.isRequest_of_asks hasks] at hnone
    exact nomatch hnone
  · exact hold

theorem mem_revise_mono {pending more : FiniteSet Expectation}
    (hsubset : ∀ expectation ∈ pending, expectation ∈ more) :
    ∀ expectation ∈ revise pending message, expectation ∈ revise more message := by
  intro expectation hmem
  rw [mem_revise_iff] at hmem ⊢
  rcases hmem with hasks | ⟨hold, hkept⟩
  · exact .inl hasks
  · exact .inr ⟨hsubset expectation hold, hkept⟩

namespace Milder

/-- A message that is not a request leaves a milder state, if it does not come before the last one. -/
theorem see_self (hnone : message.isRequest = false)
    (hlast : ∀ seen, state.lastActive = some seen → seen ≤ time)
    (hseen : ∀ expectation ∈ state.pending, state.lastActive ≠ none) :
    Milder (state.see (message, time)) state where
  mem_pending _ hmem := mem_of_mem_revise hnone hmem
  lastActive_le seen hseen := ⟨time, rfl, hlast seen hseen⟩
  lastActive_ne_none := hseen
  timeout_eq := rfl

/-- A milder state stays so whatever both see. -/
theorem see (h : Milder state other) (entry : Message × Nat) :
    Milder (state.see entry) (other.see entry) where
  mem_pending := mem_revise_mono h.mem_pending
  lastActive_le _ hseen := ⟨entry.2, rfl, Nat.le_of_eq (Option.some.inj hseen).symm⟩
  lastActive_ne_none _ _ := Option.some_ne_none entry.2
  timeout_eq := h.timeout_eq

theorem foldl_see (h : Milder state other) (history : List (Message × Nat)) :
    Milder (history.foldl StallState.see state) (history.foldl StallState.see other) := by
  induction history generalizing state other with
  | nil => exact h
  | cons entry history ih => exact ih (h.see entry)

/-- A milder state finds fault only if the other one does. -/
theorem check_eq_disconnect (h : Milder state other) (hcheck : state.check now = .disconnect) :
    other.check now = .disconnect := by
  rw [check_eq_disconnect_iff] at hcheck ⊢
  obtain ⟨⟨expectation, hmem⟩, later, hlater, hoverdue⟩ := hcheck
  have hpending := h.mem_pending expectation hmem
  obtain ⟨seen, hseen⟩ := Option.ne_none_iff_exists'.mp (h.lastActive_ne_none expectation hpending)
  obtain ⟨_, heq, hle⟩ := h.lastActive_le seen hseen
  obtain rfl := Option.some.inj (hlater.symm.trans heq)
  rw [h.timeout_eq] at hoverdue
  exact ⟨⟨expectation, hpending⟩, seen, hseen, by omega⟩

end Milder

/-- Once a peer was silent for too long, it stays so until a message is seen. -/
theorem check_mono {later : Nat} (hcheck : state.check now = .disconnect) (hle : now ≤ later) :
    state.check later = .disconnect := by
  rw [check_eq_disconnect_iff] at hcheck ⊢
  obtain ⟨hpending, seen, hseen, hoverdue⟩ := hcheck
  exact ⟨hpending, seen, hseen, hoverdue.trans hle⟩

variable {earlier later : List (Message × Nat)}

theorem lastActive_after_ne_none {expectation : Expectation}
    (h : expectation ∈ (after timeout earlier).pending) :
    (after timeout earlier).lastActive ≠ none := by
  intro hunseen
  rw [lastActive_after, Option.map_eq_none_iff, List.getLast?_eq_none_iff] at hunseen
  subst hunseen
  exact FiniteSet.not_mem_empty expectation h

/-- The last of some messages in order of time is no later than what comes after them. -/
theorem lastActive_after_le
    (horder : ((earlier ++ (message, time) :: later).map Prod.snd).Pairwise (· ≤ ·)) {seen : Nat}
    (hseen : (after timeout earlier).lastActive = some seen) : seen ≤ time := by
  rw [lastActive_after, Option.map_eq_some_iff] at hseen
  obtain ⟨entry, hlast, rfl⟩ := hseen
  rw [List.pairwise_map] at horder
  exact (List.pairwise_append.mp horder).2.2 entry (List.mem_of_getLast? hlast) (message, time)
    List.mem_cons_self

/-- A message that asks for nothing, put anywhere into messages in order of time, never
makes an answer overdue that was not: what is waited for then is waited for without it,
and the last message is no older. Nor is an answer overdue for a while only. -/
theorem extra_message_never_hastens (hnone : message.isRequest = false)
    (horder : ((earlier ++ (message, time) :: later).map Prod.snd).Pairwise (· ≤ ·)) :
    let longer := after timeout (earlier ++ (message, time) :: later)
    let original := after timeout (earlier ++ later)
    (∀ expectation ∈ longer.pending, expectation ∈ original.pending) ∧
      (∀ seen, original.lastActive = some seen →
        ∃ late, longer.lastActive = some late ∧ seen ≤ late) ∧
      (∀ now, longer.check now = .disconnect → original.check now = .disconnect) ∧
      ∀ (state : StallState) (now late : Nat), now ≤ late →
        state.check now = .disconnect → state.check late = .disconnect := by
  intro longer original
  have hextra : Milder ((after timeout earlier).see (message, time)) (after timeout earlier) :=
    .see_self hnone (fun _ => lastActive_after_le horder) fun _ => lastActive_after_ne_none
  have hlonger : longer = later.foldl see ((after timeout earlier).see (message, time)) :=
    List.foldl_append
  have horiginal : original = later.foldl see (after timeout earlier) := List.foldl_append
  have hmilder : Milder longer original := by
    rw [hlonger, horiginal]
    exact hextra.foldl_see later
  exact ⟨hmilder.mem_pending, hmilder.lastActive_le, fun _ => hmilder.check_eq_disconnect,
    fun _ _ _ hle hcheck => check_mono hcheck hle⟩

/-- An answer that comes between two requests does not make the second one overdue earlier. -/
theorem extra_message_never_hastens_answer :
    let request : Message := .getBlocks ⟨[], .zero, protocolVersion⟩
    let answer : Message := .inv []
    let longer := [(request, 0)] ++ (answer, 5) :: [(request, 10)]
    let original := [(request, 0)] ++ [(request, 10)]
    answer.isRequest = false ∧ (longer.map Prod.snd).Pairwise (· ≤ ·) ∧
      (after 30 longer).check 40 = .disconnect ∧ (after 30 original).check 40 = .disconnect := by
  intro request answer longer original
  have hnone : answer.isRequest = false := rfl
  have horder : (longer.map Prod.snd).Pairwise (· ≤ ·) := by decide
  have hlonger : (after 30 longer).check 40 = .disconnect := rfl
  have hfewer := (extra_message_never_hastens hnone horder).2.2.1 40 hlonger
  exact ⟨hnone, horder, hlonger, hfewer⟩

end StallState

end LightPeer
