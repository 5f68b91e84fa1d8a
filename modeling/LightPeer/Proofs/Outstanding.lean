import LightPeer.FiniteSet
import Mathlib.Data.List.Induction
import Mathlib.Data.Set.Card

/-! # What is asked for and not answered

In a history some events ask for a key and some answer it. A key is outstanding
if the last event that concerns it asks for it. A set that gains what is asked
for and loses what is answered holds the outstanding keys. -/

namespace LightPeer

variable {α β : Type}

theorem FiniteSet.encard_setOf_mem [DecidableEq α] (set : FiniteSet α) :
    {a | a ∈ set}.encard = set.size := by
  have hcoe : {a | a ∈ set} = (set.elems.toFinset : Set α) := by
    ext a
    rw [Finset.mem_coe, List.mem_toFinset]
    rfl
  rw [hcoe, Set.encard_coe_eq_coe_finsetCard, List.toFinset_card_of_nodup set.nodup]
  rfl

/-- An event of a history with one more event is the last one, or was there before. -/
theorem append_singleton_eq_iff {history earlier later : List β} {last event : β} :
    history ++ [last] = earlier ++ event :: later ↔
      (history = earlier ∧ last = event ∧ later = []) ∨
        ∃ between, history = earlier ++ event :: between ∧ later = between ++ [last] := by
  constructor
  · intro heq
    rcases List.eq_nil_or_concat later with rfl | ⟨between, final, rfl⟩
    · obtain ⟨hearlier, hlast⟩ := List.append_singleton_inj.mp heq
      exact .inl ⟨hearlier, hlast, rfl⟩
    · rw [List.concat_eq_append, ← List.cons_append, ← List.append_assoc] at heq
      obtain ⟨hearlier, rfl⟩ := List.append_singleton_inj.mp heq
      exact .inr ⟨between, hearlier, List.concat_eq_append⟩
  · rintro (⟨rfl, rfl, rfl⟩ | ⟨between, rfl, rfl⟩)
    · rfl
    · rw [List.append_assoc, List.cons_append]

/-- A key was asked for, and was not answered since. -/
def Outstanding (asks answers : β → α → Prop) (history : List β) (key : α) : Prop :=
  ∃ earlier request later, history = earlier ++ request :: later ∧ asks request key ∧
    ∀ event ∈ later, ¬ answers event key

namespace Outstanding

variable {asks answers : β → α → Prop} {history : List β} {event : β} {key : α}

theorem nil : ¬ Outstanding asks answers [] key := by
  rintro ⟨earlier, request, later, heq, -⟩
  simp at heq

theorem exists_asks (h : Outstanding asks answers history key) :
    ∃ request ∈ history, asks request key := by
  obtain ⟨earlier, request, later, rfl, hasks, -⟩ := h
  exact ⟨request, by simp, hasks⟩

theorem append_singleton :
    Outstanding asks answers (history ++ [event]) key ↔
      asks event key ∨ (Outstanding asks answers history key ∧ ¬ answers event key) := by
  constructor
  · rintro ⟨earlier, request, later, heq, hasks, hlater⟩
    rcases append_singleton_eq_iff.mp heq with ⟨rfl, rfl, rfl⟩ | ⟨between, rfl, rfl⟩
    · exact .inl hasks
    · rw [List.forall_mem_append, List.forall_mem_singleton] at hlater
      exact .inr ⟨⟨earlier, request, between, rfl, hasks, hlater.1⟩, hlater.2⟩
  · rintro (hasks | ⟨⟨earlier, request, later, rfl, hasks, hlater⟩, hkept⟩)
    · exact ⟨history, event, [], rfl, hasks, by simp⟩
    · refine ⟨earlier, request, later ++ [event], by simp, hasks, ?_⟩
      rw [List.forall_mem_append, List.forall_mem_singleton]
      exact ⟨hlater, hkept⟩

/-- After an event that answers it, a key is outstanding only if it is asked for anew. -/
theorem exists_asks_of_answers {earlier later : List β}
    (h : Outstanding asks answers (earlier ++ event :: later) key) (hanswers : answers event key)
    (hasks : ¬ asks event key) : ∃ request ∈ later, asks request key := by
  induction later using List.reverseRecOn with
  | nil =>
      rcases append_singleton.mp h with hanew | ⟨-, hopen⟩
      · exact absurd hanew hasks
      · exact absurd hanswers hopen
  | append_singleton later last ih =>
      rw [← List.cons_append, ← List.append_assoc] at h
      rcases append_singleton.mp h with hlast | ⟨hopen, -⟩
      · exact ⟨last, by simp, hlast⟩
      · obtain ⟨request, hmem, hrequest⟩ := ih hopen
        exact ⟨request, List.mem_append_left _ hmem, hrequest⟩

variable [DecidableEq α]

/-- A set that each event changes by what it asks for and answers holds, in the
end, what is outstanding and what it held from the start if nothing answered it. -/
theorem mem_foldl_iff {step : FiniteSet α → β → FiniteSet α}
    (hstep : ∀ set event key,
      key ∈ step set event ↔ asks event key ∨ (key ∈ set ∧ ¬ answers event key))
    (set : FiniteSet α) :
    key ∈ history.foldl step set ↔
      Outstanding asks answers history key ∨ (key ∈ set ∧ ∀ event ∈ history, ¬ answers event key) := by
  induction history using List.reverseRecOn with
  | nil => simp [nil]
  | append_singleton history event ih =>
      rw [List.foldl_append, List.foldl_cons, List.foldl_nil, hstep, ih, append_singleton]
      simp only [List.forall_mem_append, List.forall_mem_singleton]
      tauto

/-- A set that holds nothing at the start holds exactly what is outstanding. -/
theorem mem_foldl_empty_iff {step : FiniteSet α → β → FiniteSet α}
    (hstep : ∀ set event key,
      key ∈ step set event ↔ asks event key ∨ (key ∈ set ∧ ¬ answers event key)) :
    key ∈ history.foldl step .empty ↔ Outstanding asks answers history key := by
  rw [mem_foldl_iff hstep]
  simp

end Outstanding

end LightPeer
