import LightPeer.Proofs.Session.History
import Mathlib.Data.List.DropRight

/-! # The counts tell what was recorded

Both counts are what was recorded since they were last reset, as far as a 32-bit number
can tell. Neither of them wraps, the false positives never exceed what was received, and a
share of them is given once something was recorded. -/

namespace LightPeer

namespace Tally

theorem toNat_bump (n : UInt32) : (bump n).toNat = min (n.toNat + 1) (2 ^ 32 - 1) := by
  have hlast : n = 0xffffffff ↔ n.toNat = 2 ^ 32 - 1 := UInt32.toNat_inj.symm
  have hlt := n.toNat_lt
  unfold bump
  by_cases h : n = 0xffffffff
  · rw [if_pos h, hlast.mp h]
    rfl
  · have hroom : n.toNat + 1 < 2 ^ 32 := by
      have hne := mt hlast.mpr h
      omega
    rw [if_neg h, UInt32.toNat_add, UInt32.toNat_one, Nat.mod_eq_of_lt hroom]
    omega

/-- The counts after some transactions were recorded, each of which is a false positive
or not. -/
structure Counts (recorded : List Bool) (tally : Tally) : Prop where
  received_eq : tally.received.toNat = min recorded.length (2 ^ 32 - 1)
  falsePositives_eq : tally.falsePositives.toNat = min (recorded.count true) (2 ^ 32 - 1)

variable {recorded : List Bool} {tally : Tally}

theorem counts_empty : Counts [] empty := ⟨rfl, rfl⟩

/-- A count that has reached the end of its range stays there. -/
theorem Counts.record (h : Counts recorded tally) (falsePositive : Bool) :
    Counts (recorded ++ [falsePositive]) (tally.record falsePositive) where
  received_eq := by
    have hreceived := h.received_eq
    change (bump tally.received).toNat = _
    rw [toNat_bump, List.length_append, List.length_singleton]
    omega
  falsePositives_eq := by
    have hfalse := h.falsePositives_eq
    unfold Tally.record
    cases falsePositive with
    | false => simpa using hfalse
    | true =>
        simp only [if_true, toNat_bump, List.count_append, List.count_singleton_self]
        omega

theorem le_bump (n : UInt32) : n ≤ bump n := by
  have hlt := n.toNat_lt
  rw [UInt32.le_iff_toNat_le, toNat_bump]
  omega

theorem rate?_eq_none_iff (tally : Tally) : tally.rate? = none ↔ tally.received = 0 := by
  unfold rate?
  split <;> simp [*]

/-- What the counts tell about the transactions that were recorded. -/
structure Accounts (recorded : List Bool) (tally : Tally) : Prop extends Counts recorded tally where
  falsePositives_le : tally.falsePositives ≤ tally.received
  /-- Recording one more transaction makes neither count smaller. -/
  le_record : ∀ falsePositive, tally.received ≤ (tally.record falsePositive).received ∧
    tally.falsePositives ≤ (tally.record falsePositive).falsePositives
  rate_eq_none_iff : tally.rate? = none ↔ recorded = []
  /-- The share is never the result of a division by zero. -/
  rate_eq_some : ∀ rate, tally.rate? = some rate → tally.received ≠ 0 ∧
    rate = tally.falsePositives.toFloat32 / tally.received.toFloat32

theorem Counts.accounts (h : Counts recorded tally) : Accounts recorded tally where
  toCounts := h
  falsePositives_le := by
    have hcount : recorded.count true ≤ recorded.length := List.count_le_length
    have hreceived := h.received_eq
    have hfalse := h.falsePositives_eq
    rw [UInt32.le_iff_toNat_le]
    omega
  le_record falsePositive := by
    refine ⟨le_bump _, ?_⟩
    cases falsePositive with
    | false => exact UInt32.le_refl _
    | true => exact le_bump _
  rate_eq_none_iff := by
    have hreceived := h.received_eq
    rw [rate?_eq_none_iff, ← UInt32.toNat_inj, UInt32.toNat_zero, ← List.length_eq_zero_iff]
    omega
  rate_eq_some rate hrate := by
    unfold rate? at hrate
    split at hrate
    · exact nomatch hrate
    · rename_i hne
      exact ⟨hne, (Option.some.inj hrate).symm⟩

end Tally

open Session

namespace Session

/-! ## Deeds -/

/-- Whether the transaction that a deed records is a false positive. -/
def Deed.recorded? : Deed → Option Bool
  | called (.recordTx falsePositive) => some falsePositive
  | _ => none

def Deed.isReset : Deed → Bool
  | called .resetTally => true
  | _ => false

/-- What was recorded since the counts were last reset. -/
def recorded (course : List Moment) : List Bool :=
  (course.rtakeWhile (!·.deed.isReset)).filterMap (·.deed.recorded?)

variable {history course : List Moment} {session : Session} {moment : Moment}

theorem recorded_append_singleton (h : ¬ moment.deed.isReset) :
    recorded (history ++ [moment]) = recorded history ++ moment.deed.recorded?.toList := by
  unfold recorded
  rw [List.rtakeWhile_concat_pos _ _ _ (by simpa using h), List.filterMap_append]
  rfl

theorem recorded_append_reset (h : moment.deed.isReset) : recorded (history ++ [moment]) = [] := by
  unfold recorded
  rw [List.rtakeWhile_concat_neg _ _ _ (by simpa using h)]
  rfl

/-- As long as the counts are not reset, everything that is recorded counts. -/
theorem recorded_append (h : ∀ moment ∈ course, ¬ moment.deed.isReset) :
    recorded (history ++ course) = recorded history ++ course.filterMap (·.deed.recorded?) := by
  induction course using List.reverseRecOn with
  | nil => simp
  | append_singleton course last ih =>
      rw [List.forall_mem_append, List.forall_mem_singleton] at h
      rw [← List.append_assoc, recorded_append_singleton h.2, ih h.1, List.filterMap_append,
        ← List.append_assoc]
      rfl

theorem tally_next (moment : Moment) : moment.next.tally =
    if moment.deed.isReset then .empty
    else moment.deed.recorded?.elim moment.session.tally moment.session.tally.record := by
  obtain ⟨session, deed⟩ := moment
  cases deed with
  | came message => exact congrArg Books.tally (books_came session message)
  | called call =>
      have hbooks := congrArg Books.tally (books_perform session call)
      cases call <;> exact hbooks

theorem counts_next (h : Tally.Counts (recorded history) moment.session.tally) :
    Tally.Counts (recorded (history ++ [moment])) moment.next.tally := by
  rw [tally_next]
  by_cases hreset : moment.deed.isReset
  · rw [if_pos hreset, recorded_append_reset hreset]
    exact Tally.counts_empty
  · rw [if_neg hreset, recorded_append_singleton hreset]
    cases moment.deed.recorded? with
    | none => rwa [Option.toList_none, List.append_nil]
    | some falsePositive => exact h.record falsePositive

theorem historical_counts :
    Historical fun history session => Tally.Counts (recorded history) session.tally where
  deed _ := counts_next
  emit _ h := h
  tick {_ session} now h := by
    have htally : (session.tick now).tally = session.tally :=
      congrArg Books.tally (books_tick session now)
    rwa [htally]
  refuse _ h := h

end Session

end LightPeer
