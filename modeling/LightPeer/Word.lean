/-! Machine words as results of calculations. A number that a word does not hold is
no result, so what is computed without failure is exact. -/

namespace LightPeer.Word

variable {w : Nat}

/-- The word of a number, if the number fits. -/
def ofNat? (w n : Nat) : Option (BitVec w) :=
  if (BitVec.ofNat w n).toNat = n then some (.ofNat w n) else none

/-- The word before, if there is one. -/
def pred? (a : BitVec w) : Option (BitVec w) :=
  match a.toNat with
  | 0 => none
  | n + 1 => ofNat? w n

theorem ofNat?_eq_some_iff {n : Nat} {a : BitVec w} : ofNat? w n = some a ↔ a.toNat = n := by
  unfold ofNat?
  split
  · next h => rw [Option.some.injEq, ← BitVec.toNat_inj, h, eq_comm]
  · next h =>
    constructor
    · intro hnone
      cases hnone
    · rintro rfl
      exact absurd (by rw [BitVec.toNat_ofNat, Nat.mod_eq_of_lt a.isLt]) h

theorem pred?_eq_some_iff {a b : BitVec w} : pred? a = some b ↔ a.toNat = b.toNat + 1 := by
  unfold pred?
  cases a.toNat with
  | zero => simp
  | succ n => rw [ofNat?_eq_some_iff, Nat.add_right_cancel_iff, eq_comm]

end LightPeer.Word
