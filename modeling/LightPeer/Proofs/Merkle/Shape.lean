import Mathlib.Algebra.Group.Nat.Defs
import Mathlib.Order.Bounds.Defs
import LightPeer.Merkle.Tree

/-! The shape of a Merkle tree in closed form: a level holds as many nodes as
there are whole or begun groups of leaves, and a tree is as high as the least
power of two that covers its leaves. -/

namespace LightPeer.Merkle

/-! ## Widths and heights -/

/-- A level has the leaves' number divided by a power of two, rounded up. -/
theorem width_eq (total k : Nat) : width total k = (total + 2 ^ k - 1) / 2 ^ k := by
  induction k with
  | zero => simp
  | succ k ih =>
      have hpos : 0 < 2 ^ k := Nat.two_pow_pos k
      rw [width_succ, ih, ← Nat.add_div_right _ hpos, Nat.div_div_eq_div_mul, ← Nat.pow_succ]
      congr 1
      omega

/-- A position lies on a level when the first leaf below it is there. -/
theorem lt_width_iff {total k position : Nat} :
    position < width total k ↔ position * 2 ^ k < total := by
  have hpos : 0 < 2 ^ k := Nat.two_pow_pos k
  rw [width_eq, ← Nat.succ_le_iff, Nat.le_div_iff_mul_le hpos, Nat.succ_mul]
  omega

theorem le_two_pow_iff {total k : Nat} : total ≤ 2 ^ k ↔ height total ≤ k := by
  unfold height
  split
  · rename_i h
    have hpos : 0 < 2 ^ k := Nat.two_pow_pos k
    omega
  · rename_i h
    have hlog := Nat.log2_lt (n := total - 1) (k := k) (by omega)
    omega

theorem isLeast_height (total : Nat) : IsLeast {k | total ≤ 2 ^ k} (height total) :=
  ⟨le_two_pow_iff.mpr (Nat.le_refl _), fun _ hk => le_two_pow_iff.mp hk⟩

/-- The least height that covers the leaves is the height of the tree. -/
theorem eq_height_of_isLeast {total h : Nat} (hleast : IsLeast {k | total ≤ 2 ^ k} h) :
    h = height total :=
  Nat.le_antisymm (hleast.2 (isLeast_height total).1) (le_two_pow_iff.mp hleast.1)

theorem width_height {total : Nat} (h : 0 < total) : width total (height total) = 1 := by
  have hle : total ≤ 2 ^ height total := (isLeast_height total).1
  have hpos : 0 < width total (height total) := lt_width_iff.mpr (by simpa using h)
  have hlt : ¬ 1 < width total (height total) := by
    rw [lt_width_iff]
    omega
  omega

/-- The left child of a node is there. -/
theorem two_mul_lt_width {total k position : Nat} (h : position < width total (k + 1)) :
    2 * position < width total k := by
  rw [width_succ] at h
  omega

/-- Joining neighbours takes one level off a tree with more than one leaf. -/
theorem height_eq_succ {total : Nat} (h : 2 ≤ total) :
    height total = height ((total + 1) / 2) + 1 := by
  have hhalf : ∀ k, total ≤ 2 ^ (k + 1) ↔ (total + 1) / 2 ≤ 2 ^ k := by
    intro k
    rw [Nat.pow_succ]
    omega
  apply Nat.le_antisymm
  · exact le_two_pow_iff.mp ((hhalf _).mpr (isLeast_height _).1)
  · cases hk : height total with
    | zero =>
        have hone : total ≤ 2 ^ 0 := le_two_pow_iff.mpr (by omega)
        omega
    | succ k =>
        have hle : height ((total + 1) / 2) ≤ k := by
          rw [← le_two_pow_iff, ← hhalf, le_two_pow_iff]
          omega
        omega

/-! ## Leaves below a node -/

theorem leavesBelow_eq {α : Type} (leaves : List α) (k position : Nat) :
    leavesBelow leaves k position = (leaves.drop (position * 2 ^ k)).take (2 ^ k) := rfl

/-- The leaves below a node are those below its left child and then those below its right one. -/
theorem leavesBelow_succ {α : Type} (leaves : List α) (k position : Nat) :
    leavesBelow leaves (k + 1) position =
      leavesBelow leaves k (2 * position) ++ leavesBelow leaves k (2 * position + 1) := by
  have hstart : position * 2 ^ (k + 1) = 2 * position * 2 ^ k := by
    rw [Nat.pow_succ, Nat.mul_comm 2 position, Nat.mul_assoc, Nat.mul_comm 2]
  have hnext : (2 * position + 1) * 2 ^ k = 2 * position * 2 ^ k + 2 ^ k := Nat.succ_mul _ _
  have hlength : 2 ^ (k + 1) = 2 ^ k + 2 ^ k := by rw [Nat.pow_succ]; omega
  simp only [leavesBelow_eq]
  rw [hstart, hnext, hlength, List.take_add, List.drop_drop]

theorem leavesBelow_zero {α : Type} {leaves : List α} {position : Nat} {leaf : α}
    (h : leaves[position]? = some leaf) : leavesBelow leaves 0 position = [leaf] := by
  obtain ⟨hposition, rfl⟩ := List.getElem?_eq_some_iff.mp h
  rw [leavesBelow_eq, Nat.pow_zero, Nat.mul_one, List.drop_eq_getElem_cons hposition]
  rfl

theorem leavesBelow_eq_nil {α : Type} {leaves : List α} {k position : Nat}
    (h : ¬ position < width leaves.length k) : leavesBelow leaves k position = [] := by
  rw [lt_width_iff, Nat.not_lt] at h
  rw [leavesBelow_eq, List.drop_eq_nil_of_le h, List.take_nil]

theorem length_leavesBelow_pos {α : Type} {leaves : List α} {k position : Nat}
    (h : position < width leaves.length k) : 0 < (leavesBelow leaves k position).length := by
  have hpos : 0 < 2 ^ k := Nat.two_pow_pos k
  rw [lt_width_iff] at h
  rw [leavesBelow_eq, List.length_take, List.length_drop]
  omega

theorem leavesBelow_height {α : Type} (leaves : List α) :
    leavesBelow leaves (height leaves.length) 0 = leaves := by
  rw [leavesBelow_eq, Nat.zero_mul, List.drop_zero]
  exact List.take_of_length_le (isLeast_height leaves.length).1

end LightPeer.Merkle
