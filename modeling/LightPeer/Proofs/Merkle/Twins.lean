import LightPeer.Proofs.Merkle.Soundness

/-! # Equal siblings

A list that repeats its own tail can have the root of the shorter list: then a node
of its tree joins two children of the same hash. A partial tree without equal siblings
matches no leaf below such a node. -/

namespace LightPeer.Merkle

variable {α : Type} (node : α → α → α)

/-- Both children of a node on the next level are there, and they have the same hash. -/
def Twins (leaves : List α) (k position : Nat) : Prop :=
  ∃ hash, nodeAt? node leaves k (2 * position) = some hash ∧
    nodeAt? node leaves k (2 * position + 1) = some hash

/-! ## Lists that repeat their tail -/

/-- The leaves are those of a shorter list, and the ones below the last node of an odd
level once more. -/
structure RepeatsTail (shorter leaves : List α) (k position : Nat) : Prop where
  inner : 0 < position
  length_eq : shorter.length = (2 * position + 1) * 2 ^ k
  leaves_eq : leaves = shorter ++ shorter.drop (2 * position * 2 ^ k)

theorem width_mul_two_pow (m k : Nat) : width (m * 2 ^ k) k = m := by
  have hpos : 0 < 2 ^ k := Nat.two_pow_pos k
  rw [width_eq, Nat.add_sub_assoc hpos, Nat.mul_comm, Nat.mul_add_div hpos,
    Nat.div_eq_of_lt (Nat.sub_lt hpos Nat.one_pos), Nat.add_zero]

theorem parents_append :
    ∀ first last : List α, first.length % 2 = 0 →
      parents node (first ++ last) = parents node first ++ parents node last
  | [], _, _ => rfl
  | [_], _, h => nomatch h
  | a :: b :: first, last, h => by
      have heven : first.length % 2 = 0 := by
        simp only [List.length_cons] at h
        omega
      exact congrArg (node a b :: ·) (parents_append first last heven)

/-- Up to a height, leaves that fill nodes of that height are joined by themselves. -/
theorem level_append {first : List α} (last : List α) {m k : Nat}
    (h : first.length = m * 2 ^ k) :
    level node (first ++ last) k = level node first k ++ level node last k := by
  induction k generalizing m with
  | zero => rfl
  | succ k ih =>
      have hdouble : first.length = 2 * m * 2 ^ k := by
        rw [h, Nat.pow_succ]
        lia
      have heven : (level node first k).length % 2 = 0 := by
        rw [length_level, hdouble, width_mul_two_pow, Nat.mul_mod_right]
      rw [level, ih hdouble, parents_append node _ _ heven]
      rfl

/-- Joining levels does not change the root, as long as more than one node is left. -/
theorem root?_level {leaves : List α} {k : Nat} (h : 2 ^ k < leaves.length) :
    root? node (level node leaves (k + 1)) = root? node leaves := by
  have hparents : ∀ nodes : List α, 1 < nodes.length →
      root? node (parents node nodes) = root? node nodes
    | [], hlength => nomatch hlength
    | [_], hlength => absurd hlength (Nat.lt_irrefl 1)
    | a :: b :: rest, _ => by rw [root?]
  induction k with
  | zero => exact hparents leaves h
  | succ k ih =>
      have hbelow : 2 ^ k < leaves.length :=
        Nat.lt_trans (Nat.pow_lt_pow_succ (by decide)) h
      have hwidth : 1 < (level node leaves (k + 1)).length := by
        rwa [length_level, lt_width_iff, Nat.one_mul]
      rw [level, hparents _ hwidth, ih hbelow]

namespace RepeatsTail

variable {shorter leaves : List α} {k position : Nat}

/-- On the level of the repeated node, the last node of the shorter list stands twice. -/
theorem exists_levels (h : RepeatsTail shorter leaves k position) :
    ∃ nodes last, nodes.length = 2 * position ∧ level node shorter k = nodes ++ [last] ∧
      level node leaves k = nodes ++ [last, last] := by
  let front := shorter.take (2 * position * 2 ^ k)
  let tail := shorter.drop (2 * position * 2 ^ k)
  have hshorter : shorter = front ++ tail := (List.take_append_drop _ _).symm
  have hlength := h.length_eq
  rw [Nat.succ_mul] at hlength
  have hfront : front.length = 2 * position * 2 ^ k := by
    rw [List.length_take, hlength, Nat.min_eq_left (Nat.le_add_right _ _)]
  have htail : tail.length = 1 * 2 ^ k := by
    rw [List.length_drop, hlength, Nat.add_sub_cancel_left, Nat.one_mul]
  have hleaves : leaves = front ++ (tail ++ tail) := by
    rw [h.leaves_eq, ← List.append_assoc, ← hshorter]
  obtain ⟨last, hlast⟩ : ∃ last, level node tail k = [last] := by
    rw [← List.length_eq_one_iff, length_level, htail, width_mul_two_pow]
  refine ⟨level node front k, last, ?_, ?_, ?_⟩
  · rw [length_level, hfront, width_mul_two_pow]
  · rw [hshorter, level_append node tail hfront, hlast]
  · rw [hleaves, level_append node _ hfront, level_append node tail htail, hlast]
    rfl

theorem twins (h : RepeatsTail shorter leaves k position) : Twins node leaves k position := by
  obtain ⟨nodes, last, hlength, -, hlevel⟩ := h.exists_levels node
  refine ⟨last, ?_, ?_⟩
  · simp [nodeAt?, hlevel, ← hlength]
  · simp [nodeAt?, hlevel, ← hlength]

/-- The repetition does not show in the root. -/
theorem root?_eq (h : RepeatsTail shorter leaves k position) :
    root? node leaves = root? node shorter := by
  obtain ⟨nodes, last, hlength, hshorter, hleaves⟩ := h.exists_levels node
  have heven : nodes.length % 2 = 0 := by omega
  have hlong : 2 ^ k < shorter.length := by
    have hpos : 0 < 2 ^ k := Nat.two_pow_pos k
    have hinner := Nat.mul_lt_mul_of_pos_right (Nat.succ_lt_succ h.inner) hpos
    have hlength := h.length_eq
    lia
  have hlonger : 2 ^ k < leaves.length := by
    rw [h.leaves_eq, List.length_append]
    exact Nat.lt_add_right _ hlong
  have hparents : level node leaves (k + 1) = level node shorter (k + 1) := by
    rw [level, level, hleaves, hshorter, parents_append node _ _ heven,
      parents_append node _ _ heven]
    rfl
  rw [← root?_level node hlong, ← root?_level node hlonger, hparents]

/-- What does not lie below the twins is neither repeated nor a repetition. -/
theorem lt_of_div_ne {place : Nat} (h : RepeatsTail shorter leaves k position)
    (hplace : place < leaves.length) (hne : place / 2 ^ (k + 1) ≠ position) :
    place < 2 * position * 2 ^ k := by
  refine Nat.lt_of_not_le fun hbehind => hne ?_
  have hlength := h.length_eq
  rw [h.leaves_eq, List.length_append, List.length_drop, hlength] at hplace
  apply Nat.div_eq_of_lt_le
  · rw [Nat.pow_succ]
    lia
  · rw [Nat.pow_succ]
    lia

end RepeatsTail

/-- A node whose children are twins lies below the top of the tree. -/
theorem Twins.lt_height {node : α → α → α} {leaves : List α} {k position : Nat}
    (h : Twins node leaves k position) : k < height leaves.length := by
  obtain ⟨hash, -, hright⟩ := h
  have hwidth : 1 < width leaves.length k := by
    obtain ⟨hlt, -⟩ := List.getElem?_eq_some_iff.mp hright
    rw [length_level] at hlt
    omega
  rw [lt_width_iff, Nat.one_mul] at hwidth
  rw [← Nat.not_le, ← le_two_pow_iff, Nat.not_le]
  exact hwidth

namespace PartialTree

variable {node} {leaves : List α} {total k position : Nat} {tree : PartialTree α}

theorem lt_length_of_mem_positions
    (hmatched : tree.matched.map some = (tree.positions position).map (leaves[·]?)) {place : Nat}
    (hplace : place ∈ tree.positions position) : place < leaves.length := by
  have hmem : leaves[place]? ∈ tree.matched.map some := by
    rw [hmatched]
    exact List.mem_map_of_mem hplace
  obtain ⟨leaf, -, hleaf⟩ := List.mem_map.mp hmem
  exact (List.getElem?_eq_some_iff.mp hleaf.symm).1

/-! ## Nodes with children -/

/-- Where no joint collides, a partial tree with the hash of a node over some leaves
joins the hashes that the leaves' tree joins. -/
theorem children?_of_mem_joints (hfits : tree.Fits leaves.length k position)
    (hroot : nodeAt? node leaves k position = some (tree.root node))
    (hsafe : ∀ joint ∈ tree.joints node k position, ¬ joint.Collides node leaves) :
    ∀ joint ∈ tree.joints node k position,
      children? node leaves joint.height joint.position = some (joint.left, joint.right) := by
  induction tree generalizing k position with
  | leaf hash matched => exact List.forall_mem_nil _
  | pruned hash => exact List.forall_mem_nil _
  | single left ih =>
      obtain ⟨j, rfl, hlast, hleft⟩ := fits_single_iff.mp hfits
      obtain ⟨htop, hbelow⟩ := List.forall_mem_cons.mp hsafe
      rw [nodeAt?_succ] at hroot
      obtain ⟨⟨a, b⟩, hchildren, hhash⟩ := Option.map_eq_some_iff.mp hroot
      obtain ⟨ha, rfl⟩ := nodeAt?_of_children?_last hlast hchildren
      obtain rfl : left.root node = a := Classical.byContradiction fun hne =>
        htop ⟨a, a, hchildren, fun h => hne (Prod.mk.inj h).1, hhash.symm⟩
      exact List.forall_mem_cons.mpr ⟨hchildren, ih hleft ha hbelow⟩
  | pair left right ihl ihr =>
      obtain ⟨j, rfl, hinner, hleft, hright⟩ := fits_pair_iff.mp hfits
      obtain ⟨htop, hbelow⟩ := List.forall_mem_cons.mp hsafe
      obtain ⟨hbelowl, hbelowr⟩ := List.forall_mem_append.mp hbelow
      rw [nodeAt?_succ] at hroot
      obtain ⟨⟨a, b⟩, hchildren, hhash⟩ := Option.map_eq_some_iff.mp hroot
      obtain ⟨ha, hb⟩ := nodeAt?_of_children?_inner hinner hchildren
      obtain ⟨rfl, rfl⟩ : left.root node = a ∧ right.root node = b :=
        Classical.byContradiction fun hne =>
          htop ⟨a, b, hchildren, fun h => hne (Prod.mk.inj h), hhash.symm⟩
      exact List.forall_mem_cons.mpr ⟨hchildren,
        List.forall_mem_append.mpr ⟨ihl hleft ha hbelowl, ihr hright hb hbelowr⟩⟩

theorem div_of_mem_positions (hfits : tree.Fits total k position) {place : Nat}
    (hplace : place ∈ tree.positions position) : place / 2 ^ k = position := by
  obtain ⟨hlow, hhigh⟩ := bounds_of_mem_positions hfits hplace
  exact Nat.div_eq_of_lt_le hlow hhigh

/-- Above a matched leaf, every node up to the top has children. -/
theorem exists_joint_above (node : α → α → α) (hfits : tree.Fits total k position) {place : Nat}
    (hplace : place ∈ tree.positions position) {j : Nat} (hj : j < k) :
    ∃ joint ∈ tree.joints node k position,
      joint.height = j + 1 ∧ joint.position = place / 2 ^ (j + 1) := by
  induction tree generalizing k position with
  | leaf hash matched =>
      obtain rfl := fits_leaf_iff.mp hfits
      exact absurd hj (Nat.not_lt_zero j)
  | pruned hash => exact absurd hplace List.not_mem_nil
  | single left ih =>
      obtain ⟨i, rfl, -, hleft⟩ := fits_single_iff.mp hfits
      rcases Nat.lt_succ_iff_lt_or_eq.mp hj with hbelow | rfl
      · obtain ⟨joint, hmem, hjoint⟩ := ih hleft hplace hbelow
        exact ⟨joint, List.mem_cons_of_mem _ hmem, hjoint⟩
      · exact ⟨_, List.mem_cons_self, rfl, (div_of_mem_positions hfits hplace).symm⟩
  | pair left right ihl ihr =>
      obtain ⟨i, rfl, -, hleft, hright⟩ := fits_pair_iff.mp hfits
      rcases Nat.lt_succ_iff_lt_or_eq.mp hj with hbelow | rfl
      · rcases List.mem_append.mp hplace with hplace | hplace
        · obtain ⟨joint, hmem, hjoint⟩ := ihl hleft hplace hbelow
          exact ⟨joint, List.mem_cons_of_mem _ (List.mem_append_left _ hmem), hjoint⟩
        · obtain ⟨joint, hmem, hjoint⟩ := ihr hright hplace hbelow
          exact ⟨joint, List.mem_cons_of_mem _ (List.mem_append_right _ hmem), hjoint⟩
      · exact ⟨_, List.mem_cons_self, rfl, (div_of_mem_positions hfits hplace).symm⟩

/-- Without equal siblings, two children that are there have different hashes. -/
theorem right_ne_left_of_mem_joints (hfits : tree.Fits total k position)
    (hdistinct : tree.Distinct node) :
    ∀ joint ∈ tree.joints node k position,
      2 * joint.position + 1 < width total (joint.height - 1) → joint.right ≠ joint.left := by
  induction tree generalizing k position with
  | leaf hash matched => exact List.forall_mem_nil _
  | pruned hash => exact List.forall_mem_nil _
  | single left ih =>
      obtain ⟨j, rfl, hlast, hleft⟩ := fits_single_iff.mp hfits
      exact List.forall_mem_cons.mpr ⟨fun hinner => absurd hinner hlast, ih hleft hdistinct⟩
  | pair left right ihl ihr =>
      obtain ⟨j, rfl, -, hleft, hright⟩ := fits_pair_iff.mp hfits
      obtain ⟨dleft, dright, hne⟩ := hdistinct
      exact List.forall_mem_cons.mpr ⟨fun _ => hne,
        List.forall_mem_append.mpr ⟨ihl hleft dleft, ihr hright dright⟩⟩

/-- A partial tree without equal siblings that joins what the leaves' tree joins matches
no leaf below twins: the walk to it would join them. -/
theorem div_ne_of_twins (hfits : tree.Fits leaves.length k position)
    (hdistinct : tree.Distinct node)
    (hagree : ∀ joint ∈ tree.joints node k position,
      children? node leaves joint.height joint.position = some (joint.left, joint.right))
    {j place parent : Nat} (htwins : Twins node leaves j parent) (hj : j < k)
    (hplace : place ∈ tree.positions position) : place / 2 ^ (j + 1) ≠ parent := by
  rintro rfl
  obtain ⟨hash, hleft, hright⟩ := htwins
  obtain ⟨⟨height, above, a, b⟩, hmem, rfl, rfl⟩ := exists_joint_above node hfits hplace hj
  have hinner : 2 * (place / 2 ^ (j + 1)) + 1 < width leaves.length j := by
    obtain ⟨hlt, -⟩ := List.getElem?_eq_some_iff.mp hright
    rwa [length_level] at hlt
  obtain ⟨ha, hb⟩ := nodeAt?_of_children?_inner hinner (hagree _ hmem)
  refine right_ne_left_of_mem_joints hfits hdistinct _ hmem hinner ?_
  exact Option.some.inj ((hb.symm.trans hright).trans (hleft.symm.trans ha))

end PartialTree

end LightPeer.Merkle
