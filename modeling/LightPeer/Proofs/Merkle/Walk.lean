import LightPeer.Proofs.Merkle.PartialTree

/-! # What the walk accepts

The walk reads the fitting trees without equal siblings, and nothing else; what
is read as a whole is such a tree with less than a byte of flags behind it. -/

namespace LightPeer.Merkle

open PartialTree

variable {α : Type} [DecidableEq α] (node : α → α → α) (total : Nat)

/-! ## One node -/

/-- A set flag above the leaves sends the walk to the children that are there. -/
theorem walk_expand (k position : Nat) (unread : Unread α) :
    walk node total (k + 1) position unread.expand = (do
      let left ← walk node total k (2 * position) unread
      if 2 * position + 1 < width total k then
        let right ← walk node total k (2 * position + 1) left.rest
        if right.root = left.root then .error .equalSiblings
        else .ok ⟨node left.root right.root, left.matched ++ right.matched, right.rest⟩
      else .ok ⟨node left.root left.root, left.matched, left.rest⟩) := by
  rw [Unread.expand, walk]

theorem walk_expand_iff {k position : Nat} {unread : Unread α} {visit : Visit α} :
    walk node total (k + 1) position unread.expand = .ok visit ↔
      ∃ left, walk node total k (2 * position) unread = .ok left ∧
        ((¬ 2 * position + 1 < width total k ∧
            visit = ⟨node left.root left.root, left.matched, left.rest⟩) ∨
          (2 * position + 1 < width total k ∧
            ∃ right, walk node total k (2 * position + 1) left.rest = .ok right ∧
              right.root ≠ left.root ∧
              visit = ⟨node left.root right.root, left.matched ++ right.matched, right.rest⟩)) := by
  rw [walk_expand]
  cases hleft : walk node total k (2 * position) unread with
  | error defect => simp [bind, Except.bind]
  | ok left =>
      by_cases hinner : 2 * position + 1 < width total k
      · cases hright : walk node total k (2 * position + 1) left.rest with
        | error defect => simp [bind, Except.bind, hinner, hright]
        | ok right =>
            by_cases heq : right.root = left.root
            · simp [bind, Except.bind, hinner, hright, heq]
            · simp [bind, Except.bind, hinner, hright, heq, @eq_comm _ visit]
      · simp [bind, Except.bind, hinner, @eq_comm _ visit]

/-- The walk reads back every tree that fits and has no equal siblings. -/
theorem walk_writtenBefore {tree : PartialTree α} {k position : Nat}
    (hfits : tree.Fits total k position) (hdistinct : tree.Distinct node) (rest : Unread α) :
    walk node total k position (tree.writtenBefore rest) = .ok (tree.visit node rest) := by
  induction tree generalizing k position rest with
  | leaf hash matched =>
      obtain rfl := fits_leaf_iff.mp hfits
      cases matched <;> rfl
  | pruned hash =>
      obtain ⟨j, rfl⟩ := fits_pruned_iff.mp hfits
      rfl
  | single left ih =>
      obtain ⟨j, rfl, hlast, hleft⟩ := fits_single_iff.mp hfits
      rw [writtenBefore_single, walk_expand_iff]
      exact ⟨_, ih hleft hdistinct rest, .inl ⟨hlast, rfl⟩⟩
  | pair left right ihl ihr =>
      obtain ⟨j, rfl, hinner, hleft, hright⟩ := fits_pair_iff.mp hfits
      obtain ⟨dleft, dright, hne⟩ := hdistinct
      rw [writtenBefore_pair, walk_expand_iff]
      exact ⟨_, ihl hleft dleft (right.writtenBefore rest),
        .inr ⟨hinner, _, ihr hright dright rest, hne, rfl⟩⟩

/-- Whatever the walk accepts is the writing of such a tree. -/
theorem exists_tree_of_walk {k position : Nat} {unread : Unread α} {visit : Visit α}
    (h : walk node total k position unread = .ok visit) :
    ∃ tree : PartialTree α, tree.Fits total k position ∧ tree.Distinct node ∧
      unread = tree.writtenBefore visit.rest ∧ visit = tree.visit node visit.rest := by
  induction k generalizing position unread visit with
  | zero =>
      rcases unread with ⟨_ | ⟨flag, flags⟩, _ | ⟨hash, hashes⟩⟩
      · cases h
      · cases h
      · simp [walk] at h
      · cases h
        exact ⟨leaf hash flag, trivial, trivial, rfl, by cases flag <;> rfl⟩
  | succ k ih =>
      rcases unread with ⟨_ | ⟨_ | _, flags⟩, hashes⟩
      · cases h
      · rcases hashes with _ | ⟨hash, hashes⟩
        · cases h
        · cases h
          exact ⟨pruned hash, trivial, trivial, rfl, rfl⟩
      · obtain ⟨left, hl, ⟨hlast, rfl⟩ | ⟨hinner, right, hr, hne, rfl⟩⟩ :=
          (@walk_expand_iff _ _ node total _ _ ⟨flags, hashes⟩ _).mp h
        · obtain ⟨tree, hfits, hdistinct, hwritten, hvisit⟩ := ih hl
          refine ⟨single tree, fits_single_iff.mpr ⟨k, rfl, hlast, hfits⟩, hdistinct, ?_, ?_⟩
          · rw [writtenBefore_single, ← hwritten]
            rfl
          · rw [hvisit]
            rfl
        · obtain ⟨ltree, lfits, ldistinct, lwritten, lvisit⟩ := ih hl
          obtain ⟨rtree, rfits, rdistinct, rwritten, rvisit⟩ := ih hr
          rw [lvisit, rvisit] at hne
          refine ⟨pair ltree rtree, fits_pair_iff.mpr ⟨k, rfl, hinner, lfits, rfits⟩,
            ⟨ldistinct, rdistinct, hne⟩, ?_, ?_⟩
          · rw [writtenBefore_pair, ← rwritten, ← lwritten]
            rfl
          · rw [lvisit, rvisit]
            rfl

/-! ## The whole tree -/

/-- The tests before the walk turn nothing away that the walk would accept, but
for numbers of transactions that no block has. -/
theorem read_eq_ok_iff {hashes : List α} {bytes : Bytes} {root : α} {matched : List α} :
    read node total hashes bytes = .ok (root, matched) ↔
      0 < total ∧ total ≤ maxTransactions ∧
        ∃ tree : PartialTree α, ∃ padding : List Bool,
          tree.Fits total (height total) 0 ∧ tree.Distinct node ∧
          hashes = tree.hashes ∧ bytes.flatMap Bytes.bitsLE = tree.flags ++ padding ∧
          padding.length < 8 ∧ tree.root node = root ∧ tree.matched = matched := by
  constructor
  · intro h
    unfold read at h
    split at h
    · cases h
    split at h
    · cases h
    split at h
    · cases h
    split at h
    · cases h
    rename_i hsome hmax _ _
    cases hwalk : walk node total (height total) 0 ⟨bytes.flatMap Bytes.bitsLE, hashes⟩ with
    | error defect => simp [hwalk, bind, Except.bind] at h
    | ok top =>
        simp only [hwalk, bind, Except.bind] at h
        split at h
        · cases h
        split at h
        · cases h
        rename_i hflags hhashes
        cases h
        obtain ⟨tree, hfits, hdistinct, hwritten, hvisit⟩ := exists_tree_of_walk node total hwalk
        have hused : top.rest.hashes = [] := List.length_eq_zero_iff.mp (by omega)
        refine ⟨by omega, by omega, tree, top.rest.flags, hfits, hdistinct, ?_,
          congrArg Unread.flags hwritten, by omega, ?_, ?_⟩
        · simpa [writtenBefore, hused] using congrArg Unread.hashes hwritten
        · exact (congrArg Visit.root hvisit).symm
        · exact (congrArg Visit.matched hvisit).symm
  · rintro ⟨hsome, hmax, tree, padding, hfits, hdistinct, rfl, hbits, hpadding, rfl, rfl⟩
    have hflags : 8 * bytes.length = tree.flags.length + padding.length := by
      rw [← Bytes.length_flatMap_bitsLE, hbits, List.length_append]
    have hfew := tree.length_hashes_le_flags
    have hleaves : tree.hashes.length ≤ total := length_hashes_le_total hsome hfits
    have hwalk : walk node total (height total) 0 ⟨bytes.flatMap Bytes.bitsLE, tree.hashes⟩ =
        .ok (tree.visit node ⟨padding, []⟩) := by
      rw [hbits, ← walk_writtenBefore node total hfits hdistinct ⟨padding, []⟩]
      simp [writtenBefore]
    rw [read, if_neg (by omega), if_neg (by omega), if_neg (by omega), if_neg (by omega), hwalk]
    have hbyte : ¬ 8 ≤ padding.length := by omega
    simp [bind, Except.bind, visit, hbyte]

end LightPeer.Merkle
