import Mathlib.Data.List.Sort
import LightPeer.Proofs.Merkle.Soundness

/-! # Partial trees with the same root

Two partial trees of the same shape may cut down different parts. If their top nodes
have the same hash, they agree wherever both have a node, unless a node with children
in both joins different hashes and hashes them alike. No list of leaves is needed to
compare them. -/

namespace LightPeer.Merkle

namespace PartialTree

variable {α : Type}

/-- A node of a partial tree: where it is, and its hash. -/
structure Spot (α : Type) where
  height : Nat
  position : Nat
  hash : α
deriving DecidableEq, Repr

/-- All nodes that a walk visits, for a tree whose top node is at a height and position. -/
def spots (node : α → α → α) : PartialTree α → Nat → Nat → List (Spot α)
  | leaf hash _, height, position => [⟨height, position, hash⟩]
  | pruned hash, height, position => [⟨height, position, hash⟩]
  | single left, height, position =>
    ⟨height, position, node (left.root node) (left.root node)⟩ ::
      left.spots node (height - 1) (2 * position)
  | pair left right, height, position =>
    ⟨height, position, node (left.root node) (right.root node)⟩ ::
      (left.spots node (height - 1) (2 * position) ++
        right.spots node (height - 1) (2 * position + 1))

/-- The matched leaves, each with its position. -/
def report : PartialTree α → Nat → List (Nat × α)
  | leaf hash matched, position => if matched then [(position, hash)] else []
  | pruned _, _ => []
  | single left, position => left.report (2 * position)
  | pair left right, position => left.report (2 * position) ++ right.report (2 * position + 1)

/-- The two trees have the same hash at every place at which both have a node. -/
def Agree (node : α → α → α) (s t : PartialTree α) (k position : Nat) : Prop :=
  ∀ spot ∈ s.spots node k position, ∀ other ∈ t.spots node k position,
    spot.height = other.height → spot.position = other.position → spot.hash = other.hash

/-- Two nodes at one place join different hashes, but their parents have the same hash. -/
structure Joint.Clashes (node : α → α → α) (joint other : Joint α) : Prop where
  height_eq : joint.height = other.height
  position_eq : joint.position = other.position
  ne : (joint.left, joint.right) ≠ (other.left, other.right)
  node_eq : node joint.left joint.right = node other.left other.right

variable {node : α → α → α} {total k position : Nat} {tree : PartialTree α}

/-! ## What is reported -/

theorem map_fst_report (tree : PartialTree α) (position : Nat) :
    (tree.report position).map Prod.fst = tree.positions position := by
  induction tree generalizing position with
  | leaf hash matched => cases matched <;> rfl
  | pruned hash => rfl
  | single left ih => exact ih _
  | pair left right ihl ihr => simp [report, positions, ihl, ihr]

theorem map_snd_report (tree : PartialTree α) (position : Nat) :
    (tree.report position).map Prod.snd = tree.matched := by
  induction tree generalizing position with
  | leaf hash matched => cases matched <;> rfl
  | pruned hash => rfl
  | single left ih => exact ih _
  | pair left right ihl ihr => simp [report, matched, ihl, ihr]

/-- A matched leaf is a node at height zero. -/
theorem mem_spots_of_mem_report (node : α → α → α) (hfits : tree.Fits total k position)
    {place : Nat} {hash : α} (h : (place, hash) ∈ tree.report position) :
    ⟨0, place, hash⟩ ∈ tree.spots node k position := by
  induction tree generalizing k position with
  | leaf leaf matched =>
      obtain rfl := fits_leaf_iff.mp hfits
      cases matched with
      | false => exact absurd h List.not_mem_nil
      | true =>
          cases List.mem_singleton.mp h
          exact List.mem_singleton_self _
  | pruned hash => exact absurd h List.not_mem_nil
  | single left ih =>
      obtain ⟨j, rfl, -, hleft⟩ := fits_single_iff.mp hfits
      exact List.mem_cons_of_mem _ (ih hleft h)
  | pair left right ihl ihr =>
      obtain ⟨j, rfl, -, hleft, hright⟩ := fits_pair_iff.mp hfits
      apply List.mem_cons_of_mem
      rcases List.mem_append.mp h with h | h
      · exact List.mem_append_left _ (ihl hleft h)
      · exact List.mem_append_right _ (ihr hright h)

/-! ## Where the nodes are -/

/-- A node stands at another one or below it. -/
def Spot.Below (spot : Spot α) (height position : Nat) : Prop :=
  spot.height ≤ height ∧ spot.position / 2 ^ (height - spot.height) = position

theorem Spot.below_self (height position : Nat) (hash : α) :
    Spot.Below ⟨height, position, hash⟩ height position := by
  simp [Below]

theorem Spot.Below.parent {spot : Spot α} {child : Nat} (h : spot.Below k child)
    (hchild : child / 2 = position) : spot.Below (k + 1) position := by
  obtain ⟨hheight, hposition⟩ := h
  refine ⟨Nat.le_succ_of_le hheight, ?_⟩
  rw [Nat.succ_sub hheight, Nat.pow_succ, ← Nat.div_div_eq_div_mul, hposition, hchild]

/-- What stands below different children stands at different places. -/
theorem Spot.Below.eq_of_eq {spot other : Spot α} {child child' : Nat} (h : spot.Below k child)
    (h' : other.Below k child') (hheight : spot.height = other.height)
    (hposition : spot.position = other.position) : child = child' := by
  rw [← h.2, ← h'.2, hheight, hposition]

theorem below_of_mem_spots (hfits : tree.Fits total k position) :
    ∀ spot ∈ tree.spots node k position, spot.Below k position := by
  induction tree generalizing k position with
  | leaf hash matched => exact List.forall_mem_singleton.mpr (Spot.below_self k position hash)
  | pruned hash => exact List.forall_mem_singleton.mpr (Spot.below_self k position hash)
  | single left ih =>
      obtain ⟨j, rfl, -, hleft⟩ := fits_single_iff.mp hfits
      refine List.forall_mem_cons.mpr ⟨Spot.below_self _ _ _, ?_⟩
      intro spot hmem
      exact (ih hleft spot hmem).parent (by omega)
  | pair left right ihl ihr =>
      obtain ⟨j, rfl, -, hleft, hright⟩ := fits_pair_iff.mp hfits
      refine List.forall_mem_cons.mpr ⟨Spot.below_self _ _ _, List.forall_mem_append.mpr ⟨?_, ?_⟩⟩
      · intro spot hmem
        exact (ihl hleft spot hmem).parent (by omega)
      · intro spot hmem
        exact (ihr hright spot hmem).parent (by omega)

/-- The one node at the height of the top is the top. -/
theorem hash_eq_root (hfits : tree.Fits total k position) {spot : Spot α}
    (hmem : spot ∈ tree.spots node k position) (hheight : spot.height = k) :
    spot.hash = tree.root node := by
  cases tree with
  | leaf hash matched => rw [List.mem_singleton.mp hmem]; rfl
  | pruned hash => rw [List.mem_singleton.mp hmem]; rfl
  | single left =>
      obtain ⟨j, rfl, -, hleft⟩ := fits_single_iff.mp hfits
      rcases List.mem_cons.mp hmem with rfl | hmem
      · rfl
      · have hlow := (below_of_mem_spots hleft spot hmem).1
        omega
  | pair left right =>
      obtain ⟨j, rfl, -, hleft, hright⟩ := fits_pair_iff.mp hfits
      rcases List.mem_cons.mp hmem with rfl | hmem
      · rfl
      · rcases List.mem_append.mp hmem with hmem | hmem
        · have hlow := (below_of_mem_spots hleft spot hmem).1
          omega
        · have hlow := (below_of_mem_spots hright spot hmem).1
          omega

/-! ## Agreement -/

/-- Joints at one place that do not clash join the same hashes if their parents are equal. -/
theorem Joint.eq_of_not_clashes {height : Nat} {a b c d : α}
    (hsafe : ¬ Joint.Clashes node ⟨height, position, a, b⟩ ⟨height, position, c, d⟩)
    (hnode : node a b = node c d) : a = c ∧ b = d :=
  Classical.byContradiction fun hne => hsafe ⟨rfl, rfl, fun h => hne (Prod.mk.inj h), hnode⟩

variable {s t : PartialTree α} {spot other : Spot α}

theorem hash_eq_of_top (hs : s.Fits total k position) (ht : t.Fits total k position)
    (hroot : s.root node = t.root node) (hspot : spot ∈ s.spots node k position)
    (hother : other ∈ t.spots node k position) (hheight : spot.height = other.height)
    (htop : spot.height = k) : spot.hash = other.hash := by
  rw [hash_eq_root hs hspot htop, hash_eq_root ht hother (hheight.symm.trans htop), hroot]

/-- A node that is lower than the top stands below a child. -/
theorem Spot.mem_of_lt {top : Spot α} {rest : List (Spot α)} (hmem : spot ∈ top :: rest)
    (hlow : spot.height < top.height) : spot ∈ rest :=
  (List.mem_cons.mp hmem).resolve_left fun h => Nat.lt_irrefl _ (h ▸ hlow)

/-- Where no joints clash, trees with the same root have the same hash at every place at
which both have a node. -/
theorem hash_eq_of_mem_spots (hs : s.Fits total k position) (ht : t.Fits total k position)
    (hroot : s.root node = t.root node)
    (hsafe : ∀ joint ∈ s.joints node k position, ∀ joint' ∈ t.joints node k position,
      ¬ joint.Clashes node joint') (hspot : spot ∈ s.spots node k position)
    (hother : other ∈ t.spots node k position) (hheight : spot.height = other.height)
    (hposition : spot.position = other.position) : spot.hash = other.hash := by
  induction s generalizing t k position with
  | leaf hash matched =>
      have htop : spot.height = k := by rw [List.mem_singleton.mp hspot]
      exact hash_eq_of_top hs ht hroot hspot hother hheight htop
  | pruned hash =>
      have htop : spot.height = k := by rw [List.mem_singleton.mp hspot]
      exact hash_eq_of_top hs ht hroot hspot hother hheight htop
  | single left ih =>
      rcases List.mem_cons.mp hspot with rfl | hbelow
      · exact hash_eq_of_top hs ht hroot hspot hother hheight rfl
      obtain ⟨j, rfl, hlast, hleft⟩ := fits_single_iff.mp hs
      have hlow := Nat.lt_succ_of_le (below_of_mem_spots hleft spot hbelow).1
      cases t with
      | leaf hash matched => exact ht.elim
      | pruned hash =>
          rw [hheight, List.mem_singleton.mp hother] at hlow
          exact absurd hlow (Nat.lt_irrefl _)
      | single left' =>
          obtain ⟨_, hj, -, hleft'⟩ := fits_single_iff.mp ht
          cases hj
          have hbelow' := Spot.mem_of_lt hother (hheight ▸ hlow)
          have htops := hsafe _ List.mem_cons_self _ List.mem_cons_self
          refine ih hleft hleft' (Joint.eq_of_not_clashes htops hroot).1 ?_ hbelow hbelow'
          intro joint hjoint joint' hjoint'
          exact hsafe _ (List.mem_cons_of_mem _ hjoint) _ (List.mem_cons_of_mem _ hjoint')
      | pair left' right' =>
          obtain ⟨_, hj, hinner, -⟩ := fits_pair_iff.mp ht
          cases hj
          exact absurd hinner hlast
  | pair left right ihl ihr =>
      rcases List.mem_cons.mp hspot with rfl | hbelow
      · exact hash_eq_of_top hs ht hroot hspot hother hheight rfl
      obtain ⟨j, rfl, hinner, hleft, hright⟩ := fits_pair_iff.mp hs
      have hlow : spot.height < j + 1 := by
        rcases List.mem_append.mp hbelow with hmem | hmem
        · exact Nat.lt_succ_of_le (below_of_mem_spots hleft spot hmem).1
        · exact Nat.lt_succ_of_le (below_of_mem_spots hright spot hmem).1
      cases t with
      | leaf hash matched => exact ht.elim
      | pruned hash =>
          rw [hheight, List.mem_singleton.mp hother] at hlow
          exact absurd hlow (Nat.lt_irrefl _)
      | single left' =>
          obtain ⟨_, hj, hlast, -⟩ := fits_single_iff.mp ht
          cases hj
          exact absurd hinner hlast
      | pair left' right' =>
          obtain ⟨_, hj, -, hleft', hright'⟩ := fits_pair_iff.mp ht
          cases hj
          have hbelow' := Spot.mem_of_lt hother (hheight ▸ hlow)
          have htops := hsafe _ List.mem_cons_self _ List.mem_cons_self
          obtain ⟨hsame, hsame'⟩ := Joint.eq_of_not_clashes htops hroot
          -- One place cannot lie below both children.
          rcases List.mem_append.mp hbelow with hmem | hmem <;>
            rcases List.mem_append.mp hbelow' with hmem' | hmem'
          · refine ihl hleft hleft' hsame ?_ hmem hmem'
            intro joint hjoint joint' hjoint'
            exact hsafe _ (List.mem_cons_of_mem _ (List.mem_append_left _ hjoint)) _
              (List.mem_cons_of_mem _ (List.mem_append_left _ hjoint'))
          · have hchild := (below_of_mem_spots hleft spot hmem).eq_of_eq
              (below_of_mem_spots hright' other hmem') hheight hposition
            omega
          · have hchild := (below_of_mem_spots hright spot hmem).eq_of_eq
              (below_of_mem_spots hleft' other hmem') hheight hposition
            omega
          · refine ihr hright hright' hsame' ?_ hmem hmem'
            intro joint hjoint joint' hjoint'
            exact hsafe _ (List.mem_cons_of_mem _ (List.mem_append_right _ hjoint)) _
              (List.mem_cons_of_mem _ (List.mem_append_right _ hjoint'))

/-! ## Common matches -/

theorem Agree.symm (h : Agree node s t k position) : Agree node t s k position :=
  fun other hother spot hspot hheight hposition =>
    (h spot hspot other hother hheight.symm hposition.symm).symm

/-- A leaf that both match is reported alike. -/
theorem Agree.mem_report (h : Agree node s t k position) (hs : s.Fits total k position)
    (ht : t.Fits total k position) {entry : Nat × α} (hentry : entry ∈ s.report position)
    (hplace : entry.1 ∈ t.positions position) : entry ∈ t.report position := by
  obtain ⟨place, hash⟩ := entry
  rw [← map_fst_report] at hplace
  obtain ⟨⟨_, other⟩, hother, rfl⟩ := List.mem_map.mp hplace
  have hsame : hash = other := h _ (mem_spots_of_mem_report node hs hentry) _
    (mem_spots_of_mem_report node ht hother) rfl rfl
  rwa [hsame]

/-- The leaves that both match stand in both reports alike, and in the same order. -/
theorem Agree.filter_report (h : Agree node s t k position) (hs : s.Fits total k position)
    (ht : t.Fits total k position) :
    (s.report position).filter (·.1 ∈ t.positions position) =
      (t.report position).filter (·.1 ∈ s.positions position) := by
  let before : Nat × α → Nat × α → Prop := fun a b => a.1 < b.1
  have hirrefl : Std.Irrefl before := ⟨fun a => Nat.lt_irrefl a.1⟩
  have hantisymm : Std.Antisymm before := ⟨fun a b hab hba => absurd hab (Nat.lt_asymm hba)⟩
  have hsorted {tree : PartialTree α} (hfits : tree.Fits total k position) (keep : Nat × α → Bool) :
      ((tree.report position).filter keep).Pairwise before := by
    refine List.Pairwise.filter keep ?_
    rw [← List.pairwise_map, map_fst_report]
    exact positions_pairwise hfits
  refine List.Pairwise.eq_of_mem_iff (hsorted hs _) (hsorted ht _) fun entry => ?_
  simp only [List.mem_filter, decide_eq_true_eq, ← map_fst_report]
  constructor
  · rintro ⟨hentry, hplace⟩
    rw [map_fst_report] at hplace
    exact ⟨h.mem_report hs ht hentry hplace, List.mem_map_of_mem hentry⟩
  · rintro ⟨hentry, hplace⟩
    rw [map_fst_report] at hplace
    exact ⟨h.symm.mem_report ht hs hentry hplace, List.mem_map_of_mem hentry⟩

end PartialTree

end LightPeer.Merkle
