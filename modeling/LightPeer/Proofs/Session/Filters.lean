import LightPeer.Proofs.Session.Completion
import LightPeer.Proofs.Session.Counts
import LightPeer.Proofs.Session.Requests

/-! # A new filter starts the download over

Loading a filter forgets the block on its way, and nothing else. So whatever is
written down later comes from a message after the filter, while the transactions
that were asked for before still count as asked for when they come. -/

namespace LightPeer

open Session

/-! ## What was written down before -/

namespace Progress

/-- The same progress, made after other blocks were written down. -/
def behind (old : List Delivery) (progress : Progress) : Progress :=
  { progress with deliveries := old ++ progress.deliveries }

variable (old : List Delivery) (progress : Progress)

theorem collect_behind : (progress.behind old).collect = progress.collect.behind old := by
  simp only [collect, behind, List.append_assoc]

theorem react_behind (callback : Callback) :
    (progress.behind old).react callback = (progress.react callback).behind old := by
  cases callback with
  | merkleBlock block =>
      cases hmatched : block.matched with
      | error fault => rw [react_merkleBlock_error _ hmatched, react_merkleBlock_error _ hmatched]
      | ok txids =>
          rw [react_merkleBlock_ok _ hmatched, react_merkleBlock_ok _ hmatched, ← collect_behind]
          rfl
  | tx tx =>
      by_cases hasked : tx.id ∈ progress.requests
      · have hbehind : tx.id ∈ (progress.behind old).requests := hasked
        rw [react_tx_of_mem _ hbehind, react_tx_of_mem _ hasked, ← collect_behind]
        rfl
      · have hbehind : tx.id ∉ (progress.behind old).requests := hasked
        rw [react_tx_of_not_mem _ hbehind, react_tx_of_not_mem _ hasked]
  | _ => rfl

/-- No move looks at what was written down before. -/
theorem after_behind (move : Syncing.Move) :
    (progress.behind old).after move = (progress.after move).behind old := by
  cases hnews : move.news? with
  | some callback => rw [after_of_news _ hnews, after_of_news _ hnews, react_behind]
  | none =>
      unfold after
      rw [hnews]
      cases move <;> rfl

theorem foldl_behind (moves : List Syncing.Move) :
    moves.foldl after (progress.behind old) = (moves.foldl after progress).behind old := by
  induction moves generalizing progress with
  | nil => rfl
  | cons move moves ih => rw [List.foldl_cons, List.foldl_cons, after_behind, ih]

end Progress

namespace Syncing

variable {later : List Move} {progress : Progress}

/-- With no block on its way, only messages that are still to come complete blocks. -/
theorem Ledger.exists_fresh (hnone : progress.tracker.block = none) (later : List Move) :
    ∃ origins fresh, origins.Pairwise (· < ·) ∧
      (later.foldl Progress.after progress).deliveries = progress.deliveries ++ fresh ∧
      List.Forall₂ (fun origin delivery => ∃ txids, Exact later origin delivery txids)
        origins fresh := by
  let clean : Progress := { progress with deliveries := [] }
  have hinitial : Ledger [] [] clean := by
    refine ⟨.nil, nofun, .nil, fun block hblock => ?_⟩
    rw [hnone] at hblock
    exact nomatch hblock
  have hbehind : progress = clean.behind progress.deliveries := by
    simp [clean, Progress.behind]
  obtain ⟨origins, hledger⟩ := hinitial.foldl later
  refine ⟨origins, _, hledger.ordered, ?_, hledger.exact⟩
  rw [hbehind, Progress.foldl_behind]
  simp [clean, Progress.behind]

/-- What is asked for stays asked for until it comes. -/
theorem mem_requests_of_missing {txid : Hash} (hasked : txid ∈ progress.requests)
    (hmissing : txid ∉ (arrivals later).map Tx.id) :
    txid ∈ (later.foldl Progress.after progress).requests := by
  have hother : ∀ move ∈ later, ∀ tx, move.arrival? = some tx → tx.id ≠ txid := by
    intro move hmem tx harrival hid
    exact hmissing (List.mem_map.mpr ⟨tx, List.mem_filterMap.mpr ⟨move, hmem, harrival⟩, hid⟩)
  clear hmissing
  induction later generalizing progress with
  | nil => exact hasked
  | cons move later ih =>
      rw [List.forall_mem_cons] at hother
      exact ih (mem_requests_after.mpr (.inr ⟨hasked, hother.1⟩)) hother.2

/-! ## Loading a filter -/

/-- A session before a filter was loaded, and right after it. -/
structure StartsOver (syncing loaded : Syncing) : Prop where
  books : loaded.session.books =
    { syncing.session.books with trackers := syncing.session.trackers.install .empty }
  memory : loaded.memory = syncing.memory
  /-- What is written down later comes from messages of increasing numbers after the filter. -/
  deliveries : ∀ later, ∃ origins fresh, origins.Pairwise (· < ·) ∧
    Client.deliveries (loaded.play later).memory = Client.deliveries syncing.memory ++ fresh ∧
    List.Forall₂ (fun origin delivery => ∃ txids, Exact later origin delivery txids) origins fresh
  /-- A transaction that was asked for before and comes late is no false positive. -/
  recognised : ∀ later tx, tx.id ∈ syncing.session.requests →
    tx.id ∉ (arrivals later).map Tx.id →
      tx.id ∈ (loaded.play later).session.requests ∧
        ((loaded.play later).after (.receive (.tx tx) none)).session.tally =
          (loaded.play later).session.tally.record false

/-- The block that was on its way is forgotten. -/
def forgotten (syncing : Syncing) : Progress := { syncing.progress with tracker := .empty }

theorem progress_play_loadFilter (syncing : Syncing) (filter : Filter) (later : List Move) :
    ((syncing.after (.loadFilter filter)).play later).progress =
      later.foldl Progress.after syncing.forgotten := by
  rw [progress_play, progress_after]
  rfl

/-- Whether or not the filter gets out, loading it starts the download over. -/
theorem loadFilter_startsOver (syncing : Syncing) (filter : Filter) :
    StartsOver syncing (syncing.after (.loadFilter filter)) := by
  have hprogress := progress_play_loadFilter syncing filter
  refine ⟨books_loadFilter syncing.session filter, rfl, ?_, ?_⟩
  · intro later
    have hfresh := Ledger.exists_fresh (show syncing.forgotten.tracker.block = none from rfl) later
    rw [← hprogress] at hfresh
    exact hfresh
  · intro later tx hasked hmissing
    have hkept : tx.id ∈ (later.foldl Progress.after syncing.forgotten).requests :=
      mem_requests_of_missing hasked hmissing
    rw [← hprogress] at hkept
    refine ⟨hkept, (tally_after _ _).trans ?_⟩
    exact congrArg (Tally.record _) (decide_eq_false (not_not_intro hkept))

/-- A filter does not get out while a block is on its way. The transaction of the block
comes late and counts as asked for, but the block is written down only when it comes anew. -/
theorem loadFilter_startsOver_unsent :
    let payment : Tx := ⟨[1]⟩
    let block : MerkleBlock := ⟨⟨1, .zero, payment.id, 0, 0, 0⟩, 1, [payment.id], [1]⟩
    let opening : Move := .receive (.merkleBlock block) none
    let late : Move := .receive (.tx payment) none
    let syncing := (start (.v4 ⟨127, 0, 0, 1⟩ 8333) 0 {} 0).play [opening, .refuse (some .linkDown)]
    let loaded := syncing.after (.loadFilter ⟨[1], 1, 0, 0⟩)
    syncing.session.trackers.now.block = some block ∧ payment.id ∈ syncing.session.requests ∧
      StartsOver syncing loaded ∧
      (loaded.after late).session.tally = loaded.session.tally.record false ∧
      Client.deliveries (loaded.play [late]).memory = [] ∧
      Client.deliveries (loaded.play [late, opening, late]).memory = [⟨block, [payment]⟩] := by
  intro payment block opening late syncing loaded
  have hmain := loadFilter_startsOver syncing ⟨[1], 1, 0, 0⟩
  have hbefore : syncing.session.trackers.now.block = some block ∧
      payment.id ∈ syncing.session.requests := by decide +kernel
  have hafter : Client.deliveries (loaded.play [late]).memory = [] ∧
      Client.deliveries (loaded.play [late, opening, late]).memory = [⟨block, [payment]⟩] := by
    decide +kernel
  exact ⟨hbefore.1, hbefore.2, hmain, (hmain.recognised [] payment hbefore.2 List.not_mem_nil).2,
    hafter⟩

end Syncing

end LightPeer
