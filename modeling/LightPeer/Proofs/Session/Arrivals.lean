import LightPeer.Proofs.Session.Completion

/-! # A block completes in every order of arrival

Once a block with a good proof came, it is written down at the very move at
which the last of its matched transactions arrives, whatever else happens in
between, as long as no other such block takes over and no filter is loaded. -/

namespace LightPeer

namespace Syncing

open Move

/-- A move that leaves the block on its way. -/
structure Move.Spares (move : Move) : Prop where
  block : ∀ block txids, move.news? = some (.merkleBlock block) → block.matched ≠ .ok txids
  filter : ∀ filter, move ≠ .loadFilter filter

/-- Every one of some transactions arrived. -/
def Complete (txids : List Hash) (moves : List Move) : Prop :=
  ∀ txid ∈ txids, txid ∈ (arrivals moves).map Tx.id

instance (txids : List Hash) (moves : List Move) : Decidable (Complete txids moves) :=
  inferInstanceAs (Decidable (∀ txid ∈ txids, txid ∈ (arrivals moves).map Tx.id))

variable {block : MerkleBlock} {txids : List Hash} {old : List Delivery} {later : List Move}
  {progress next : Progress} {move : Move}

theorem Complete.append (h : Complete txids later) (more : List Move) :
    Complete txids (later ++ more) := by
  intro txid hmem
  unfold arrivals
  rw [List.filterMap_append, List.map_append]
  exact List.mem_append_left _ (h txid hmem)

/-- The move at which the block comes, and the client acts on it. -/
abbrev Move.opening (block : MerkleBlock) : Move := .receive (.merkleBlock block) none

theorem after_opening (progress : Progress) (block : MerkleBlock) :
    progress.after (opening block) = progress.react (.merkleBlock block) :=
  progress.after_of_news rfl

/-- The block on its way: something is missing and it is tracked, or it was
written down and nothing is tracked any more. -/
inductive Stage (block : MerkleBlock) (txids : List Hash) (old : List Delivery)
    (later : List Move) (progress : Progress) : Prop where
  | waiting
      (tracks : Tracks (opening block :: later) 0 block txids progress.tracker progress.requests)
      (held : progress.tracker.block = some block)
      (missing : ∃ txid, txid ∈ progress.tracker.expected)
      (same : progress.deliveries = old)
  | done {txs : List Tx} (gone : progress.tracker.block = none)
      (exact : Exact (opening block :: later) 0 ⟨block, txs⟩ txids)
      (delivered : progress.deliveries = old ++ [⟨block, txs⟩])

namespace Stage

/-! ## One move -/

/-- A tracked block is written down if nothing is missing. -/
theorem collect
    (tracks : Tracks (opening block :: later) 0 block txids progress.tracker progress.requests)
    (held : progress.tracker.block = some block) (same : progress.deliveries = old) :
    Stage block txids old later progress.collect := by
  by_cases hdone : progress.tracker.expected.isEmpty
  · rw [Progress.collect_of_isEmpty held hdone]
    exact .done rfl (tracks.exact hdone) (by rw [same])
  · have hmissing : ∃ txid, txid ∈ progress.tracker.expected := by simpa using hdone
    obtain ⟨txid, hmem⟩ := hmissing
    rw [Progress.collect_of_mem hmem]
    exact .waiting tracks held ⟨txid, hmem⟩ same

theorem opened (progress : Progress) (hmatched : block.matched = .ok txids) :
    Stage block txids progress.deliveries [] (progress.after (opening block)) := by
  rw [after_opening, progress.react_merkleBlock_ok hmatched]
  exact collect (.opened [] rfl hmatched progress.requests) rfl rfl

/-- Where no transaction arrives, it only matters that nothing is forgotten. -/
theorem quiet (h : Stage block txids old later progress) (hquiet : move.arrival? = none)
    (htracker : next.tracker = progress.tracker) (hdeliveries : next.deliveries = progress.deliveries)
    (hrequests : ∀ txid, txid ∈ progress.requests → txid ∈ next.requests) :
    Stage block txids old (later ++ [move]) next := by
  cases h with
  | waiting tracks held missing same =>
      have htracks := tracks.quiet hquiet
      refine .waiting ?_ (htracker ▸ held) (htracker ▸ missing) (hdeliveries.trans same)
      rw [htracker]
      refine { htracks with asked := ?_ }
      intro txid hmem
      exact hrequests txid (htracks.asked txid hmem)
  | done gone exact delivered =>
      exact .done (htracker ▸ gone) (exact.append move) (hdeliveries.trans delivered)

theorem tx (h : Stage block txids old later progress) {tx : Tx}
    (hnews : move.news? = some (.tx tx)) :
    Stage block txids old (later ++ [move]) (progress.react (.tx tx)) := by
  have harrival := arrival?_eq_some hnews
  by_cases hasked : tx.id ∈ progress.requests
  · rw [progress.react_tx_of_mem hasked]
    cases h with
    | waiting tracks held missing same =>
        refine collect (tracks.settle harrival) ?_ same
        rwa [BlockTracker.block_settle]
    | done gone exact delivered =>
        rw [Progress.collect_of_none (by rwa [BlockTracker.block_settle])]
        exact .done (by rwa [BlockTracker.block_settle]) (exact.append move) delivered
  · rw [progress.react_tx_of_not_mem hasked]
    cases h with
    | waiting tracks held missing same =>
        have hother : tx.id ∉ progress.tracker.expected := fun hmem => hasked (tracks.asked _ hmem)
        exact .waiting (tracks.unexpected harrival hother) held missing same
    | done gone exact delivered => exact .done gone (exact.append move) delivered

theorem after (h : Stage block txids old later progress) (hspares : move.Spares) :
    Stage block txids old (later ++ [move]) (progress.after move) := by
  cases hnews : move.news? with
  | some callback =>
      rw [progress.after_of_news hnews]
      cases callback with
      | tx tx => exact h.tx hnews
      | merkleBlock other =>
          have hquiet : move.arrival? = none := arrival?_eq_none (by simp [hnews])
          cases hmatched : other.matched with
          | error fault =>
              rw [progress.react_merkleBlock_error hmatched]
              exact h.quiet hquiet rfl rfl fun _ => id
          | ok others => exact absurd hmatched (hspares.block other others hnews)
      | _ =>
          have hquiet : move.arrival? = none := arrival?_eq_none (by simp [hnews])
          exact h.quiet hquiet rfl rfl fun _ => id
  | none =>
      have hquiet : move.arrival? = none := arrival?_eq_none (by simp [hnews])
      unfold Progress.after
      rw [hnews]
      cases move with
      | requestTxs asked =>
          refine h.quiet hquiet rfl rfl ?_
          intro txid hmem
          exact FiniteSet.mem_insertAll.mpr (.inr hmem)
      | loadFilter filter => exact absurd rfl (hspares.filter filter)
      | _ => exact h.quiet hquiet rfl rfl fun _ => id

/-! ## Any number of moves -/

theorem foldl (h : Stage block txids old [] progress) (hspares : ∀ move ∈ later, move.Spares) :
    Stage block txids old later (later.foldl Progress.after progress) := by
  induction later using List.reverseRecOn with
  | nil => exact h
  | append_singleton later move ih =>
      rw [List.forall_mem_append] at hspares
      rw [List.foldl_append]
      exact (ih hspares.1).after (hspares.2 move (by simp))

/-- As long as a matched transaction is missing, nothing is written down. -/
theorem deliveries_of_missing (h : Stage block txids old later progress)
    (hmissing : ¬ Complete txids later) : progress.deliveries = old := by
  cases h with
  | waiting tracks held missing same => exact same
  | done gone exact delivered =>
      refine absurd ?_ hmissing
      intro txid hmem
      obtain ⟨tx, htx, rfl⟩ := List.mem_map.mp ((exact.mem_iff txid).mpr hmem)
      exact List.mem_map_of_mem (exact.firsts.mem htx)

/-- Once every matched transaction came, the block is written down. -/
theorem deliveries_of_complete (h : Stage block txids old later progress)
    (hcomplete : Complete txids later) :
    ∃ txs, Exact (opening block :: later) 0 ⟨block, txs⟩ txids ∧
      progress.deliveries = old ++ [⟨block, txs⟩] := by
  cases h with
  | waiting tracks held missing same =>
      obtain ⟨txid, hexpected⟩ := missing
      obtain ⟨hwanted, hnew⟩ := (tracks.expected_iff txid).mp hexpected
      exact absurd (hcomplete txid hwanted) hnew
  | done gone exact delivered => exact ⟨_, exact, delivered⟩

end Stage

theorem exact_append {moves : List Move} {origin : Nat} {delivery : Delivery}
    (h : Exact moves origin delivery txids) (more : List Move) :
    Exact (moves ++ more) origin delivery txids := by
  induction more using List.reverseRecOn with
  | nil => rwa [List.append_nil]
  | append_singleton more move ih =>
      rw [← List.append_assoc]
      exact ih.append move

theorem stage_play (syncing : Syncing) (hmatched : block.matched = .ok txids)
    (hspares : ∀ move ∈ later, move.Spares) :
    Stage block txids (Client.deliveries syncing.memory) later
      ((syncing.after (opening block)).play later).progress := by
  rw [progress_play, progress_after]
  exact (Stage.opened syncing.progress hmatched).foldl hspares

/-- From any state, a block with a good proof is written down at the move at which
the last of its matched transactions arrives, or at once if it matches none. Before
that move there is no entry for it, and after it there is one, whatever was
repeated, came uninvited or could not be sent. -/
theorem completes_with_last_arrival (syncing : Syncing) (hmatched : block.matched = .ok txids)
    (hspares : ∀ move ∈ later, move.Spares) :
    ∃ txs,
      (∀ n, Client.deliveries ((syncing.after (opening block)).play (later.take n)).memory =
        Client.deliveries syncing.memory ++
          if Complete txids (later.take n) then [⟨block, txs⟩] else []) ∧
      (Complete txids later → Exact (opening block :: later) 0 ⟨block, txs⟩ txids) := by
  have hstage (n : Nat) : Stage block txids (Client.deliveries syncing.memory) (later.take n)
      ((syncing.after (opening block)).play (later.take n)).progress := by
    apply stage_play syncing hmatched
    intro move hmem
    exact hspares move (List.mem_of_mem_take hmem)
  have hprefix {n : Nat} (h : Complete txids (later.take n)) : Complete txids later := by
    rw [← List.take_append_drop n later]
    exact h.append _
  by_cases hcomplete : Complete txids later
  · obtain ⟨txs, hexact, -⟩ := (stage_play syncing hmatched hspares).deliveries_of_complete hcomplete
    refine ⟨txs, ?_, fun _ => hexact⟩
    intro n
    by_cases hn : Complete txids (later.take n)
    · obtain ⟨others, hothers, hdelivered⟩ := (hstage n).deliveries_of_complete hn
      have hlater := exact_append hothers (later.drop n)
      rw [List.cons_append, List.take_append_drop] at hlater
      rw [if_pos hn, hexact.unique hlater]
      exact hdelivered
    · rw [if_neg hn, List.append_nil]
      exact (hstage n).deliveries_of_missing hn
  · refine ⟨[], ?_, fun h => absurd h hcomplete⟩
    intro n
    rw [if_neg (mt hprefix hcomplete), List.append_nil]
    exact (hstage n).deliveries_of_missing (mt hprefix hcomplete)

theorem completes_with_last_arrival_unsent :
    let first : Tx := ⟨[1]⟩
    let second : Tx := ⟨[2]⟩
    let header : Header := ⟨1, .zero, .node first.id second.id, 0, 0, 0⟩
    let block : MerkleBlock := ⟨header, 2, [first.id, second.id], [7]⟩
    let syncing := (start (.v4 ⟨127, 0, 0, 1⟩ 8333) 0 {} 0).after (.refuse (some .linkDown))
    let later : List Move := [.receive (.tx second) none, .receive (.tx second) none,
      .receive (.ping 9) none, .receive (.tx first) none, .receive (.tx first) none]
    block.matched = .ok [first.id, second.id] ∧ (∀ move ∈ later, move.Spares) ∧
      ∃ txs,
        (∀ n, Client.deliveries ((syncing.after (opening block)).play (later.take n)).memory =
          Client.deliveries syncing.memory ++
            if Complete [first.id, second.id] (later.take n) then [⟨block, txs⟩] else []) ∧
        (Complete [first.id, second.id] later →
          Exact (opening block :: later) 0 ⟨block, txs⟩ [first.id, second.id]) := by
  intro first second header block syncing later
  have hmatched : block.matched = .ok [first.id, second.id] := by decide +kernel
  have hspares : ∀ move ∈ later, move.Spares := by
    simp only [later, List.forall_mem_cons]
    refine ⟨?_, ?_, ?_, ?_, ?_, nofun⟩ <;> exact ⟨nofun, nofun⟩
  exact ⟨hmatched, hspares, completes_with_last_arrival syncing hmatched hspares⟩

end Syncing

end LightPeer
