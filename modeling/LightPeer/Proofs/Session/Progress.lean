import LightPeer.Session.Syncing

/-! # What a sync gets done

Of a session whose client syncs, the current tracker, the requests and the
blocks that were written down go their own way from move to move. -/

namespace LightPeer

theorem Syncing.Move.news?_of_none {message : Message} (h : Callback.ofMessage? message = none)
    (failure : Option Error) : (Move.receive message failure).news? = none := by
  cases failure <;> simp [news?, h]

namespace BlockTracker

/-- Records a transaction, if the block expects it, and expects it no longer. -/
def settle (tracker : BlockTracker) (tx : Tx) : BlockTracker :=
  if tx.id ∈ tracker.expected then (tracker.resolve tx.id).1.push tx else (tracker.resolve tx.id).1

variable {tracker : BlockTracker} {tx : Tx}

theorem settle_of_mem (h : tx.id ∈ tracker.expected) :
    tracker.settle tx =
      { tracker with expected := tracker.expected.erase tx.id, txs := tracker.txs ++ [tx] } :=
  if_pos h

theorem settle_of_not_mem (h : tx.id ∉ tracker.expected) : tracker.settle tx = tracker := by
  refine (if_neg h).trans ?_
  unfold resolve
  rw [FiniteSet.erase_of_not_mem h]

@[simp] theorem block_settle (tracker : BlockTracker) (tx : Tx) :
    (tracker.settle tx).block = tracker.block := by
  unfold settle
  split <;> rfl

end BlockTracker

/-- The part of a sync that decides which blocks are complete. -/
structure Progress where
  tracker : BlockTracker
  requests : Requests
  deliveries : List Delivery

namespace Progress

/-- Takes the block of the current tracker, if it is complete. -/
def collect (progress : Progress) : Progress :=
  { progress with
    tracker := progress.tracker.take.1
    deliveries := progress.deliveries ++ progress.tracker.take.2.toList }

theorem collect_cases (progress : Progress) :
    progress.collect = progress ∨
      ∃ block, progress.tracker.block = some block ∧ progress.tracker.expected.isEmpty ∧
        progress.collect = { progress with
          tracker := { progress.tracker with block := none, txs := [] }
          deliveries := progress.deliveries ++ [⟨block, progress.tracker.txs⟩] } := by
  unfold collect
  rcases progress.tracker.take_cases with htake | ⟨block, hblock, hdone, htake⟩
  · left
    simp [htake]
  · right
    exact ⟨block, hblock, hdone, by simp [htake]⟩

theorem collect_of_mem {progress : Progress} {txid : Hash}
    (h : txid ∈ progress.tracker.expected) : progress.collect = progress := by
  rcases progress.collect_cases with hsame | ⟨block, hblock, hdone, hcollect⟩
  · exact hsame
  · exact absurd h (FiniteSet.isEmpty_iff.mp hdone txid)

theorem collect_of_none {progress : Progress} (h : progress.tracker.block = none) :
    progress.collect = progress := by
  rcases progress.collect_cases with hsame | ⟨block, hblock, hdone, hcollect⟩
  · exact hsame
  · rw [h] at hblock
    exact nomatch hblock

/-- A complete block is written down with what came for it. -/
theorem collect_of_isEmpty {progress : Progress} {block : MerkleBlock}
    (hblock : progress.tracker.block = some block) (hdone : progress.tracker.expected.isEmpty) :
    progress.collect = { progress with
      tracker := { progress.tracker with block := none, txs := [] }
      deliveries := progress.deliveries ++ [⟨block, progress.tracker.txs⟩] } := by
  have htake : progress.tracker.take =
      ({ progress.tracker with block := none, txs := [] }, some ⟨block, progress.tracker.txs⟩) := by
    simp [BlockTracker.take, hblock, hdone]
  simp [collect, htake]

def react (progress : Progress) : Callback → Progress
  | .merkleBlock block =>
    match block.matched with
    | .ok txids =>
      collect {
        tracker := ⟨some block, .ofList txids, []⟩
        requests := progress.requests.insertAll txids
        deliveries := progress.deliveries }
    | .error _ => progress
  | .tx tx =>
    if tx.id ∈ progress.requests then
      collect { progress with
        tracker := progress.tracker.settle tx
        requests := progress.requests.erase tx.id }
    else progress
  | _ => progress

theorem react_merkleBlock_ok (progress : Progress) {block : MerkleBlock} {txids : List Hash}
    (h : block.matched = .ok txids) :
    progress.react (.merkleBlock block) =
      collect {
        tracker := ⟨some block, .ofList txids, []⟩
        requests := progress.requests.insertAll txids
        deliveries := progress.deliveries } := by
  simp only [react, h]

theorem react_merkleBlock_error (progress : Progress) {block : MerkleBlock}
    {fault : MerkleBlock.ProofFault} (h : block.matched = .error fault) :
    progress.react (.merkleBlock block) = progress := by
  simp only [react, h]

theorem react_tx_of_mem (progress : Progress) {tx : Tx} (h : tx.id ∈ progress.requests) :
    progress.react (.tx tx) =
      collect { progress with
        tracker := progress.tracker.settle tx
        requests := progress.requests.erase tx.id } :=
  if_pos h

theorem react_tx_of_not_mem (progress : Progress) {tx : Tx} (h : tx.id ∉ progress.requests) :
    progress.react (.tx tx) = progress :=
  if_neg h

/-- A transaction is asked for no longer once it came. -/
theorem requests_react_tx (progress : Progress) (tx : Tx) :
    (progress.react (.tx tx)).requests = FiniteSet.erase progress.requests tx.id := by
  by_cases hasked : tx.id ∈ progress.requests
  · rw [progress.react_tx_of_mem hasked]
    rfl
  · rw [progress.react_tx_of_not_mem hasked, FiniteSet.erase_of_not_mem hasked]

def after (progress : Progress) (move : Syncing.Move) : Progress :=
  match move.news? with
  | some callback => progress.react callback
  | none =>
    match move with
    | .requestTxs txids => { progress with requests := progress.requests.insertAll txids }
    | .loadFilter _ => { progress with tracker := .empty }
    | _ => progress

theorem after_of_news (progress : Progress) {move : Syncing.Move} {callback : Callback}
    (h : move.news? = some callback) : progress.after move = progress.react callback := by
  unfold after
  rw [h]

end Progress

end LightPeer
