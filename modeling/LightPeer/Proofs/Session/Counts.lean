import LightPeer.Proofs.Session.Simulation

/-! # What a sync expects and counts

The transactions that a block matches are asked for when the block becomes the current
one, and one that comes is neither asked for nor expected any longer. So the current
block expects nothing that is not asked for, and what it expects counts as asked for
when it comes. -/

namespace LightPeer

open Session

/-! ## What the current block expects -/

namespace BlockTracker

@[simp] theorem expected_settle (tracker : BlockTracker) (tx : Tx) :
    (tracker.settle tx).expected = tracker.expected.erase tx.id := by
  unfold settle
  split <;> rfl

end BlockTracker

namespace Progress

/-- Whatever the current block expects is asked for. -/
def Covered (progress : Progress) : Prop :=
  ∀ txid ∈ progress.tracker.expected, txid ∈ progress.requests

namespace Covered

variable {progress : Progress}

theorem collect (h : progress.Covered) : progress.collect.Covered := by
  intro txid hmem
  rw [Progress.collect, BlockTracker.expected_take] at hmem
  exact h txid hmem

/-- A block expects what it asks for, and a transaction that comes ends both. -/
theorem react (h : progress.Covered) (callback : Callback) : (progress.react callback).Covered := by
  cases callback with
  | merkleBlock block =>
      cases hmatched : block.matched with
      | error fault => rwa [progress.react_merkleBlock_error hmatched]
      | ok txids =>
          rw [progress.react_merkleBlock_ok hmatched]
          refine collect fun txid hmem => ?_
          exact FiniteSet.mem_insertAll.mpr (.inl (FiniteSet.mem_ofList.mp hmem))
  | tx tx =>
      by_cases hasked : tx.id ∈ progress.requests
      · rw [progress.react_tx_of_mem hasked]
        refine collect fun txid hmem => ?_
        rw [BlockTracker.expected_settle, FiniteSet.mem_erase] at hmem
        exact FiniteSet.mem_erase.mpr ⟨hmem.1, h txid hmem.2⟩
      · rwa [progress.react_tx_of_not_mem hasked]
  | _ => exact h

theorem after (h : progress.Covered) (move : Syncing.Move) : (progress.after move).Covered := by
  unfold Progress.after
  cases move.news? with
  | some callback => exact h.react callback
  | none =>
      cases move with
      | requestTxs txids =>
          intro txid hmem
          exact FiniteSet.mem_insertAll.mpr (.inr (h txid hmem))
      | loadFilter filter => exact fun txid hmem => absurd hmem (FiniteSet.not_mem_empty txid)
      | _ => exact h

theorem foldl (h : progress.Covered) (moves : List Syncing.Move) :
    (moves.foldl Progress.after progress).Covered := by
  induction moves generalizing progress with
  | nil => exact h
  | cons move moves ih => exact ih (h.after move)

end Covered

end Progress

namespace Syncing

/-! ## What is counted -/

variable (session : Session) (notes : List Client.Note)

theorem tally_collect (id : TrackerId) :
    ((Client.collect id notes).run session).1.tally = session.tally := by
  rw [run_collect]

/-- A transaction that comes is a false positive if it is not asked for. -/
theorem tally_receive (tx : Tx) :
    ((Client.receive tx notes).run session).1.tally =
      session.tally.record (decide (tx.id ∉ session.requests)) := by
  by_cases hasked : tx.id ∈ session.requests
  · rw [run_receive_of_mem session notes hasked, decide_eq_false (not_not_intro hasked)]
    simp only [Script.run_bind, Script.run_pure, tally_collect]
  · rw [run_receive_of_not_mem session notes hasked, decide_eq_true hasked]

theorem tally_follow (block : MerkleBlock) :
    ((Client.follow block notes).run session).1.tally = session.tally := by
  have hfollow := follow_cases session notes block
  cases hmatched : block.matched with
  | error fault =>
      simp only [hmatched] at hfollow
      rw [hfollow]
  | ok txids =>
      simp only [hmatched] at hfollow
      have hasked (tracked : Session) : (tracked.requestTxs txids).1.tally = tracked.tally :=
        congrArg Books.tally (books_requestTxs tracked txids)
      rcases hfollow with hasks | hcollects
      · rw [hasks, hasked]
      · rw [hcollects, tally_collect, hasked]

/-- The counts after a move at which a transaction arrives, or none. -/
def counted (books : Books) : Option Tx → Tally
  | some tx => books.tally.record (decide (tx.id ∉ books.requests))
  | none => books.tally

variable (syncing : Syncing)

theorem tally_dispatch (message : Message) (failure : Option Error) :
    (Running.dispatch (Client.syncing fun _ => failure) syncing message).1.session.tally =
      counted syncing.session.books (Move.receive message failure).arrival? := by
  unfold Running.dispatch Move.arrival?
  cases hnews : Callback.ofMessage? message with
  | none =>
      rw [Move.news?_of_none hnews]
      rfl
  | some callback =>
      cases failure with
      | some error => rfl
      | none =>
          have hsome : (Move.receive message none).news? = some callback := hnews
          rw [hsome]
          cases callback with
          | merkleBlock block => exact tally_follow _ _ block
          | tx tx => exact tally_receive _ _ tx
          | _ => rfl

theorem tally_handle (message : Message) (failure : Option Error) :
    (Running.handle (Client.syncing fun _ => failure) syncing message).1.session.tally =
      counted syncing.session.books (Move.receive message failure).arrival? := by
  have hdispatch := tally_dispatch
    { syncing with session := Running.alert syncing.session message } message failure
  rw [books_alert] at hdispatch
  have hreport (running : Syncing) (result : Except Error Unit) :
      (Running.report running message result).session.tally = running.session.tally := by
    cases result <;> rfl
  cases message with
  | ping nonce =>
      have hlearn := congrArg Books.tally (books_learnHeight syncing.session nonce)
      have hpong := congrArg Books.tally (books_send (syncing.session.learnHeight nonce)
        (.pong (syncing.session.learnHeight nonce).localHeight.toUInt64))
      cases failure <;> exact hpong.trans hlearn
  | pong nonce =>
      have hlearn := congrArg Books.tally (books_learnHeight syncing.session nonce)
      cases failure <;> exact hlearn
  | _ => exact (hreport _ _).trans hdispatch

theorem tally_after (move : Move) :
    (syncing.after move).session.tally = counted syncing.session.books move.arrival? := by
  cases move with
  | receive message failure => exact tally_handle syncing message failure
  | requestHashes locators stop => exact congrArg Books.tally (books_requestHashes _ _ _)
  | requestBlocks hashes => exact congrArg Books.tally (books_requestBlocks _ _)
  | requestTxs txids => exact congrArg Books.tally (books_requestTxs _ _)
  | loadFilter filter => exact congrArg Books.tally (books_loadFilter _ filter)
  | ping => exact congrArg Books.tally (books_ping _)
  | disconnect => rfl
  | refuse error => rfl
  | tick now => exact congrArg Books.tally (books_tick _ _)

/-- In every state of a sync, whatever the current block expects is asked for, so that it
is no false positive when it comes. -/
theorem expected_requested (addr : Endpoint) (localHeight : UInt32) (settings : Settings)
    (clock : Nat) (moves : List Move) :
    let syncing := (start addr localHeight settings clock).play moves
    let expected := syncing.session.trackers.now.expected
    (∀ txid ∈ expected, txid ∈ syncing.session.requests) ∧
      ∀ tx failure, tx.id ∈ expected →
        let tally := (syncing.after (.receive (.tx tx) failure)).session.tally
        tally.falsePositives = syncing.session.tally.falsePositives ∧
          (failure = none → tally = syncing.session.tally.record false) := by
  intro syncing expected
  have hcovered : syncing.progress.Covered := by
    have hinitial : (start addr localHeight settings clock).progress.Covered :=
      fun txid hmem => absurd hmem (FiniteSet.not_mem_empty txid)
    rw [progress_play]
    exact hinitial.foldl moves
  refine ⟨hcovered, ?_⟩
  intro tx failure hexpected tally
  have hasked : tx.id ∈ syncing.session.requests := hcovered _ hexpected
  have htally : tally = counted syncing.session.books (Move.receive (.tx tx) failure).arrival? :=
    tally_after syncing _
  cases failure with
  | some error =>
      rw [htally]
      exact ⟨rfl, nofun⟩
  | none =>
      have hrecorded : tally = syncing.session.tally.record false :=
        htally.trans (congrArg syncing.session.tally.record (decide_eq_false (not_not_intro hasked)))
      rw [hrecorded]
      exact ⟨rfl, fun _ => rfl⟩

/-- A block comes while the link takes nothing, and then the transaction that it matches. -/
theorem expected_requested_unsent :
    let payment : Tx := ⟨[1]⟩
    let block : MerkleBlock := ⟨⟨1, .zero, payment.id, 0, 0, 0⟩, 1, [payment.id], [1]⟩
    let moves : List Move := [.refuse (some .linkDown), .receive (.merkleBlock block) none]
    let syncing := (start (.v4 ⟨127, 0, 0, 1⟩ 8333) 0 {} 0).play moves
    let expected := syncing.session.trackers.now.expected
    payment.id ∈ expected ∧ (∀ txid ∈ expected, txid ∈ syncing.session.requests) ∧
      (syncing.after (.receive (.tx payment) none)).session.tally =
        syncing.session.tally.record false := by
  intro payment block moves
  have hexpected : payment.id ∈
      ((start (.v4 ⟨127, 0, 0, 1⟩ 8333) 0 {} 0).play moves).session.trackers.now.expected := by
    decide +kernel
  have hmain := expected_requested (.v4 ⟨127, 0, 0, 1⟩ 8333) 0 {} 0 moves
  generalize (start (.v4 ⟨127, 0, 0, 1⟩ 8333) 0 {} 0).play moves = syncing at hexpected hmain ⊢
  exact ⟨hexpected, hmain.1, (hmain.2 payment none hexpected).2 rfl⟩

end Syncing

end LightPeer
