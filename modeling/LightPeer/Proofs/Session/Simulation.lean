import LightPeer.Proofs.Session.Books
import LightPeer.Proofs.Session.Progress

/-! # A session makes the progress that its moves make

The link, the watchdog, the clock and the trackers that were replaced have no
part in what a sync gets done, and neither has a request that did not get out. -/

namespace LightPeer

namespace Syncing

open Session

def progress (syncing : Syncing) : Progress where
  tracker := syncing.session.books.trackers.now
  requests := syncing.session.books.requests
  deliveries := Client.deliveries syncing.memory

variable (session : Session) (notes : List Client.Note)

/-! ## The scripts of the client -/

theorem run_collect (id : TrackerId) :
    (Client.collect id notes).run session =
      ({ session with trackers := session.trackers.update id (session.trackers.get id).take.1 },
        notes ++ (session.trackers.get id).take.2.toList.map .completed) := by
  unfold Client.collect
  simp only [Script.perform_eq, Script.run_bind, Script.run_call, Script.run_done,
    Session.perform, BlockTracker.apply]
  cases (session.trackers.get id).take.2 with
  | none => simp
  | some delivery => simp

theorem deliveries_append_completed (deliveries : List Delivery) :
    Client.deliveries (notes ++ deliveries.map .completed) =
      Client.deliveries notes ++ deliveries := by
  unfold Client.deliveries
  rw [List.filterMap_append, List.filterMap_map]
  exact congrArg (_ ++ ·) List.filterMap_some

theorem progress_collect :
    let result := (Client.collect session.trackers.current notes).run session
    progress ⟨result.1, result.2⟩ = (progress ⟨session, notes⟩).collect := by
  rw [run_collect]
  simp only [progress, Progress.collect, books, deliveries_append_completed,
    Trackers.now_update_current]
  rfl

theorem follow_eq (block : MerkleBlock) :
    Client.follow block notes =
      .call (.track block) fun tracked =>
        match tracked with
        | .error error => pure (notes, .error error)
        | .ok id =>
          match block.matched with
          | .error fault => pure (notes, .error (.invalidMerkleBlock fault.message))
          | .ok txids =>
            .call (.requestTxs txids) fun answer =>
              match answer with
              | .error error => pure (notes, .error error)
              | .ok () => do return (← Client.collect id notes, .ok ()) := rfl

/-- The session after a block came, in which its transactions were asked for if its proof is good. -/
theorem follow_cases (block : MerkleBlock) :
    let final := ((Client.follow block notes).run session).1
    match block.matched with
    | .error _ => final = session
    | .ok txids =>
      let trackers := session.trackers.install ⟨some block, .ofList txids, []⟩
      let asked := ({ session with trackers }.requestTxs txids).1
      final = asked ∨ final = ((Client.collect trackers.current notes).run asked).1 := by
  unfold Client.follow
  simp only [Script.perform_eq, Script.run_bind, Script.run_call, Script.run_done,
    Session.perform, track, BlockTracker.ofMerkleBlock]
  cases block.matched with
  | error fault => rfl
  | ok txids =>
      simp only [Script.run_bind, Script.run_call, Script.run_done, Session.perform]
      split
      · exact .inl rfl
      · right
        simp only [Script.run_bind, Script.run_pure]

/-- A request that does not get out asks for something, so the block still expects something. -/
theorem progress_follow (block : MerkleBlock) :
    let result := (Client.follow block notes).run session
    progress ⟨result.1, result.2.1⟩ = (progress ⟨session, notes⟩).react (.merkleBlock block) := by
  unfold Client.follow Progress.react
  simp only [Script.perform_eq, Script.run_bind, Script.run_call, Script.run_done,
    Session.perform, track, BlockTracker.ofMerkleBlock]
  cases block.matched with
  | error fault => rfl
  | ok txids =>
      let tracker : BlockTracker := ⟨some block, .ofList txids, []⟩
      let tracked := { session with trackers := session.trackers.install tracker }
      have hbooks := books_requestTxs tracked txids
      have hnil : txids = [] → (tracked.requestTxs txids).2 = .ok () := by
        rintro rfl
        rfl
      simp only [Script.run_bind, Script.run_call, Script.run_done, Session.perform]
      generalize tracked.requestTxs txids = outcome at hbooks hnil ⊢
      obtain ⟨asked, answer⟩ := outcome
      have hprogress : progress ⟨asked, notes⟩ =
          ⟨tracker, session.requests.insertAll txids, Client.deliveries notes⟩ := by
        unfold progress
        simp only [hbooks]
        rw [Progress.mk.injEq]
        exact ⟨Trackers.now_install _ _, rfl, rfl⟩
      cases answer with
      | error error =>
          have hne : txids ≠ [] := by
            intro hempty
            cases hnil hempty
          obtain ⟨txid, hmem⟩ := List.exists_mem_of_ne_nil txids hne
          have hexpected : txid ∈ tracker.expected := FiniteSet.mem_ofList.mpr hmem
          exact hprogress.trans (Progress.collect_of_mem hexpected).symm
      | ok _ =>
          have hcurrent : tracked.trackers.current = asked.trackers.current :=
            congrArg (Trackers.current ∘ Books.trackers) hbooks.symm
          have hcollect := progress_collect asked notes
          rw [hprogress, ← hcurrent] at hcollect
          simp only [Script.run_bind, Script.run_pure]
          exact hcollect

theorem run_settle {α : Type} (tx : Tx) (next : Script α) :
    let id := session.trackers.current
    (Script.call (.tracker id (.resolve tx.id)) fun expected =>
      if expected = true then .call (.tracker id (.push tx)) fun _ => next else next).run session =
    next.run { session with
      trackers := session.trackers.update id (session.trackers.now.settle tx) } := by
  intro id
  let resolved := session.trackers.update id (session.trackers.now.resolve tx.id).1
  have hresolve : session.perform (.tracker id (.resolve tx.id)) =
      ({ session with trackers := resolved }, decide (tx.id ∈ session.trackers.now.expected)) := rfl
  rw [Script.run_call, hresolve]
  unfold BlockTracker.settle
  by_cases hexpected : tx.id ∈ session.trackers.now.expected
  · have hpush : Session.perform { session with trackers := resolved } (.tracker id (.push tx)) =
        ({ session with trackers := resolved.update id (resolved.now.push tx) }, ()) := rfl
    have hresolved : resolved.now = (session.trackers.now.resolve tx.id).1 :=
      Trackers.now_update_current _ _
    rw [decide_eq_true hexpected, if_pos rfl, if_pos hexpected, Script.run_call, hpush, hresolved,
      Trackers.update_update]
  · rw [decide_eq_false hexpected, if_neg nofun, if_neg hexpected]

theorem receive_eq (tx : Tx) :
    Client.receive tx notes =
      .call (.requests (.settle tx.id)) fun asked =>
        if asked = true then
          .call (.recordTx false) fun _ =>
          .call .current fun id =>
          .call (.tracker id (.resolve tx.id)) fun expected =>
            if expected = true then
              .call (.tracker id (.push tx)) fun _ => do return (← Client.collect id notes, .ok ())
            else do return (← Client.collect id notes, .ok ())
        else .call (.recordTx true) fun _ => pure (notes, .ok ()) := rfl

/-- A transaction that was asked for is counted and put to the current block. -/
theorem run_receive_of_mem {tx : Tx} (h : tx.id ∈ session.requests) :
    (Client.receive tx notes).run session =
      Script.run { session with
        requests := FiniteSet.erase session.requests tx.id
        tally := session.tally.record false
        trackers := session.trackers.update session.trackers.current
          (session.trackers.now.settle tx) }
        (do return (← Client.collect session.trackers.current notes, .ok ())) := by
  have hasks : session.perform (.requests (.settle tx.id)) =
      ({ session with requests := FiniteSet.erase session.requests tx.id },
        decide (tx.id ∈ session.requests)) := rfl
  rw [receive_eq, Script.run_call, hasks]
  dsimp only
  rw [decide_eq_true h, if_pos rfl]
  exact run_settle { session with
    requests := FiniteSet.erase session.requests tx.id
    tally := session.tally.record false } tx _

/-- Another one is a false positive. -/
theorem run_receive_of_not_mem {tx : Tx} (h : tx.id ∉ session.requests) :
    (Client.receive tx notes).run session =
      ({ session with
        requests := FiniteSet.erase session.requests tx.id
        tally := session.tally.record true }, notes, .ok ()) := by
  have hasks : session.perform (.requests (.settle tx.id)) =
      ({ session with requests := FiniteSet.erase session.requests tx.id },
        decide (tx.id ∈ session.requests)) := rfl
  rw [receive_eq, Script.run_call, hasks]
  dsimp only
  rw [decide_eq_false h, if_neg nofun]
  rfl

theorem progress_receive (tx : Tx) :
    let result := (Client.receive tx notes).run session
    progress ⟨result.1, result.2.1⟩ = (progress ⟨session, notes⟩).react (.tx tx) := by
  by_cases hasked : tx.id ∈ session.requests
  · let settled := { session with
      requests := FiniteSet.erase session.requests tx.id
      tally := session.tally.record false
      trackers := session.trackers.update session.trackers.current
        (session.trackers.now.settle tx) }
    have hsettled : progress ⟨settled, notes⟩ = { progress ⟨session, notes⟩ with
        tracker := session.trackers.now.settle tx
        requests := FiniteSet.erase session.requests tx.id } := by
      simp only [progress, books, settled, Trackers.now_update_current]
    have hcollect := progress_collect settled notes
    rw [hsettled] at hcollect
    have hreceive := run_receive_of_mem session notes hasked
    simp only [Script.run_bind, Script.run_pure] at hreceive
    rw [hreceive, Progress.react_tx_of_mem _ hasked]
    exact hcollect
  · rw [run_receive_of_not_mem session notes hasked, Progress.react_tx_of_not_mem _ hasked]
    exact congrArg (fun requests => Progress.mk session.trackers.now requests _)
      (FiniteSet.erase_of_not_mem hasked)

/-! ## Moves -/

variable (syncing : Syncing) (message : Message)

theorem progress_called (callback : Callback) :
    progress ⟨session.emit (.dispatched callback), notes ++ [.called callback]⟩ =
      progress ⟨session, notes⟩ := by
  simp [progress, Client.deliveries]

theorem progress_react (callback : Callback) :
    let result := ((Client.syncing fun _ => none).react callback notes).run
      (session.emit (.dispatched callback))
    progress ⟨result.1, result.2.1⟩ = (progress ⟨session, notes⟩).react callback := by
  have hcalled := progress_called session notes callback
  cases callback with
  | merkleBlock block =>
      rw [← hcalled]
      exact progress_follow _ _ block
  | tx tx =>
      rw [← hcalled]
      exact progress_receive _ _ tx
  | inventory items => exact hcalled
  | notFound items => exact hcalled
  | reject rejection => exact hcalled

theorem progress_dispatch (failure : Option Error) :
    progress (Running.dispatch (Client.syncing fun _ => failure) syncing message).1 =
      syncing.progress.after (.receive message failure) := by
  unfold Running.dispatch
  cases hnews : Callback.ofMessage? message with
  | none =>
      have hafter : syncing.progress.after (.receive message failure) = syncing.progress := by
        simp [Progress.after, Move.news?_of_none hnews]
      rw [hafter]
      rfl
  | some callback =>
      cases failure with
      | some error => exact progress_called syncing.session syncing.memory callback
      | none =>
          have hmove : (Move.receive message none).news? = some callback := hnews
          rw [Progress.after_of_news _ hmove]
          exact progress_react syncing.session syncing.memory callback

theorem progress_report (result : Except Error Unit) :
    progress (Running.report syncing message result) = syncing.progress := by
  cases result <;> rfl

theorem progress_of_books {other : Session} (h : other.books = syncing.session.books) :
    progress { syncing with session := other } = syncing.progress := by
  simp only [progress, h]

theorem progress_learnHeight (nonce : UInt64) :
    progress { syncing with session := syncing.session.learnHeight nonce } = syncing.progress := by
  simp only [progress, books_learnHeight]

theorem progress_handle (failure : Option Error) :
    progress (Running.handle (Client.syncing fun _ => failure) syncing message).1 =
      syncing.progress.after (.receive message failure) := by
  have halert := progress_of_books syncing (books_alert syncing.session message)
  have hdispatch := progress_dispatch
    { syncing with session := Running.alert syncing.session message } message failure
  rw [halert] at hdispatch
  cases message with
  | ping nonce =>
      have hlearn := progress_learnHeight syncing nonce
      have hpong := progress_of_books { syncing with session := syncing.session.learnHeight nonce }
        (books_send _ (.pong (syncing.session.learnHeight nonce).localHeight.toUInt64))
      cases failure <;> exact hpong.trans hlearn
  | pong nonce => cases failure <;> exact progress_learnHeight syncing nonce
  | _ => exact (progress_report _ _ _).trans hdispatch

theorem progress_after (move : Move) :
    (syncing.after move).progress = syncing.progress.after move := by
  cases move with
  | receive message failure => exact progress_handle syncing message failure
  | requestHashes locators stop => exact progress_of_books syncing (books_requestHashes _ _ _)
  | requestBlocks hashes => exact progress_of_books syncing (books_requestBlocks _ _)
  | requestTxs txids =>
      have hbooks := books_requestTxs syncing.session txids
      change progress ⟨(syncing.session.requestTxs txids).1, syncing.memory⟩ = _
      simp only [progress, hbooks]
      rfl
  | loadFilter filter =>
      have hbooks := books_loadFilter syncing.session filter
      change progress ⟨(syncing.session.loadFilter filter).1, syncing.memory⟩ = _
      simp only [progress, hbooks, Trackers.now_install]
      rfl
  | ping => exact progress_of_books syncing (books_ping _)
  | disconnect => rfl
  | refuse error => rfl
  | tick now => exact progress_of_books syncing (books_tick _ _)

theorem progress_play (moves : List Move) :
    (syncing.play moves).progress = moves.foldl Progress.after syncing.progress := by
  unfold play
  induction moves generalizing syncing with
  | nil => rfl
  | cons move moves ih => rw [List.foldl_cons, List.foldl_cons, ih, progress_after]

end Syncing

end LightPeer
