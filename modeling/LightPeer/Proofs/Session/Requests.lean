import LightPeer.Proofs.Session.Feed

/-! # What a sync asks for

A sync asks for the transactions that its blocks match and for those that it is told
to ask for, and no longer asks for one that came. The watchdog waits for whatever is
asked for, unless a block of the same hash came since. -/

namespace LightPeer

open Session

/-- The transactions that a syncing client asks for in answer to its news. -/
def Callback.requested : Callback → List Hash
  | .merkleBlock block =>
    match block.matched with
    | .ok txids => txids
    | .error _ => []
  | _ => []

theorem Callback.feed_eq (callback : Callback) : callback.feed = asking .tx callback.requested := by
  cases callback with
  | merkleBlock block =>
      simp only [feed, requested]
      cases block.matched <;> rfl
  | _ => rfl

namespace Syncing

/-- The transactions that are asked for at a move, whether or not the request gets out. -/
def Move.requested (move : Move) : List Hash :=
  match move with
  | .requestTxs txids => txids
  | _ => move.news?.elim [] Callback.requested

variable {move : Move} {moves : List Move} {progress : Progress} {txid : Hash}

/-! ## Requests -/

theorem mem_requests_react {callback : Callback} :
    txid ∈ (progress.react callback).requests ↔
      txid ∈ callback.requested ∨
        (txid ∈ progress.requests ∧ ∀ tx, callback = .tx tx → tx.id ≠ txid) := by
  cases callback with
  | merkleBlock block =>
      cases hmatched : block.matched with
      | error fault =>
          rw [progress.react_merkleBlock_error hmatched]
          simp [Callback.requested, hmatched]
      | ok txids =>
          rw [progress.react_merkleBlock_ok hmatched]
          simp [Callback.requested, hmatched, Progress.collect]
  | tx tx =>
      rw [progress.requests_react_tx]
      simp [Callback.requested, and_comm, eq_comm]
  | _ => simp [Callback.requested, Progress.react]

/-- What is asked for after a move was asked for at the move, or before and did not come. -/
theorem mem_requests_after :
    txid ∈ (progress.after move).requests ↔
      txid ∈ move.requested ∨
        (txid ∈ progress.requests ∧ ∀ tx, move.arrival? = some tx → tx.id ≠ txid) := by
  cases hnews : move.news? with
  | some callback =>
      have hrequested : move.requested = callback.requested := by
        cases move with
        | receive message failure => exact congrArg (Option.elim · [] Callback.requested) hnews
        | _ => exact nomatch hnews
      have harrival (tx : Tx) : move.arrival? = some tx ↔ callback = .tx tx := by
        unfold Move.arrival?
        rw [hnews]
        cases callback <;> simp
      rw [progress.after_of_news hnews, mem_requests_react, hrequested]
      simp only [harrival]
  | none =>
      have harrival : move.arrival? = none := by simp [Move.arrival?, hnews]
      unfold Progress.after Move.requested
      rw [hnews, harrival]
      cases move <;> simp

/-! ## What the watchdog waits for -/

theorem feed_receive (message : Message) (failure : Option Error) :
    (Move.receive message failure).feed =
      Running.shown message (asking .tx (Move.receive message failure).requested) := by
  unfold Move.feed Move.requested
  cases (Move.receive message failure).news? with
  | none => rfl
  | some callback => exact congrArg (Running.shown message) callback.feed_eq

/-- What is asked for at a move is waited for after it. -/
theorem mem_pending_of_requested (pending : FiniteSet Expectation) (h : txid ∈ move.requested) :
    .data txid ∈ move.feed.foldl StallState.revise pending := by
  have hasked (before : FiniteSet Expectation) :
      .data txid ∈ (asking .tx move.requested).foldl StallState.revise before :=
    mem_foldl_asking.mpr (.inl ⟨txid, h, rfl⟩)
  cases move with
  | receive message failure =>
      rw [feed_receive]
      cases message with
      | ping nonce =>
          have hnone : (Move.receive (.ping nonce) failure).requested = [] := by cases failure <;> rfl
          rw [hnone] at h
          exact absurd h List.not_mem_nil
      | pong nonce =>
          have hnone : (Move.receive (.pong nonce) failure).requested = [] := by cases failure <;> rfl
          rw [hnone] at h
          exact absurd h List.not_mem_nil
      | _ => exact hasked _
  | requestTxs txids => exact hasked pending
  | _ => exact absurd h List.not_mem_nil

theorem not_answers_of_mem_asking {kind : InvKind} {hashes : List Hash} {message : Message}
    {expectation : Expectation} (hmem : message ∈ asking kind hashes) :
    ¬ message.Answers expectation := by
  cases hashes with
  | nil => exact absurd hmem List.not_mem_nil
  | cons first rest =>
      obtain rfl := List.mem_singleton.mp hmem
      exact id

/-- What is handed over at a move and answers something has come at the move. -/
theorem came_of_answers {message : Message} {expectation : Expectation}
    (hmem : message ∈ move.feed) (hanswers : message.Answers expectation) :
    ∃ failure, move = .receive message failure := by
  cases move with
  | receive other failure =>
      rw [feed_receive] at hmem
      have hshown (h : message ∈ other :: asking .tx (Move.receive other failure).requested) :
          ∃ failure', Move.receive other failure = .receive message failure' := by
        rcases List.mem_cons.mp h with rfl | hasking
        · exact ⟨failure, rfl⟩
        · exact absurd hanswers (not_answers_of_mem_asking hasking)
      cases other with
      | ping nonce => exact absurd hmem List.not_mem_nil
      | pong nonce => exact absurd hmem List.not_mem_nil
      | _ => exact hshown hmem
  | requestHashes locators stop =>
      obtain rfl := List.mem_singleton.mp hmem
      exact hanswers.elim
  | requestBlocks hashes => exact absurd hanswers (not_answers_of_mem_asking hmem)
  | requestTxs txids => exact absurd hanswers (not_answers_of_mem_asking hmem)
  | _ => exact absurd hmem List.not_mem_nil

/-- A block of some hash comes, and its own transactions have other hashes. -/
def Move.Brings (move : Move) (hash : Hash) : Prop :=
  (∃ block failure, move = .receive (.merkleBlock block) failure ∧ block.hash = hash) ∧
    hash ∉ move.requested

/-- A block of this hash came after a transaction of this hash was last asked for. -/
abbrev Overtaken : List Move → Hash → Prop :=
  Outstanding Move.Brings fun move hash => hash ∈ move.requested

/-- Of what is asked for, a move meets an expectation only by a block of the same hash. -/
theorem mem_pending_or_overtaken {pending : FiniteSet Expectation}
    (hsound : ∀ tx failure, move = .receive (.tx tx) failure → failure = none)
    (hbefore : txid ∈ progress.requests → .data txid ∈ pending ∨ Overtaken moves txid)
    (hasked : txid ∈ (progress.after move).requests) :
    .data txid ∈ move.feed.foldl StallState.revise pending ∨ Overtaken (moves ++ [move]) txid := by
  by_cases hrequested : txid ∈ move.requested
  · exact .inl (mem_pending_of_requested pending hrequested)
  · obtain ⟨hold, hkept⟩ := (mem_requests_after.mp hasked).resolve_left hrequested
    -- A transaction of this hash would end the request too, so only a block takes the
    -- expectation alone.
    by_cases hbrings : move.Brings txid
    · exact .inr (Outstanding.append_singleton.mpr (.inl hbrings))
    · refine (hbefore hold).imp ?_ ?_
      · intro hpending
        rw [Outstanding.mem_foldl_iff StallState.mem_revise_iff]
        refine .inr ⟨hpending, ?_⟩
        intro message hmem hanswers
        obtain ⟨failure, rfl⟩ := came_of_answers hmem hanswers
        cases message with
        | merkleBlock block => exact hbrings ⟨⟨block, failure, rfl, hanswers⟩, hrequested⟩
        | tx tx =>
            obtain rfl := hsound tx failure rfl
            exact hkept tx rfl hanswers
        | _ => exact hanswers
      · intro hovertaken
        exact Outstanding.append_singleton.mpr (.inr ⟨hovertaken, hrequested⟩)

/-- As long as the client fails over no transaction, an open watchdog waits for every
transaction that is asked for, unless a block of the same hash came since. -/
theorem requests_watched (addr : Endpoint) (localHeight : UInt32) (settings : Settings)
    (clock : Nat) {moves : List Move}
    (hsound : ∀ tx failure, .receive (.tx tx) failure ∈ moves → failure = none)
    {state : StallState}
    (hopen : ((start addr localHeight settings clock).play moves).session.watchdog = some state) :
    ∀ txid ∈ ((start addr localHeight settings clock).play moves).session.requests,
      .data txid ∈ state.pending ∨ Overtaken moves txid := by
  intro txid hmem
  let syncing := start addr localHeight settings clock
  have hpending := (hears_play syncing moves).pending_eq rfl hopen
  have hrequests : txid ∈ (moves.foldl Progress.after syncing.progress).requests := by
    rw [← progress_play]
    exact hmem
  rw [hpending]
  -- Both sets are read off the moves now, one step at a time from the last one back.
  clear hopen hpending hmem
  induction moves using List.reverseRecOn with
  | nil => exact absurd hrequests List.not_mem_nil
  | append_singleton moves move ih =>
      have hlast : ∀ tx failure, move = .receive (.tx tx) failure → failure = none := by
        rintro tx failure rfl
        exact hsound tx failure (List.mem_append_right _ (List.mem_singleton_self _))
      have hbefore := ih fun tx failure hmem => hsound tx failure (List.mem_append_left _ hmem)
      rw [List.foldl_append] at hrequests
      rw [List.flatMap_append, List.flatMap_singleton, List.foldl_append]
      exact mem_pending_or_overtaken hlast hbefore hrequests

/-- The hash of a block is asked for as that of a transaction, and so is another one; then
the block comes, and a transaction that nobody asked for. -/
theorem requests_watched_shared_hash :
    let block : MerkleBlock := ⟨⟨1, .zero, .zero, 0, 0, 0⟩, 1, [.zero], [0]⟩
    let moves : List Move := [.requestTxs [.zero, block.hash], .refuse (some .linkDown),
      .receive (.merkleBlock block) none, .receive (.tx ⟨[1]⟩) none]
    let syncing := (start (.v4 ⟨127, 0, 0, 1⟩ 8333) 0 {} 0).play moves
    (∀ tx failure, .receive (.tx tx) failure ∈ moves → failure = none) ∧
      syncing.session.requests.size = 2 ∧ ∃ state, syncing.session.watchdog = some state ∧
        ∀ txid ∈ syncing.session.requests, .data txid ∈ state.pending ∨ Overtaken moves txid := by
  intro block moves
  have hsound : ∀ tx failure, .receive (.tx tx) failure ∈ moves → failure = none := by
    intro tx failure hmem
    simp [moves] at hmem
    exact hmem.2
  have hopen : ((start (.v4 ⟨127, 0, 0, 1⟩ 8333) 0 {} 0).play moves).session.watchdog.isSome := by
    decide +kernel
  have hsize : ((start (.v4 ⟨127, 0, 0, 1⟩ 8333) 0 {} 0).play moves).session.requests.size = 2 := by
    decide +kernel
  have hwatched := @requests_watched (.v4 ⟨127, 0, 0, 1⟩ 8333) 0 {} 0 moves hsound
  generalize (start (.v4 ⟨127, 0, 0, 1⟩ 8333) 0 {} 0).play moves = syncing at hopen hsize hwatched ⊢
  obtain ⟨state, hstate⟩ := Option.isSome_iff_exists.mp hopen
  exact ⟨hsound, hsize, state, hstate, hwatched hstate⟩

end Syncing

end LightPeer
