import LightPeer.Proofs.Session.Arrivals
import LightPeer.Proofs.Session.Feed

/-! # A sync that is answered leaves nothing behind

A round is a block with a good proof and, before the next one, all transactions
that it matches. A round takes its block and its transactions from what is waited
for and adds nothing to it, so rounds that cover all requested blocks leave nothing. -/

namespace LightPeer

namespace Syncing

open Move

/-- A move between two blocks: a message that comes and is no block and no request,
over which the client does not fail, or something that the peer does not see. -/
def Move.Idle : Move → Prop
  | .receive message failure =>
    failure = none ∧ message.isRequest = false ∧ ∀ block, message ≠ .merkleBlock block
  | .ping | .refuse _ | .tick _ => True
  | _ => False

/-- A block with a good proof, and what happens before the next one: all its
transactions come, in whatever order and company. -/
structure Round where
  block : MerkleBlock
  txids : List Hash
  matched : block.matched = .ok txids
  rest : List Move
  idle : ∀ move ∈ rest, move.Idle
  complete : Complete txids rest

def Round.moves (round : Round) : List Move := opening round.block :: round.rest

variable {move : Move} {moves : List Move} {pending : FiniteSet Expectation}
  {expectation : Expectation} {progress : Progress}

/-! ## Idle moves -/

theorem Move.Idle.news_ne (h : move.Idle) (block : MerkleBlock) :
    move.news? ≠ some (.merkleBlock block) := by
  cases move with
  | receive message failure =>
      obtain ⟨rfl, -, hblock⟩ := h
      cases message with
      | merkleBlock other => exact absurd rfl (hblock other)
      | _ => exact nofun
  | _ => exact nofun

theorem Move.Idle.spares (h : move.Idle) : move.Spares where
  block block txids hnews := absurd hnews (h.news_ne block)
  filter filter heq := by
    subst heq
    exact h

/-- An idle move hands no request to the watchdog. -/
theorem Move.Idle.feed (h : move.Idle) : ∀ message ∈ move.feed, message.isRequest = false := by
  cases move with
  | receive message failure =>
      obtain ⟨rfl, hrequest, hblock⟩ := h
      cases message with
      | merkleBlock block => exact absurd rfl (hblock block)
      | ping nonce => exact List.forall_mem_nil _
      | pong nonce => exact List.forall_mem_nil _
      | _ =>
          refine List.forall_mem_cons.mpr ⟨hrequest, ?_⟩
          exact List.forall_mem_nil _
  | ping => exact List.forall_mem_nil _
  | refuse error => exact List.forall_mem_nil _
  | tick now => exact List.forall_mem_nil _
  | _ => exact h.elim

/-- An idle move brings a transaction, or it makes no progress. -/
theorem Move.Idle.arrives_or_stays (h : move.Idle) :
    (∃ tx, move = .receive (.tx tx) none) ∨
      (move.arrival? = none ∧ ∀ progress : Progress, progress.after move = progress) := by
  cases move with
  | receive message failure =>
      obtain ⟨rfl, -, hblock⟩ := h
      cases message with
      | tx tx => exact .inl ⟨tx, rfl⟩
      | merkleBlock block => exact absurd rfl (hblock block)
      | _ => exact .inr ⟨rfl, fun _ => rfl⟩
  | ping => exact .inr ⟨rfl, fun _ => rfl⟩
  | refuse error => exact .inr ⟨rfl, fun _ => rfl⟩
  | tick now => exact .inr ⟨rfl, fun _ => rfl⟩
  | _ => exact h.elim

/-- A transaction that arrives is shown to the watchdog. -/
theorem exists_answers_of_arrival (hidle : ∀ move ∈ moves, move.Idle) {txid : Hash}
    (h : txid ∈ (arrivals moves).map Tx.id) :
    ∃ message ∈ moves.flatMap Move.feed, message.Answers (.data txid) := by
  obtain ⟨tx, htx, rfl⟩ := List.mem_map.mp h
  obtain ⟨move, hmove, harrival⟩ := List.mem_filterMap.mp htx
  rcases (hidle move hmove).arrives_or_stays with ⟨other, rfl⟩ | ⟨hquiet, -⟩
  · cases harrival
    exact ⟨.tx tx, List.mem_flatMap.mpr ⟨_, hmove, List.mem_singleton_self _⟩, rfl⟩
  · rw [hquiet] at harrival
    exact nomatch harrival

/-- Idle moves take from what is waited for whatever they answer. -/
theorem mem_foldl_feed_idle (hidle : ∀ move ∈ moves, move.Idle) :
    expectation ∈ (moves.flatMap Move.feed).foldl StallState.revise pending ↔
      expectation ∈ pending ∧ ∀ message ∈ moves.flatMap Move.feed, ¬ message.Answers expectation := by
  have hrequest : ∀ message ∈ moves.flatMap Move.feed, message.isRequest = false := by
    intro message hmem
    obtain ⟨move, hmove, hfeed⟩ := List.mem_flatMap.mp hmem
    exact (hidle move hmove).feed message hfeed
  rw [Outstanding.mem_foldl_iff StallState.mem_revise_iff]
  exact or_iff_right (not_unanswered hrequest)

/-- Idle moves take from what is asked for whatever arrives. -/
theorem mem_requests_idle (hidle : ∀ move ∈ moves, move.Idle) {txid : Hash} :
    txid ∈ (moves.foldl Progress.after progress).requests ↔
      txid ∈ progress.requests ∧ txid ∉ (arrivals moves).map Tx.id := by
  induction moves generalizing progress with
  | nil => simp [arrivals]
  | cons move moves ih =>
      rw [List.forall_mem_cons] at hidle
      rw [List.foldl_cons, ih hidle.2]
      rcases hidle.1.arrives_or_stays with ⟨tx, rfl⟩ | ⟨hquiet, hstays⟩
      · have harrivals : arrivals (.receive (.tx tx) none :: moves) = tx :: arrivals moves := rfl
        have hafter := progress.requests_react_tx tx
        rw [progress.after_of_news rfl, hafter, FiniteSet.mem_erase, harrivals, List.map_cons,
          List.mem_cons]
        tauto
      · have harrivals : arrivals (move :: moves) = arrivals moves :=
          List.filterMap_cons_none hquiet
        rw [hstays, harrivals]

/-- Where nothing is asked for, idle moves make no progress. -/
theorem foldl_idle_of_isEmpty (hidle : ∀ move ∈ moves, move.Idle)
    (hempty : progress.requests.isEmpty) : moves.foldl Progress.after progress = progress := by
  induction moves with
  | nil => rfl
  | cons move moves ih =>
      rw [List.forall_mem_cons] at hidle
      have hafter : progress.after move = progress := by
        rcases hidle.1.arrives_or_stays with ⟨tx, rfl⟩ | ⟨-, hstays⟩
        · exact progress.react_tx_of_not_mem (FiniteSet.isEmpty_iff.mp hempty tx.id)
        · exact hstays progress
      rw [List.foldl_cons, hafter]
      exact ih hidle.2

/-! ## Rounds -/

namespace Round

variable (round : Round)

theorem feed_opening :
    (opening round.block).feed = .merkleBlock round.block :: Session.asking .tx round.txids := by
  simp [Move.feed, Move.step, Running.shown, Move.news?, Callback.ofMessage?, Callback.feed,
    round.matched, Session.Call.feed]

/-- A round leaves nothing to wait for that was not waited for before, and meets its block. -/
theorem mem_pending (h : expectation ∈
      (round.moves.flatMap Move.feed).foldl StallState.revise pending) :
    expectation ∈ pending ∧ expectation ≠ .data round.block.hash := by
  rw [Round.moves, List.flatMap_cons, feed_opening, List.foldl_append, List.foldl_cons,
    mem_foldl_feed_idle round.idle, mem_foldl_asking] at h
  obtain ⟨hasked | hold, hunanswered⟩ := h
  · obtain ⟨txid, hmem, rfl⟩ := hasked
    obtain ⟨message, hmessage, hanswers⟩ :=
      exists_answers_of_arrival round.idle (round.complete txid hmem)
    exact absurd hanswers (hunanswered message hmessage)
  · obtain ⟨hne, hpending⟩ := FiniteSet.mem_erase.mp hold
    exact ⟨hpending, hne⟩

/-- A round leaves nothing asked for that was not asked for before. -/
theorem mem_requests {txid : Hash}
    (h : txid ∈ (round.moves.foldl Progress.after progress).requests) :
    txid ∈ progress.requests := by
  rw [Round.moves, List.foldl_cons, mem_requests_idle round.idle,
    after_opening, progress.react_merkleBlock_ok round.matched] at h
  obtain ⟨hmem, hnew⟩ := h
  rcases FiniteSet.mem_insertAll.mp hmem with hmatched | hold
  · exact absurd (round.complete txid hmatched) hnew
  · exact hold

/-- The entry that a round adds. -/
def Delivers (delivery : Delivery) : Prop :=
  delivery.block = round.block ∧ Exact round.moves 0 delivery round.txids

theorem delivers (progress : Progress) :
    ∃ delivery, round.Delivers delivery ∧
      (round.moves.foldl Progress.after progress).deliveries =
        progress.deliveries ++ [delivery] := by
  have hspares : ∀ move ∈ round.rest, move.Spares := fun move hmem => (round.idle move hmem).spares
  obtain ⟨txs, hexact, hdelivered⟩ :=
    ((Stage.opened progress round.matched).foldl hspares).deliveries_of_complete round.complete
  exact ⟨⟨round.block, txs⟩, ⟨rfl, hexact⟩, hdelivered⟩

end Round

/-- What rounds leave to wait for: what was waited for before, their blocks apart. -/
theorem mem_pending_rounds {rounds : List Round} (h : expectation ∈
      ((rounds.flatMap Round.moves).flatMap Move.feed).foldl StallState.revise pending) :
    expectation ∈ pending ∧ ∀ round ∈ rounds, expectation ≠ .data round.block.hash := by
  induction rounds generalizing pending with
  | nil => exact ⟨h, nofun⟩
  | cons round rounds ih =>
      rw [List.flatMap_cons, List.flatMap_append, List.foldl_append] at h
      obtain ⟨hround, hrounds⟩ := ih h
      obtain ⟨hpending, hne⟩ := round.mem_pending hround
      exact ⟨hpending, List.forall_mem_cons.mpr ⟨hne, hrounds⟩⟩

/-- Blocks that are requested and all come in rounds are waited for no longer. -/
theorem isEmpty_pending_answered (hpending : pending.isEmpty) {hashes : List Hash}
    {before : List Move} (hidle : ∀ move ∈ before, move.Idle) {rounds : List Round}
    (hcovered : ∀ hash ∈ hashes, ∃ round ∈ rounds, round.block.hash = hash) :
    (((.requestBlocks hashes :: (before ++ rounds.flatMap Round.moves) : List Move).flatMap
      Move.feed).foldl StallState.revise pending).isEmpty := by
  rw [FiniteSet.isEmpty_iff] at hpending ⊢
  intro expectation hmem
  rw [List.flatMap_cons, List.flatMap_append, List.foldl_append, List.foldl_append] at hmem
  obtain ⟨hmem, hunmet⟩ := mem_pending_rounds hmem
  obtain ⟨hmem, -⟩ := (mem_foldl_feed_idle hidle).mp hmem
  rcases mem_foldl_asking.mp hmem with ⟨hash, hrequested, rfl⟩ | hold
  · obtain ⟨round, hround, rfl⟩ := hcovered hash hrequested
    exact hunmet round hround rfl
  · exact hpending expectation hold

theorem mem_requests_rounds {rounds : List Round} {txid : Hash}
    (h : txid ∈ ((rounds.flatMap Round.moves).foldl Progress.after progress).requests) :
    txid ∈ progress.requests := by
  induction rounds generalizing progress with
  | nil => exact h
  | cons round rounds ih =>
      rw [List.flatMap_cons, List.foldl_append] at h
      exact round.mem_requests (ih h)

/-- Rounds add one entry each, in their order. -/
theorem exists_delivered (rounds : List Round) (progress : Progress) :
    ∃ delivered, List.Forall₂ Round.Delivers rounds delivered ∧
      ((rounds.flatMap Round.moves).foldl Progress.after progress).deliveries =
        progress.deliveries ++ delivered := by
  induction rounds generalizing progress with
  | nil => exact ⟨[], .nil, (List.append_nil _).symm⟩
  | cons round rounds ih =>
      obtain ⟨delivery, hdelivery, hround⟩ := round.delivers progress
      obtain ⟨delivered, hdelivered, hrounds⟩ := ih (round.moves.foldl Progress.after progress)
      refine ⟨delivery :: delivered, .cons hdelivery hdelivered, ?_⟩
      rw [List.flatMap_cons, List.foldl_append, hrounds, hround, List.append_assoc]
      rfl

/-- Let nothing be waited for when blocks are requested, and let rounds follow that
cover all of them. If the watchdog is still open then, nothing is waited for or
asked for, every round has added its entry, and no check finds fault until another
request reaches the watchdog. -/
theorem answered_sync_settles {syncing final : Syncing} {state last : StallState}
    (hopen : syncing.session.watchdog = some state) (hpending : state.pending.isEmpty)
    (hrequests : syncing.session.requests.isEmpty) {hashes : List Hash} {before : List Move}
    (hidle : ∀ move ∈ before, move.Idle) {rounds : List Round}
    (hcovered : ∀ hash ∈ hashes, ∃ round ∈ rounds, round.block.hash = hash)
    (hfinal : final =
      syncing.play (.requestBlocks hashes :: (before ++ rounds.flatMap Round.moves)))
    (hlast : final.session.watchdog = some last) :
    last.pending.isEmpty ∧ final.session.requests.isEmpty ∧
      (∃ delivered, List.Forall₂ Round.Delivers rounds delivered ∧
        Client.deliveries final.memory = Client.deliveries syncing.memory ++ delivered) ∧
      ∀ failure todo messages later,
        let next := (Running.steps (Client.syncing failure) final todo).session
        Session.watched next.journal = Session.watched final.session.journal ++ messages →
        (∀ message ∈ messages, message.isRequest = false) →
        next.watchdog = some later → ∀ now, later.check now = .proceed := by
  have hprogress : final.progress =
      (rounds.flatMap Round.moves).foldl Progress.after syncing.progress := by
    have hempty : syncing.progress.requests.isEmpty := hrequests
    have hasked : syncing.progress.after (.requestBlocks hashes) = syncing.progress := rfl
    rw [hfinal, progress_play, List.foldl_cons, List.foldl_append, hasked,
      foldl_idle_of_isEmpty hidle hempty]
  have hsettled : last.pending.isEmpty := by
    subst hfinal
    rw [(hears_play syncing _).pending_eq hopen hlast]
    exact isEmpty_pending_answered hpending hidle hcovered
  refine ⟨hsettled, ?_, ?_, ?_⟩
  · rw [FiniteSet.isEmpty_iff] at hrequests ⊢
    intro txid hmem
    have hfinally : txid ∈ final.progress.requests := hmem
    rw [hprogress] at hfinally
    exact hrequests txid (mem_requests_rounds hfinally)
  · obtain ⟨delivered, hdelivered, hdeliveries⟩ := exists_delivered rounds syncing.progress
    rw [← hprogress] at hdeliveries
    exact ⟨delivered, hdelivered, hdeliveries⟩
  · intro failure todo messages later next hwatched hquiet hlater now
    obtain ⟨heard, hhears⟩ := Running.exists_hears_steps (Client.syncing failure) final todo
    have hheard := hhears.watched_eq hlater
    obtain rfl : heard = messages := List.append_cancel_left (hheard.symm.trans hwatched)
    exact hhears.check_eq_proceed hlast hsettled hquiet hlater now

/-- Three blocks: one of them matches a transaction whose bytes are the header of
another one, so that both have one hash, and one matches nothing. -/
theorem answered_sync_settles_shared_hash :
    let payment : Tx := ⟨[1]⟩
    let plain : MerkleBlock := ⟨⟨1, .zero, payment.id, 0, 0, 0⟩, 1, [payment.id], [1]⟩
    let twin : Tx := ⟨plain.header.encode⟩
    let sharing : MerkleBlock := ⟨⟨1, plain.hash, twin.id, 0, 0, 0⟩, 1, [twin.id], [1]⟩
    let bare : MerkleBlock := ⟨⟨1, sharing.hash, .zero, 0, 0, 0⟩, 1, [.zero], [0]⟩
    let syncing := start (.v4 ⟨127, 0, 0, 1⟩ 8333) 0 {} 0
    let hashes := [plain.hash, sharing.hash, bare.hash]
    let before : List Move := [.tick 1, .receive (.ping 9) none]
    ∃ (rounds : List Round) (last : StallState),
      let final := syncing.play (.requestBlocks hashes :: (before ++ rounds.flatMap Round.moves))
      rounds.map Round.block = [sharing, plain, bare] ∧
        (∀ move ∈ before, move.Idle) ∧
        (∀ hash ∈ hashes, ∃ round ∈ rounds, round.block.hash = hash) ∧
        final.session.watchdog = some last ∧
        last.pending.isEmpty ∧ final.session.requests.isEmpty ∧
        (∃ delivered, List.Forall₂ Round.Delivers rounds delivered ∧
          Client.deliveries final.memory = Client.deliveries syncing.memory ++ delivered) ∧
        ∀ failure todo messages later,
          let next := (Running.steps (Client.syncing failure) final todo).session
          Session.watched next.journal = Session.watched final.session.journal ++ messages →
          (∀ message ∈ messages, message.isRequest = false) →
          next.watchdog = some later → ∀ now, later.check now = .proceed := by
  intro payment plain twin sharing bare syncing hashes before
  let first : Round := {
    block := sharing
    txids := [twin.id]
    matched := by decide +kernel
    rest := [.receive (.tx payment) none, .receive (.tx twin) none]
    idle := by
      simp only [List.forall_mem_cons]
      exact ⟨⟨rfl, rfl, nofun⟩, ⟨rfl, rfl, nofun⟩, nofun⟩
    complete := by
      intro txid hmem
      rw [List.mem_singleton.mp hmem]
      exact List.mem_cons_of_mem _ (List.mem_singleton_self _) }
  let second : Round := {
    block := plain
    txids := [payment.id]
    matched := by decide +kernel
    rest := [.receive (.tx payment) none, .ping, .receive (.tx payment) none]
    idle := by
      simp only [List.forall_mem_cons]
      exact ⟨⟨rfl, rfl, nofun⟩, trivial, ⟨rfl, rfl, nofun⟩, nofun⟩
    complete := by
      intro txid hmem
      rw [List.mem_singleton.mp hmem]
      exact List.mem_cons_self }
  let third : Round := {
    block := bare
    txids := []
    matched := by decide +kernel
    rest := [.receive (.pong 9) none]
    idle := by
      simp only [List.forall_mem_cons]
      exact ⟨⟨rfl, rfl, nofun⟩, nofun⟩
    complete := nofun }
  let final := syncing.play
    (.requestBlocks hashes :: (before ++ [first, second, third].flatMap Round.moves))
  have hsome : final.session.watchdog.isSome := by decide +kernel
  have hidle : ∀ move ∈ before, move.Idle := by
    simp only [before, List.forall_mem_cons]
    exact ⟨trivial, ⟨rfl, rfl, nofun⟩, nofun⟩
  have hcovered : ∀ hash ∈ hashes, ∃ round ∈ [first, second, third], round.block.hash = hash := by
    simp only [hashes, List.forall_mem_cons]
    exact ⟨⟨second, by simp, rfl⟩, ⟨first, by simp, rfl⟩, ⟨third, by simp, rfl⟩, nofun⟩
  have hlast : final.session.watchdog = some (final.session.watchdog.get hsome) :=
    (Option.some_get hsome).symm
  exact ⟨[first, second, third], _, rfl, hidle, hcovered, hlast,
    answered_sync_settles rfl rfl rfl hidle hcovered rfl hlast⟩

end Syncing

end LightPeer
