import LightPeer.Proofs.Session.Firsts
import LightPeer.Proofs.Session.Simulation
import Mathlib.Data.List.Forall2
import Mathlib.Data.List.Induction

/-! # Only exact blocks are ever completed

Whatever comes, is asked for or fails in between, a block is written down with
the first arrivals of exactly the transactions that its proof matches, and at
most once for every time that it came. -/

namespace LightPeer

namespace Syncing

open Move

/-! ## What came after a move -/

variable {moves : List Move} {origin : Nat}

theorem arrival?_eq_some {move : Move} {tx : Tx} (h : move.news? = some (.tx tx)) :
    move.arrival? = some tx := by
  unfold arrival?
  rw [h]

theorem arrival?_eq_none {move : Move} (h : ∀ tx, move.news? ≠ some (.tx tx)) :
    move.arrival? = none := by
  unfold arrival?
  split
  · rename_i tx hnews
    exact absurd hnews (h tx)
  · rfl

theorem since_append (h : origin < moves.length) (move : Move) :
    since (moves ++ [move]) origin = since moves origin ++ move.arrival?.toList := by
  unfold since arrivals
  rw [List.drop_append_of_le_length h, List.filterMap_append]
  cases harrival : move.arrival? <;> simp [harrival]

theorem since_append_quiet (h : origin < moves.length) {move : Move}
    (hquiet : move.arrival? = none) : since (moves ++ [move]) origin = since moves origin := by
  rw [since_append h, hquiet, Option.toList_none, List.append_nil]

theorem since_append_tx (h : origin < moves.length) {move : Move} {tx : Tx}
    (harrival : move.arrival? = some tx) :
    since (moves ++ [move]) origin = since moves origin ++ [tx] := by
  rw [since_append h, harrival, Option.toList_some]

theorem since_append_length (move : Move) : since (moves ++ [move]) moves.length = [] := by
  simp [since, arrivals]

/-- At a move, the client acts on a block whose proof is good. -/
structure Opens (moves : List Move) (origin : Nat) (block : MerkleBlock) (txids : List Hash) :
    Prop where
  news : moves[origin]?.bind news? = some (.merkleBlock block)
  matched : block.matched = .ok txids

namespace Opens

variable {block : MerkleBlock} {txids : List Hash}

theorem lt_length (h : Opens moves origin block txids) : origin < moves.length := by
  by_contra hge
  have hnews := h.news
  rw [List.getElem?_eq_none (Nat.le_of_not_lt hge)] at hnews
  exact nomatch hnews

theorem append (h : Opens moves origin block txids) (move : Move) :
    Opens (moves ++ [move]) origin block txids where
  news := by rw [List.getElem?_append_left h.lt_length, h.news]
  matched := h.matched

end Opens

/-! ## Blocks that were written down -/

/-- A block comes from one message, and holds the first arrivals of exactly
the transactions that the message matches. -/
structure Exact (moves : List Move) (origin : Nat) (delivery : Delivery) (txids : List Hash) :
    Prop where
  opens : Opens moves origin delivery.block txids
  nodup : (delivery.txs.map Tx.id).Nodup
  mem_iff : ∀ txid, txid ∈ delivery.txs.map Tx.id ↔ txid ∈ txids
  firsts : Firsts (since moves origin) delivery.txs

theorem Exact.append {delivery : Delivery} {txids : List Hash}
    (h : Exact moves origin delivery txids) (move : Move) :
    Exact (moves ++ [move]) origin delivery txids where
  opens := h.opens.append move
  nodup := h.nodup
  mem_iff := h.mem_iff
  firsts := by
    rw [since_append h.opens.lt_length]
    exact h.firsts.append _

/-- Moves and matches decide what is written down. -/
theorem Exact.unique {block : MerkleBlock} {txs others : List Tx} {txids : List Hash}
    (h : Exact moves origin ⟨block, txs⟩ txids) (hothers : Exact moves origin ⟨block, others⟩ txids) :
    txs = others := by
  apply h.firsts.unique hothers.firsts
  intro txid
  exact (h.mem_iff txid).trans (hothers.mem_iff txid).symm

/-! ## The block on its way -/

/-- A tracker holds what its block got so far, and everything else that the
block matches is asked for. -/
structure Tracks (moves : List Move) (origin : Nat) (block : MerkleBlock) (txids : List Hash)
    (tracker : BlockTracker) (requests : Requests) : Prop where
  opens : Opens moves origin block txids
  firsts : Firsts (since moves origin) tracker.txs
  mem_iff : ∀ txid, txid ∈ tracker.txs.map Tx.id ↔
    txid ∈ txids ∧ txid ∈ (since moves origin).map Tx.id
  expected_iff : ∀ txid, txid ∈ tracker.expected ↔
    txid ∈ txids ∧ txid ∉ (since moves origin).map Tx.id
  asked : ∀ txid, txid ∈ tracker.expected → txid ∈ requests

namespace Tracks

variable {block : MerkleBlock} {txids : List Hash} {tracker : BlockTracker} {requests : Requests}

/-- A block that has just come expects everything that it matches. -/
theorem opened (moves : List Move) {move : Move} (hnews : move.news? = some (.merkleBlock block))
    (hmatched : block.matched = .ok txids) (requests : Requests) :
    Tracks (moves ++ [move]) moves.length block txids ⟨some block, .ofList txids, []⟩
      (FiniteSet.insertAll requests txids) := by
  have hopens : (moves ++ [move])[moves.length]?.bind news? = some (.merkleBlock block) := by
    rw [List.getElem?_concat_length, Option.bind_some, hnews]
  refine ⟨⟨hopens, hmatched⟩, .nil _, ?_, ?_, ?_⟩
  · simp [since_append_length]
  · simp [since_append_length]
  · intro txid hmem
    rw [FiniteSet.mem_ofList] at hmem
    exact FiniteSet.mem_insertAll.mpr (.inl hmem)

theorem exact (h : Tracks moves origin block txids tracker requests)
    (hdone : tracker.expected.isEmpty) : Exact moves origin ⟨block, tracker.txs⟩ txids where
  opens := h.opens
  nodup := h.firsts.nodup
  mem_iff txid := by
    have hnone := FiniteSet.isEmpty_iff.mp hdone txid
    rw [h.expected_iff] at hnone
    rw [h.mem_iff]
    tauto
  firsts := h.firsts

theorem quiet (h : Tracks moves origin block txids tracker requests) {move : Move}
    (hquiet : move.arrival? = none) :
    Tracks (moves ++ [move]) origin block txids tracker requests := by
  have hsince := since_append_quiet h.opens.lt_length hquiet
  refine ⟨h.opens.append move, ?_, ?_, ?_, h.asked⟩
  · rw [hsince]
    exact h.firsts
  · rw [hsince]
    exact h.mem_iff
  · rw [hsince]
    exact h.expected_iff

/-- What is not expected came before or belongs to no match, and changes nothing. -/
theorem unexpected (h : Tracks moves origin block txids tracker requests) {move : Move} {tx : Tx}
    (harrival : move.arrival? = some tx) (hother : tx.id ∉ tracker.expected) :
    Tracks (moves ++ [move]) origin block txids tracker requests := by
  have hsince := since_append_tx h.opens.lt_length harrival
  have hseen : tx.id ∈ txids → tx.id ∈ (since moves origin).map Tx.id := by
    rw [h.expected_iff] at hother
    tauto
  have hmem (txid : Hash) : txid ∈ txids ∧ txid ∈ (since (moves ++ [move]) origin).map Tx.id ↔
      txid ∈ txids ∧ txid ∈ (since moves origin).map Tx.id := by
    rw [hsince, mem_ids_append]
    constructor
    · rintro ⟨hwanted, hold | rfl⟩
      · exact ⟨hwanted, hold⟩
      · exact ⟨hwanted, hseen hwanted⟩
    · exact fun ⟨hwanted, hold⟩ => ⟨hwanted, .inl hold⟩
  refine ⟨h.opens.append move, ?_, fun txid => ?_, fun txid => ?_, h.asked⟩
  · rw [hsince]
    exact h.firsts.append [tx]
  · rw [h.mem_iff, hmem]
  · have hmem := hmem txid
    rw [h.expected_iff]
    tauto

/-- What is expected comes for the first time and is recorded. -/
theorem expected (h : Tracks moves origin block txids tracker requests) {move : Move} {tx : Tx}
    (harrival : move.arrival? = some tx) (hexpected : tx.id ∈ tracker.expected) :
    Tracks (moves ++ [move]) origin block txids (tracker.settle tx) (requests.erase tx.id) := by
  have hsince := since_append_tx h.opens.lt_length harrival
  obtain ⟨hwanted, hnew⟩ := (h.expected_iff _).mp hexpected
  rw [BlockTracker.settle_of_mem hexpected]
  refine ⟨h.opens.append move, ?_, fun txid => ?_, fun txid => ?_, fun txid hmem => ?_⟩
  · rw [hsince]
    exact h.firsts.push hnew
  · rw [hsince, mem_ids_append, mem_ids_append, h.mem_iff]
    constructor
    · rintro (⟨hw, ho⟩ | rfl)
      · exact ⟨hw, .inl ho⟩
      · exact ⟨hwanted, .inr rfl⟩
    · rintro ⟨hw, ho | rfl⟩
      · exact .inl ⟨hw, ho⟩
      · exact .inr rfl
  · rw [hsince, mem_ids_append, FiniteSet.mem_erase, h.expected_iff]
    tauto
  · rw [FiniteSet.mem_erase] at hmem ⊢
    exact ⟨hmem.1, h.asked txid hmem.2⟩

theorem settle (h : Tracks moves origin block txids tracker requests) {move : Move} {tx : Tx}
    (harrival : move.arrival? = some tx) :
    Tracks (moves ++ [move]) origin block txids (tracker.settle tx) (requests.erase tx.id) := by
  by_cases hexpected : tx.id ∈ tracker.expected
  · exact h.expected harrival hexpected
  · rw [BlockTracker.settle_of_not_mem hexpected]
    refine { h.unexpected harrival hexpected with asked := fun txid hmem => ?_ }
    refine FiniteSet.mem_erase.mpr ⟨?_, h.asked txid hmem⟩
    rintro rfl
    exact hexpected hmem

end Tracks

/-! ## All blocks of a run -/

/-- The blocks that were written down come from messages of increasing numbers,
and the block on its way from a later one. -/
structure Ledger (moves : List Move) (origins : List Nat) (progress : Progress) : Prop where
  ordered : origins.Pairwise (· < ·)
  bounded : ∀ origin ∈ origins, origin < moves.length
  exact : List.Forall₂ (fun origin delivery => ∃ txids, Exact moves origin delivery txids)
    origins progress.deliveries
  tracks : ∀ block, progress.tracker.block = some block → ∃ origin txids,
    (∀ earlier ∈ origins, earlier < origin) ∧
      Tracks moves origin block txids progress.tracker progress.requests

namespace Ledger

variable {origins : List Nat} {progress next : Progress}

theorem initial (addr : Endpoint) (localHeight : UInt32) (settings : Settings) (clock : Nat) :
    Ledger [] [] (start addr localHeight settings clock).progress where
  ordered := .nil
  bounded := nofun
  exact := .nil
  tracks := nofun

/-- A completed block leaves the tracker and joins the others. -/
theorem collect (h : Ledger moves origins progress) :
    ∃ origins', Ledger moves origins' progress.collect := by
  rcases progress.collect_cases with hsame | ⟨block, hblock, hdone, hcollect⟩
  · rw [hsame]
    exact ⟨origins, h⟩
  · obtain ⟨origin, txids, hlater, htracks⟩ := h.tracks block hblock
    refine ⟨origins ++ [origin], ?_⟩
    rw [hcollect]
    refine ⟨?_, ?_, ?_, nofun⟩
    · refine List.pairwise_append.mpr ⟨h.ordered, List.pairwise_singleton _ _, ?_⟩
      simpa using hlater
    · intro earlier hmem
      rcases List.mem_append.mp hmem with hold | hlast
      · exact h.bounded earlier hold
      · obtain rfl := List.mem_singleton.mp hlast
        exact htracks.opens.lt_length
    · exact List.rel_append h.exact (.cons ⟨txids, htracks.exact hdone⟩ .nil)

/-- Whatever happens at a move, what was written down stays exact. -/
theorem advance (h : Ledger moves origins progress) (move : Move)
    (hdeliveries : next.deliveries = progress.deliveries)
    (htracks : ∀ block, next.tracker.block = some block → ∃ origin txids,
      (∀ earlier ∈ origins, earlier < origin) ∧
        Tracks (moves ++ [move]) origin block txids next.tracker next.requests) :
    Ledger (moves ++ [move]) origins next where
  ordered := h.ordered
  bounded origin hmem := by
    rw [List.length_append]
    exact Nat.lt_add_right 1 (h.bounded origin hmem)
  exact := by
    rw [hdeliveries]
    exact h.exact.imp fun _ _ ⟨txids, hexact⟩ => ⟨txids, hexact.append move⟩
  tracks := htracks

/-- A move at which no transaction comes can only ask for more, or drop the block. -/
theorem quiet (h : Ledger moves origins progress) {move : Move} (hquiet : move.arrival? = none)
    (hdeliveries : next.deliveries = progress.deliveries)
    (htracker : next.tracker = progress.tracker ∨ next.tracker = .empty)
    (hrequests : ∀ txid, txid ∈ progress.requests → txid ∈ next.requests) :
    Ledger (moves ++ [move]) origins next := by
  refine h.advance move hdeliveries fun block hblock => ?_
  rcases htracker with hsame | hempty
  · rw [hsame] at hblock ⊢
    obtain ⟨origin, txids, hlater, htracks⟩ := h.tracks block hblock
    refine ⟨origin, txids, hlater, { htracks.quiet hquiet with asked := fun txid hmem => ?_ }⟩
    exact hrequests txid (htracks.asked txid hmem)
  · rw [hempty] at hblock
    exact nomatch hblock

/-- A block with a good proof takes over; one with a bad proof changes nothing. -/
theorem merkleBlock (h : Ledger moves origins progress) {move : Move} {block : MerkleBlock}
    (hnews : move.news? = some (.merkleBlock block)) :
    ∃ origins', Ledger (moves ++ [move]) origins' (progress.react (.merkleBlock block)) := by
  have hquiet : move.arrival? = none := arrival?_eq_none (by simp [hnews])
  cases hmatched : block.matched with
  | error fault =>
      rw [progress.react_merkleBlock_error hmatched]
      exact ⟨origins, h.quiet hquiet rfl (.inl rfl) fun _ => id⟩
  | ok txids =>
      rw [progress.react_merkleBlock_ok hmatched]
      refine (h.advance move ?_ ?_).collect
      · rfl
      · rintro _ ⟨⟩
        exact ⟨moves.length, txids, h.bounded, .opened moves hnews hmatched progress.requests⟩

theorem tx (h : Ledger moves origins progress) {move : Move} {tx : Tx}
    (hnews : move.news? = some (.tx tx)) :
    ∃ origins', Ledger (moves ++ [move]) origins' (progress.react (.tx tx)) := by
  have harrival := arrival?_eq_some hnews
  by_cases hasked : tx.id ∈ progress.requests
  · rw [progress.react_tx_of_mem hasked]
    refine (h.advance move ?_ ?_).collect
    · rfl
    · intro block hblock
      rw [BlockTracker.block_settle] at hblock
      obtain ⟨origin, txids, hlater, htracks⟩ := h.tracks block hblock
      exact ⟨origin, txids, hlater, htracks.settle harrival⟩
  · rw [progress.react_tx_of_not_mem hasked]
    refine ⟨origins, h.advance move rfl fun block hblock => ?_⟩
    obtain ⟨origin, txids, hlater, htracks⟩ := h.tracks block hblock
    have hother : tx.id ∉ progress.tracker.expected := fun hmem => hasked (htracks.asked _ hmem)
    exact ⟨origin, txids, hlater, htracks.unexpected harrival hother⟩

theorem after (h : Ledger moves origins progress) (move : Move) :
    ∃ origins', Ledger (moves ++ [move]) origins' (progress.after move) := by
  unfold Progress.after
  cases hnews : move.news? with
  | some callback =>
      cases callback with
      | merkleBlock block => exact h.merkleBlock hnews
      | tx tx => exact h.tx hnews
      | _ =>
          have hquiet : move.arrival? = none := arrival?_eq_none (by simp [hnews])
          exact ⟨origins, h.quiet hquiet rfl (.inl rfl) fun _ => id⟩
  | none =>
      have hquiet : move.arrival? = none := arrival?_eq_none (by simp [hnews])
      cases move with
      | requestTxs txids =>
          refine ⟨origins, h.quiet hquiet rfl (.inl rfl) ?_⟩
          intro txid hmem
          exact FiniteSet.mem_insertAll.mpr (.inr hmem)
      | loadFilter filter => exact ⟨origins, h.quiet hquiet rfl (.inr rfl) fun _ => id⟩
      | _ => exact ⟨origins, h.quiet hquiet rfl (.inl rfl) fun _ => id⟩

theorem foldl (moves : List Move) (h : Ledger [] [] progress) :
    ∃ origins, Ledger moves origins (moves.foldl Progress.after progress) := by
  induction moves using List.reverseRecOn with
  | nil => exact ⟨[], h⟩
  | append_singleton moves move ih =>
      obtain ⟨origins, hledger⟩ := ih
      rw [List.foldl_append]
      exact hledger.after move

end Ledger

/-- Every completed block comes from one message that the client acted on and
that proves its matches, with the first arrivals of exactly those; the messages
have increasing numbers, so each of them completes at most one block. -/
theorem deliveries_exact (addr : Endpoint) (localHeight : UInt32) (settings : Settings)
    (clock : Nat) (moves : List Move) :
    ∃ origins : List Nat, origins.Pairwise (· < ·) ∧
      List.Forall₂ (fun origin delivery => ∃ txids, Exact moves origin delivery txids) origins
        (Client.deliveries ((start addr localHeight settings clock).play moves).memory) := by
  have hplay := progress_play (start addr localHeight settings clock) moves
  obtain ⟨origins, hledger⟩ := Ledger.foldl moves (Ledger.initial addr localHeight settings clock)
  rw [← hplay] at hledger
  exact ⟨origins, hledger.ordered, hledger.exact⟩

end Syncing

end LightPeer
