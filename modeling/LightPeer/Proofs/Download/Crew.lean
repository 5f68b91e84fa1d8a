import LightPeer.Proofs.Download.Lifecycle
import Mathlib.Logic.Function.Basic

/-! # Several clients at one tracker

Each client works off the transactions that it got: it resolves one, records it if the
block expected it, and tries to take the block. Every operation is done as a whole, and
between two of them any other client may have its turn. So a client can take the block
while another one carries a transaction that it has resolved and not recorded, and then
the block goes without this transaction. -/

namespace LightPeer

namespace BlockTracker

/-- What a client does at its next turn. -/
inductive Duty where
  /-- Resolves the next transaction that it got. -/
  | resolve
  /-- Records a transaction that it has resolved. -/
  | record (tx : Tx)
  | take
deriving DecidableEq

/-- A client with this duty has resolved a transaction of this hash and not recorded it. -/
def Duty.Carries : Duty → Hash → Prop
  | record tx, txid => tx.id = txid
  | _, _ => False

/-- Clients that work on one tracker. -/
structure Crew (ι : Type) where
  tracker : BlockTracker
  /-- What a client got and has not worked off. -/
  inbox : ι → List Tx
  duty : ι → Duty

namespace Crew

variable {ι : Type} {block : MerkleBlock} {txids : List Hash} {crew : Crew ι} {client : ι}

def start (tracker : BlockTracker) (inbox : ι → List Tx) : Crew ι :=
  ⟨tracker, inbox, fun _ => .resolve⟩

def Carries (crew : Crew ι) (txid : Hash) : Prop :=
  ∃ client, (crew.duty client).Carries txid

/-- Every match of the block is in one place: it is expected, recorded, or with one client. -/
structure Shares (block : MerkleBlock) (txids : List Hash) (crew : Crew ι) : Prop where
  block_eq : crew.tracker.block = some block
  nodup : (crew.tracker.txs.map Tx.id).Nodup
  mem_iff : ∀ txid, txid ∈ txids ↔
    txid ∈ crew.tracker.expected ∨ txid ∈ crew.tracker.txs.map Tx.id ∨ crew.Carries txid
  recorded : ∀ txid ∈ crew.tracker.txs.map Tx.id, txid ∉ crew.tracker.expected
  carried : ∀ txid, crew.Carries txid →
    txid ∉ crew.tracker.expected ∧ txid ∉ crew.tracker.txs.map Tx.id
  alone : ∀ client other txid, (crew.duty client).Carries txid → (crew.duty other).Carries txid →
    client = other

theorem Shares.start {tracker : BlockTracker} (h : Created tracker (some block) txids)
    (inbox : ι → List Tx) : Shares block txids (start tracker inbox) := by
  rw [h.eq]
  refine ⟨rfl, List.nodup_nil, ?_, nofun, ?_, ?_⟩
  · simp [Crew.start, Carries, Duty.Carries]
  · simp [Crew.start, Carries, Duty.Carries]
  · simp [Crew.start, Duty.Carries]

/-- Only the tracker matters, and who carries what. -/
theorem Shares.of_carries_iff (h : Shares block txids crew) {next : Crew ι}
    (htracker : next.tracker = crew.tracker)
    (hcarries : ∀ client txid, (next.duty client).Carries txid ↔ (crew.duty client).Carries txid) :
    Shares block txids next where
  block_eq := htracker ▸ h.block_eq
  nodup := htracker ▸ h.nodup
  mem_iff := by
    simp only [Carries, hcarries, htracker]
    exact h.mem_iff
  recorded := htracker ▸ h.recorded
  carried := by
    simp only [Carries, hcarries, htracker]
    exact h.carried
  alone := by
    simp only [hcarries]
    exact h.alone

/-- When nothing is expected any more, what is not recorded is carried. -/
theorem Shares.mem_recorded_iff (h : Shares block txids crew)
    (hdone : crew.tracker.expected.isEmpty) {txid : Hash} :
    txid ∈ crew.tracker.txs.map Tx.id ↔ txid ∈ txids ∧ ¬ crew.Carries txid := by
  have hunexpected := FiniteSet.isEmpty_iff.mp hdone txid
  have hcarried := h.carried txid
  have hmem := h.mem_iff txid
  tauto

variable [DecidableEq ι]

/-- One operation of a client, with what it takes. -/
def turn (crew : Crew ι) (client : ι) : Crew ι × Option Delivery :=
  match crew.duty client with
  | .resolve =>
    match crew.inbox client with
    | [] => (crew, none)
    | tx :: later =>
      let (tracker, expected) := crew.tracker.resolve tx.id
      let duty : Duty := if expected then .record tx else .take
      (⟨tracker, Function.update crew.inbox client later, Function.update crew.duty client duty⟩,
        none)
  | .record tx =>
    ({ crew with tracker := crew.tracker.push tx, duty := Function.update crew.duty client .take },
      none)
  | .take =>
    let (tracker, taken) := crew.tracker.take
    ({ crew with tracker, duty := Function.update crew.duty client .resolve }, taken)

/-- The crew after some turns, each of a client. -/
def play (crew : Crew ι) (schedule : List ι) : Crew ι :=
  schedule.foldl (fun crew client => (crew.turn client).1) crew

/-- At its turn a client has nothing to do, or resolves a transaction, records it, or tries
to take the block. -/
theorem turn_cases (crew : Crew ι) (client : ι) :
    crew.turn client = (crew, none) ∨
      (∃ tx inbox, crew.duty client = .resolve ∧
        let duty : Duty := if tx.id ∈ crew.tracker.expected then .record tx else .take
        crew.turn client = (⟨(crew.tracker.resolve tx.id).1, inbox,
          Function.update crew.duty client duty⟩, none)) ∨
      (∃ tx, crew.duty client = .record tx ∧
        crew.turn client = ({ crew with
          tracker := crew.tracker.push tx, duty := Function.update crew.duty client .take }, none)) ∨
      (crew.duty client = .take ∧
        crew.turn client = ({ crew with
          tracker := crew.tracker.take.1, duty := Function.update crew.duty client .resolve },
            crew.tracker.take.2)) := by
  cases hduty : crew.duty client with
  | resolve =>
      cases hinbox : crew.inbox client with
      | nil => exact .inl (by simp only [turn, hduty, hinbox])
      | cons tx later =>
          refine .inr (.inl ⟨tx, Function.update crew.inbox client later, rfl, ?_⟩)
          simp [turn, hduty, hinbox, resolve]
  | record tx => exact .inr (.inr (.inl ⟨tx, rfl, by simp only [turn, hduty]⟩))
  | take => exact .inr (.inr (.inr ⟨rfl, by simp only [turn, hduty]⟩))

/-! ## What clients carry -/

theorem carries_update_iff {duty : ι → Duty} {next : Duty} {other : ι} {txid : Hash} :
    (Function.update duty client next other).Carries txid ↔
      (other = client ∧ next.Carries txid) ∨ (other ≠ client ∧ (duty other).Carries txid) := by
  by_cases hother : other = client
  · subst hother
    simp
  · simp [hother]

/-- A client that carries nothing may take something up. -/
theorem exists_carries_update_iff {next : Duty} {txid : Hash}
    (hfree : ∀ txid, ¬ (crew.duty client).Carries txid) :
    (∃ other, (Function.update crew.duty client next other).Carries txid) ↔
      next.Carries txid ∨ crew.Carries txid := by
  simp only [carries_update_iff, Carries]
  constructor
  · rintro ⟨other, ⟨-, hnext⟩ | ⟨-, hold⟩⟩
    · exact .inl hnext
    · exact .inr ⟨other, hold⟩
  · rintro (hnext | ⟨other, hold⟩)
    · exact ⟨client, .inl ⟨rfl, hnext⟩⟩
    · refine ⟨other, .inr ⟨?_, hold⟩⟩
      rintro rfl
      exact hfree txid hold

namespace Shares

/-! ## One turn -/

/-- A client resolves an expected transaction, and carries it. -/
theorem takeUp (h : Shares block txids crew) (hfree : ∀ txid, ¬ (crew.duty client).Carries txid)
    {tx : Tx} (hexpected : tx.id ∈ crew.tracker.expected) (inbox : ι → List Tx) :
    Shares block txids
      ⟨(crew.tracker.resolve tx.id).1, inbox, Function.update crew.duty client (.record tx)⟩ where
  block_eq := h.block_eq
  nodup := h.nodup
  mem_iff txid := by
    refine (h.mem_iff txid).trans ?_
    simp only [Carries, exists_carries_update_iff hfree, BlockTracker.resolve, FiniteSet.mem_erase]
    by_cases htx : txid = tx.id
    · subst htx
      simp [Duty.Carries, hexpected]
    · simp [Duty.Carries, htx, Ne.symm htx]
  recorded txid hmem hrest := h.recorded txid hmem (FiniteSet.mem_erase.mp hrest).2
  carried txid hcarries := by
    rcases (exists_carries_update_iff hfree).mp hcarries with rfl | hold
    · refine ⟨fun hmem => (FiniteSet.mem_erase.mp hmem).1 rfl, fun hmem => ?_⟩
      exact h.recorded _ hmem hexpected
    · obtain ⟨hnot, hunrecorded⟩ := h.carried txid hold
      exact ⟨fun hmem => hnot (FiniteSet.mem_erase.mp hmem).2, hunrecorded⟩
  alone first second txid hfirst hsecond := by
    have hnew {other : ι} (hold : (crew.duty other).Carries tx.id) : False :=
      (h.carried _ ⟨other, hold⟩).1 hexpected
    rcases carries_update_iff.mp hfirst with ⟨rfl, rfl⟩ | ⟨hother, hold⟩
    · rcases carries_update_iff.mp hsecond with ⟨rfl, -⟩ | ⟨-, hold⟩
      · rfl
      · exact (hnew hold).elim
    · rcases carries_update_iff.mp hsecond with ⟨rfl, rfl⟩ | ⟨-, hsame⟩
      · exact (hnew hold).elim
      · exact h.alone _ _ txid hold hsame

/-- A client records the transaction that it carries. -/
theorem putDown (h : Shares block txids crew) {tx : Tx} (hduty : crew.duty client = .record tx) :
    Shares block txids { crew with
      tracker := crew.tracker.push tx, duty := Function.update crew.duty client .take } := by
  have hheld : (crew.duty client).Carries tx.id := by
    rw [hduty]
    rfl
  obtain ⟨hunexpected, hunrecorded⟩ := h.carried tx.id ⟨client, hheld⟩
  have hrecorded (txid : Hash) : txid ∈ (crew.tracker.push tx).txs.map Tx.id ↔
      txid ∈ crew.tracker.txs.map Tx.id ∨ txid = tx.id := by
    simp [BlockTracker.push]
  -- The client was the only one with this transaction, so nobody carries it now.
  have hcarries (other : ι) (txid : Hash) :
      (Function.update crew.duty client .take other).Carries txid ↔
        txid ≠ tx.id ∧ (crew.duty other).Carries txid := by
    rw [carries_update_iff]
    by_cases hother : other = client
    · subst hother
      simp [hduty, Duty.Carries, eq_comm]
    · simp only [hother, false_and, false_or, ne_eq, not_false_eq_true, true_and, iff_and_self]
      rintro hold rfl
      exact hother (h.alone _ _ _ hold hheld)
  constructor
  · exact h.block_eq
  · change ((crew.tracker.txs ++ [tx]).map Tx.id).Nodup
    rw [List.map_append, List.map_singleton, ← List.concat_eq_append]
    exact h.nodup.concat hunrecorded
  · intro txid
    refine (h.mem_iff txid).trans ?_
    rw [hrecorded]
    by_cases htx : txid = tx.id
    · subst htx
      have hcarried : crew.Carries tx.id := ⟨client, hheld⟩
      simp [hcarried]
    · simp [Carries, hcarries, htx, BlockTracker.push]
  · intro txid hmem
    rcases (hrecorded txid).mp hmem with hold | rfl
    · exact h.recorded txid hold
    · exact hunexpected
  · rintro txid ⟨other, hother⟩
    obtain ⟨hne, hold⟩ := (hcarries other txid).mp hother
    obtain ⟨hnot, hother⟩ := h.carried txid ⟨other, hold⟩
    refine ⟨hnot, fun hmem => ?_⟩
    exact ((hrecorded txid).mp hmem).elim hother hne
  · intro first second txid hfirst hsecond
    exact h.alone first second txid ((hcarries _ _).mp hfirst).2 ((hcarries _ _).mp hsecond).2

/-- A client goes on with empty hands. -/
theorem goOn (h : Shares block txids crew) (hfree : ∀ txid, ¬ (crew.duty client).Carries txid)
    {duty : Duty} (hduty : ∀ txid, ¬ duty.Carries txid) (inbox : ι → List Tx) :
    Shares block txids ⟨crew.tracker, inbox, Function.update crew.duty client duty⟩ := by
  refine h.of_carries_iff rfl fun other txid => carries_update_iff.trans ?_
  by_cases hother : other = client
  · subst hother
    simp [hfree, hduty]
  · simp [hother]

/-- A turn moves at most one match to its next place, or the block is taken. -/
theorem turn (h : Shares block txids crew) (client : ι) :
    Shares block txids (crew.turn client).1 ∨ (crew.turn client).1.tracker.block = none := by
  rcases crew.turn_cases client with
    hturn | ⟨tx, inbox, hduty, hturn⟩ | ⟨tx, hduty, hturn⟩ | ⟨hduty, hturn⟩
  · exact .inl (hturn ▸ h)
  · have hfree : ∀ txid, ¬ (crew.duty client).Carries txid := by simp [hduty, Duty.Carries]
    left
    rw [hturn]
    by_cases hexpected : tx.id ∈ crew.tracker.expected
    · rw [if_pos hexpected]
      exact h.takeUp hfree hexpected inbox
    · have hsame : (crew.tracker.resolve tx.id).1 = crew.tracker := by
        simp [BlockTracker.resolve, FiniteSet.erase_of_not_mem hexpected]
      rw [if_neg hexpected, hsame]
      exact h.goOn hfree (fun _ => id) inbox
  · rw [hturn]
    exact .inl (h.putDown hduty)
  · have hfree : ∀ txid, ¬ (crew.duty client).Carries txid := by simp [hduty, Duty.Carries]
    rw [hturn]
    cases htaken : crew.tracker.take.2 with
    | none =>
        left
        rw [take_eq_self htaken]
        exact h.goOn hfree (fun _ => id) crew.inbox
    | some delivery => exact .inr (block_take htaken)

end Shares

/-! ## Any number of turns -/

/-- A block that is gone does not come back. -/
theorem block_turn_of_none (h : crew.tracker.block = none) (client : ι) :
    (crew.turn client).1.tracker.block = none := by
  rcases crew.turn_cases client with
    hturn | ⟨tx, inbox, -, hturn⟩ | ⟨tx, -, hturn⟩ | ⟨-, hturn⟩
  · rwa [hturn]
  · rwa [hturn]
  · rwa [hturn]
  · rw [hturn]
    simp [take, h]

theorem Shares.play (h : Shares block txids crew) (schedule : List ι) :
    Shares block txids (crew.play schedule) ∨ (crew.play schedule).tracker.block = none := by
  induction schedule using List.reverseRecOn with
  | nil => exact .inl h
  | append_singleton schedule client ih =>
      have hplay : crew.play (schedule ++ [client]) = ((crew.play schedule).turn client).1 := by
        simp [Crew.play]
      rw [hplay]
      rcases ih with hshares | hgone
      · exact hshares.turn client
      · exact .inr (block_turn_of_none hgone client)

/-- Only a client that is about to take the block can take it. -/
theorem take_of_turn {delivery : Delivery} (h : (crew.turn client).2 = some delivery) :
    crew.tracker.take.2 = some delivery ∧
      (crew.turn client).1.tracker = crew.tracker.take.1 := by
  rcases crew.turn_cases client with
    hturn | ⟨tx, inbox, -, hturn⟩ | ⟨tx, -, hturn⟩ | ⟨-, hturn⟩
  · exact nomatch hturn ▸ h
  · exact nomatch hturn ▸ h
  · exact nomatch hturn ▸ h
  · rw [hturn] at h ⊢
    exact ⟨h, rfl⟩

theorem block_play_of_none (h : crew.tracker.block = none) (schedule : List ι) :
    (crew.play schedule).tracker.block = none := by
  unfold play
  induction schedule generalizing crew with
  | nil => exact h
  | cons client schedule ih => exact ih (block_turn_of_none h client)

theorem turn_of_none (h : crew.tracker.block = none) (client : ι) : (crew.turn client).2 = none := by
  rw [Option.eq_none_iff_forall_ne_some]
  intro delivery htaken
  have hblock := (take_eq_some_iff.mp (take_of_turn htaken).1).1
  rw [h] at hblock
  exact nomatch hblock

/-- A block that is taken lacks exactly the matches that clients carry at that moment, and
lacks them for good; so it is complete exactly when no client stands between resolving a
transaction and recording it. -/
theorem complete_iff_none_carried {tracker : BlockTracker}
    (h : Created tracker (some block) txids) (inbox : ι → List Tx) (schedule : List ι)
    (client : ι) {delivery : Delivery}
    (htaken : (((start tracker inbox).play schedule).turn client).2 = some delivery) :
    let crew := (start tracker inbox).play schedule
    delivery.block = block ∧ (delivery.txs.map Tx.id).Nodup ∧
      (∀ txid, txid ∈ delivery.txs.map Tx.id ↔ txid ∈ txids ∧ ¬ crew.Carries txid) ∧
      ((∀ txid ∈ txids, txid ∈ delivery.txs.map Tx.id) ↔
        ∀ other tx, crew.duty other ≠ .record tx) ∧
      ∀ later other, (((crew.turn client).1.play later).turn other).2 = none := by
  intro crew
  obtain ⟨htake, htracker⟩ : crew.tracker.take.2 = some delivery ∧ _ := take_of_turn htaken
  obtain ⟨hblock, hdone, htxs⟩ := take_eq_some_iff.mp htake
  have hshares : Shares block txids crew := by
    rcases (Shares.start h inbox).play schedule with hshares | hgone
    · exact hshares
    · exact absurd (hblock.symm.trans hgone) (Option.some_ne_none _)
  have hmem (txid : Hash) : txid ∈ delivery.txs.map Tx.id ↔ txid ∈ txids ∧ ¬ crew.Carries txid := by
    rw [htxs]
    exact hshares.mem_recorded_iff hdone
  refine ⟨?_, htxs ▸ hshares.nodup, hmem, ⟨?_, ?_⟩, ?_⟩
  · exact Option.some.inj (hblock.symm.trans hshares.block_eq)
  · intro hcomplete other tx hduty
    have hcarries : crew.Carries tx.id := ⟨other, by rw [hduty]; rfl⟩
    have hmatch : tx.id ∈ txids := (hshares.mem_iff _).mpr (.inr (.inr hcarries))
    exact ((hmem _).mp (hcomplete _ hmatch)).2 hcarries
  · intro hnone txid hmatch
    refine (hmem txid).mpr ⟨hmatch, ?_⟩
    rintro ⟨other, hcarries⟩
    cases hduty : crew.duty other with
    | record tx => exact hnone other tx hduty
    | _ =>
        rw [hduty] at hcarries
        exact hcarries
  · intro later other
    have hgone : (crew.turn client).1.tracker.block = none := htracker ▸ block_take htake
    exact turn_of_none (block_play_of_none hgone later) other

/-- Two clients get a match each, and work one after the other. -/
theorem complete_iff_none_carried_in_turn :
    let first : Tx := ⟨[1]⟩
    let second : Tx := ⟨[2]⟩
    let header : Header := ⟨1, .zero, .node first.id second.id, 0, 0, 0⟩
    let block : MerkleBlock := ⟨header, 2, [first.id, second.id], [7]⟩
    let tracker : BlockTracker := ⟨some block, .ofList [first.id, second.id], []⟩
    let crew := (start tracker fun last => if last then [second] else [first]).play
      [false, false, false, true, true]
    Created tracker (some block) [first.id, second.id] ∧
      (crew.turn true).2 = some ⟨block, [first, second]⟩ ∧
      ∀ other tx, crew.duty other ≠ .record tx := by
  intro first second header block tracker crew
  have hmatched : block.matched = .ok [first.id, second.id] := by decide +kernel
  have hcreated : Created tracker (some block) [first.id, second.id] := .of_matched hmatched
  have htaken : (crew.turn true).2 = some ⟨block, [first, second]⟩ := by decide +kernel
  obtain ⟨-, -, -, hcomplete, -⟩ := complete_iff_none_carried hcreated _ _ true htaken
  exact ⟨hcreated, htaken, hcomplete.mp (by simp)⟩

/-- Two clients get a match each. The first one resolves its own and is overtaken: the other
one takes the block, which lacks a match, and nobody gets a block after that. -/
theorem transaction_lost_between_clients :
    let first : Tx := ⟨[1]⟩
    let second : Tx := ⟨[2]⟩
    let header : Header := ⟨1, .zero, .node first.id second.id, 0, 0, 0⟩
    let block : MerkleBlock := ⟨header, 2, [first.id, second.id], [7]⟩
    let tracker : BlockTracker := ⟨some block, .ofList [first.id, second.id], []⟩
    let inbox := fun last => if last then [second] else [first]
    let crew := (start tracker inbox).play [false, true, true]
    Created tracker (some block) [first.id, second.id] ∧
      (∀ client, ∀ tx ∈ inbox client, tx.id ∈ [first.id, second.id]) ∧
      (crew.turn true).2 = some ⟨block, [second]⟩ ∧ first.id ∉ [second].map Tx.id ∧
      (((crew.turn true).1.play [false]).turn false).2 = none := by
  intro first second header block tracker inbox crew
  have hmatched : block.matched = .ok [first.id, second.id] := by decide +kernel
  have hinbox : ∀ client, ∀ tx ∈ inbox client, tx.id ∈ [first.id, second.id] := by
    simp [inbox]
  have hlost : (crew.turn true).2 = some ⟨block, [second]⟩ ∧ first.id ∉ [second].map Tx.id ∧
      (((crew.turn true).1.play [false]).turn false).2 = none := by
    decide +kernel
  exact ⟨.of_matched hmatched, hinbox, hlost⟩

end Crew

end BlockTracker

end LightPeer
