import LightPeer.Download.BlockTracker
import LightPeer.Proofs.Outstanding

/-! # The life of a block tracker

What a tracker answers is read off what was done with it, and asking it changes nothing.
It waits for the matches of its block and for what it was told to expect, until they are
resolved; and it hands over its block once, when it waits for nothing, with everything
that was recorded until then. -/

namespace LightPeer

namespace BlockTracker

namespace Op

/-- The operation makes the tracker wait for a transaction. -/
def Expects : Op → Hash → Prop
  | expect wanted, txid => wanted = txid
  | _, _ => False

def Resolves : Op → Hash → Prop
  | resolve settled, txid => settled = txid
  | _, _ => False

/-- The transactions that are waited for after one more operation. -/
def revise (expected : FiniteSet Hash) : Op → FiniteSet Hash
  | expect txid => expected.insert txid
  | resolve txid => expected.erase txid
  | _ => expected

theorem mem_revise_iff (expected : FiniteSet Hash) (op : Op) (txid : Hash) :
    txid ∈ op.revise expected ↔ op.Expects txid ∨ (txid ∈ expected ∧ ¬ op.Resolves txid) := by
  cases op <;> simp [revise, Expects, Resolves, eq_comm, and_comm]

/-- What an operation hands over. -/
def handed : (op : Op) → op.Result → List Delivery
  | take, taken => taken.toList
  | _, _ => []

def pushed? : Op → Option Tx
  | push tx => some tx
  | _ => none

end Op

/-- The tracker after some operations. -/
def after (tracker : BlockTracker) (ops : List Op) : BlockTracker :=
  ops.foldl (fun tracker op => (tracker.apply op).1) tracker

/-- What is handed over in the course of some operations. -/
def handed (tracker : BlockTracker) : List Op → List Delivery
  | [] => []
  | op :: ops => op.handed (tracker.apply op).2 ++ (tracker.apply op).1.handed ops

/-- What is recorded in the course of some operations, as often as it is recorded. -/
def pushed (ops : List Op) : List Tx := ops.filterMap Op.pushed?

/-- How a tracker comes into being, with the block that it tracks and what it waits for. -/
inductive Created : BlockTracker → Option MerkleBlock → List Hash → Prop where
  | empty : Created .empty none []
  | tracking {block : MerkleBlock} {tracker : BlockTracker} {txids : List Hash}
      (good : ofMerkleBlock block = .ok tracker) (matched : block.matched = .ok txids) :
      Created tracker (some block) txids

/-- A transaction was a match of the block or was to be expected, and was not resolved since. -/
abbrev Awaited (wanted : List Hash) (ops : List Op) : Hash → Prop :=
  Outstanding Op.Expects Op.Resolves (wanted.map .expect ++ ops)

variable {tracker : BlockTracker} {source : Option MerkleBlock} {wanted : List Hash}
  {ops : List Op}

theorem Created.eq (h : Created tracker source wanted) :
    tracker = ⟨source, .ofList wanted, []⟩ := by
  cases h with
  | empty => rfl
  | tracking good matched =>
      unfold ofMerkleBlock at good
      rw [matched] at good
      exact (Except.ok.inj good).symm

theorem Created.of_matched {block : MerkleBlock} {txids : List Hash}
    (h : block.matched = .ok txids) :
    Created ⟨some block, .ofList txids, []⟩ (some block) txids := by
  refine .tracking ?_ h
  unfold ofMerkleBlock
  rw [h]

/-! ## One operation -/

theorem expected_apply (tracker : BlockTracker) (op : Op) :
    (tracker.apply op).1.expected = op.revise tracker.expected := by
  cases op with
  | take => exact tracker.expected_take
  | _ => rfl

/-! ## Any number of operations -/

theorem after_append_singleton (tracker : BlockTracker) (ops : List Op) (op : Op) :
    tracker.after (ops ++ [op]) = ((tracker.after ops).apply op).1 := by
  simp [after]

theorem handed_append_singleton (tracker : BlockTracker) (ops : List Op) (op : Op) :
    tracker.handed (ops ++ [op]) =
      tracker.handed ops ++ op.handed ((tracker.after ops).apply op).2 := by
  induction ops generalizing tracker with
  | nil => simp [handed, after]
  | cons first ops ih => simp [handed, ih, after]

theorem pushed_append_singleton (ops : List Op) (op : Op) :
    pushed (ops ++ [op]) = pushed ops ++ op.pushed?.toList := by
  unfold pushed
  rw [List.filterMap_append]
  cases hpushed : op.pushed? <;> simp [hpushed]

theorem expected_after (tracker : BlockTracker) (ops : List Op) :
    (tracker.after ops).expected = ops.foldl (fun set op => op.revise set) tracker.expected := by
  induction ops using List.reverseRecOn with
  | nil => rfl
  | append_singleton ops op ih =>
      rw [after_append_singleton, expected_apply, ih, List.foldl_append, List.foldl_cons,
        List.foldl_nil]

/-- A tracker waits for what is awaited: its first matches count as if told to be expected. -/
theorem Created.expected_eq (h : Created tracker source wanted) (ops : List Op) :
    (tracker.after ops).expected =
      (wanted.map Op.expect ++ ops).foldl (fun set op => op.revise set) .empty := by
  have hwanted : FiniteSet.ofList wanted =
      (wanted.map Op.expect).foldl (fun set op => op.revise set) .empty := by
    rw [List.foldl_map]
    rfl
  rw [expected_after, h.eq, hwanted, List.foldl_append]

theorem Created.mem_expected_iff (h : Created tracker source wanted) {txid : Hash} :
    txid ∈ (tracker.after ops).expected ↔ Awaited wanted ops txid := by
  rw [h.expected_eq]
  exact Outstanding.mem_foldl_empty_iff Op.mem_revise_iff

theorem Created.isEmpty_iff (h : Created tracker source wanted) :
    (tracker.after ops).expected.isEmpty ↔ ∀ txid, ¬ Awaited wanted ops txid := by
  rw [FiniteSet.isEmpty_iff]
  simp only [h.mem_expected_iff]

/-- A tracker still has its block, if it ever had one, with all that was recorded; or it
has handed the block over, and has none any more. -/
inductive Holding (source : Option MerkleBlock) (tracker : BlockTracker) (ops : List Op) : Prop
  | held (block : (tracker.after ops).block = source) (txs : (tracker.after ops).txs = pushed ops)
      (nothing : tracker.handed ops = [])
  | gone {delivery : Delivery} (block : (tracker.after ops).block = none)
      (once : tracker.handed ops = [delivery])

namespace Holding

/-- An operation that takes nothing leaves the block where it is. -/
theorem keep (h : Holding source tracker ops) {op : Op}
    (hblock : ((tracker.after ops).apply op).1.block = (tracker.after ops).block)
    (htxs : ((tracker.after ops).apply op).1.txs = (tracker.after ops).txs ++ op.pushed?.toList)
    (hhanded : op.handed ((tracker.after ops).apply op).2 = []) :
    Holding source tracker (ops ++ [op]) := by
  have hsame : tracker.handed (ops ++ [op]) = tracker.handed ops := by
    rw [handed_append_singleton, hhanded, List.append_nil]
  cases h with
  | held block txs nothing =>
      refine .held ?_ ?_ (hsame.trans nothing)
      · rw [after_append_singleton, hblock, block]
      · rw [after_append_singleton, htxs, txs, pushed_append_singleton]
  | gone block once =>
      refine .gone ?_ (hsame.trans once)
      rw [after_append_singleton, hblock, block]

theorem take (h : Holding source tracker ops) : Holding source tracker (ops ++ [.take]) := by
  have hhanded : tracker.handed (ops ++ [.take]) =
      tracker.handed ops ++ (tracker.after ops).take.2.toList :=
    handed_append_singleton tracker ops .take
  have hafter : tracker.after (ops ++ [.take]) = (tracker.after ops).take.1 :=
    after_append_singleton tracker ops .take
  cases htaken : (tracker.after ops).take.2 with
  | none =>
      refine h.keep (congrArg block (take_eq_self htaken)) ?_ (congrArg Option.toList htaken)
      rw [apply, take_eq_self htaken]
      exact (List.append_nil _).symm
  | some delivery =>
      rw [htaken] at hhanded
      cases h with
      | held block txs nothing =>
          have honce : tracker.handed (ops ++ [.take]) = [delivery] := by
            rw [hhanded, nothing]
            rfl
          refine .gone ?_ honce
          rw [hafter, block_take htaken]
      | gone block once =>
          rw [(take_eq_some_iff.mp htaken).1] at block
          exact nomatch block

theorem append_singleton (h : Holding source tracker ops) (op : Op) :
    Holding source tracker (ops ++ [op]) := by
  cases op with
  | take => exact h.take
  | push tx => exact h.keep rfl rfl rfl
  | _ => exact h.keep rfl (List.append_nil _).symm rfl

end Holding

theorem Created.holding (h : Created tracker source wanted) (ops : List Op) :
    Holding source tracker ops := by
  induction ops using List.reverseRecOn with
  | nil =>
      rw [h.eq]
      exact .held rfl rfl rfl
  | append_singleton ops op ih => exact ih.append_singleton op

/-- What a tracker answers after some operations. -/
structure Lifecycle (source : Option MerkleBlock) (wanted : List Hash) (tracker : BlockTracker)
    (ops : List Op) : Prop where
  /-- The block is handed over at most once. -/
  length_handed_le : (tracker.handed ops).length ≤ 1
  /-- It is handed over as it came, with everything that was recorded, when nothing is awaited. -/
  take_iff : ∀ delivery, ((tracker.after ops).apply .take).2 = some delivery ↔
    source = some delivery.block ∧ tracker.handed ops = [] ∧
      (∀ txid, ¬ Awaited wanted ops txid) ∧ delivery.txs = pushed ops
  take_none : ((tracker.after ops).apply .take).2 = none →
    ((tracker.after ops).apply .take).1 = tracker.after ops
  block_until_taken : tracker.handed ops = [] →
    ((tracker.after ops).apply .block).2 = source ∧
      (tracker.after ops).hash? = source.map MerkleBlock.hash
  block_once_taken : tracker.handed ops ≠ [] →
    ((tracker.after ops).apply .block).2 = none ∧ (tracker.after ops).hash? = none
  resolve_iff : ∀ txid,
    ((tracker.after ops).apply (.resolve txid)).2 = true ↔ Awaited wanted ops txid
  finished_iff : (tracker.after ops).finished ↔ ∀ txid, ¬ Awaited wanted ops txid
  /-- Every transaction counts once, however often it was to be expected. -/
  pending_eq : {txid | Awaited wanted ops txid}.encard = (tracker.after ops).pending

/-- Whatever is done with a tracker and in whatever order, it hands over its block once,
unchanged and with all that was recorded, at the first taking at which nothing is awaited. -/
theorem Created.lifecycle (h : Created tracker source wanted) (ops : List Op) :
    Lifecycle source wanted tracker ops where
  length_handed_le := by
    cases h.holding ops with
    | held block txs nothing => simp [nothing]
    | gone block once => simp [once]
  take_iff delivery := by
    change (tracker.after ops).take.2 = some delivery ↔ _
    rw [take_eq_some_iff, h.isEmpty_iff]
    cases h.holding ops with
    | held block txs nothing => simp [block, txs, nothing]
    | gone block once => simp [block, once]
  take_none hnone := take_eq_self hnone
  block_until_taken hnothing := by
    cases h.holding ops with
    | held block txs nothing => exact ⟨block, congrArg (Option.map MerkleBlock.hash) block⟩
    | gone block once => simp [once] at hnothing
  block_once_taken hsome := by
    cases h.holding ops with
    | held block txs nothing => exact absurd nothing hsome
    | gone block once => exact ⟨block, congrArg (Option.map MerkleBlock.hash) block⟩
  resolve_iff txid := decide_eq_true_iff.trans h.mem_expected_iff
  finished_iff := h.isEmpty_iff
  pending_eq := by
    simp only [← h.mem_expected_iff]
    exact FiniteSet.encard_setOf_mem _

/-- A block is expected to hold one more transaction, and its match is recorded twice. -/
theorem Created.lifecycle_recorded_twice :
    let payment : Tx := ⟨[1]⟩
    let block : MerkleBlock := ⟨⟨1, .zero, payment.id, 0, 0, 0⟩, 1, [payment.id], [1]⟩
    let tracker : BlockTracker := ⟨some block, .ofList [payment.id], []⟩
    let ops : List Op := [.resolve payment.id, .push payment, .expect .zero, .take, .push payment,
      .resolve .zero]
    Created tracker (some block) [payment.id] ∧
      Lifecycle (some block) [payment.id] tracker ops ∧
      ((tracker.after ops).apply .take).2 = some ⟨block, [payment, payment]⟩ := by
  intro payment block tracker ops
  have hmatched : block.matched = .ok [payment.id] := by decide +kernel
  have hcreated : Created tracker (some block) [payment.id] := .of_matched hmatched
  have htaken : ((tracker.after ops).apply .take).2 = some ⟨block, [payment, payment]⟩ := by
    decide +kernel
  exact ⟨hcreated, hcreated.lifecycle ops, htaken⟩

end BlockTracker

end LightPeer
