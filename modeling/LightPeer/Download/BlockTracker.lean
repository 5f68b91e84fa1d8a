import LightPeer.Error
import LightPeer.FiniteSet
import LightPeer.Message

/-! The block being downloaded: its header and proof, the matched transactions
that have not come, and those that have. The block is handed over, once, when
nothing more is expected. -/

namespace LightPeer

/-- A block with its transactions in the order in which they came. -/
structure Delivery where
  block : MerkleBlock
  txs : List Tx
deriving DecidableEq

structure BlockTracker where
  block : Option MerkleBlock
  expected : FiniteSet Hash
  txs : List Tx

namespace BlockTracker

def empty : BlockTracker := ⟨none, .empty, []⟩

instance : Inhabited BlockTracker := ⟨empty⟩

/-- Tracks a block whose proof is good, and expects what the proof matches. -/
def ofMerkleBlock (block : MerkleBlock) : Except Error BlockTracker :=
  match block.matched with
  | .error fault => .error (.invalidMerkleBlock fault.message)
  | .ok txids => .ok ⟨some block, .ofList txids, []⟩

def expect (tracker : BlockTracker) (txid : Hash) : BlockTracker :=
  { tracker with expected := tracker.expected.insert txid }

/-- Expects a transaction no longer, and tells whether it was expected. -/
def resolve (tracker : BlockTracker) (txid : Hash) : BlockTracker × Bool :=
  ({ tracker with expected := tracker.expected.erase txid }, decide (txid ∈ tracker.expected))

def push (tracker : BlockTracker) (tx : Tx) : BlockTracker :=
  { tracker with txs := tracker.txs ++ [tx] }

/-- Hands the block over, unless it is gone or something is still expected. -/
def take (tracker : BlockTracker) : BlockTracker × Option Delivery :=
  match tracker.block with
  | some block =>
    if tracker.expected.isEmpty then ({ tracker with block := none, txs := [] }, some ⟨block, tracker.txs⟩)
    else (tracker, none)
  | none => (tracker, none)

def finished (tracker : BlockTracker) : Bool := tracker.expected.isEmpty

def pending (tracker : BlockTracker) : Nat := tracker.expected.size

def hash? (tracker : BlockTracker) : Option Hash := tracker.block.map MerkleBlock.hash

inductive Op where
  | expect (txid : Hash)
  | resolve (txid : Hash)
  | push (tx : Tx)
  | block
  | take
deriving DecidableEq

@[reducible] def Op.Result : Op → Type
  | expect _ => Unit
  | resolve _ => Bool
  | push _ => Unit
  | block => Option MerkleBlock
  | take => Option Delivery

def apply (tracker : BlockTracker) : (op : Op) → BlockTracker × op.Result
  | .expect txid => (tracker.expect txid, ())
  | .resolve txid => tracker.resolve txid
  | .push tx => (tracker.push tx, ())
  | .block => (tracker, tracker.block)
  | .take => tracker.take

/-! ## Taking the block -/

theorem take_cases (tracker : BlockTracker) :
    tracker.take = (tracker, none) ∨
      ∃ block, tracker.block = some block ∧ tracker.expected.isEmpty ∧
        tracker.take = ({ tracker with block := none, txs := [] }, some ⟨block, tracker.txs⟩) := by
  unfold take
  cases hblock : tracker.block with
  | none => exact .inl rfl
  | some block =>
      by_cases hdone : tracker.expected.isEmpty
      · exact .inr ⟨block, rfl, hdone, if_pos hdone⟩
      · exact .inl (if_neg hdone)

@[simp] theorem expected_take (tracker : BlockTracker) :
    tracker.take.1.expected = tracker.expected := by
  rcases tracker.take_cases with htake | ⟨block, -, -, htake⟩ <;> rw [htake]

variable {tracker : BlockTracker}

theorem take_eq_some_iff {delivery : Delivery} :
    tracker.take.2 = some delivery ↔
      tracker.block = some delivery.block ∧ tracker.expected.isEmpty ∧
        delivery.txs = tracker.txs := by
  obtain ⟨block, txs⟩ := delivery
  unfold take
  cases tracker.block with
  | none => simp
  | some held =>
      by_cases hdone : tracker.expected.isEmpty
      · simp [hdone, eq_comm]
      · simp [hdone]

/-- A tracker that hands over nothing stays as it is. -/
theorem take_eq_self (h : tracker.take.2 = none) : tracker.take.1 = tracker := by
  rcases tracker.take_cases with htake | ⟨block, -, -, htake⟩
  · rw [htake]
  · rw [htake] at h
    exact nomatch h

theorem block_take {delivery : Delivery} (h : tracker.take.2 = some delivery) :
    tracker.take.1.block = none := by
  rcases tracker.take_cases with htake | ⟨block, -, -, htake⟩
  · rw [htake] at h
    exact nomatch h
  · rw [htake]

end BlockTracker

end LightPeer
