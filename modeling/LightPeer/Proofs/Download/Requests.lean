import LightPeer.Download.Requests
import LightPeer.Proofs.Outstanding
import Mathlib.Data.Finset.Card

/-! # Clients that share the requests

A call of a client is done as a whole, and between two calls any other client may have
its turn. Whichever way the calls mix, a transaction that was asked for is delivered to
one client, and to no other one until it is asked for again. -/

namespace LightPeer

theorem FiniteSet.size_congr {α : Type} {first second : FiniteSet α}
    (h : ∀ a, a ∈ first ↔ a ∈ second) : first.size = second.size :=
  ((List.perm_ext_iff_of_nodup first.nodup second.nodup).mpr h).length_eq

theorem FiniteSet.size_eq_card {α : Type} [DecidableEq α] {set : FiniteSet α} {members : Finset α}
    (h : ∀ a, a ∈ set ↔ a ∈ members) : set.size = members.card := by
  have hmembers : members = set.elems.toFinset := by
    ext a
    rw [← h, List.mem_toFinset]
    rfl
  rw [hmembers, List.toFinset_card_of_nodup set.nodup]
  rfl

namespace Requests

/-- A call of a client. -/
inductive Access where
  | op (request : Op)
  | size
  | isEmpty
deriving DecidableEq

@[reducible] def Access.Result : Access → Type
  | op request => request.Result
  | size => Nat
  | isEmpty => Bool

def access (requests : Requests) : (access : Access) → Requests × access.Result
  | .op request => requests.apply request
  | .size => (requests, FiniteSet.size requests)
  | .isEmpty => (requests, FiniteSet.isEmpty requests)

/-- The transaction that an operation is about. -/
def Op.txid : Op → Hash
  | request txid | settle txid | asks txid => txid

namespace Access

/-- The transaction that a call asks for. -/
def asked? : Access → Option Hash
  | op (.request txid) => some txid
  | _ => none

/-- The transaction that a call tries to settle. -/
def sought? : Access → Option Hash
  | op (.settle txid) => some txid
  | _ => none

end Access

/-- A call of one of the clients. -/
structure Turn (ι : Type) where
  client : ι
  access : Access

/-- A call with its answer. -/
structure Entry (ι : Type) where
  turn : Turn ι
  answer : turn.access.Result

namespace Entry

variable {ι : Type}

def asked? (entry : Entry ι) : Option Hash := entry.turn.access.asked?

/-- The transaction that a client settled, if it was asked for. -/
def delivered? : Entry ι → Option Hash
  | ⟨⟨_, .op (.settle txid)⟩, true⟩ => some txid
  | _ => none

end Entry

variable {ι : Type} (requests : Requests)

def after (turns : List (Turn ι)) : Requests :=
  turns.foldl (fun requests turn => (requests.access turn.access).1) requests

/-- A call with the answer that it gets. -/
def entry (turn : Turn ι) : Entry ι := ⟨turn, (requests.access turn.access).2⟩

/-- The calls with their answers, in the order in which the clients have their turns. -/
def log (requests : Requests) : List (Turn ι) → List (Entry ι)
  | [] => []
  | turn :: turns => requests.entry turn :: (requests.access turn.access).1.log turns

/-- What was delivered, as often as it was. -/
def delivered (entries : List (Entry ι)) : List Hash := entries.filterMap Entry.delivered?

/-- A transaction was asked for, and was not delivered since. -/
abbrev Awaited (turns : List (Turn ι)) : Hash → Prop :=
  Outstanding (fun entry txid => entry.asked? = some txid)
    (fun entry txid => entry.delivered? = some txid) (log .empty turns)

variable {requests} {turn : Turn ι} {turns : List (Turn ι)} {txid : Hash}

/-! ## One call -/

/-- What is asked for after a call is asked for by it, or was before and is not settled. -/
theorem mem_access_iff :
    txid ∈ (requests.access turn.access).1 ↔
      turn.access.asked? = some txid ∨ (txid ∈ requests ∧ turn.access.sought? ≠ some txid) := by
  match turn.access with
  | .op (.request wanted) => simp [access, apply, Access.asked?, Access.sought?, eq_comm]
  | .op (.settle sought) => simp [access, apply, Access.asked?, Access.sought?, eq_comm, and_comm]
  | .op (.asks _) | .size | .isEmpty => simp [access, apply, Access.asked?, Access.sought?]

/-- A transaction is delivered by a call that tries to settle it while it is asked for. -/
theorem delivered?_entry :
    (requests.entry turn).delivered? = some txid ↔
      turn.access.sought? = some txid ∧ txid ∈ requests := by
  obtain ⟨client, access⟩ := turn
  match access with
  | .op (.settle sought) =>
      have hanswer : requests.entry ⟨client, .op (.settle sought)⟩ =
          ⟨⟨client, .op (.settle sought)⟩, decide (sought ∈ requests)⟩ := rfl
      rw [hanswer]
      by_cases hmem : sought ∈ requests
      · simp only [hmem, decide_true, Entry.delivered?, Access.sought?, Option.some.injEq]
        constructor
        · rintro rfl
          exact ⟨rfl, hmem⟩
        · exact And.left
      · simp only [hmem, decide_false, Entry.delivered?, Access.sought?, Option.some.injEq]
        constructor
        · exact nofun
        · rintro ⟨rfl, hmem'⟩
          exact absurd hmem' hmem
  | .op (.request _) | .op (.asks _) | .size | .isEmpty =>
      simp [Entry.delivered?, entry, Access.sought?]

theorem Entry.asked?_of_delivered? {entry : Entry ι} (h : entry.delivered? = some txid) :
    entry.asked? = none := by
  obtain ⟨⟨client, access⟩, answer⟩ := entry
  match access with
  | .op (.settle _) => rfl
  | .op (.request _) | .op (.asks _) | .size | .isEmpty => exact nomatch h

theorem Op.txid_of_asked? {op : Op} (h : (Access.op op).asked? = some txid) : op.txid = txid := by
  cases op with
  | request wanted => exact Option.some.inj h
  | _ => exact nomatch h

theorem Op.txid_of_sought? {op : Op} (h : (Access.op op).sought? = some txid) : op.txid = txid := by
  cases op with
  | settle sought => exact Option.some.inj h
  | _ => exact nomatch h

theorem mem_access_congr {other : Requests} (h : txid ∈ requests ↔ txid ∈ other) :
    txid ∈ (requests.access turn.access).1 ↔ txid ∈ (other.access turn.access).1 := by
  rw [mem_access_iff, mem_access_iff, h]

/-- An operation leaves alone what it is not about. -/
theorem mem_access_of_ne {client : ι} {op : Op} (h : op.txid ≠ txid) :
    txid ∈ (requests.access (Turn.mk client (.op op)).access).1 ↔ txid ∈ requests := by
  rw [mem_access_iff]
  constructor
  · rintro (hasked | ⟨hmem, -⟩)
    · exact absurd (Op.txid_of_asked? hasked) h
    · exact hmem
  · intro hmem
    exact .inr ⟨hmem, fun hsought => h (Op.txid_of_sought? hsought)⟩

/-- Operations on different transactions come to the same in either order. -/
theorem mem_access_swap {client other : ι} {op request : Op} (h : op.txid ≠ request.txid) :
    let one : Turn ι := ⟨client, .op op⟩
    let two : Turn ι := ⟨other, .op request⟩
    txid ∈ ((requests.access one.access).1.access two.access).1 ↔
      txid ∈ ((requests.access two.access).1.access one.access).1 := by
  intro one two
  by_cases hop : op.txid = txid
  · have hrequest : request.txid ≠ txid := fun heq => h (hop.trans heq.symm)
    exact (mem_access_of_ne hrequest).trans (mem_access_congr (mem_access_of_ne hrequest).symm)
  · exact (mem_access_congr (mem_access_of_ne hop)).trans (mem_access_of_ne hop).symm

/-- The answer to an operation hangs on one transaction. -/
theorem entry_op {other : Requests} {client : ι} {op : Op}
    (h : op.txid ∈ requests ↔ op.txid ∈ other) :
    requests.entry ⟨client, .op op⟩ = other.entry ⟨client, .op op⟩ := by
  cases op with
  | request wanted => rfl
  | settle sought =>
      exact congrArg (Entry.mk ⟨client, .op (.settle sought)⟩) (decide_eq_decide.mpr h)
  | asks wanted => exact congrArg (Entry.mk ⟨client, .op (.asks wanted)⟩) (decide_eq_decide.mpr h)

/-- Requests with the same members answer alike. -/
theorem entry_congr {other : Requests} (h : ∀ txid, txid ∈ requests ↔ txid ∈ other) :
    requests.entry turn = other.entry turn := by
  obtain ⟨client, access⟩ := turn
  cases access with
  | op op => exact entry_op (h op.txid)
  | size => exact congrArg (Entry.mk ⟨client, .size⟩) (FiniteSet.size_congr h)
  | isEmpty =>
      have hempty : FiniteSet.isEmpty requests = FiniteSet.isEmpty other := by
        rw [Bool.eq_iff_iff, FiniteSet.isEmpty_iff, FiniteSet.isEmpty_iff]
        simp only [h]
      exact congrArg (Entry.mk ⟨client, .isEmpty⟩) hempty

theorem size_access (h : turn.access.asked? = none) :
    FiniteSet.size (requests.access turn.access).1 +
      (requests.entry turn).delivered?.toList.length = FiniteSet.size requests := by
  obtain ⟨client, access⟩ := turn
  match access with
  | .op (.settle sought) =>
      have hsize := FiniteSet.size_erase requests sought
      change FiniteSet.size (FiniteSet.erase requests sought) + _ = _
      by_cases hmem : sought ∈ requests
      · have hdelivered : (requests.entry ⟨client, .op (.settle sought)⟩).delivered? = some sought :=
          delivered?_entry.mpr ⟨rfl, hmem⟩
        have hpos : 0 < FiniteSet.size requests := List.length_pos_of_mem hmem
        rw [if_pos hmem] at hsize
        rw [hdelivered, hsize]
        exact Nat.sub_add_cancel hpos
      · have hdelivered : (requests.entry ⟨client, .op (.settle sought)⟩).delivered? = none := by
          refine Option.eq_none_iff_forall_ne_some.mpr fun txid hsome => ?_
          obtain ⟨hsought, htxid⟩ := delivered?_entry.mp hsome
          cases hsought
          exact hmem htxid
        rw [if_neg hmem] at hsize
        rw [hdelivered, hsize]
        rfl
  | .op (.request wanted) => exact nomatch h
  | .op (.asks _) | .size | .isEmpty => rfl

/-! ## Any number of calls -/

theorem after_append (requests : Requests) (first last : List (Turn ι)) :
    requests.after (first ++ last) = (requests.after first).after last :=
  List.foldl_append

theorem log_append (requests : Requests) (first last : List (Turn ι)) :
    requests.log (first ++ last) = requests.log first ++ (requests.after first).log last := by
  induction first generalizing requests with
  | nil => rfl
  | cons turn first ih => exact congrArg (requests.entry turn :: ·) (ih _)

theorem mem_after_iff : txid ∈ after .empty turns ↔ Awaited turns txid := by
  induction turns using List.reverseRecOn with
  | nil =>
      constructor
      · intro hmem
        exact absurd hmem (FiniteSet.not_mem_empty txid)
      · intro hawaited
        exact absurd hawaited Outstanding.nil
  | append_singleton turns turn ih =>
      let before := after .empty turns
      have hafter : after .empty (turns ++ [turn]) = (before.access turn.access).1 :=
        after_append _ turns [turn]
      have hlog : log .empty (turns ++ [turn]) = log .empty turns ++ [before.entry turn] :=
        log_append _ turns [turn]
      have hbefore : txid ∈ before ↔ Outstanding _ _ (log .empty turns) txid := ih
      have hasked : (before.entry turn).asked? = turn.access.asked? := rfl
      rw [Awaited, hafter, hlog, Outstanding.append_singleton, ← hbefore, mem_access_iff,
        delivered?_entry, hasked]
      tauto

/-- Requests with the same members answer alike from then on. -/
theorem log_congr {other : Requests} (h : ∀ txid, txid ∈ requests ↔ txid ∈ other) :
    requests.log turns = other.log turns := by
  induction turns generalizing requests other with
  | nil => rfl
  | cons turn turns ih =>
      have hnext (txid : Hash) :
          txid ∈ (requests.access turn.access).1 ↔ txid ∈ (other.access turn.access).1 := by
        rw [mem_access_iff, mem_access_iff, h]
      rw [log, log, entry_congr h, ih hnext]

/-- An answer is that of the requests as the turns before left them. -/
theorem exists_turns_of_log {earlier later : List (Entry ι)} {entry : Entry ι}
    (h : requests.log turns = earlier ++ entry :: later) :
    ∃ before turn after, turns = before ++ turn :: after ∧ requests.log before = earlier ∧
      entry = (requests.after before).entry turn := by
  induction turns generalizing requests earlier with
  | nil => simp [log] at h
  | cons turn turns ih =>
      cases earlier with
      | nil =>
          obtain ⟨rfl, -⟩ := List.cons.inj h
          exact ⟨[], turn, turns, rfl, rfl, rfl⟩
      | cons first earlier =>
          obtain ⟨rfl, hrest⟩ := List.cons.inj h
          obtain ⟨before, last, after, rfl, rfl, rfl⟩ := ih hrest
          exact ⟨turn :: before, last, after, rfl, rfl, rfl⟩

/-! ## Asking, and settling what is asked for -/

theorem delivered_of_unsought (h : ∀ turn ∈ turns, turn.access.sought? = none) :
    delivered (requests.log turns) = [] := by
  refine List.filterMap_eq_nil_iff.mpr fun entry hmem => ?_
  obtain ⟨earlier, later, hlog⟩ := List.append_of_mem hmem
  obtain ⟨before, turn, after, rfl, -, rfl⟩ := exists_turns_of_log hlog
  have hsought := h turn (by simp)
  refine Option.eq_none_iff_forall_ne_some.mpr fun txid hdelivered => ?_
  rw [(delivered?_entry.mp hdelivered).1] at hsought
  exact nomatch hsought

/-- While nobody settles anything, everything that was asked for is asked for. -/
theorem mem_after_of_unsought (h : ∀ turn ∈ turns, turn.access.sought? = none) :
    txid ∈ requests.after turns ↔
      txid ∈ turns.filterMap (·.access.asked?) ∨ txid ∈ requests := by
  induction turns generalizing requests with
  | nil => simp [after]
  | cons turn turns ih =>
      obtain ⟨hsought, hrest⟩ := List.forall_mem_cons.mp h
      have hafter : requests.after (turn :: turns) =
          (requests.access turn.access).1.after turns := rfl
      have hkept : turn.access.sought? ≠ some txid := by
        rw [hsought]
        exact nofun
      rw [hafter, ih hrest, mem_access_iff, and_iff_left hkept, or_left_comm, ← or_assoc]
      simp only [List.mem_filterMap, List.exists_mem_cons_iff]

theorem count_delivered_cons (first : Entry ι) (entries : List (Entry ι)) (txid : Hash) :
    (delivered (first :: entries)).count txid =
      (if first.delivered? = some txid then 1 else 0) + (delivered entries).count txid := by
  unfold delivered
  cases hfirst : first.delivered? with
  | none => simp [hfirst]
  | some settled => simp [hfirst, List.count_cons, Nat.add_comm]

/-- While nothing is asked for anew, each transaction is delivered to the first client
that tries to settle it, and to no other one. -/
theorem count_delivered (h : ∀ turn ∈ turns, turn.access.asked? = none) :
    (delivered (requests.log turns)).count txid =
      if txid ∈ requests ∧ txid ∈ turns.filterMap (·.access.sought?) then 1 else 0 := by
  induction turns generalizing requests with
  | nil => simp [log, delivered]
  | cons turn turns ih =>
      obtain ⟨hasked, hrest⟩ := List.forall_mem_cons.mp h
      have hsought : txid ∈ (turn :: turns).filterMap (·.access.sought?) ↔
          turn.access.sought? = some txid ∨ txid ∈ turns.filterMap (·.access.sought?) := by
        simp [List.mem_filterMap]
      rw [log, count_delivered_cons, ih hrest]
      simp only [mem_access_iff, delivered?_entry, hsought, hasked]
      by_cases hmem : txid ∈ requests <;> by_cases hfirst : turn.access.sought? = some txid <;>
        simp [hmem, hfirst]

theorem size_after (h : ∀ turn ∈ turns, turn.access.asked? = none) :
    FiniteSet.size (requests.after turns) + (delivered (requests.log turns)).length =
      FiniteSet.size requests := by
  induction turns generalizing requests with
  | nil => rfl
  | cons turn turns ih =>
      obtain ⟨hasked, hrest⟩ := List.forall_mem_cons.mp h
      have hfirst := @size_access ι requests turn hasked
      have hlater := @ih (requests.access turn.access).1 hrest
      have hdelivered : (delivered (requests.log (turn :: turns))).length =
          (requests.entry turn).delivered?.toList.length +
            (delivered ((requests.access turn.access).1.log turns)).length := by
        unfold delivered
        rw [log, List.filterMap_cons]
        cases (requests.entry turn).delivered? with
        | none => simp
        | some settled => simp [Nat.add_comm]
      have hafter : requests.after (turn :: turns) =
          (requests.access turn.access).1.after turns := rfl
      rw [hafter, hdelivered]
      omega

/-! ## What the clients get -/

/-- What the requests answer after some turns of the clients. -/
structure Shared (turns : List (Turn ι)) : Prop where
  /-- A client gets a transaction exactly if it was asked for since it was last delivered. -/
  settle_iff : ∀ txid,
    ((after .empty turns).access (.op (.settle txid))).2 = true ↔ Awaited turns txid
  settle_false : ∀ txid, ((after .empty turns).access (.op (.settle txid))).2 = false →
    ((after .empty turns).access (.op (.settle txid))).1 = after .empty turns
  asks_iff : ∀ txid, ((after .empty turns).access (.op (.asks txid))).2 = true ↔ Awaited turns txid
  /-- Every transaction counts once, however often it was asked for. -/
  size_eq : {txid | Awaited turns txid}.encard = ((after .empty turns).access .size).2
  isEmpty_iff : ((after .empty turns).access .isEmpty).2 = true ↔
    ((after .empty turns).access .size).2 = 0
  /-- Between two deliveries of a transaction it is asked for anew. -/
  asked_between : ∀ earlier first between second later txid,
    log .empty turns = earlier ++ first :: (between ++ second :: later) →
      first.delivered? = some txid → second.delivered? = some txid →
        ∃ entry ∈ between, entry.asked? = some txid
  /-- Two operations on different transactions may change places: they and whatever comes
  later are answered alike, and the same is asked for in the end. -/
  commute : ∀ (client other : ι) (op request : Op), op.txid ≠ request.txid →
    let one : Turn ι := ⟨client, .op op⟩
    let two : Turn ι := ⟨other, .op request⟩
    (∀ later, ∃ first second rest,
      log .empty (turns ++ one :: two :: later) = log .empty turns ++ first :: second :: rest ∧
        log .empty (turns ++ two :: one :: later) = log .empty turns ++ second :: first :: rest) ∧
      ∀ txid, txid ∈ after .empty (turns ++ [one, two]) ↔ txid ∈ after .empty (turns ++ [two, one])
  /-- If everything is asked for before anybody gets something, then each transaction that
  was asked for goes to one of those who try, and the others are still to come. -/
  drain : ∀ fill rest, turns = fill ++ rest → (∀ turn ∈ fill, turn.access.sought? = none) →
    (∀ turn ∈ rest, turn.access.asked? = none) →
      let wanted := (fill.filterMap (·.access.asked?)).toFinset
      let got := delivered (log .empty turns)
      (∀ txid, got.count txid =
        if txid ∈ wanted ∧ txid ∈ rest.filterMap (·.access.sought?) then 1 else 0) ∧
        FiniteSet.size (after .empty turns) + got.length = wanted.card

/-- In every interleaving of the calls of any clients, each transaction is delivered once for
every time that it is asked for anew. -/
theorem each_delivered_once (turns : List (Turn ι)) : Shared turns where
  settle_iff txid := decide_eq_true_iff.trans mem_after_iff
  settle_false txid hfalse := FiniteSet.erase_of_not_mem (of_decide_eq_false hfalse)
  asks_iff txid := decide_eq_true_iff.trans mem_after_iff
  size_eq := by
    simp only [← mem_after_iff]
    exact FiniteSet.encard_setOf_mem _
  isEmpty_iff := FiniteSet.isEmpty_iff_size
  asked_between earlier first between second later txid hlog hfirst hsecond := by
    have hsplit : log .empty turns = (earlier ++ first :: between) ++ second :: later := by
      rw [hlog, List.append_assoc, List.cons_append]
    obtain ⟨before, turn, after, rfl, hbefore, rfl⟩ := exists_turns_of_log hsplit
    have hawaited : Awaited before txid := mem_after_iff.mp (delivered?_entry.mp hsecond).2
    rw [Awaited, hbefore] at hawaited
    refine hawaited.exists_asks_of_answers hfirst ?_
    rw [Entry.asked?_of_delivered? hfirst]
    exact nofun
  commute client other op request hne := by
    intro one two
    let before := after .empty turns
    have hone : (before.access two.access).1.entry one = before.entry one :=
      entry_op (mem_access_of_ne hne.symm)
    have htwo : (before.access one.access).1.entry two = before.entry two :=
      entry_op (mem_access_of_ne hne)
    refine ⟨fun later => ⟨before.entry one, before.entry two,
      ((before.access one.access).1.access two.access).1.log later, ?_, ?_⟩, fun txid => ?_⟩
    · rw [log_append, log, log, htwo]
    · rw [log_append, log, log, hone]
      rw [log_congr fun txid => mem_access_swap hne]
    · rw [after_append, after_append]
      exact mem_access_swap hne
  drain fill rest hturns hfill hrest := by
    subst hturns
    have hwanted (txid : Hash) :
        txid ∈ after .empty fill ↔ txid ∈ (fill.filterMap (·.access.asked?)).toFinset := by
      simp [mem_after_of_unsought hfill]
    have hgot : delivered (log .empty (fill ++ rest)) =
        delivered ((after .empty fill).log rest) := by
      rw [log_append, delivered, List.filterMap_append]
      exact (congrArg (· ++ _) (delivered_of_unsought hfill)).trans (List.nil_append _)
    refine ⟨fun txid => ?_, ?_⟩
    · rw [hgot, count_delivered hrest]
      simp only [hwanted]
    · rw [hgot, after_append, size_after hrest]
      exact FiniteSet.size_eq_card hwanted

end Requests

end LightPeer
