import LightPeer.Proofs.Session.Requests
import LightPeer.Proofs.Session.Tally

/-! # A false positive is a transaction that nobody asked for

A syncing client records every transaction that it acts on. It counts one as a false
positive if neither the client nor the owner of the session asked for it since it last
came, whether or not a request got out. -/

namespace LightPeer

open Session

namespace Session

/-- A call that turns to a tracker, and to nothing else. -/
inductive Call.Tracks : Call → Prop where
  | track (block : MerkleBlock) : Tracks (.track block)
  | current : Tracks .current
  | tracker (id : TrackerId) (op : BlockTracker.Op) : Tracks (.tracker id op)

/-- The transactions that a deed asks for, whether or not the request gets out. -/
def Deed.requested : Deed → List Hash
  | called (.requestTxs txids) => txids
  | _ => []

/-- What some deeds record and ask for, if they leave the counts in force. -/
structure Reports (course : List Moment) (flags : List Bool) (txids : List Hash) : Prop where
  no_reset : ∀ moment ∈ course, ¬ moment.deed.isReset
  recorded_eq : course.filterMap (·.deed.recorded?) = flags
  requested_eq : course.flatMap (·.deed.requested) = txids

namespace Reports

variable {first last : List Moment} {flags more : List Bool} {txids others : List Hash}

theorem nil : Reports [] [] [] := ⟨List.forall_mem_nil _, rfl, rfl⟩

theorem append (h : Reports first flags txids) (hlast : Reports last more others) :
    Reports (first ++ last) (flags ++ more) (txids ++ others) where
  no_reset := List.forall_mem_append.mpr ⟨h.no_reset, hlast.no_reset⟩
  recorded_eq := by rw [List.filterMap_append, h.recorded_eq, hlast.recorded_eq]
  requested_eq := by rw [List.flatMap_append, h.requested_eq, hlast.requested_eq]

theorem singleton {moment : Moment} (h : ¬ moment.deed.isReset) :
    Reports [moment] moment.deed.recorded?.toList moment.deed.requested :=
  ⟨List.forall_mem_singleton.mpr h, rfl, List.append_nil _⟩

theorem cons {moment : Moment} (h : ¬ moment.deed.isReset) (hlast : Reports last more others) :
    Reports (moment :: last) (moment.deed.recorded?.toList ++ more)
      (moment.deed.requested ++ others) :=
  (singleton h).append hlast

theorem requesting (session : Session) (txids : List Hash) (hlast : Reports last [] []) :
    Reports (⟨session, .called (.requestTxs txids)⟩ :: last) [] txids := by
  have hrequest : Reports [⟨session, .called (.requestTxs txids)⟩] [] txids := singleton nofun
  have hreports := hrequest.append hlast
  rwa [List.append_nil, List.append_nil] at hreports

end Reports

end Session

/-! ## Scripts -/

/-- A script that only turns to trackers, whatever its calls give back. -/
def Script.Tracks {α : Type} : Script α → Prop
  | .done _ => True
  | .call c next => c.Tracks ∧ ∀ result, (next result).Tracks

theorem Script.Tracks.bind {α β : Type} {script : Script α} {next : α → Script β}
    (h : script.Tracks) (hnext : ∀ value, (next value).Tracks) : (script >>= next).Tracks := by
  change (script.bind next).Tracks
  induction script with
  | done value => exact hnext value
  | call c more ih =>
      obtain ⟨htracks, hmore⟩ := h
      exact ⟨htracks, fun result => ih result (hmore result)⟩

theorem Script.Tracks.reports {α : Type} {script : Script α} (h : script.Tracks)
    (session : Session) : Reports (script.moments session) [] [] := by
  induction script generalizing session with
  | done value => exact .nil
  | call c next ih =>
      obtain ⟨htracks, hnext⟩ := h
      have hrest := ih _ (hnext (session.perform c).2) (session.perform c).1
      cases htracks <;> exact .cons nofun hrest

namespace Syncing

variable (session : Session) (notes : List Client.Note)

theorem tracks_collect (id : TrackerId) : (Client.collect id notes).Tracks := by
  refine ⟨.tracker id .take, ?_⟩
  intro taken
  cases taken <;> trivial

/-- A transaction is recorded, and is a false positive if it is not asked for. -/
theorem reports_receive (tx : Tx) :
    Reports ((Client.receive tx notes).moments session)
      [decide (tx.id ∉ session.requests)] [] := by
  have hcollect (id : TrackerId) :
      (do return (← Client.collect id notes, .ok ()) :
        Script (List Client.Note × Except Error Unit)).Tracks :=
    (tracks_collect notes id).bind fun _ => trivial
  rw [receive_eq]
  refine .cons nofun ?_
  have hasks : (session.perform (.requests (.settle tx.id))).2 =
      decide (tx.id ∈ session.requests) := rfl
  rw [hasks]
  dsimp only
  by_cases hasked : tx.id ∈ session.requests
  · rw [decide_eq_true hasked, if_pos rfl, decide_eq_false (not_not_intro hasked)]
    refine .cons nofun ?_
    apply Script.Tracks.reports
    refine ⟨.current, fun id => ⟨.tracker id _, ?_⟩⟩
    intro expected
    cases expected with
    | false => exact hcollect id
    | true => exact ⟨.tracker id _, fun _ => hcollect id⟩
  · rw [decide_eq_false hasked, if_neg nofun, decide_eq_true hasked]
    exact .cons nofun .nil

/-- A block whose proof is good has the client ask for what it matches. -/
theorem reports_follow (block : MerkleBlock) :
    Reports ((Client.follow block notes).moments session) []
      (Callback.merkleBlock block).requested := by
  unfold Callback.requested
  rw [follow_eq]
  refine .cons nofun ?_
  cases hmatched : block.matched with
  | error fault =>
      have htracked : (session.perform (.track block)).2 = _ :=
        congrArg Prod.snd (track_of_error session hmatched)
      rw [htracked]
      exact .nil
  | ok txids =>
      have htracked : (session.perform (.track block)).2 = _ :=
        congrArg Prod.snd (track_of_ok session hmatched)
      rw [htracked]
      dsimp only
      refine .requesting _ txids ?_
      -- Whether or not the request got out, nothing is recorded and asked for any more.
      dsimp only
      split
      · exact .nil
      · apply Script.Tracks.reports
        exact (tracks_collect notes _).bind fun _ => trivial

/-! ## Moves -/

variable (syncing : Syncing)

theorem reports_answering (message : Message) (failure : Option Error) :
    Reports (Running.answering (Client.syncing fun _ => failure) syncing message)
      ((Move.receive message failure).arrival?.map
        fun tx => decide (tx.id ∉ syncing.session.requests)).toList
      (Move.receive message failure).requested := by
  unfold Running.answering Move.arrival? Move.requested
  cases hnews : Callback.ofMessage? message with
  | none =>
      rw [Move.news?_of_none hnews]
      exact .nil
  | some callback =>
      cases failure with
      | some error => exact .nil
      | none =>
          have hsome : (Move.receive message none).news? = some callback := hnews
          rw [hsome]
          cases callback with
          | merkleBlock block => exact reports_follow _ _ block
          | tx tx => exact reports_receive _ _ tx
          | _ => exact .nil

/-- At each move the client records what arrives, and asks for what the move requests. -/
theorem reports_moments (move : Move) :
    Reports (Running.moments (Client.syncing fun _ => move.failure) syncing move.step)
      (move.arrival?.map fun tx => decide (tx.id ∉ syncing.session.requests)).toList
      move.requested := by
  cases move with
  | receive message failure =>
      have hanswering := reports_answering
        { syncing with session := Running.alert syncing.session message } message failure
      have halert : (Running.alert syncing.session message).requests = syncing.session.requests :=
        congrArg Books.requests (books_alert syncing.session message)
      dsimp only at hanswering
      rw [halert] at hanswering
      exact .cons nofun hanswering
  | refuse error => exact .nil
  | tick now => exact .nil
  | _ => exact .singleton nofun

/-- What is done in the course of some moves. -/
def course (syncing : Syncing) : List Move → List Moment
  | [] => []
  | move :: moves =>
    Running.moments (Client.syncing fun _ => move.failure) syncing move.step ++
      course (syncing.after move) moves

theorem course_append_singleton (moves : List Move) (move : Move) :
    course syncing (moves ++ [move]) = course syncing moves ++
      Running.moments (Client.syncing fun _ => move.failure) (syncing.play moves) move.step := by
  induction moves generalizing syncing with
  | nil => exact List.append_nil _
  | cons first moves ih =>
      rw [List.cons_append, course, course, ih, List.append_assoc]
      rfl

theorem play_append_singleton (moves : List Move) (move : Move) :
    syncing.play (moves ++ [move]) = (syncing.play moves).after move :=
  List.foldl_append ..

/-- What nothing breaks holds after some moves, of what was done in their course. -/
theorem holds_play {R : List Moment → Session → Prop} (h : Historical R)
    (hstart : R [] syncing.session) (moves : List Move) :
    R (course syncing moves) (syncing.play moves).session := by
  induction moves using List.reverseRecOn with
  | nil => exact hstart
  | append_singleton moves move ih =>
      rw [course_append_singleton, play_append_singleton]
      exact (h.step _ _ move.step ih).2

/-! ## Arrivals -/

/-- A transaction was asked for since it last came, or ever if it never came. -/
abbrev Asked : List Move → Hash → Prop :=
  Outstanding (fun move txid => txid ∈ move.requested)
    (fun move txid => move.arrival?.map Tx.id = some txid)

/-- A transaction comes at the move of a number, and was not asked for since it last came. -/
def Uninvited (moves : List Move) (place : Nat) : Prop :=
  ∃ move tx, moves[place]? = some move ∧ move.arrival? = some tx ∧
    ¬ Asked (moves.take place) tx.id

variable {moves : List Move} {move : Move}

theorem uninvited_append_singleton {place : Nat} :
    Uninvited (moves ++ [move]) place ↔ Uninvited moves place ∨
      (place = moves.length ∧ ∃ tx, move.arrival? = some tx ∧ ¬ Asked moves tx.id) := by
  unfold Uninvited
  rcases Nat.lt_trichotomy place moves.length with hlt | rfl | hgt
  · rw [List.getElem?_append_left hlt, List.take_append_of_le_length hlt.le]
    simp [hlt.ne]
  · simp
  · have hnone : (moves ++ [move])[place]? = none := by
      rw [List.getElem?_eq_none_iff, List.length_append]
      exact hgt
    have hbefore : moves[place]? = none := List.getElem?_eq_none hgt.le
    simp [hnone, hbefore, hgt.ne']

theorem uninvited_of_asked (h : ∀ tx, move.arrival? = some tx → Asked moves tx.id) :
    {place | Uninvited (moves ++ [move]) place} = {place | Uninvited moves place} := by
  ext place
  refine uninvited_append_singleton.trans (or_iff_left ?_)
  rintro ⟨-, tx, harrival, hasked⟩
  exact hasked (h tx harrival)

theorem encard_uninvited {tx : Tx} (harrival : move.arrival? = some tx)
    (hasked : ¬ Asked moves tx.id) :
    {place | Uninvited (moves ++ [move]) place}.encard =
      {place | Uninvited moves place}.encard + 1 := by
  have hinsert : {place | Uninvited (moves ++ [move]) place} =
      insert moves.length {place | Uninvited moves place} := by
    ext place
    refine uninvited_append_singleton.trans ?_
    rw [or_comm, and_iff_left ⟨tx, harrival, hasked⟩]
    rfl
  have hnew : moves.length ∉ {place | Uninvited moves place} := by
    rintro ⟨move, tx, hmove, -⟩
    simp at hmove
  rw [hinsert, Set.encard_insert_of_notMem hnew]

/-- What is asked for in a session was asked for since it last came. -/
theorem mem_requests_play (addr : Endpoint) (localHeight : UInt32) (settings : Settings)
    (clock : Nat) (txid : Hash) :
    txid ∈ ((start addr localHeight settings clock).play moves).session.requests ↔
      Asked moves txid := by
  let syncing := start addr localHeight settings clock
  change txid ∈ (syncing.play moves).progress.requests ↔ _
  rw [progress_play]
  induction moves using List.reverseRecOn with
  | nil => exact iff_of_false List.not_mem_nil Outstanding.nil
  | append_singleton moves move ih =>
      have hasked : Asked (moves ++ [move]) txid ↔ _ := Outstanding.append_singleton
      have hother : (∀ tx, move.arrival? = some tx → tx.id ≠ txid) ↔
        ¬ move.arrival?.map Tx.id = some txid := by simp
      rw [List.foldl_append, List.foldl_cons, List.foldl_nil, mem_requests_after, ih, hasked,
        hother]

/-- What a sync records and asks for in its course. -/
structure Recorded (moves : List Move) (course : List Moment) : Prop where
  /-- One transaction is recorded for each that the client acts on, -/
  length_eq : (recorded course).length = (arrivals moves).length
  /-- and it is a false positive if it came uninvited. -/
  count_eq : ((recorded course).count true : ℕ∞) = {place | Uninvited moves place}.encard
  /-- What the moves request is what the client and the owner of the session ask for. -/
  requested_eq : course.flatMap (·.deed.requested) = moves.flatMap Move.requested

/-- One more move, in a session that asks for what was asked for since it last came. -/
theorem Recorded.append {course more : List Moment} {requests : Requests}
    (h : Recorded moves course) (hasks : ∀ txid, txid ∈ requests ↔ Asked moves txid)
    (hreports : Reports more (move.arrival?.map fun tx => decide (tx.id ∉ requests)).toList
      move.requested) : Recorded (moves ++ [move]) (course ++ more) where
  length_eq := by
    have harrivals : arrivals (moves ++ [move]) = arrivals moves ++ move.arrival?.toList :=
      List.filterMap_append
    rw [recorded_append hreports.no_reset, hreports.recorded_eq, harrivals, List.length_append,
      List.length_append, h.length_eq]
    cases move.arrival? <;> rfl
  count_eq := by
    rw [recorded_append hreports.no_reset, hreports.recorded_eq, List.count_append, Nat.cast_add,
      h.count_eq]
    cases harrival : move.arrival? with
    | none =>
        rw [uninvited_of_asked (by simp [harrival])]
        exact add_zero _
    | some tx =>
        by_cases hasked : Asked moves tx.id
        · rw [uninvited_of_asked (by simpa [harrival] using hasked)]
          simp [hasks, hasked]
        · rw [encard_uninvited harrival hasked]
          simp [hasks, hasked]
  requested_eq := by
    rw [List.flatMap_append, List.flatMap_append, h.requested_eq, hreports.requested_eq,
      List.flatMap_singleton]

theorem recorded_course (addr : Endpoint) (localHeight : UInt32) (settings : Settings)
    (clock : Nat) (moves : List Move) :
    Recorded moves (course (start addr localHeight settings clock) moves) := by
  let syncing := start addr localHeight settings clock
  induction moves using List.reverseRecOn with
  | nil =>
      have hnone : {place | Uninvited [] place} = ∅ := by simp [Uninvited]
      refine ⟨rfl, ?_, rfl⟩
      rw [hnone, Set.encard_empty]
      rfl
  | append_singleton moves move ih =>
      have hasks := @mem_requests_play moves addr localHeight settings clock
      rw [course_append_singleton]
      exact ih.append hasks (reports_moments (syncing.play moves) move)

end Syncing

/-- In every run, with whatever client, the counts are what was recorded since they were
last reset, as far as 32-bit numbers go; and a client that syncs records each transaction
that it acts on, as a false positive if nobody asked for it since it last came. -/
theorem Running.tally_accounts {σ : Type} (client : Client σ) (memory : σ) (addr : Endpoint)
    (localHeight : UInt32) (settings : Settings) (clock : Nat) (todo : List Step)
    (moves : List Syncing.Move) :
    let start : Running σ := ⟨.start addr localHeight settings clock, memory⟩
    let syncing := Syncing.start addr localHeight settings clock
    let sync := Syncing.course syncing moves
    (∀ earlier moment later, course client start todo = earlier ++ moment :: later →
      Tally.Accounts (recorded earlier) moment.session.tally) ∧
    Tally.Accounts (recorded (course client start todo)) (steps client start todo).session.tally ∧
    Tally.Accounts (recorded sync) (syncing.play moves).session.tally ∧
    Syncing.Recorded moves sync := by
  intro start syncing sync
  have hstart : Tally.Counts (recorded []) start.session.tally := Tally.counts_empty
  have hend := historical_counts.in_the_end client start hstart todo
  have hsync := Syncing.holds_play syncing historical_counts hstart moves
  refine ⟨?_, hend.accounts, hsync.accounts, ?_⟩
  · intro earlier moment later hcourse
    exact (historical_counts.at_moment client start hstart hcourse).accounts
  · exact Syncing.recorded_course addr localHeight settings clock moves

end LightPeer
