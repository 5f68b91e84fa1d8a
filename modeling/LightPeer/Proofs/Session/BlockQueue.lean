import LightPeer.Proofs.Session.History
import LightPeer.Proofs.Session.Sending

/-! # Announced blocks wait in line

The queue of announced blocks has a fixed room. What is taken from it, and then what
still waits in it, is what was put into it, in the same order; and nothing else that is
done with a session touches the queue. -/

namespace LightPeer

open Session

namespace Session

/-! ## The room -/

@[simp] theorem blockQueueSize_notify (session : Session) (message : Message) :
    (session.notify message).1.blockQueueSize = session.blockQueueSize := by
  unfold notify
  cases session.watchdog with
  | none => rfl
  | some state =>
      dsimp only
      split <;> rfl

@[simp] theorem blockQueueSize_send (session : Session) (message : Message) :
    (session.send message).1.blockQueueSize = session.blockQueueSize := by
  obtain ⟨_, _, hframe⟩ := (sends_send session message).frame
  rw [hframe]

theorem blockQueueSize_perform (session : Session) (call : Call) :
    (session.perform call).1.blockQueueSize = session.blockQueueSize := by
  cases call with
  | notify message => exact blockQueueSize_notify session message
  | send message => exact blockQueueSize_send session message
  | requestHashes locators stop => exact blockQueueSize_send _ _
  | requestBlocks hashes =>
      cases hashes with
      | nil => rfl
      | cons first rest => exact blockQueueSize_send _ _
  | requestTxs txids =>
      cases txids with
      | nil => rfl
      | cons first rest => exact blockQueueSize_send _ _
  | loadFilter filter => exact blockQueueSize_send _ _
  | ping => exact blockQueueSize_send _ _
  | track block =>
      obtain ⟨_, htrack⟩ := exists_track_eq session block
      change (session.track block).1.blockQueueSize = _
      rw [htrack]
  | queueBlock hash =>
      obtain ⟨_, hqueue⟩ := exists_queueBlock_eq session hash
      change (session.queueBlock hash).1.blockQueueSize = _
      rw [hqueue]
  | nextBlock =>
      obtain ⟨_, hnext⟩ := exists_nextBlock_eq session
      change session.nextBlock.1.blockQueueSize = _
      rw [hnext]
  | _ => rfl

/-- The room of the queue is settled when the session starts. -/
theorem lasting_blockQueueSize :
    Lasting fun session next => next.blockQueueSize = session.blockQueueSize where
  refl _ := rfl
  trans hfirst hsecond := hsecond.trans hfirst
  emit _ _ := rfl
  perform := blockQueueSize_perform
  tick session now := by
    unfold tick
    dsimp only
    cases session.watchdog with
    | none => rfl
    | some state =>
        dsimp only
        split <;> rfl
  refuse _ _ := rfl

/-! ## Deeds -/

/-- A deed that puts a block into the queue, if there is room, or takes one out. -/
inductive Deed.Queues : Deed → Prop where
  | queueBlock (hash : Hash) : Queues (.called (.queueBlock hash))
  | nextBlock : Queues (.called .nextBlock)

namespace Moment

/-- The block that is accepted into the queue. -/
def queued? (moment : Moment) : Option Hash :=
  match moment.deed with
  | .called (.queueBlock hash) =>
    if (moment.session.queueBlock hash).2.isOk then some hash else none
  | _ => none

/-- The block that is taken from the queue. -/
def fetched? (moment : Moment) : Option Hash :=
  match moment.deed with
  | .called .nextBlock => moment.session.nextBlock.2
  | _ => none

/-- Other deeds do not look into the queue. -/
theorem spares_queue {moment : Moment} (h : ¬ moment.deed.Queues) :
    moment.queued? = none ∧ moment.fetched? = none ∧
      moment.next.blockQueue = moment.session.blockQueue := by
  obtain ⟨session, deed⟩ := moment
  cases deed with
  | came message => exact ⟨rfl, rfl, congrArg Books.blockQueue (books_came session message)⟩
  | called call =>
      have hbooks := congrArg Books.blockQueue (books_perform session call)
      cases call with
      | queueBlock hash => exact absurd (.queueBlock hash) h
      | nextBlock => exact absurd .nextBlock h
      | _ => exact ⟨rfl, rfl, hbooks⟩

end Moment

/-- The blocks that were accepted into the queue, the first one first. -/
def queued (course : List Moment) : List Hash := course.filterMap Moment.queued?

/-- The blocks that were taken from the queue, the first one first. -/
def fetched (course : List Moment) : List Hash := course.filterMap Moment.fetched?

variable {room : Nat} {history course : List Moment} {session : Session} {moment : Moment}

theorem queued_append : queued (history ++ course) = queued history ++ queued course :=
  List.filterMap_append

theorem fetched_append : fetched (history ++ course) = fetched history ++ fetched course :=
  List.filterMap_append

theorem queued_append_singleton :
    queued (history ++ [moment]) = queued history ++ moment.queued?.toList :=
  queued_append

theorem fetched_append_singleton :
    fetched (history ++ [moment]) = fetched history ++ moment.fetched?.toList :=
  fetched_append

theorem spares_queue (h : ∀ moment ∈ course, ¬ moment.deed.Queues) :
    queued course = [] ∧ fetched course = [] := by
  unfold queued fetched
  rw [List.filterMap_eq_nil_iff, List.filterMap_eq_nil_iff]
  exact ⟨fun moment hmem => (Moment.spares_queue (h moment hmem)).1,
    fun moment hmem => (Moment.spares_queue (h moment hmem)).2.1⟩

/-- Blocks wait in line: those that were queued and not taken, within the room there is. -/
structure Waits (room : Nat) (history : List Moment) (session : Session) : Prop where
  size_eq : session.blockQueueSize = room
  length_le : session.blockQueue.length ≤ room
  order : fetched history ++ session.blockQueue = queued history

namespace Waits

/-- One more deed adds to one end of the queue, or takes from the other end. -/
theorem next (h : Waits room history moment.session)
    (hlength : moment.next.blockQueue.length ≤ room)
    (horder : moment.fetched?.toList ++ moment.next.blockQueue =
      moment.session.blockQueue ++ moment.queued?.toList) :
    Waits room (history ++ [moment]) moment.next where
  size_eq := (lasting_blockQueueSize.next moment).trans h.size_eq
  length_le := hlength
  order := by
    rw [fetched_append_singleton, queued_append_singleton, List.append_assoc, horder,
      ← List.append_assoc, h.order]

theorem queueBlock (h : Waits room history session) (hash : Hash) :
    let moment : Moment := ⟨session, .called (.queueBlock hash)⟩
    Waits room (history ++ [moment]) moment.next := by
  intro moment
  have hnext : moment.next = (session.queueBlock hash).1 := rfl
  have hqueued : moment.queued? =
    if (session.queueBlock hash).2.isOk then some hash else none := rfl
  by_cases hfull : session.blockQueueSize ≤ session.blockQueue.length
  · have hqueue : session.queueBlock hash = (session, .error .blockQueueFull) := if_pos hfull
    rw [hqueue] at hnext hqueued
    refine h.next (hnext ▸ h.length_le) ?_
    rw [hnext, hqueued]
    exact (List.append_nil session.blockQueue).symm
  · have hqueue : session.queueBlock hash =
        ({ session with blockQueue := session.blockQueue ++ [hash] }, .ok ()) := if_neg hfull
    rw [hqueue] at hnext hqueued
    refine h.next ?_ ?_
    · rw [hnext, List.length_append, ← h.size_eq]
      exact Nat.lt_of_not_le hfull
    · rw [hnext, hqueued]
      rfl

theorem nextBlock (h : Waits room history session) :
    let moment : Moment := ⟨session, .called .nextBlock⟩
    Waits room (history ++ [moment]) moment.next := by
  intro moment
  have hnext : moment.next = session.nextBlock.1 := rfl
  have hfetched : moment.fetched? = session.nextBlock.2 := rfl
  unfold Session.nextBlock at hnext hfetched
  have hlength := h.length_le
  cases hqueue : session.blockQueue with
  | nil =>
      rw [hqueue] at hnext hfetched
      refine h.next (hnext ▸ hlength) ?_
      rw [hnext, hfetched]
      exact (List.append_nil session.blockQueue).symm
  | cons hash rest =>
      rw [hqueue] at hnext hfetched hlength
      refine h.next ?_ ?_
      · rw [hnext]
        exact Nat.le_of_succ_le hlength
      · rw [hnext, hfetched]
        change hash :: rest = session.blockQueue ++ []
        rw [hqueue, List.append_nil]

theorem deed (moment : Moment) (h : Waits room history moment.session) :
    Waits room (history ++ [moment]) moment.next := by
  by_cases hqueues : moment.deed.Queues
  · obtain ⟨session, deed⟩ := moment
    cases hqueues with
    | queueBlock hash => exact h.queueBlock hash
    | nextBlock => exact h.nextBlock
  · obtain ⟨hqueued, hfetched, hsame⟩ := Moment.spares_queue hqueues
    refine h.next (hsame ▸ h.length_le) ?_
    rw [hqueued, hfetched, hsame]
    exact (List.append_nil moment.session.blockQueue).symm

theorem of_books {next : Session} (h : Waits room history session)
    (hsize : next.blockQueueSize = session.blockQueueSize)
    (hbooks : next.books = session.books) : Waits room history next := by
  have hqueue : next.blockQueue = session.blockQueue := congrArg Books.blockQueue hbooks
  exact ⟨hsize.trans h.size_eq, hqueue ▸ h.length_le, hqueue ▸ h.order⟩

end Waits

theorem historical_waits (room : Nat) : Historical (Waits room) where
  deed := Waits.deed
  emit _ h := h.of_books rfl rfl
  tick now h := h.of_books (lasting_blockQueueSize.tick _ now) (books_tick _ now)
  refuse _ h := h.of_books rfl rfl

/-! ## What the queue answers -/

/-- What the queue answers after some deeds, read off the blocks that went in and out. -/
structure Fifo (room : Nat) (history : List Moment) (session : Session) : Prop where
  length_le : session.blockQueue.length ≤ room
  /-- Nothing is lost, nothing comes twice, and nothing overtakes. -/
  order : fetched history ++ session.blockQueue = queued history
  full_iff : ∀ hash, (session.queueBlock hash).2 = .error .blockQueueFull ↔
    (queued history).length = (fetched history).length + room
  /-- A block is turned down for want of room only, and leaves no trace. -/
  refused : ∀ hash error, (session.queueBlock hash).2 = .error error →
    session.queueBlock hash = (session, .error .blockQueueFull)
  next_eq : session.nextBlock.2 = (queued history)[(fetched history).length]?
  next_none_iff : session.nextBlock.2 = none ↔ fetched history = queued history

theorem queueBlock_eq_error_iff (hash : Hash) :
    (session.queueBlock hash).2 = .error .blockQueueFull ↔
      session.blockQueueSize ≤ session.blockQueue.length := by
  unfold queueBlock
  split <;> simp [*]

theorem queueBlock_of_error {hash : Hash} {error : Error}
    (h : (session.queueBlock hash).2 = .error error) :
    session.queueBlock hash = (session, .error .blockQueueFull) := by
  unfold queueBlock at h ⊢
  split at h
  · rename_i hfull
    exact if_pos hfull
  · exact nomatch h

theorem nextBlock_eq_head? (session : Session) :
    session.nextBlock.2 = session.blockQueue.head? := by
  unfold nextBlock
  cases session.blockQueue <;> rfl

theorem Waits.fifo (h : Waits room history session) : Fifo room history session where
  length_le := h.length_le
  order := h.order
  full_iff hash := by
    have hlength := congrArg List.length h.order
    have hroom := h.length_le
    rw [List.length_append] at hlength
    rw [queueBlock_eq_error_iff, h.size_eq]
    omega
  refused _ _ := queueBlock_of_error
  next_eq := by
    rw [nextBlock_eq_head?, ← h.order, List.getElem?_append_right le_rfl, Nat.sub_self,
      List.head?_eq_getElem?]
  next_none_iff := by
    rw [nextBlock_eq_head?, List.head?_eq_none_iff, ← h.order, List.self_eq_append_right]

/-- What a run has to do with the queue of announced blocks. -/
structure Queueing {σ : Type} (client : Client σ) (room : Nat) (start : Running σ)
    (todo : List Running.Step) : Prop where
  at_moment : ∀ earlier moment later,
    Running.course client start todo = earlier ++ moment :: later →
      Fifo room earlier moment.session ∧
        (¬ moment.deed.Queues → moment.next.blockQueue = moment.session.blockQueue)
  in_the_end :
    Fifo room (Running.course client start todo) (Running.steps client start todo).session
  /-- A step in which nobody turns to the queue leaves it as it is. -/
  untouched : ∀ step, let running := Running.steps client start todo
    (∀ moment ∈ Running.moments client running step, ¬ moment.deed.Queues) →
      (Running.step client running step).1.session.blockQueue = running.session.blockQueue

end Session

/-- In every run, with whatever client, the queue takes announced blocks while there is
room for them, and gives them back in the order in which it took them, each of them once. -/
theorem Running.blockQueue_fifo {σ : Type} (client : Client σ) (memory : σ) (addr : Endpoint)
    (localHeight : UInt32) (settings : Settings) (clock : Nat) (todo : List Step) :
    Queueing client settings.blockQueueSize ⟨.start addr localHeight settings clock, memory⟩
      todo := by
  let start : Running σ := ⟨.start addr localHeight settings clock, memory⟩
  have hstart : Waits settings.blockQueueSize [] start.session := ⟨rfl, Nat.zero_le _, rfl⟩
  have hwaits := historical_waits settings.blockQueueSize
  have hend := hwaits.in_the_end client start hstart todo
  refine ⟨?_, hend.fifo, ?_⟩
  · intro earlier moment later hcourse
    exact ⟨(hwaits.at_moment client start hstart hcourse).fifo,
      fun hspares => (Moment.spares_queue hspares).2.2⟩
  · intro step running hspares
    obtain ⟨-, hstep⟩ := hwaits.step client running step hend
    obtain ⟨hqueued, hfetched⟩ := spares_queue hspares
    have horder := hstep.order
    rw [fetched_append, queued_append, hqueued, hfetched, List.append_nil, List.append_nil,
      ← hend.order] at horder
    exact List.append_cancel_left horder

end LightPeer
