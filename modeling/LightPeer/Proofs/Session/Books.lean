import LightPeer.Session.Run

/-! # What traffic leaves alone

Messages that go out or are watched change the link, the watchdog and the
journal. The books of a session, which hold what it asked for, tracks, counts
and queues, are changed by the calls that name them and by nothing else. -/

namespace LightPeer

namespace Session

/-- What a session keeps beside its link, watchdog, clock and journal. -/
structure Books where
  requests : Requests
  trackers : Trackers
  tally : Tally
  blockQueue : List Hash
  height : UInt32

def books (session : Session) : Books :=
  ⟨session.requests, session.trackers, session.tally, session.blockQueue, session.height⟩

variable (session : Session) (message : Message)

/-! ## Traffic -/

@[simp] theorem books_log (level : Log.Level) (text : String) :
    (session.log level text).books = session.books := rfl

@[simp] theorem books_emit (effect : Effect) : (session.emit effect).books = session.books := rfl

@[simp] theorem books_disconnect : session.disconnect.books = session.books := rfl

@[simp] theorem books_notify : (session.notify message).1.books = session.books := by
  unfold notify
  cases session.watchdog with
  | none => rfl
  | some state =>
      dsimp only
      split <;> rfl

@[simp] theorem books_tick (now : Nat) : (session.tick now).books = session.books := by
  unfold tick
  dsimp only
  cases session.watchdog with
  | none => rfl
  | some state =>
      dsimp only
      split <;> rfl

@[simp] theorem books_offer : (session.offer message).1.books = session.books := rfl

@[simp] theorem books_send : (session.send message).1.books = session.books := by
  have hheard : (if message.isRequest then session.notify message else (session, .ok ())).1.books =
      session.books := by
    split
    · exact books_notify session message
    · rfl
  unfold send
  dsimp only
  split
  · exact hheard
  · exact hheard

/-- Showing a message to the watchdog is handing it over, but for a word in the log. -/
theorem alert_cases :
    Running.alert session message = (session.notify message).1 ∨
      ∃ text, Running.alert session message = (session.notify message).1.log .debug text := by
  unfold Running.alert
  split
  · rename_i heq
    exact .inl (by rw [heq])
  · rename_i heq
    exact .inr ⟨_, by rw [heq]⟩

@[simp] theorem books_alert : (Running.alert session message).books = session.books := by
  rcases alert_cases session message with halert | ⟨text, halert⟩
  · rw [halert, books_notify]
  · rw [halert, books_log, books_notify]

/-! ## Calls -/

@[simp] theorem books_requestHashes (locators : List Hash) (stop : Hash) :
    (session.requestHashes locators stop).1.books = session.books := by
  simp [requestHashes]

@[simp] theorem books_requestBlocks (hashes : List Hash) :
    (session.requestBlocks hashes).1.books = session.books := by
  cases hashes with
  | nil => rfl
  | cons first rest => simp [requestBlocks]

@[simp] theorem books_ping : session.ping.1.books = session.books := by
  simp [ping]

/-- Asking for transactions remembers them, whether or not the request gets out. -/
@[simp] theorem books_requestTxs (txids : List Hash) :
    (session.requestTxs txids).1.books =
      { session.books with requests := session.requests.insertAll txids } := by
  cases txids with
  | nil => rfl
  | cons first rest => exact books_send _ _

@[simp] theorem books_loadFilter (filter : Filter) :
    (session.loadFilter filter).1.books =
      { session.books with trackers := session.trackers.install .empty } :=
  books_send session.resetTracker _

theorem exists_track_eq (block : MerkleBlock) :
    ∃ trackers, (session.track block).1 = { session with trackers } := by
  unfold track
  split
  · exact ⟨session.trackers, rfl⟩
  · exact ⟨_, rfl⟩

theorem track_of_error {block : MerkleBlock} {fault : MerkleBlock.ProofFault}
    (h : block.matched = .error fault) :
    session.track block = (session, .error (.invalidMerkleBlock fault.message)) := by
  unfold track BlockTracker.ofMerkleBlock
  rw [h]

theorem track_of_ok {block : MerkleBlock} {txids : List Hash} (h : block.matched = .ok txids) :
    let trackers := session.trackers.install ⟨some block, .ofList txids, []⟩
    session.track block = ({ session with trackers }, .ok trackers.current) := by
  unfold track BlockTracker.ofMerkleBlock
  rw [h]

theorem exists_queueBlock_eq (hash : Hash) :
    ∃ blockQueue, (session.queueBlock hash).1 = { session with blockQueue } := by
  unfold queueBlock
  split
  · exact ⟨session.blockQueue, rfl⟩
  · exact ⟨_, rfl⟩

theorem exists_nextBlock_eq : ∃ blockQueue, session.nextBlock.1 = { session with blockQueue } := by
  unfold nextBlock
  split
  · exact ⟨session.blockQueue, rfl⟩
  · exact ⟨_, rfl⟩

/-- The books after a call, where there is room for so many announced blocks. -/
def Books.perform (room : Nat) (books : Books) : Call → Books
  | .requestTxs txids => { books with requests := books.requests.insertAll txids }
  | .loadFilter _ | .resetTracker => { books with trackers := books.trackers.install .empty }
  | .track block =>
    { books with
      trackers :=
        match BlockTracker.ofMerkleBlock block with
        | .error _ => books.trackers
        | .ok tracker => books.trackers.install tracker }
  | .tracker id op =>
    { books with trackers := books.trackers.update id ((books.trackers.get id).apply op).1 }
  | .requests op => { books with requests := (books.requests.apply op).1 }
  | .recordTx falsePositive => { books with tally := books.tally.record falsePositive }
  | .resetTally => { books with tally := .empty }
  | .setHeight height => { books with height }
  | .queueBlock hash =>
    { books with
      blockQueue :=
        if room ≤ books.blockQueue.length then books.blockQueue else books.blockQueue ++ [hash] }
  | .nextBlock => { books with blockQueue := books.blockQueue.tail }
  | _ => books

/-- Each call changes the books in its own way, whatever becomes of what it sends. -/
theorem books_perform (call : Call) :
    (session.perform call).1.books = session.books.perform session.blockQueueSize call := by
  cases call with
  | notify message => exact books_notify session message
  | send message => exact books_send session message
  | requestHashes locators stop => exact books_requestHashes session locators stop
  | requestBlocks hashes => exact books_requestBlocks session hashes
  | requestTxs txids => exact books_requestTxs session txids
  | loadFilter filter => exact books_loadFilter session filter
  | ping => exact books_ping session
  | track block =>
      simp only [perform, Books.perform, track]
      cases BlockTracker.ofMerkleBlock block <;> rfl
  | queueBlock hash =>
      change (session.queueBlock hash).1.books = _
      unfold queueBlock Books.perform
      by_cases hfull : session.blockQueueSize ≤ session.blockQueue.length
      · rw [if_pos hfull]
        exact congrArg (fun blockQueue => { session.books with blockQueue }) (if_pos hfull).symm
      · rw [if_neg hfull]
        exact congrArg (fun blockQueue => { session.books with blockQueue }) (if_neg hfull).symm
  | nextBlock =>
      simp only [perform, Books.perform, nextBlock, books]
      cases hqueue : session.blockQueue with
      | nil => simp [hqueue]
      | cons first rest => rfl
  | _ => rfl

/-- A nonce changes nothing but the height. -/
theorem books_learnHeight (nonce : UInt64) :
    (session.learnHeight nonce).books =
      { session.books with height := (session.learnHeight nonce).height } := by
  unfold learnHeight
  split <;> rfl

end Session

end LightPeer
