import LightPeer.Proofs.Session.Dispatch
import LightPeer.Proofs.Session.Simulation
import LightPeer.Proofs.Session.Trackers

/-! # A block takes the place of the one before

A syncing client makes a block the current one when it comes with a good proof, and puts
the transactions that come to the current block. So a block that is replaced stays as it
is, and leaves nothing to the next one. -/

namespace LightPeer

open Session

namespace Syncing

variable (session : Session) (notes : List Client.Note)

/-- Another tracker became the current one, and the old ones stay as they are. -/
structure Replaced (trackers next : Trackers) (tracker : BlockTracker) : Prop where
  current_eq : next.current = trackers.all.length
  now_eq : next.now = tracker
  get_eq : ∀ id < trackers.all.length, next.get id = trackers.get id

/-- The same tracker is the current one, and no other one is changed. -/
structure Retained (trackers next : Trackers) : Prop where
  current_eq : next.current = trackers.current
  get_eq : ∀ id, id ≠ trackers.current → next.get id = trackers.get id

theorem Retained.of_eq {trackers next : Trackers} {tracker : BlockTracker}
    (h : next = trackers.update trackers.current tracker) : Retained trackers next := by
  subst h
  exact ⟨rfl, fun _ hid => trackers.get_update_of_ne tracker hid.symm⟩

theorem Replaced.update {trackers next : Trackers} {tracker : BlockTracker}
    (h : Replaced trackers next tracker) (last : BlockTracker) :
    Replaced trackers (next.update next.current last) last where
  current_eq := h.current_eq
  now_eq := next.now_update_current last
  get_eq id hid := by
    have hne : next.current ≠ id := h.current_eq ▸ Nat.ne_of_gt hid
    rw [next.get_update_of_ne last hne, h.get_eq id hid]

theorem replaced_install (trackers : Trackers) (tracker : BlockTracker) :
    Replaced trackers (trackers.install tracker) tracker :=
  ⟨rfl, trackers.now_install tracker, fun _ hid => trackers.get_install_of_lt tracker hid⟩

/-- A block with a good proof is tracked from scratch, and handed over at once if it
matches nothing. -/
theorem replaced_follow {block : MerkleBlock} {txids : List Hash}
    (hmatched : block.matched = .ok txids) :
    Replaced session.trackers ((Client.follow block notes).run session).1.trackers
      (BlockTracker.mk (some block) (.ofList txids) []).take.1 := by
  let tracker : BlockTracker := ⟨some block, .ofList txids, []⟩
  -- A request that fails asks for something, so the block is not taken then either.
  have hnow : ((Client.follow block notes).run session).1.trackers.now = tracker.take.1 := by
    have hprogress := progress_follow session notes block
    rw [Progress.react_merkleBlock_ok _ hmatched] at hprogress
    exact congrArg Progress.tracker hprogress
  have hfollow := follow_cases session notes block
  simp only [hmatched] at hfollow
  let trackers := session.trackers.install tracker
  have hasked : ({ session with trackers }.requestTxs txids).1.trackers = trackers :=
    congrArg Books.trackers (books_requestTxs { session with trackers } txids)
  have hinstall := replaced_install session.trackers tracker
  rw [← hnow]
  rcases hfollow with hasks | hcollects
  · have hkept := hasked
    rw [← hasks] at hkept
    rw [hkept]
    exact { hinstall with now_eq := rfl }
  · rw [run_collect] at hcollects
    rw [hcollects]
    dsimp only
    rw [hasked]
    exact { hinstall.update _ with now_eq := rfl }

theorem retained_receive (tx : Tx) :
    Retained session.trackers ((Client.receive tx notes).run session).1.trackers := by
  by_cases hasked : tx.id ∈ session.requests
  · rw [run_receive_of_mem session notes hasked]
    simp only [Script.run_bind, Script.run_pure, run_collect]
    exact .of_eq (Trackers.update_update ..)
  · rw [run_receive_of_not_mem session notes hasked]
    exact ⟨rfl, fun _ _ => rfl⟩

variable (failure : Callback → Option Error) (syncing : Syncing)

/-- A message brings a block whose proof is good, and the client acts on it. -/
def TakesUp (message : Message) (block : MerkleBlock) (txids : List Hash) : Prop :=
  message = .merkleBlock block ∧ failure (.merkleBlock block) = none ∧ block.matched = .ok txids

/-- What becomes of the trackers when a message comes: a block takes the place of the
current one, or a transaction is put to the current one, or nothing changes. -/
inductive Handled (message : Message) (trackers next : Trackers) : Prop where
  | opened {block : MerkleBlock} {txids : List Hash} (takes : TakesUp failure message block txids)
      (replaced : Replaced trackers next (BlockTracker.mk (some block) (.ofList txids) []).take.1)
  | received {tx : Tx} (came : message = .tx tx) (retained : Retained trackers next)
  | untouched (closed : ∀ block txids, ¬ TakesUp failure message block txids)
      (same : next = trackers)

theorem Handled.ignored {message : Message} {trackers next : Trackers}
    (hother : ∀ block, message ≠ .merkleBlock block) (hsame : next = trackers) :
    Handled failure message trackers next :=
  .untouched (fun block _ htakes => hother block htakes.1) hsame

theorem handled_react (callback : Callback) :
    Handled failure callback.message session.trackers
      (((Client.syncing failure).react callback notes).run session).1.trackers := by
  unfold Client.syncing
  cases hfailure : failure callback with
  | some error =>
      simp only [hfailure]
      refine .untouched ?_ rfl
      rintro block txids ⟨hmessage, hacts, -⟩
      cases callback <;> cases hmessage
      exact nomatch hfailure.symm.trans hacts
  | none =>
      simp only [hfailure]
      cases callback with
      | merkleBlock block =>
          cases hmatched : block.matched with
          | error fault =>
              have hfollow := follow_cases session (notes ++ [.called (.merkleBlock block)]) block
              simp only [hmatched] at hfollow
              refine .untouched ?_ (congrArg Session.trackers hfollow)
              rintro _ txids ⟨hmessage, -, hgood⟩
              cases hmessage
              exact nomatch hmatched.symm.trans hgood
          | ok txids => exact .opened ⟨rfl, hfailure, hmatched⟩ (replaced_follow session _ hmatched)
      | tx tx => exact .received rfl (retained_receive session _ tx)
      | _ => exact .ignored failure nofun rfl

theorem handled_dispatch (message : Message) :
    Handled failure message syncing.session.trackers
      (Running.dispatch (Client.syncing failure) syncing message).1.session.trackers := by
  unfold Running.dispatch
  cases hnews : Callback.ofMessage? message with
  | none =>
      refine .ignored failure ?_ rfl
      rintro block rfl
      exact nomatch hnews
  | some callback =>
      obtain rfl := Callback.ofMessage?_eq_some_iff.mp hnews
      exact handled_react (syncing.session.emit (.dispatched callback)) _ failure callback

theorem handled_handle (message : Message) :
    Handled failure message syncing.session.trackers
      (Running.handle (Client.syncing failure) syncing message).1.session.trackers := by
  have hcame := congrArg Books.trackers (books_came syncing.session message)
  have hdispatch := handled_dispatch failure
    { syncing with session := Running.alert syncing.session message } message
  have halert : (Running.alert syncing.session message).trackers = syncing.session.trackers :=
    congrArg Books.trackers (books_alert syncing.session message)
  dsimp only at hdispatch
  rw [halert] at hdispatch
  have hreport (running : Syncing) (result : Except Error Unit) :
      (Running.report running message result).session.trackers = running.session.trackers := by
    cases result <;> rfl
  cases message with
  | ping nonce => exact .ignored failure nofun hcame
  | pong nonce => exact .ignored failure nofun hcame
  | _ => exact (hreport _ _).symm ▸ hdispatch

/-- What a message does to the trackers of a client that syncs, whoever holds them. -/
structure Handling (message : Message) (trackers next : Trackers) : Prop where
  replaced_iff : next.current ≠ trackers.current ↔
    ∃ block txids, TakesUp failure message block txids
  replaced : ∀ block txids, TakesUp failure message block txids →
    Replaced trackers next (BlockTracker.mk (some block) (.ofList txids) []).take.1
  refused : ∀ block fault, message = .merkleBlock block → block.matched = .error fault →
    next = trackers
  /-- Only the tracker that is current in the end may have changed. -/
  kept : ∀ id < trackers.all.length, id ≠ next.current → next.get id = trackers.get id

theorem Handled.handling {message : Message} {trackers next : Trackers}
    (h : Handled failure message trackers next) : Handling failure message trackers next := by
  cases h with
  | @opened block txids takes replaced =>
      have hne : next.current ≠ trackers.current :=
        replaced.current_eq ▸ Nat.ne_of_gt trackers.current_lt
      refine ⟨iff_of_true hne ⟨block, txids, takes⟩, ?_, ?_, fun id hid _ => replaced.get_eq id hid⟩
      · rintro other others ⟨hmessage, -, hgood⟩
        obtain rfl := Message.merkleBlock.inj (takes.1.symm.trans hmessage)
        obtain rfl := Except.ok.inj (takes.2.2.symm.trans hgood)
        exact replaced
      · intro other fault hmessage hbad
        obtain rfl := Message.merkleBlock.inj (takes.1.symm.trans hmessage)
        exact nomatch takes.2.2.symm.trans hbad
  | @received tx came retained =>
      subst came
      refine ⟨iff_of_false (not_not_intro retained.current_eq) ?_, ?_, nofun, ?_⟩
      · rintro ⟨block, txids, hmessage, -⟩
        exact nomatch hmessage
      · rintro block txids ⟨hmessage, -⟩
        exact nomatch hmessage
      · intro id hid hne
        exact retained.get_eq id (retained.current_eq ▸ hne)
  | untouched closed same =>
      subst same
      refine ⟨iff_of_false (not_not_intro rfl) ?_, ?_, fun _ _ _ _ => rfl, fun _ _ _ => rfl⟩
      · rintro ⟨block, txids, htakes⟩
        exact closed block txids htakes
      · exact fun block txids htakes => absurd htakes (closed block txids)

end Syncing

namespace Session

/-- What a run has to do with the trackers, whoever holds them. -/
structure Tracking {σ : Type} (client : Client σ) (start : Running σ) (todo : List Running.Step) :
    Prop where
  at_moment : ∀ earlier moment later,
    Running.course client start todo = earlier ++ moment :: later →
      Isolated earlier moment.session ∧ KeepsApart moment
  in_the_end : Isolated (Running.course client start todo) (Running.steps client start todo).session
  /-- The current tracker is another one after a step exactly if a deed in it installed one. -/
  replaced_iff : ∀ step, let running := Running.steps client start todo
    (Running.step client running step).1.session.trackers.current ≠
      running.session.trackers.current ↔
        ∃ moment ∈ Running.moments client running step, moment.installed?.isSome

end Session

/-- In every run, with whatever client and whoever holds trackers, each tracker is in the
state that its own block and the work on it give it, while it is the current one and after
it was replaced; and a syncing client replaces it when a block with a good proof comes. -/
theorem Running.trackers_isolated {σ : Type} (client : Client σ) (memory : σ) (addr : Endpoint)
    (localHeight : UInt32) (settings : Settings) (clock : Nat) (todo : List Step) :
    Tracking client ⟨.start addr localHeight settings clock, memory⟩ todo ∧
      ∀ (failure : Callback → Option Error) (syncing : Syncing) (message : Message),
        Syncing.Handling failure message syncing.session.trackers
          (handle (Client.syncing failure) syncing message).1.session.trackers := by
  let start : Running σ := ⟨.start addr localHeight settings clock, memory⟩
  have hstart : Isolated [] start.session := ⟨rfl, rfl, rfl, by simp⟩
  have hend := historical_isolated.in_the_end client start hstart todo
  refine ⟨⟨?_, hend, ?_⟩, ?_⟩
  · intro earlier moment later hcourse
    exact ⟨historical_isolated.at_moment client start hstart hcourse, keeps_apart moment⟩
  · intro step running
    obtain ⟨-, hstep⟩ := historical_isolated.step client running step hend
    rw [hstep.current_eq, hend.current_eq, installed_append, List.length_append,
      exists_installed_iff, Ne, Nat.add_eq_left, List.length_eq_zero_iff]
  · intro failure syncing message
    exact (Syncing.handled_handle failure syncing message).handling

end LightPeer
