import LightPeer.Proofs.Session.Course
import LightPeer.Proofs.Session.Simulation

/-! # What the watchdog is handed

A watchdog that is still open knows exactly what it was handed: requests that go
out and messages that come, pings and pongs apart. What a client does with its
callbacks cannot hide a message from it, and a closed watchdog never opens again. -/

namespace LightPeer

namespace Session

/-- If the watchdog is open in the end, it was open before, and it was handed
these messages in between. -/
def Hears (session : Session) (messages : List Message) (next : Session) : Prop :=
  ∀ after, next.watchdog = some after →
    watched next.journal = watched session.journal ++ messages ∧
      ∃ before, session.watchdog = some before ∧
        after.pending = messages.foldl StallState.revise before.pending

namespace Hears

variable {session next last : Session} {messages more : List Message} {before after : StallState}

/-- An open watchdog knows the messages that it saw. -/
theorem of_undergoes {effects : List Effect} {seen : List (Message × Nat)}
    (h : Undergoes session effects seen next)
    (hseen : session.watchdog.isSome → seen.map Prod.fst = messages) :
    Hears session messages next := by
  intro after hafter
  obtain ⟨before, hbefore, rfl⟩ := h.state after hafter
  obtain ⟨added, hadded, rfl⟩ := h.journal
  have hmessages := hseen (Option.isSome_iff_exists.mpr ⟨before, hbefore⟩)
  refine ⟨?_, before, hbefore, ?_⟩
  · rw [hadded, watched_append, ← watched_traffic added, h.watched_eq, hmessages]
  · rw [StallState.pending_foldl_see, hmessages]

theorem of_quiet (h : Undergoes session [] [] next) : Hears session [] next :=
  of_undergoes h fun _ => rfl

theorem refl (session : Session) : Hears session [] session := of_quiet (.refl session)

theorem trans (h : Hears session messages next) (hlast : Hears next more last) :
    Hears session (messages ++ more) last := by
  intro after hafter
  obtain ⟨hmore, between, hbetween, hpending⟩ := hlast after hafter
  obtain ⟨hmessages, before, hbefore, hearlier⟩ := h between hbetween
  refine ⟨by rw [hmore, hmessages, List.append_assoc], before, hbefore, ?_⟩
  rw [hpending, hearlier, List.foldl_append]

/-- What follows in silence changes nothing of what was heard. -/
theorem trans_silent (h : Hears session messages next) (hlast : Hears next [] last) :
    Hears session messages last := by
  have htrans := h.trans hlast
  rwa [List.append_nil] at htrans

theorem watched_eq (h : Hears session messages next) (hafter : next.watchdog = some after) :
    watched next.journal = watched session.journal ++ messages :=
  (h after hafter).1

theorem pending_eq (h : Hears session messages next) (hbefore : session.watchdog = some before)
    (hafter : next.watchdog = some after) :
    after.pending = messages.foldl StallState.revise before.pending := by
  obtain ⟨-, first, hfirst, hpending⟩ := h after hafter
  rw [hbefore] at hfirst
  obtain rfl := Option.some.inj hfirst
  exact hpending

/-- Where nothing is waited for and no request is heard of, nothing is found fault with. -/
theorem check_eq_proceed (h : Hears session messages next) (hbefore : session.watchdog = some before)
    (hempty : before.pending.isEmpty) (hquiet : ∀ message ∈ messages, message.isRequest = false)
    (hafter : next.watchdog = some after) (now : Nat) : after.check now = .proceed := by
  apply StallState.check_of_isEmpty
  rw [h.pending_eq hbefore hafter]
  exact StallState.isEmpty_foldl_revise hempty hquiet

end Hears

/-- What a call hands over is the same in every session with an open watchdog. -/
theorem hears_perform (session : Session) (call : Call) :
    Hears session call.feed (session.perform call).1 := by
  refine .of_undergoes (undergoes_perform session call) fun hopen => ?_
  rw [Moment.map_fst_seen]
  exact if_pos hopen

theorem hears_dispatched (session : Session) (callback : Callback) :
    Hears session [] (session.emit (.dispatched callback)) :=
  .of_undergoes (undergoes_dispatched session callback) fun _ => rfl

end Session

/-! ## Clients -/

open Session

/-- A script that hands over nothing, whatever its calls give back. -/
def Script.Quiet {α : Type} : Script α → Prop
  | .done _ => True
  | .call c next => c.feed = [] ∧ ∀ result, (next result).Quiet

theorem Script.Quiet.bind {α β : Type} {script : Script α} {next : α → Script β}
    (h : script.Quiet) (hnext : ∀ value, (next value).Quiet) : (script >>= next).Quiet := by
  change (script.bind next).Quiet
  induction script with
  | done value => exact hnext value
  | call c more ih =>
      obtain ⟨hfeed, hmore⟩ := h
      exact ⟨hfeed, fun result => ih result (hmore result)⟩

theorem Script.Quiet.hears {α : Type} {script : Script α} (h : script.Quiet) (session : Session) :
    Hears session [] (script.run session).1 := by
  induction script generalizing session with
  | done value => exact .refl session
  | call c next ih =>
      obtain ⟨hfeed, hnext⟩ := h
      have hcall := hears_perform session c
      rw [hfeed] at hcall
      exact hcall.trans (ih _ (hnext _) _)

namespace Running

variable {σ : Type} (client : Client σ) (running : Running σ)

theorem hears_alert (session : Session) (message : Message) :
    Hears session [message] (alert session message) := by
  refine .of_undergoes (undergoes_alert session message) fun hopen => ?_
  simp [hearing, hopen]

theorem hears_handle {message : Message} {answer : List Message}
    (hdispatch : Hears (alert running.session message) answer
      (dispatch client { running with session := alert running.session message } message).1.session) :
    Hears running.session (shown message answer) (handle client running message).1.session := by
  let dispatched := dispatch client { running with session := alert running.session message } message
  have hhandle := ((hears_alert running.session message).trans hdispatch).trans_silent
    (.of_quiet (undergoes_report dispatched.1 message dispatched.2))
  cases message with
  | ping nonce =>
      refine .of_undergoes (undergoes_ping running.session nonce) fun _ => ?_
      rw [Moment.map_fst_seen]
      exact hearing_nil _
  | pong nonce => exact .of_quiet (undergoes_learnHeight _ _)
  | _ => exact hhandle

/-- Whatever a session goes through, an open watchdog knows what it was handed. -/
theorem exists_hears_steps (todo : List Step) :
    ∃ messages, Hears running.session messages (steps client running todo).session :=
  ⟨_, .of_undergoes (undergoes_steps client running todo) fun _ => rfl⟩

end Running

/-! ## Syncing -/

/-- The messages that a syncing client hands over in answer to its news. -/
def Callback.feed : Callback → List Message
  | .merkleBlock block =>
    match block.matched with
    | .ok txids => (Session.Call.requestTxs txids).feed
    | .error _ => []
  | _ => []

namespace Syncing

theorem mem_foldl_asking {pending : FiniteSet Expectation} {expectation : Expectation}
    {kind : InvKind} {hashes : List Hash} :
    expectation ∈ (asking kind hashes).foldl StallState.revise pending ↔
      (∃ hash ∈ hashes, expectation = .data hash) ∨ expectation ∈ pending := by
  cases hashes with
  | nil => simp [asking]
  | cons first rest => simp [asking, StallState.revise, eq_comm]

/-- The messages that a move hands to an open watchdog. -/
def Move.feed (move : Move) : List Message :=
  match move.step with
  | .handle message => Running.shown message (move.news?.elim [] Callback.feed)
  | .call c => c.feed
  | .refuse _ | .tick _ => []

variable (session : Session) (notes : List Client.Note)

theorem quiet_collect (id : TrackerId) : (Client.collect id notes).Quiet := by
  refine ⟨rfl, ?_⟩
  intro taken
  cases taken <;> trivial

theorem quiet_receive (tx : Tx) : (Client.receive tx notes).Quiet := by
  have hcollect (id : TrackerId) :
      (do return (← Client.collect id notes, .ok ()) :
        Script (List Client.Note × Except Error Unit)).Quiet :=
    (quiet_collect notes id).bind fun _ => trivial
  rw [receive_eq]
  refine ⟨rfl, ?_⟩
  intro asked
  cases asked with
  | false => exact ⟨rfl, fun _ => trivial⟩
  | true =>
      refine ⟨rfl, fun _ => ⟨rfl, fun id => ⟨rfl, ?_⟩⟩⟩
      intro expected
      cases expected with
      | false => exact hcollect id
      | true => exact ⟨rfl, fun _ => hcollect id⟩

theorem hears_follow (block : MerkleBlock) :
    Hears session (Callback.merkleBlock block).feed ((Client.follow block notes).run session).1 := by
  have hfollow := follow_cases session notes block
  unfold Callback.feed
  cases hmatched : block.matched with
  | error fault =>
      simp only [hmatched] at hfollow ⊢
      rw [hfollow]
      exact .refl session
  | ok txids =>
      simp only [hmatched] at hfollow ⊢
      let tracked := { session with
        trackers := session.trackers.install ⟨some block, .ofList txids, []⟩ }
      have htracked : Hears session [] tracked := .of_quiet (.silent rfl rfl)
      have hasked : Hears session (Call.requestTxs txids).feed (tracked.requestTxs txids).1 :=
        htracked.trans (hears_perform tracked (.requestTxs txids))
      rcases hfollow with hasks | hcollects
      · rwa [hasks]
      · rw [hcollects]
        exact hasked.trans_silent ((quiet_collect _ _).hears _)

theorem hears_react (callback : Callback) :
    Hears session callback.feed
      (((Client.syncing fun _ => none).react callback notes).run session).1 := by
  cases callback with
  | merkleBlock block => exact hears_follow session _ block
  | tx tx => exact (quiet_receive _ tx).hears session
  | _ => exact .refl session

variable (syncing : Syncing)

theorem hears_dispatch (message : Message) (failure : Option Error) :
    Hears syncing.session ((Move.receive message failure).news?.elim [] Callback.feed)
      (Running.dispatch (Client.syncing fun _ => failure) syncing message).1.session := by
  unfold Running.dispatch
  cases hnews : Callback.ofMessage? message with
  | none =>
      rw [Move.news?_of_none hnews]
      exact .of_quiet (undergoes_log _ _ _)
  | some callback =>
      cases failure with
      | some error => exact hears_dispatched _ callback
      | none =>
          have hsome : (Move.receive message none).news? = some callback := hnews
          rw [hsome]
          exact (hears_dispatched _ callback).trans (hears_react _ _ callback)

theorem hears_after (move : Move) :
    Hears syncing.session move.feed (syncing.after move).session := by
  cases move with
  | receive message failure =>
      exact Running.hears_handle _ syncing (hears_dispatch _ message failure)
  | requestHashes locators stop => exact hears_perform _ (.requestHashes locators stop)
  | requestBlocks hashes => exact hears_perform _ (.requestBlocks hashes)
  | requestTxs txids => exact hears_perform _ (.requestTxs txids)
  | loadFilter filter => exact hears_perform _ (.loadFilter filter)
  | ping => exact hears_perform _ .ping
  | disconnect => exact hears_perform _ .disconnect
  | refuse error => exact .of_quiet (.silent rfl rfl)
  | tick now => exact .of_quiet (undergoes_tick _ now)

/-- Over a run, the feed of the session is that of its moves. -/
theorem hears_play (moves : List Move) :
    Hears syncing.session (moves.flatMap Move.feed) (syncing.play moves).session := by
  unfold play
  induction moves generalizing syncing with
  | nil => exact .refl _
  | cons move moves ih =>
      rw [List.foldl_cons, List.flatMap_cons]
      exact (hears_after syncing move).trans (ih _)

end Syncing

end LightPeer
