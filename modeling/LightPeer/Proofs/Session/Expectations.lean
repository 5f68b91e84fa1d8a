import LightPeer.Proofs.Session.Course

/-! # Requests of the peer are waited for like our own

The watchdog is shown what goes out and what comes, and is not told which is which.
So it waits for the answers to every request in the course of a session: a peer that
has answered all that we asked, and asks us for something itself, is hung up on when
it then falls silent. -/

namespace LightPeer

open Session

namespace Running

variable {σ : Type} (client : Client σ)

/-- What an open watchdog waits for are the unanswered requests in the course of the
session, whichever side they come from. -/
theorem mem_pending_iff_unanswered (addr : Endpoint) (localHeight : UInt32) (settings : Settings)
    (clock : Nat) (memory : σ) (todo : List Step) {state : StallState}
    (hopen : (steps client ⟨.start addr localHeight settings clock, memory⟩ todo).session.watchdog =
      some state) (expectation : Expectation) :
    expectation ∈ state.pending ↔
      Unanswered ((course client ⟨.start addr localHeight settings clock, memory⟩ todo).flatMap
        (·.deed.feed)) expectation := by
  have hopened := isSome_of_mem_course client _ (Option.isSome_iff_exists.mpr ⟨state, hopen⟩)
  obtain ⟨before, hbefore, rfl⟩ := (undergoes_steps client _ todo).state state hopen
  obtain rfl := Option.some.inj hbefore
  rw [StallState.pending_foldl_see, map_fst_flatMap_seen, flatMap_heard_of_open hopened]
  exact StallState.mem_foldl_revise_iff

/-- A request that comes is shown to the watchdog, and ignored otherwise. -/
theorem handle_of_isRequest (running : Running σ) {state : StallState} {message : Message}
    (hopen : running.session.watchdog = some state) (hrequest : message.isRequest) :
    (handle client running message).1.session =
      ({ running.session with watchdog := some (state.see (message, running.session.clock)) }.emit
        (.watched message)).log .trace s!"Ignore {message.command} from {running.session.addr}" := by
  have halert : alert running.session message =
      { running.session with watchdog := some (state.see (message, running.session.clock)) }.emit
        (.watched message) := by
    unfold alert
    rw [notify_of_isRequest hopen hrequest]
  cases message with
  | getBlocks request => simp [handle, dispatch, Callback.ofMessage?, report, halert, emit]
  | getData items => simp [handle, dispatch, Callback.ofMessage?, report, halert, emit]
  | _ => exact absurd hrequest Bool.false_ne_true

/-- A request of the peer is waited for, although nothing was sent: unless something
else is watched, the first check after the timeout hangs up. -/
theorem handled_request_hangs_up (running : Running σ) {state : StallState}
    (hopen : running.session.watchdog = some state) {message : Message} {expectation : Expectation}
    (hasks : message.Asks expectation) :
    let handled := (handle client running message).1.session
    sent handled.journal = sent running.session.journal ∧
      (∃ next, handled.watchdog = some next ∧ expectation ∈ next.pending) ∧
      ∀ now, running.session.clock + state.timeout ≤ now →
        (handled.tick now).watchdog = none ∧ (handled.tick now).link.up = false := by
  intro handled
  have hhandled : handled = _ :=
    handle_of_isRequest client running hopen (Message.isRequest_of_asks hasks)
  have hpending : expectation ∈ (state.see (message, running.session.clock)).pending :=
    (StallState.mem_revise_iff _ _ _).mpr (.inl hasks)
  rw [hhandled]
  refine ⟨?_, ⟨_, rfl, hpending⟩, ?_⟩
  · simp [sent, emit, log]
  · intro now hlate
    have hcheck : (state.see (message, running.session.clock)).check now = .disconnect :=
      StallState.check_eq_disconnect_iff.mpr ⟨⟨expectation, hpending⟩, _, rfl, hlate⟩
    simp [tick, emit, log, hcheck, disconnect]

end Running

/-! ## Sessions in which nothing is waited for -/

namespace Session

/-- A deed that does not hang up, and in which neither side asks for anything or
gives cause to hang up. -/
def Deed.Harmless (deed : Deed) : Prop :=
  deed ≠ .called .disconnect ∧
    ∀ message ∈ deed.feed, message.isRequest = false ∧ StallState.judge message = .proceed

/-- The watchdog waits for nothing. -/
def Rests (session : Session) : Prop :=
  ∃ state, session.watchdog = some state ∧ state.pending.isEmpty

/-- Where nothing is waited for, it stays so, and the link is left as it is. -/
def Spared (session next : Session) : Prop :=
  session.Rests → next.Rests ∧ next.link.up = session.link.up ∧
    next.link.hangUps = session.link.hangUps

namespace Spared

variable {session next last : Session}

theorem of_eq (hwatchdog : next.watchdog = session.watchdog)
    (hup : next.link.up = session.link.up) (hhangUps : next.link.hangUps = session.link.hangUps) :
    Spared session next := by
  rintro ⟨state, hopen, hempty⟩
  exact ⟨⟨state, hwatchdog.trans hopen, hempty⟩, hup, hhangUps⟩

theorem refl (session : Session) : Spared session session := of_eq rfl rfl rfl

theorem trans (h : Spared session next) (hlast : Spared next last) : Spared session last := by
  intro hrests
  obtain ⟨hnext, hup, hhangUps⟩ := h hrests
  obtain ⟨hrests, hlastUp, hlastHangUps⟩ := hlast hnext
  exact ⟨hrests, hlastUp.trans hup, hlastHangUps.trans hhangUps⟩

end Spared

variable (session : Session)

theorem spared_notify {message : Message} (hrequest : message.isRequest = false)
    (hproceed : StallState.judge message = .proceed) :
    Spared session (session.notify message).1 := by
  rintro ⟨state, hopen, hempty⟩
  have hrevised : (StallState.revise state.pending message).isEmpty :=
    StallState.isEmpty_foldl_revise hempty (List.forall_mem_singleton.mpr hrequest)
  have hnotify : (session.notify message).1 =
      { session with watchdog := some (state.see (message, session.clock)) }.emit
        (.watched message) := by
    simp [notify, hopen, StallState.observe, StallState.see, hproceed]
  rw [hnotify]
  exact ⟨⟨_, rfl, hrevised⟩, rfl, rfl⟩

theorem spared_send {message : Message} (hrequest : message.isRequest = false) :
    Spared session (session.send message).1 := by
  rw [send_of_not_isRequest (by simp [hrequest])]
  exact .of_eq rfl rfl rfl

theorem spared_tick (now : Nat) : Spared session (session.tick now) := by
  rintro ⟨state, hopen, hempty⟩
  have htick : session.tick now = { session with clock := now } := by
    simp [tick, hopen, StallState.check_of_isEmpty hempty]
  rw [htick]
  exact ⟨⟨state, hopen, hempty⟩, rfl, rfl⟩

theorem spared_learnHeight (nonce : UInt64) : Spared session (session.learnHeight nonce) := by
  unfold learnHeight
  split <;> exact .of_eq rfl rfl rfl

theorem not_harmless_of_isRequest {deed : Deed} {message : Message} (hmem : message ∈ deed.feed)
    (hrequest : message.isRequest) : ¬ deed.Harmless := by
  intro hharmless
  have hfalse := (hharmless.2 message hmem).1
  rw [hrequest] at hfalse
  exact nomatch hfalse

theorem spared_perform {call : Call} (hharmless : (Deed.called call).Harmless) :
    Spared session (session.perform call).1 := by
  cases call with
  | notify message =>
      obtain ⟨hrequest, hproceed⟩ := hharmless.2 message (List.mem_singleton_self _)
      exact spared_notify session hrequest hproceed
  | send message =>
      cases hrequest : message.isRequest with
      | false => exact spared_send session hrequest
      | true =>
          have hmem : message ∈ (Deed.called (.send message)).feed := by
            simp [Deed.feed, Call.feed, hrequest]
          exact absurd hharmless (not_harmless_of_isRequest hmem hrequest)
  | requestHashes locators stop =>
      exact absurd hharmless (not_harmless_of_isRequest (List.mem_singleton_self _) rfl)
  | requestBlocks hashes =>
      cases hashes with
      | nil => exact .refl session
      | cons first rest =>
          exact absurd hharmless (not_harmless_of_isRequest (List.mem_singleton_self _) rfl)
  | requestTxs txids =>
      cases txids with
      | nil => exact .refl session
      | cons first rest =>
          exact absurd hharmless (not_harmless_of_isRequest (List.mem_singleton_self _) rfl)
  | loadFilter filter =>
      have hreset : Spared session session.resetTracker := .of_eq rfl rfl rfl
      exact hreset.trans (spared_send _ rfl)
  | ping => exact spared_send session rfl
  | disconnect => exact absurd rfl hharmless.1
  | track block =>
      change Spared session (session.track block).1
      unfold track
      split <;> exact .of_eq rfl rfl rfl
  | queueBlock hash =>
      change Spared session (session.queueBlock hash).1
      unfold queueBlock
      split <;> exact .of_eq rfl rfl rfl
  | nextBlock =>
      change Spared session session.nextBlock.1
      unfold nextBlock
      split <;> exact .of_eq rfl rfl rfl
  | _ => exact .of_eq rfl rfl rfl

theorem spared_script {α : Type} (script : Script α)
    (hharmless : ∀ moment ∈ script.moments session, moment.deed.Harmless) :
    Spared session (script.run session).1 := by
  induction script generalizing session with
  | done value => exact .refl session
  | call c next ih =>
      obtain ⟨hcall, hnext⟩ := List.forall_mem_cons.mp hharmless
      exact (spared_perform session hcall).trans (ih _ _ hnext)

end Session

namespace Running

variable {σ : Type} (client : Client σ) (running : Running σ)

theorem spared_alert (session : Session) {message : Message} (hrequest : message.isRequest = false)
    (hproceed : StallState.judge message = .proceed) : Spared session (alert session message) := by
  have hnotify := spared_notify session hrequest hproceed
  rcases alert_cases session message with halert | ⟨text, halert⟩
  · rwa [halert]
  · rw [halert]
    exact hnotify.trans (.of_eq rfl rfl rfl)

theorem spared_dispatch (message : Message)
    (hharmless : ∀ moment ∈ answering client running message, moment.deed.Harmless) :
    Spared running.session (dispatch client running message).1.session := by
  unfold answering at hharmless
  unfold dispatch
  split
  · rename_i callback hcallback
    rw [hcallback] at hharmless
    have hemit : Spared running.session (running.session.emit (.dispatched callback)) :=
      .of_eq rfl rfl rfl
    exact hemit.trans (spared_script _ _ hharmless)
  · exact .of_eq rfl rfl rfl

theorem spared_report (message : Message) (result : Except Error Unit) :
    Spared running.session (report running message result).session := by
  cases result with
  | ok _ => exact .refl _
  | error error => exact .of_eq rfl rfl rfl

theorem spared_handle {message : Message}
    (hharmless : ∀ moment ∈ moments client running (.handle message), moment.deed.Harmless) :
    Spared running.session (handle client running message).1.session := by
  obtain ⟨hcame, hanswering⟩ := List.forall_mem_cons.mp hharmless
  have hshown (hfeed : (Deed.came message).feed = [message]) :
      Spared running.session
        (report (dispatch client { running with session := alert running.session message }
          message).1 message (dispatch client
            { running with session := alert running.session message } message).2).session := by
    obtain ⟨hrequest, hproceed⟩ := hcame.2 message (by simp [hfeed])
    exact ((spared_alert running.session hrequest hproceed).trans
      (spared_dispatch client _ message hanswering)).trans (spared_report _ message _)
  cases message with
  | ping nonce =>
      let learned := running.session.learnHeight nonce
      have hpong : Spared learned (learned.send (.pong learned.localHeight.toUInt64)).1 :=
        spared_send learned rfl
      exact (spared_learnHeight running.session nonce).trans hpong
  | pong nonce => exact spared_learnHeight running.session nonce
  | _ => exact hshown rfl

theorem spared_step {step : Step}
    (hharmless : ∀ moment ∈ moments client running step, moment.deed.Harmless) :
    Spared running.session (Running.step client running step).1.session := by
  cases step with
  | handle message => exact spared_handle client running hharmless
  | call c => exact spared_perform running.session (hharmless _ (List.mem_singleton_self _))
  | refuse error => exact .of_eq rfl rfl rfl
  | tick now => exact spared_tick running.session now

theorem spared_steps {todo : List Step}
    (hharmless : ∀ moment ∈ course client running todo, moment.deed.Harmless) :
    Spared running.session (steps client running todo).session := by
  unfold steps
  induction todo generalizing running with
  | nil => exact .refl _
  | cons step todo ih =>
      obtain ⟨hstep, hrest⟩ := List.forall_mem_append.mp hharmless
      exact (spared_step client running hstep).trans (ih _ hrest)

/-- Once all requests in the course of a session are answered, nothing is waited for as
long as neither side asks for anything. Then neither the messages of the peer nor the
time that passes cost it the link. -/
theorem answered_session_survives (addr : Endpoint) (localHeight : UInt32) (settings : Settings)
    (clock : Nat) (memory : σ) (before after : List Step) :
    let start : Running σ := ⟨.start addr localHeight settings clock, memory⟩
    let answered := steps client start before
    let last := (steps client answered after).session
    answered.session.watchdog.isSome →
      (∀ expectation,
        ¬ Unanswered ((course client start before).flatMap (·.deed.feed)) expectation) →
      (∀ moment ∈ course client answered after, moment.deed.Harmless) →
      ∃ state, last.watchdog = some state ∧ (∀ expectation, expectation ∉ state.pending) ∧
        last.link.up = answered.session.link.up ∧
        last.link.hangUps = answered.session.link.hangUps ∧
        ∀ now, (last.tick now).watchdog = some state ∧ (last.tick now).link = last.link := by
  intro start answered last hopen hanswered hharmless
  obtain ⟨state, hstate⟩ := Option.isSome_iff_exists.mp hopen
  have hrests : answered.session.Rests := by
    refine ⟨state, hstate, FiniteSet.isEmpty_iff.mpr ?_⟩
    intro expectation
    rw [mem_pending_iff_unanswered client addr localHeight settings clock memory before hstate]
    exact hanswered expectation
  obtain ⟨⟨final, hfinal, hempty⟩, hup, hhangUps⟩ := spared_steps client answered hharmless hrests
  refine ⟨final, hfinal, FiniteSet.isEmpty_iff.mp hempty, hup, hhangUps, ?_⟩
  intro now
  have hcheck := StallState.check_of_isEmpty hempty now
  simp [tick, last, hfinal, hcheck]

theorem answered_session_survives_silence :
    let start : Running (List Client.Note) :=
      ⟨.start (.v4 ⟨127, 0, 0, 1⟩ 8333) 0 {} 0, []⟩
    let before : List Step := [.call (.requestHashes [] .zero), .handle (.inv [])]
    let after : List Step := [.handle .verack, .refuse (some .linkDown), .handle (.ping 7),
      .handle (.tx ⟨[1]⟩), .tick 60000, .handle .memPool]
    let answered := steps Client.silent start before
    let last := (steps Client.silent answered after).session
    answered.session.watchdog.isSome ∧
      (∀ expectation,
        ¬ Unanswered ((course Client.silent start before).flatMap (·.deed.feed)) expectation) ∧
      (∀ moment ∈ course Client.silent answered after, moment.deed.Harmless) ∧
      ∃ state, last.watchdog = some state ∧ (∀ expectation, expectation ∉ state.pending) ∧
        last.link.up = answered.session.link.up ∧
        last.link.hangUps = answered.session.link.hangUps ∧
        ∀ now, (last.tick now).watchdog = some state ∧ (last.tick now).link = last.link := by
  intro start before after answered last
  have hopen : answered.session.watchdog.isSome := rfl
  have hanswered : ∀ expectation,
      ¬ Unanswered ((course Client.silent start before).flatMap (·.deed.feed)) expectation := by
    intro expectation hunanswered
    rw [← StallState.mem_foldl_revise_iff] at hunanswered
    exact FiniteSet.isEmpty_iff.mp rfl expectation hunanswered
  have hcourse : (course Client.silent answered after).map Moment.deed =
      [.came .verack, .came (.ping 7), .came (.tx ⟨[1]⟩), .came .memPool] := rfl
  have hharmless : ∀ moment ∈ course Client.silent answered after, moment.deed.Harmless := by
    rw [← List.forall_mem_map (P := Deed.Harmless), hcourse]
    simp [Deed.Harmless, Deed.feed, shown, Message.isRequest, StallState.judge]
  exact ⟨hopen, hanswered, hharmless, answered_session_survives _ _ _ _ _ _ _ _ hopen hanswered hharmless⟩

/-- A peer that answered us and then asks for block hashes itself is hung up on once it
falls silent, although nothing more was sent to it. -/
theorem answered_session_lost :
    let start : Running (List Client.Note) :=
      ⟨.start (.v4 ⟨127, 0, 0, 1⟩ 8333) 0 {} 0, []⟩
    let answered :=
      steps Client.silent start [.call (.requestHashes [] .zero), .handle (.inv [])]
    let asked := steps Client.silent answered [.handle (.getBlocks ⟨[], .zero, protocolVersion⟩)]
    (∃ state, answered.session.watchdog = some state ∧ ∀ expectation, expectation ∉ state.pending) ∧
      sent asked.session.journal = sent answered.session.journal ∧
      (∃ state, asked.session.watchdog = some state ∧ .inventory ∈ state.pending) ∧
      ∀ now, 30000 ≤ now →
        let last := (steps Client.silent asked [.tick now]).session
        last.watchdog = none ∧ last.link.up = false := by
  intro start answered asked
  have hasks : (Message.getBlocks ⟨[], .zero, protocolVersion⟩).Asks .inventory := trivial
  have hopen : answered.session.watchdog = some ⟨.empty, some 0, 30000⟩ := rfl
  obtain ⟨hsent, hpending, hlost⟩ := handled_request_hangs_up Client.silent answered hopen hasks
  refine ⟨⟨_, hopen, FiniteSet.isEmpty_iff.mp rfl⟩, hsent, hpending, ?_⟩
  intro now hlate
  have hclock : answered.session.clock = 0 := rfl
  refine hlost now ?_
  rwa [hclock, Nat.zero_add]

end Running

end LightPeer
