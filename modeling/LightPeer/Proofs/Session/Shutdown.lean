import LightPeer.Proofs.Session.Height
import LightPeer.Proofs.Session.Lasting

/-! # Going down is final

A session goes down when its peer lacks something that it announced, or when we hang
up. From then on nothing is sent and nothing is watched, whatever is called in whatever
order; but the client is still told the news, and pings and pongs still tell the height. -/

namespace LightPeer

open Session

namespace Session

variable {session next : Session}

/-! ## Sessions that are down -/

/-- The link is down, and the watchdog is closed. -/
structure Down (session : Session) : Prop where
  watchdog : session.watchdog = none
  link : session.link.up = false

/-- What a session was told to hand over or to send is refused: requests by the closed
watchdog, and before they reach the link, all else by the link. -/
structure Refuses (session : Session) : Prop where
  notify (message : Message) : session.notify message = (session, .error .watchdogClosed)
  send_request (message : Message) (hrequest : message.isRequest) :
    session.send message = (session, .error .watchdogClosed)
  send_other (message : Message) (hrequest : ¬ message.isRequest) :
    (session.send message).2 = .error .linkDown
  requestHashes (locators : List Hash) (stop : Hash) :
    (session.requestHashes locators stop).2 = .error .watchdogClosed
  requestBlocks (hashes : List Hash) (hne : hashes ≠ []) :
    (session.requestBlocks hashes).2 = .error .watchdogClosed
  requestTxs (txids : List Hash) (hne : txids ≠ []) :
    (session.requestTxs txids).2 = .error .watchdogClosed
  loadFilter (filter : Filter) : (session.loadFilter filter).2 = .error .linkDown
  ping : session.ping.2 = .error .linkDown

theorem Down.send_request (h : session.Down) {message : Message} (hrequest : message.isRequest) :
    session.send message = (session, .error .watchdogClosed) :=
  send_of_closed h.watchdog hrequest

theorem Down.send_other (h : session.Down) {message : Message} (hrequest : ¬ message.isRequest) :
    (session.send message).2 = .error .linkDown := by
  rw [send_of_not_isRequest hrequest]
  simp [offer, log, emit, h.link]

theorem Down.refuses (h : session.Down) : session.Refuses where
  notify message := by simp [notify, h.watchdog]
  send_request _ := h.send_request
  send_other _ := h.send_other
  requestHashes locators stop := by
    have hlogged : (session.log .debug
        s!"Send GetBlocks with {locators.length} locator hashes to {session.addr}").Down :=
      ⟨h.watchdog, h.link⟩
    exact congrArg Prod.snd (hlogged.send_request rfl)
  requestBlocks hashes hne := by
    obtain ⟨first, rest, rfl⟩ := List.exists_cons_of_ne_nil hne
    have hlogged (text : String) : (session.log .debug text).Down := ⟨h.watchdog, h.link⟩
    exact congrArg Prod.snd ((hlogged _).send_request rfl)
  requestTxs txids hne := by
    obtain ⟨first, rest, rfl⟩ := List.exists_cons_of_ne_nil hne
    have hremembered : Down { session with requests := session.requests.insertAll (first :: rest) } :=
      ⟨h.watchdog, h.link⟩
    exact congrArg Prod.snd (hremembered.send_request rfl)
  loadFilter filter := by
    have hreset : session.resetTracker.Down := ⟨h.watchdog, h.link⟩
    exact hreset.send_other Bool.false_ne_true
  ping := h.send_other Bool.false_ne_true

/-! ## The watchdog and the link -/

theorem Undergoes.closed {effects : List Effect} {seen : List (Message × Nat)}
    (h : Undergoes session effects seen next) (hclosed : session.watchdog = none) :
    next.watchdog = none := by
  rw [← Option.not_isSome_iff_eq_none] at hclosed ⊢
  exact mt h.isSome_of_isSome hclosed

/-- The watchdog is closed when the link is down, and only then. -/
def Coherent (session : Session) : Prop := session.watchdog = none ↔ session.link.up = false

theorem Down.coherent (h : session.Down) : session.Coherent :=
  ⟨fun _ => h.link, fun _ => h.watchdog⟩

theorem Coherent.down (h : session.Coherent) (hclosed : session.watchdog = none) : session.Down :=
  ⟨hclosed, h.mp hclosed⟩

theorem Coherent.of_eq (hwatchdog : next.watchdog = session.watchdog)
    (hup : next.link.up = session.link.up) (h : session.Coherent) : next.Coherent := by
  rwa [Coherent, hwatchdog, hup]

theorem Coherent.disconnect (session : Session) : session.disconnect.Coherent :=
  ⟨fun _ => rfl, fun _ => rfl⟩

theorem Coherent.notify (h : session.Coherent) (message : Message) :
    (session.notify message).1.Coherent := by
  unfold Session.notify
  cases hopen : session.watchdog with
  | none => exact h
  | some state =>
      dsimp only
      split
      · exact disconnect _
      · simpa [Coherent, emit, hopen] using h

theorem Coherent.send (h : session.Coherent) (message : Message) :
    (session.send message).1.Coherent := by
  cases hopen : session.watchdog with
  | none =>
      by_cases hrequest : message.isRequest
      · rwa [send_of_closed hopen hrequest]
      · rw [send_of_not_isRequest hrequest]
        exact h
  | some state =>
      by_cases hrequest : message.isRequest
      · rw [send_of_isRequest hopen hrequest]
        exact h.notify message
      · rw [send_of_not_isRequest hrequest]
        exact h

theorem Coherent.tick (h : session.Coherent) (now : Nat) : (session.tick now).Coherent := by
  cases hopen : session.watchdog with
  | none => exact .of_eq (by simp [Session.tick, hopen]) (by simp [Session.tick, hopen]) h
  | some state =>
      by_cases hoverdue : state.check now = .disconnect
      · have htick : session.tick now = { session with clock := now }.disconnect := by
          simp [Session.tick, hopen, hoverdue]
        rw [htick]
        exact disconnect _
      · exact .of_eq (by simp [Session.tick, hopen, hoverdue])
          (by simp [Session.tick, hopen, hoverdue]) h

theorem Coherent.perform (h : session.Coherent) (call : Call) :
    (session.perform call).1.Coherent := by
  have hlogged (level : Log.Level) (text : String) : (session.log level text).Coherent := h
  have hremembered (requests : Requests) : Coherent { session with requests } := h
  have hreset : session.resetTracker.Coherent := h
  cases call with
  | notify message => exact h.notify message
  | send message => exact h.send message
  | requestHashes locators stop => exact (hlogged _ _).send _
  | requestBlocks hashes =>
      cases hashes with
      | nil => exact h
      | cons first rest => exact (hlogged _ _).send _
  | requestTxs txids =>
      cases txids with
      | nil => exact h
      | cons first rest => exact (hremembered _).send _
  | loadFilter filter => exact hreset.send _
  | ping => exact h.send _
  | disconnect => exact .disconnect session
  | track block =>
      obtain ⟨_, htrack⟩ := exists_track_eq session block
      change (session.track block).1.Coherent
      rwa [htrack]
  | queueBlock hash =>
      obtain ⟨_, hqueue⟩ := exists_queueBlock_eq session hash
      change (session.queueBlock hash).1.Coherent
      rwa [hqueue]
  | nextBlock =>
      obtain ⟨_, hnext⟩ := exists_nextBlock_eq session
      change session.nextBlock.1.Coherent
      rwa [hnext]
  | _ => exact h

/-- In every run, the watchdog and the link go down together. -/
theorem lasting_coherent : Lasting fun session next => session.Coherent → next.Coherent where
  refl _ := id
  trans h h' := h' ∘ h
  emit _ _ := id
  perform _ call h := h.perform call
  tick _ now h := h.tick now
  refuse _ _ := id

/-- A closed watchdog is never opened again. -/
theorem lasting_closed :
    Lasting fun session next => session.watchdog = none → next.watchdog = none where
  refl _ := id
  trans h h' := h' ∘ h
  emit _ _ := id
  perform session call := (undergoes_perform session call).closed
  tick session now := (undergoes_tick session now).closed
  refuse _ _ := id

/-- What is down stays down. -/
theorem lasting_down : Lasting fun session next => session.Down → next.Down where
  refl _ := id
  trans h h' := h' ∘ h
  emit _ _ h := ⟨h.watchdog, h.link⟩
  perform session call h :=
    (h.coherent.perform call).down (lasting_closed.perform session call h.watchdog)
  tick session now h := (h.coherent.tick now).down (lasting_closed.tick session now h.watchdog)
  refuse _ _ h := ⟨h.watchdog, h.link⟩

/-! ## Going down -/

/-- A deed that brings a session down: the watchdog is shown or told that the peer lacks
something, or the session is to hang up. -/
def Deed.Ends : Deed → Prop
  | came (.notFound _) => True
  | called (.notify (.notFound _)) => True
  | called .disconnect => True
  | _ => False

theorem watchdog_notify_notFound (session : Session) (items : List Inv) :
    (session.notify (.notFound items)).1.watchdog = none := by
  cases hopen : session.watchdog with
  | none => simp [notify, hopen]
  | some state => simp [notify, hopen, StallState.observe, StallState.judge, disconnect]

theorem Moment.closed_of_ends {moment : Moment} (h : moment.deed.Ends) :
    moment.next.watchdog = none := by
  obtain ⟨session, deed⟩ := moment
  cases deed with
  | came message =>
      cases message with
      | notFound items =>
          change (Running.alert session (.notFound items)).watchdog = none
          rcases alert_cases session (.notFound items) with halert | ⟨text, halert⟩
          · rw [halert, watchdog_notify_notFound]
          · rw [halert]
            exact watchdog_notify_notFound session items
      | _ => exact h.elim
  | called call =>
      cases call with
      | notify message =>
          cases message with
          | notFound items => exact watchdog_notify_notFound session items
          | _ => exact h.elim
      | disconnect => rfl
      | _ => exact h.elim

/-! ## What a session that is down shows -/

/-- The callbacks with which the client was turned to. -/
def dispatched (journal : List Effect) : List Callback :=
  journal.filterMap fun | .dispatched callback => some callback | _ => none

/-- What is read off the journal without its log is read off what happened. -/
theorem Undergoes.filterMap_journal {effects : List Effect} {seen : List (Message × Nat)} {α : Type}
    (h : Undergoes session effects seen next) (pick : Effect → Option α)
    (hlog : ∀ record, pick (.logged record) = none) :
    next.journal.filterMap pick = session.journal.filterMap pick ++ effects.filterMap pick := by
  obtain ⟨added, hadded, rfl⟩ := h.journal
  rw [hadded, List.filterMap_append, traffic, List.filterMap_filter]
  congr 2
  funext effect
  cases effect with
  | logged record => simp [hlog]
  | _ => rfl

/-- The messages that are sent between two sessions. -/
theorem Undergoes.sent_journal {effects : List Effect} {seen : List (Message × Nat)}
    (h : Undergoes session effects seen next) :
    sent next.journal = sent session.journal ++ sent effects :=
  h.filterMap_journal _ fun _ => rfl

/-- The callbacks between two sessions. -/
theorem Undergoes.dispatched_journal {effects : List Effect} {seen : List (Message × Nat)}
    (h : Undergoes session effects seen next) :
    dispatched next.journal = dispatched session.journal ++ dispatched effects :=
  h.filterMap_journal _ fun _ => rfl

/-- While a session is down, the link takes nothing. -/
theorem Moment.sent_effects {moment : Moment} (h : moment.session.Down) :
    sent moment.effects = [] := by
  simp [effects, sent, takes, h.link]

theorem Moment.dispatched_effects (moment : Moment) :
    dispatched moment.effects = moment.deed.callback?.toList := by
  simp [effects, dispatched]

end Session

theorem Script.callback?_of_mem_moments {α : Type} (script : Script α) (session : Session) :
    ∀ moment ∈ script.moments session, moment.deed.callback? = none := by
  induction script generalizing session with
  | done value => exact List.forall_mem_nil _
  | call c next ih => exact List.forall_mem_cons.mpr ⟨rfl, ih _ _⟩

namespace Running

variable {σ : Type} (client : Client σ)

theorem callback?_of_mem_answering (running : Running σ) (message : Message) :
    ∀ moment ∈ answering client running message, moment.deed.callback? = none := by
  unfold answering
  split
  · exact Script.callback?_of_mem_moments _ _
  · exact List.forall_mem_nil _

/-- Every message with news is dispatched once, and nothing else is. -/
theorem dispatched_handle (running : Running σ) (message : Message) :
    dispatched (handle client running message).1.session.journal =
      dispatched running.session.journal ++ (Callback.ofMessage? message).toList := by
  let alerted : Running σ := { running with session := alert running.session message }
  have hanswering :
      (answering client alerted message).flatMap (·.deed.callback?.toList) = [] := by
    rw [List.flatMap_eq_nil_iff]
    intro moment hmem
    rw [callback?_of_mem_answering client alerted message moment hmem]
    rfl
  have heffects : dispatched ((moments client running (.handle message)).flatMap Moment.effects) =
      (moments client running (.handle message)).flatMap (·.deed.callback?.toList) := by
    rw [dispatched, List.filterMap_flatMap]
    exact List.flatMap_congr fun moment _ => moment.dispatched_effects
  have hmoments : (moments client running (.handle message)).flatMap (·.deed.callback?.toList) =
      (Callback.ofMessage? message).toList := by
    unfold moments
    rw [List.flatMap_cons, hanswering, List.append_nil]
    rfl
  rw [(undergoes_handle client running message).dispatched_journal, heffects, hmoments]

/-- Handling news comes to what the client makes of it, once the watchdog was shown it. -/
theorem handle_of_callback (running : Running σ) {message : Message} {callback : Callback}
    (hnews : Callback.ofMessage? message = some callback) :
    let alerted := alert running.session message
    let answer := (client.react callback running.memory).run (alerted.emit (.dispatched callback))
    ((handle client running message).1.memory, (handle client running message).2) = answer.2 := by
  intro alerted answer
  have hdispatch : dispatch client { running with session := alerted } message =
      (⟨answer.1, answer.2.1⟩, answer.2.2) := by
    simp only [dispatch, hnews]
    rfl
  have hhandle : handle client running message =
      (report ⟨answer.1, answer.2.1⟩ message answer.2.2, answer.2.2) := by
    cases message with
    | ping | pong => exact nomatch hnews
    | _ =>
        simp only [handle]
        rw [hdispatch]
  have hmemory : (report ⟨answer.1, answer.2.1⟩ message answer.2.2).memory = answer.2.1 := by
    cases answer.2.2 <;> rfl
  rw [hhandle, hmemory]

/-- What is left of a session that is down. -/
structure Over (running : Running σ) : Prop where
  down : running.session.Down
  /-- Whatever is done next, by the owner or in a callback, finds a session that refuses. -/
  refuses : ∀ step, ∀ moment ∈ moments client running step,
    moment.session.Down ∧ moment.session.Refuses
  /-- No step brings the link or the watchdog back. -/
  stays : ∀ step, (Running.step client running step).1.session.Down
  /-- The link takes no message. -/
  sent_eq : ∀ step,
    sent (Running.step client running step).1.session.journal = sent running.session.journal
  /-- A ping still tells the height, though it cannot be answered. -/
  ping : ∀ nonce, (handle client running (.ping nonce)).2 = .error .linkDown ∧
    (handle client running (.ping nonce)).1.session.height =
      (heightOfNonce? nonce).getD running.session.height
  pong : ∀ nonce, (handle client running (.pong nonce)).2 = .ok () ∧
    (handle client running (.pong nonce)).1.session.height =
      (heightOfNonce? nonce).getD running.session.height
  /-- The client is turned to with all news, and with nothing else. -/
  dispatched_eq : ∀ message, dispatched (handle client running message).1.session.journal =
    dispatched running.session.journal ++ (Callback.ofMessage? message).toList
  /-- What handling news comes to is up to the client, which finds a session that is down. -/
  reacts : ∀ message callback, Callback.ofMessage? message = some callback →
    let told := (alert running.session message).emit (.dispatched callback)
    told.Down ∧ ((handle client running message).1.memory, (handle client running message).2) =
      ((client.react callback running.memory).run told).2

theorem over_of_down {running : Running σ} (h : running.session.Down) : Over client running where
  down := h
  refuses step moment hmem := by
    obtain ⟨hbefore, -⟩ := lasting_down.mem_moments client running step moment hmem
    exact ⟨hbefore h, (hbefore h).refuses⟩
  stays step := lasting_down.step client running step h
  sent_eq step := by
    have heffects : sent ((moments client running step).flatMap Moment.effects) = [] := by
      rw [sent, List.filterMap_flatMap, List.flatMap_eq_nil_iff]
      intro moment hmem
      obtain ⟨hbefore, -⟩ := lasting_down.mem_moments client running step moment hmem
      exact Moment.sent_effects (hbefore h)
    rw [(undergoes_step client running step).sent_journal, heffects, List.append_nil]
  ping nonce := by
    let learned := running.session.learnHeight nonce
    let answer : Message := .pong learned.localHeight.toUInt64
    have hlearned : learned.Down := lasting_down.learnHeight running.session nonce h
    have hrequest : ¬ answer.isRequest := Bool.false_ne_true
    exact ⟨hlearned.send_other hrequest,
      (height_send learned answer).trans (height_learnHeight running.session nonce)⟩
  pong nonce := ⟨rfl, height_learnHeight running.session nonce⟩
  dispatched_eq := dispatched_handle client running
  reacts message callback hnews := by
    have halerted := lasting_down.alert running.session message h
    exact ⟨lasting_down.emit _ (.dispatched callback) halerted,
      handle_of_callback client running hnews⟩

/-- Once a session that was started lacks what it asked for or is to hang up, it is over,
whatever was done before and whatever comes later. -/
theorem over_after_end (addr : Endpoint) (localHeight : UInt32) (settings : Settings) (clock : Nat)
    (memory : σ) (before later : List Step) :
    let start : Running σ := ⟨.start addr localHeight settings clock, memory⟩
    (∃ moment ∈ course client start before, moment.deed.Ends) →
      Over client (steps client start (before ++ later)) := by
  intro start hends
  obtain ⟨moment, hmem, hend⟩ := hends
  let ended := steps client start before
  have hstart : start.session.Coherent := ⟨nofun, nofun⟩
  have hcoherent : ended.session.Coherent := lasting_coherent.steps client start before hstart
  have hclosed : ended.session.watchdog = none :=
    (lasting_closed.mem_course client start before moment hmem).2 (Moment.closed_of_ends hend)
  have hlater : (steps client ended later).session.Down :=
    lasting_down.steps client ended later (hcoherent.down hclosed)
  have hsplit : steps client start (before ++ later) = steps client ended later :=
    List.foldl_append
  rw [hsplit]
  exact over_of_down client hlater

/-- The peer lacks what we asked for; later it pings, and we hang up over again. -/
theorem over_after_end_not_found :
    let client := Client.recording fun _ => none
    let start : Running (List Client.Note) := ⟨.start (.v4 ⟨127, 0, 0, 1⟩ 8333) 5 {} 0, []⟩
    let before : List Step := [.call (.requestHashes [] .zero), .handle (.notFound [])]
    let later : List Step := [.refuse none, .handle (.ping 7), .call .disconnect, .tick 9,
      .handle (.inv [])]
    let ended := steps client start (before ++ later)
    (∃ moment ∈ course client start before, moment.deed.Ends) ∧ Over client ended ∧
      sent ended.session.journal = [.getBlocks { locators := [], stop := .zero }] ∧
      ended.session.height = 7 ∧
      ended.memory = [.called (.notFound []), .called (.inventory [])] := by
  intro client start before later ended
  let asked := (Running.step client start (.call (.requestHashes [] .zero))).1
  have hends : ∃ moment ∈ course client start before, moment.deed.Ends := by
    refine ⟨⟨asked.session, .came (.notFound [])⟩, ?_, trivial⟩
    exact List.mem_cons_of_mem _ List.mem_cons_self
  refine ⟨hends, over_after_end client _ _ _ _ _ before later hends, ?_⟩
  decide +kernel

end Running

end LightPeer
