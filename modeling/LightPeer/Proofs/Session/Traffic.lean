import LightPeer.Proofs.Session.Books
import LightPeer.Proofs.Stall.Unanswered

/-! # What a deed brings about

Messages come and calls are made, each in some state of the session. Logging apart,
a deed has the watchdog see a message, turns to the client and offers a message to
the link, in this order. A closed watchdog sees nothing, and then no request is
offered either. -/

namespace LightPeer

/-- What a message that comes hands over, with what its callback hands over: a ping
or a pong is kept from the watchdog, and from the client. -/
def Running.shown (message : Message) (answer : List Message) : List Message :=
  match message with
  | .ping _ | .pong _ => []
  | _ => message :: answer

namespace Session

/-! ## The journal without its log -/

def traffic (journal : List Effect) : List Effect :=
  journal.filter fun | .logged _ => false | _ => true

theorem traffic_append (first last : List Effect) :
    traffic (first ++ last) = traffic first ++ traffic last :=
  List.filter_append ..

@[simp] theorem traffic_kept_logged (session : Session) (record : Log.Record) :
    traffic (session.kept (.logged record)) = [] := by
  simp [traffic]

theorem watched_append (first last : List Effect) :
    watched (first ++ last) = watched first ++ watched last :=
  List.filterMap_append

theorem watched_traffic (journal : List Effect) : watched (traffic journal) = watched journal := by
  unfold watched traffic
  rw [List.filterMap_filter]
  congr 1
  funext effect
  cases effect <;> rfl

/-! ## Deeds -/

/-- The messages that a request for data hands over: one, unless it asks for nothing. -/
def asking (kind : InvKind) : List Hash → List Message
  | [] => []
  | hashes => [.getData (hashes.map (⟨kind, ·⟩))]

/-- The messages that a call hands to an open watchdog. -/
def Call.feed : Call → List Message
  | notify message => [message]
  | send message => if message.isRequest then [message] else []
  | requestHashes locators stop => [.getBlocks { locators, stop }]
  | requestBlocks hashes => asking .filteredBlock hashes
  | requestTxs txids => asking .tx txids
  | _ => []

/-- The messages that a call is to send. -/
def Call.outgoing (session : Session) : Call → List Message
  | send message => [message]
  | requestHashes locators stop => [.getBlocks { locators, stop }]
  | requestBlocks hashes => asking .filteredBlock hashes
  | requestTxs txids => asking .tx txids
  | loadFilter filter => [.filterLoad filter]
  | ping => [.ping session.localHeight.toUInt64]
  | _ => []

/-- Something that is done with a session. -/
inductive Deed where
  /-- The peer sends a message. -/
  | came (message : Message)
  /-- The owner of the session makes a call, or the client does in a callback. -/
  | called (call : Call)

namespace Deed

/-- The messages that an open watchdog is handed: what comes, pings and pongs apart,
requests that go out, and what it is told directly. -/
def feed : Deed → List Message
  | came message => Running.shown message []
  | called call => call.feed

/-- The messages that are to be sent; a ping is answered with our own height. -/
def outgoing (session : Session) : Deed → List Message
  | came (.ping _) => [.pong session.localHeight.toUInt64]
  | came _ => []
  | called call => call.outgoing session

def callback? : Deed → Option Callback
  | came message => Callback.ofMessage? message
  | called _ => none

end Deed

/-- A deed in the session that it finds. -/
structure Moment where
  session : Session
  deed : Deed

/-- What the watchdog is handed out of some messages: a closed one is handed nothing. -/
def hearing (session : Session) (messages : List Message) : List Message :=
  if session.watchdog.isSome then messages else []

/-- What the link is offered out of some messages: a request only if the watchdog is open. -/
def offering (session : Session) (messages : List Message) : List Message :=
  messages.filter fun message => !message.isRequest || session.watchdog.isSome

/-- Whether the link takes what it is offered. -/
def takes (session : Session) : Bool := session.link.up && session.link.refusal.isNone

namespace Moment

def heard (moment : Moment) : List Message := moment.session.hearing moment.deed.feed

/-- What the watchdog is handed, with the time at which it sees it. -/
def seen (moment : Moment) : List (Message × Nat) := moment.heard.map (·, moment.session.clock)

def offers (moment : Moment) : List Message :=
  moment.session.offering (moment.deed.outgoing moment.session)

def effects (moment : Moment) : List Effect :=
  moment.heard.map .watched ++ (moment.deed.callback?.toList.map .dispatched ++
    moment.offers.map (.offered · moment.session.takes))

@[simp] theorem map_fst_seen (moment : Moment) : moment.seen.map Prod.fst = moment.heard := by
  unfold seen
  rw [List.map_map]
  exact List.map_id _

end Moment

/-! ## From one session to a later one -/

/-- This happened between two sessions, logging apart. A watchdog that is open in the
end was open before, and saw these messages in between. -/
structure Undergoes (session : Session) (effects : List Effect) (seen : List (Message × Nat))
    (next : Session) : Prop where
  journal : ∃ added, next.journal = session.journal ++ added ∧ traffic added = effects
  watched_eq : watched effects = seen.map Prod.fst
  state : ∀ after, next.watchdog = some after → ∃ before, session.watchdog = some before ∧
    after = seen.foldl StallState.see before

namespace Undergoes

variable {session next last : Session} {effects more : List Effect}
  {seen others : List (Message × Nat)}

/-- Nothing happens but logging. -/
theorem quiet (hwatchdog : next.watchdog = session.watchdog) {added : List Effect}
    (hjournal : next.journal = session.journal ++ added) (htraffic : traffic added = []) :
    Undergoes session [] [] next where
  journal := ⟨added, hjournal, htraffic⟩
  watched_eq := rfl
  state after hafter := ⟨after, hwatchdog ▸ hafter, rfl⟩

theorem silent (hwatchdog : next.watchdog = session.watchdog)
    (hjournal : next.journal = session.journal) : Undergoes session [] [] next :=
  quiet hwatchdog (hjournal.trans (List.append_nil _).symm) rfl

theorem refl (session : Session) : Undergoes session [] [] session := silent rfl rfl

theorem trans (h : Undergoes session effects seen next) (hlast : Undergoes next more others last) :
    Undergoes session (effects ++ more) (seen ++ others) last where
  journal := by
    obtain ⟨added, hadded, rfl⟩ := h.journal
    obtain ⟨later, hlater, rfl⟩ := hlast.journal
    exact ⟨added ++ later, by rw [hlater, hadded, List.append_assoc], traffic_append _ _⟩
  watched_eq := by rw [watched_append, h.watched_eq, hlast.watched_eq, List.map_append]
  state after hafter := by
    obtain ⟨between, hbetween, rfl⟩ := hlast.state after hafter
    obtain ⟨before, hbefore, rfl⟩ := h.state between hbetween
    exact ⟨before, hbefore, by rw [List.foldl_append]⟩

theorem trans_quiet (h : Undergoes session effects seen next) (hlast : Undergoes next [] [] last) :
    Undergoes session effects seen last := by
  have htrans := h.trans hlast
  rwa [List.append_nil, List.append_nil] at htrans

theorem isSome_of_isSome (h : Undergoes session effects seen next)
    (hopen : next.watchdog.isSome) : session.watchdog.isSome := by
  obtain ⟨after, hafter⟩ := Option.isSome_iff_exists.mp hopen
  obtain ⟨before, hbefore, -⟩ := h.state after hafter
  exact Option.isSome_iff_exists.mpr ⟨before, hbefore⟩

end Undergoes

variable (session : Session) (message : Message)

/-! ## Single deeds -/

@[simp] theorem hearing_nil : session.hearing [] = [] := ite_self _

theorem undergoes_log (level : Log.Level) (text : String) :
    Undergoes session [] [] (session.log level text) :=
  .quiet rfl rfl (traffic_kept_logged session _)

theorem undergoes_dispatched (callback : Callback) :
    Undergoes session [.dispatched callback] [] (session.emit (.dispatched callback)) where
  journal := ⟨[.dispatched callback], rfl, rfl⟩
  watched_eq := rfl
  state after hafter := ⟨after, hafter, rfl⟩

theorem undergoes_offer :
    Undergoes session [.offered message session.takes] [] (session.offer message).1 where
  journal := by
    refine ⟨[.offered message session.takes], ?_, rfl⟩
    unfold offer takes
    cases session.link.up <;> cases session.link.refusal <;> rfl
  watched_eq := rfl
  state after hafter := ⟨after, hafter, rfl⟩

theorem undergoes_notify :
    Undergoes session ((session.hearing [message]).map .watched)
      ((session.hearing [message]).map (·, session.clock)) (session.notify message).1 := by
  unfold hearing notify
  cases hopen : session.watchdog with
  | none => exact .refl session
  | some state =>
      dsimp only
      by_cases hbad : StallState.judge message = .disconnect
      · refine ⟨⟨[.watched message], ?_, rfl⟩, rfl, ?_⟩
        · simp [StallState.observe, hbad, disconnect, emit]
        · simp [StallState.observe, hbad, disconnect]
      · refine ⟨⟨[.watched message], ?_, rfl⟩, rfl, ?_⟩
        · simp [StallState.observe, hbad, emit]
        · simp [StallState.observe, hbad, emit, hopen, StallState.see]

theorem undergoes_tick (now : Nat) : Undergoes session [] [] (session.tick now) := by
  cases hopen : session.watchdog with
  | none =>
      apply Undergoes.silent
      · simp [tick, hopen]
      · simp [tick, hopen]
  | some state =>
      by_cases hoverdue : state.check now = .disconnect
      · refine ⟨⟨[], ?_, rfl⟩, rfl, ?_⟩
        · simp [tick, hopen, hoverdue, disconnect]
        · simp [tick, hopen, hoverdue, disconnect]
      · apply Undergoes.silent
        · simp [tick, hopen, hoverdue]
        · simp [tick, hopen, hoverdue]

theorem undergoes_learnHeight (nonce : UInt64) :
    Undergoes session [] [] (session.learnHeight nonce) := by
  unfold learnHeight
  split
  · exact .silent rfl rfl
  · exact undergoes_log _ _ _

/-! ## Calls -/

/-- A request that the watchdog does not hear of changes nothing. -/
theorem send_of_closed {session : Session} {message : Message} (hclosed : session.watchdog = none)
    (hrequest : message.isRequest) : session.send message = (session, .error .watchdogClosed) := by
  simp [send, notify, hclosed, hrequest]

theorem notify_of_isRequest {session : Session} {message : Message} {state : StallState}
    (hopen : session.watchdog = some state) (hrequest : message.isRequest) :
    session.notify message =
      ({ session with watchdog := some (state.see (message, session.clock)) }.emit
        (.watched message), .ok ()) := by
  have hproceed : StallState.judge message = .proceed := by
    cases message with
    | notFound items => exact nomatch hrequest
    | _ => rfl
  simp [notify, hopen, StallState.observe, StallState.see, hproceed]

theorem send_of_isRequest {session : Session} {message : Message} {state : StallState}
    (hopen : session.watchdog = some state) (hrequest : message.isRequest) :
    session.send message =
      ((session.notify message).1.log .trace s!"Send {message.command} to {session.addr}").offer
        message := by
  simp [send, hrequest, notify_of_isRequest hopen hrequest, emit]

theorem send_of_not_isRequest {session : Session} {message : Message}
    (hrequest : ¬ message.isRequest) :
    session.send message =
      (session.log .trace s!"Send {message.command} to {session.addr}").offer message := by
  simp [send, hrequest]

theorem undergoes_send :
    Undergoes session
      ((session.hearing (Call.send message).feed).map .watched ++
        (session.offering [message]).map (.offered · session.takes))
      ((session.hearing (Call.send message).feed).map (·, session.clock))
      (session.send message).1 := by
  by_cases hrequest : message.isRequest
  · have hfeed : (Call.send message).feed = [message] := if_pos hrequest
    rw [hfeed]
    cases hopen : session.watchdog with
    | none =>
        rw [send_of_closed hopen hrequest]
        simpa [hearing, offering, hopen, hrequest] using Undergoes.refl session
    | some state =>
        have hoffering : session.offering [message] = [message] := by simp [offering, hopen]
        have htakes : (session.notify message).1.takes = session.takes := by
          rw [notify_of_isRequest hopen hrequest]
          rfl
        have hlogged := (undergoes_notify session message).trans_quiet
          (undergoes_log _ .trace s!"Send {message.command} to {session.addr}")
        have hsend := hlogged.trans (undergoes_offer _ message)
        rw [List.append_nil] at hsend
        rw [send_of_isRequest hopen hrequest, hoffering, ← htakes]
        exact hsend
  · have hfeed : (Call.send message).feed = [] := if_neg hrequest
    have hoffering : session.offering [message] = [message] := by simp [offering, hrequest]
    rw [hfeed, hearing_nil, hoffering, send_of_not_isRequest hrequest]
    exact (undergoes_log _ _ _).trans (undergoes_offer _ message)

/-- A deed that sends one message, whatever it does without traffic before. -/
theorem undergoes_sending {session told : Session} {deed : Deed} {message : Message}
    (h : Undergoes session [] [] told) (hwatchdog : told.watchdog = session.watchdog)
    (hlink : told.link = session.link) (hclock : told.clock = session.clock)
    (hfeed : deed.feed = (Call.send message).feed) (houtgoing : deed.outgoing session = [message])
    (hcallback : deed.callback? = none) :
    let moment : Moment := ⟨session, deed⟩
    Undergoes session moment.effects moment.seen (told.send message).1 := by
  intro moment
  have hsend := h.trans (undergoes_send told message)
  simp only [hearing, offering, takes, hwatchdog, hlink, hclock, List.nil_append] at hsend
  simpa only [moment, Moment.effects, Moment.seen, Moment.heard, Moment.offers, hearing, offering,
    takes, hfeed, houtgoing, hcallback, Option.toList_none, List.map_nil, List.nil_append] using hsend

/-- A deed without traffic. -/
theorem undergoes_idle {session next : Session} {deed : Deed} (h : Undergoes session [] [] next)
    (hfeed : deed.feed = []) (houtgoing : deed.outgoing session = [])
    (hcallback : deed.callback? = none) :
    let moment : Moment := ⟨session, deed⟩
    Undergoes session moment.effects moment.seen next := by
  simpa [Moment.effects, Moment.seen, Moment.heard, Moment.offers, offering, hfeed, houtgoing,
    hcallback] using h

theorem undergoes_perform (call : Call) :
    let moment : Moment := ⟨session, .called call⟩
    Undergoes session moment.effects moment.seen (session.perform call).1 := by
  have hlogged (level : Log.Level) (text : String) := undergoes_log session level text
  cases call with
  | notify message =>
      have hnotify := undergoes_notify session message
      rw [← List.append_nil (List.map _ _)] at hnotify
      exact hnotify
  | send message => exact undergoes_sending (.refl session) rfl rfl rfl rfl rfl rfl
  | requestHashes locators stop =>
      exact undergoes_sending (hlogged _ _) rfl rfl rfl rfl rfl rfl
  | requestBlocks hashes =>
      cases hashes with
      | nil => exact undergoes_idle (.refl session) rfl rfl rfl
      | cons first rest => exact undergoes_sending (hlogged _ _) rfl rfl rfl rfl rfl rfl
  | requestTxs txids =>
      cases txids with
      | nil => exact undergoes_idle (.refl session) rfl rfl rfl
      | cons first rest =>
          have hremembered : Undergoes session [] []
              { session with requests := session.requests.insertAll (first :: rest) } :=
            .silent rfl rfl
          exact undergoes_sending hremembered rfl rfl rfl rfl rfl rfl
  | loadFilter filter =>
      have hreset : Undergoes session [] [] session.resetTracker := .silent rfl rfl
      exact undergoes_sending hreset rfl rfl rfl rfl rfl rfl
  | ping => exact undergoes_sending (.refl session) rfl rfl rfl rfl rfl rfl
  | disconnect => exact undergoes_idle ⟨⟨[], (List.append_nil _).symm, rfl⟩, rfl, nofun⟩ rfl rfl rfl
  | track block =>
      refine undergoes_idle ?_ rfl rfl rfl
      change Undergoes session [] [] (session.track block).1
      unfold track
      split <;> exact .silent rfl rfl
  | queueBlock hash =>
      refine undergoes_idle ?_ rfl rfl rfl
      change Undergoes session [] [] (session.queueBlock hash).1
      unfold queueBlock
      split <;> exact .silent rfl rfl
  | nextBlock =>
      refine undergoes_idle ?_ rfl rfl rfl
      change Undergoes session [] [] session.nextBlock.1
      unfold nextBlock
      split <;> exact .silent rfl rfl
  | _ => exact undergoes_idle (.silent rfl rfl) rfl rfl rfl

end Session

/-! ## Messages that come -/

namespace Running

open Session

theorem undergoes_alert (session : Session) (message : Message) :
    Undergoes session ((session.hearing [message]).map .watched)
      ((session.hearing [message]).map (·, session.clock)) (alert session message) := by
  have hnotify := undergoes_notify session message
  rcases alert_cases session message with halert | ⟨text, halert⟩
  · rwa [halert]
  · rw [halert]
    exact hnotify.trans_quiet (undergoes_log _ _ _)

theorem undergoes_report {σ : Type} (running : Running σ) (message : Message)
    (result : Except Error Unit) :
    Undergoes running.session [] [] (report running message result).session := by
  cases result with
  | ok _ => exact .refl _
  | error error => exact undergoes_log _ _ _

theorem undergoes_pong (session : Session) (nonce : UInt64) :
    let moment : Moment := ⟨session, .came (.pong nonce)⟩
    Undergoes session moment.effects moment.seen (session.learnHeight nonce) :=
  undergoes_idle (undergoes_learnHeight session nonce) rfl rfl rfl

/-- A ping is answered, and told to nobody. -/
theorem undergoes_ping (session : Session) (nonce : UInt64) :
    let moment : Moment := ⟨session, .came (.ping nonce)⟩
    let learned := session.learnHeight nonce
    Undergoes session moment.effects moment.seen
      (learned.send (.pong learned.localHeight.toUInt64)).1 := by
  intro moment learned
  have hsame : learned.watchdog = session.watchdog ∧ learned.link = session.link ∧
      learned.clock = session.clock ∧ learned.localHeight = session.localHeight := by
    unfold learned learnHeight
    split <;> exact ⟨rfl, rfl, rfl, rfl⟩
  obtain ⟨hwatchdog, hlink, hclock, hheight⟩ := hsame
  rw [hheight]
  exact undergoes_sending (undergoes_learnHeight session nonce) hwatchdog hlink hclock rfl rfl rfl

end Running

end LightPeer
