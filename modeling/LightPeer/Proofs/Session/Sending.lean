import LightPeer.Proofs.Session.Traffic

/-! # What a message that is to be sent leaves behind

A call may fail when the watchdog is closed and when the link refuses what it is
offered. Whichever way it goes, what the call writes down first stays, and beside
the watchdog, the journal and this nothing changes. -/

namespace LightPeer

/-- What a link answers, whatever it is offered. -/
def Link.answer (link : Link) : Except Error Unit :=
  if link.up then
    match link.refusal with
    | some error => .error error
    | none => .ok ()
  else .error .linkDown

namespace Session

variable {session : Session} {message : Message} {outcome : Session × Except Error Unit}

/-! ## One message -/

/-- Whether a message stops at the watchdog: a request does, if the watchdog is closed. -/
def bars (session : Session) (message : Message) : Bool :=
  message.isRequest && session.watchdog.isNone

/-- What comes of a message that is to be sent, with the session and the answer in the end. -/
structure Sends (session : Session) (message : Message) (outcome : Session × Except Error Unit) :
    Prop where
  /-- Only the watchdog and the journal change. -/
  frame : ∃ watchdog journal, outcome.1 = { session with watchdog, journal }
  /-- A watchdog that is open sees the requests, and only these. -/
  watchdog : outcome.1.watchdog =
    if message.isRequest then session.watchdog.map (·.see (message, session.clock))
    else session.watchdog
  /-- A request is handed over before it is offered, and not offered if it cannot be handed over. -/
  journal : ∃ added, outcome.1.journal = session.journal ++ added ∧
    traffic added =
      if session.bars message then []
      else (if message.isRequest then [.watched message] else []) ++
        [.offered message session.link.answer.isOk]
  result : outcome.2 =
    if session.bars message then .error .watchdogClosed else session.link.answer

theorem offer_eq (session : Session) (message : Message) :
    session.offer message =
      (session.emit (.offered message session.link.answer.isOk), session.link.answer) := rfl

theorem Sends.of_log {level : Log.Level} {text : String}
    (h : Sends (session.log level text) message outcome) : Sends session message outcome := by
  obtain ⟨added, hadded, htraffic⟩ := h.journal
  refine ⟨h.frame, h.watchdog, ?_, h.result⟩
  refine ⟨session.kept (.logged { level, text }) ++ added, ?_, ?_⟩
  · rw [hadded, log, emit, List.append_assoc]
  · rw [traffic_append, traffic_kept_logged, List.nil_append]
    exact htraffic

/-- Other messages are offered to the link at once. -/
theorem sends_offer (hrequest : ¬ message.isRequest) :
    Sends session message (session.offer message) := by
  have hbars : ¬ session.bars message := by simp [bars, hrequest]
  rw [offer_eq]
  refine ⟨⟨_, _, rfl⟩, ?_, ⟨[.offered message session.link.answer.isOk], rfl, ?_⟩, ?_⟩
  · rw [if_neg hrequest]
    rfl
  · rw [if_neg hbars, if_neg hrequest]
    rfl
  · rw [if_neg hbars]

theorem sends_of_closed (hrequest : message.isRequest) (hclosed : session.watchdog = none) :
    Sends session message (session.send message) := by
  have hbars : session.bars message := by simp [bars, hrequest, hclosed]
  rw [send_of_closed hclosed hrequest]
  refine ⟨⟨session.watchdog, session.journal, rfl⟩, ?_, ⟨[], (List.append_nil _).symm, ?_⟩, ?_⟩
  · rw [if_pos hrequest, hclosed, Option.map_none]
  · rw [if_pos hbars]
    rfl
  · rw [if_pos hbars]

theorem sends_of_open {state : StallState} (hrequest : message.isRequest)
    (hopen : session.watchdog = some state) : Sends session message (session.send message) := by
  have hbars : ¬ session.bars message := by simp [bars, hopen]
  rw [send_of_isRequest hopen hrequest, notify_of_isRequest hopen hrequest, offer_eq]
  refine ⟨⟨_, _, rfl⟩, ?_, ⟨_, (List.append_assoc _ _ _).trans (List.append_assoc _ _ _), ?_⟩, ?_⟩
  · rw [if_pos hrequest, hopen, Option.map_some]
    rfl
  · rw [if_neg hbars, if_pos hrequest, traffic_append, traffic_append, traffic_kept_logged]
    rfl
  · rw [if_neg hbars]
    rfl

theorem sends_send (session : Session) (message : Message) :
    Sends session message (session.send message) := by
  by_cases hrequest : message.isRequest
  · cases hopen : session.watchdog with
    | none => exact sends_of_closed hrequest hopen
    | some state => exact sends_of_open hrequest hopen
  · rw [send_of_not_isRequest hrequest]
    exact (sends_offer hrequest).of_log

/-! ## The calls that send -/

/-- What the calls that send leave behind, whether or not their message gets out. -/
structure SendsOnly (session : Session) : Prop where
  /-- The transactions are remembered before anything can fail. -/
  requestTxs (first : Hash) (rest : List Hash) :
    ∃ requests, (∀ txid, txid ∈ requests ↔ txid ∈ session.requests ∨ txid ∈ first :: rest) ∧
      Sends { session with requests } (.getData ((first :: rest).map (⟨.tx, ·⟩)))
        (session.requestTxs (first :: rest))
  /-- A tracker without a block becomes the current one, and the others stay as they are. -/
  loadFilter (filter : Filter) :
    ∃ trackers, trackers.now = .empty ∧ trackers.current = session.trackers.all.length ∧
      (∀ id < session.trackers.all.length, trackers.get id = session.trackers.get id) ∧
      Sends { session with trackers } (.filterLoad filter) (session.loadFilter filter)
  requestHashes (locators : List Hash) (stop : Hash) :
    Sends session (.getBlocks { locators, stop }) (session.requestHashes locators stop)
  requestBlocks (first : Hash) (rest : List Hash) :
    Sends session (.getData ((first :: rest).map (⟨.filteredBlock, ·⟩)))
      (session.requestBlocks (first :: rest))
  /-- A request for nothing succeeds, and does nothing. -/
  requestTxs_nil : session.requestTxs [] = (session, .ok ())
  requestBlocks_nil : session.requestBlocks [] = (session, .ok ())

/-- In any state of the watchdog and the link, a call that sends does what it writes down,
hands over and offers, and nothing else. -/
theorem sends_only (session : Session) : SendsOnly session where
  requestTxs first rest := by
    refine ⟨session.requests.insertAll (first :: rest), fun txid => ?_, sends_send _ _⟩
    rw [FiniteSet.mem_insertAll, or_comm]
  loadFilter filter :=
    ⟨session.trackers.install .empty, session.trackers.now_install .empty, rfl,
      fun _ hid => session.trackers.get_install_of_lt .empty hid, sends_send _ _⟩
  requestHashes locators stop := .of_log (sends_send _ _)
  requestBlocks first rest := .of_log (sends_send _ _)
  requestTxs_nil := rfl
  requestBlocks_nil := rfl

/-- A link breaks off under a request for a transaction: the watchdog waits for it all the
same. After we hung up, the watchdog stops another request before the link is offered it,
and the transaction counts as asked for even so. -/
theorem sends_only_broken :
    let session : Session :=
      { start (.v4 ⟨127, 0, 0, 1⟩ 8333) 0 {} 0 with link := ⟨true, some (.io "Broken pipe"), 0⟩ }
    let broken := session.requestTxs [.zero]
    let closed := session.disconnect.requestTxs [.zero]
    broken.2 = .error (.io "Broken pipe") ∧ .zero ∈ broken.1.requests ∧
      (∃ state, broken.1.watchdog = some state ∧ .data .zero ∈ state.pending) ∧
      closed.2 = .error .watchdogClosed ∧ .zero ∈ closed.1.requests := by
  intro session broken closed
  obtain ⟨requests, hmem, hsends⟩ := (sends_only session).requestTxs .zero []
  obtain ⟨requests', hmem', hsends'⟩ := (sends_only session.disconnect).requestTxs .zero []
  have hremembered : broken.1.requests = requests := by
    obtain ⟨_, _, hframe⟩ := hsends.frame
    rw [hframe]
  have hremembered' : closed.1.requests = requests' := by
    obtain ⟨_, _, hframe⟩ := hsends'.frame
    rw [hframe]
  refine ⟨hsends.result, ?_, ⟨_, hsends.watchdog, ?_⟩, hsends'.result, ?_⟩
  · rw [hremembered, hmem]
    exact .inr List.mem_cons_self
  · exact FiniteSet.mem_insertAll.mpr (.inl List.mem_cons_self)
  · rw [hremembered', hmem']
    exact .inr List.mem_cons_self

end Session

end LightPeer
