import LightPeer.Proofs.Session.Traffic

/-! # The watchdog hears of every request before it is sent

The course of a run are the deeds in it, in their order: a message that comes stands
before the calls that its callback makes. What the watchdog sees, what the client is
told and what the link is offered is read off the course, moment by moment. -/

namespace LightPeer

open Session

/-! ## Scripts -/

/-- The calls of a script, each in the session that it finds. -/
def Script.moments {α : Type} (session : Session) : Script α → List Moment
  | .done _ => []
  | .call c next =>
    ⟨session, .called c⟩ :: (next (session.perform c).2).moments (session.perform c).1

theorem Script.undergoes {α : Type} (script : Script α) (session : Session) :
    Undergoes session ((script.moments session).flatMap Moment.effects)
      ((script.moments session).flatMap Moment.seen) (script.run session).1 := by
  induction script generalizing session with
  | done value => exact .refl session
  | call c next ih => exact (undergoes_perform session c).trans (ih _ _)

/-- A watchdog that is open after a script was open at all its calls. -/
theorem Script.isSome_of_mem_moments {α : Type} {script : Script α} {session : Session}
    (hopen : (script.run session).1.watchdog.isSome) :
    ∀ moment ∈ script.moments session, moment.session.watchdog.isSome := by
  induction script generalizing session with
  | done value => exact List.forall_mem_nil _
  | call c next ih =>
      have hcalled := ((next _).undergoes _).isSome_of_isSome hopen
      exact List.forall_mem_cons.mpr
        ⟨(undergoes_perform session c).isSome_of_isSome hcalled, ih _ hopen⟩

namespace Running

variable {σ : Type} (client : Client σ) (running : Running σ)

/-! ## Messages that come -/

/-- The calls that the client makes over a message. -/
def answering (message : Message) : List Moment :=
  match Callback.ofMessage? message with
  | some callback =>
    (client.react callback running.memory).moments (running.session.emit (.dispatched callback))
  | none => []

theorem undergoes_dispatch (message : Message) :
    Undergoes running.session
      ((Callback.ofMessage? message).toList.map .dispatched ++
        (answering client running message).flatMap Moment.effects)
      ((answering client running message).flatMap Moment.seen)
      (dispatch client running message).1.session := by
  unfold dispatch answering
  cases Callback.ofMessage? message with
  | none => exact undergoes_log _ _ _
  | some callback => exact (undergoes_dispatched _ callback).trans (Script.undergoes _ _)

/-! ## Steps and runs -/

/-- What is done at a step: a message comes, and then its callback makes its calls. -/
def moments : Step → List Moment
  | .handle message =>
    ⟨running.session, .came message⟩ ::
      answering client { running with session := alert running.session message } message
  | .call c => [⟨running.session, .called c⟩]
  | .refuse _ | .tick _ => []

def course (running : Running σ) : List Step → List Moment
  | [] => []
  | step :: todo => moments client running step ++ course (Running.step client running step).1 todo

theorem undergoes_handle (message : Message) :
    Undergoes running.session ((moments client running (.handle message)).flatMap Moment.effects)
      ((moments client running (.handle message)).flatMap Moment.seen)
      (handle client running message).1.session := by
  let alerted : Running σ := { running with session := alert running.session message }
  let dispatched := dispatch client alerted message
  have hhandle := ((undergoes_alert running.session message).trans
    (undergoes_dispatch client alerted message)).trans_quiet
      (undergoes_report dispatched.1 message dispatched.2)
  unfold moments
  rw [List.flatMap_cons, List.flatMap_cons]
  rw [← List.append_assoc] at hhandle
  cases message with
  | ping nonce => exact (undergoes_ping running.session nonce).trans (.refl _)
  | pong nonce => exact (undergoes_pong running.session nonce).trans (.refl _)
  | _ => exact hhandle

theorem undergoes_step (step : Step) :
    Undergoes running.session ((moments client running step).flatMap Moment.effects)
      ((moments client running step).flatMap Moment.seen)
      (Running.step client running step).1.session := by
  cases step with
  | handle message => exact undergoes_handle client running message
  | call c => exact (undergoes_perform running.session c).trans (.refl _)
  | refuse error => exact .silent rfl rfl
  | tick now => exact undergoes_tick _ now

theorem undergoes_steps (todo : List Step) :
    Undergoes running.session ((course client running todo).flatMap Moment.effects)
      ((course client running todo).flatMap Moment.seen) (steps client running todo).session := by
  unfold steps
  induction todo generalizing running with
  | nil => exact .refl _
  | cons step todo ih =>
      unfold course
      rw [List.foldl_cons, List.flatMap_append, List.flatMap_append]
      exact (undergoes_step client running step).trans (ih _)

/-- A watchdog that is open after a step was open throughout. -/
theorem isSome_of_mem_moments {step : Step}
    (hopen : (Running.step client running step).1.session.watchdog.isSome) :
    ∀ moment ∈ moments client running step, moment.session.watchdog.isSome := by
  have hbefore := (undergoes_step client running step).isSome_of_isSome hopen
  cases step with
  | handle message =>
      let alerted : Running σ := { running with session := alert running.session message }
      have hanswering : (dispatch client alerted message).1.session.watchdog.isSome →
          ∀ moment ∈ answering client alerted message, moment.session.watchdog.isSome := by
        unfold dispatch answering
        cases Callback.ofMessage? message with
        | none => exact fun _ => List.forall_mem_nil _
        | some callback => exact Script.isSome_of_mem_moments
      refine List.forall_mem_cons.mpr ⟨hbefore, ?_⟩
      cases message with
      | ping nonce => exact List.forall_mem_nil _
      | pong nonce => exact List.forall_mem_nil _
      | _ => exact hanswering ((undergoes_report _ _ _).isSome_of_isSome hopen)
  | call c => exact List.forall_mem_singleton.mpr hbefore
  | refuse error => exact List.forall_mem_nil _
  | tick now => exact List.forall_mem_nil _

theorem isSome_of_mem_course {todo : List Step}
    (hopen : (steps client running todo).session.watchdog.isSome) :
    ∀ moment ∈ course client running todo, moment.session.watchdog.isSome := by
  induction todo generalizing running with
  | nil => exact List.forall_mem_nil _
  | cons step todo ih =>
      have hstep := (undergoes_steps client _ todo).isSome_of_isSome hopen
      exact List.forall_mem_append.mpr
        ⟨isSome_of_mem_moments client running hstep, ih _ hopen⟩

end Running

/-! ## Requests -/

namespace Session

theorem Deed.of_mem_outgoing {session : Session} {deed : Deed} {message : Message}
    (h : message ∈ deed.outgoing session) (hrequest : message.isRequest) :
    deed.feed = [message] ∧ deed.outgoing session = [message] ∧ deed.callback? = none := by
  cases deed with
  | came other =>
      cases other with
      | ping nonce =>
          obtain rfl := List.mem_singleton.mp h
          exact nomatch hrequest
      | _ => exact absurd h List.not_mem_nil
  | called call =>
      cases call with
      | send other =>
          obtain rfl := List.mem_singleton.mp h
          exact ⟨if_pos hrequest, rfl, rfl⟩
      | requestHashes locators stop =>
          obtain rfl := List.mem_singleton.mp h
          exact ⟨rfl, rfl, rfl⟩
      | requestBlocks hashes =>
          cases hashes with
          | nil => exact absurd h List.not_mem_nil
          | cons first rest =>
              obtain rfl := List.mem_singleton.mp h
              exact ⟨rfl, rfl, rfl⟩
      | requestTxs txids =>
          cases txids with
          | nil => exact absurd h List.not_mem_nil
          | cons first rest =>
              obtain rfl := List.mem_singleton.mp h
              exact ⟨rfl, rfl, rfl⟩
      | loadFilter filter =>
          obtain rfl := List.mem_singleton.mp h
          exact nomatch hrequest
      | ping =>
          obtain rfl := List.mem_singleton.mp h
          exact nomatch hrequest
      | _ => exact absurd h List.not_mem_nil

namespace Moment

variable {moment : Moment} {message : Message} {taken : Bool}

/-- At a moment at which a request is offered, the watchdog hears of it first, and
nothing else happens. -/
theorem effects_of_request (h : .offered message taken ∈ moment.effects)
    (hrequest : message.isRequest) :
    moment.effects = [.watched message, .offered message taken] := by
  have hoffers : message ∈ moment.offers ∧ moment.session.takes = taken := by
    simpa [effects] using h
  obtain ⟨hoffers, rfl⟩ := hoffers
  obtain ⟨houtgoing, hopen⟩ := List.mem_filter.mp hoffers
  obtain ⟨hfeed, hsingle, hcallback⟩ := Deed.of_mem_outgoing houtgoing hrequest
  have hopen : moment.session.watchdog.isSome := by simpa [hrequest] using hopen
  simp [effects, heard, hearing, offers, offering, hfeed, hsingle, hcallback, hopen]

/-- While the watchdog is closed, the link is offered no request. -/
theorem isRequest_of_mem_offers (h : moment.session.watchdog = none) :
    ∀ message ∈ moment.offers, message.isRequest = false := by
  simp [offers, offering, h]

end Moment

/-- In the course of a run, a request that is offered was handed to the watchdog just before. -/
theorem heard_of_offered {course : List Moment} {earlier later : List Effect} {message : Message}
    {taken : Bool}
    (h : course.flatMap Moment.effects = earlier ++ .offered message taken :: later)
    (hrequest : message.isRequest) : ∃ before, earlier = before ++ [.watched message] := by
  induction course generalizing earlier with
  | nil => simp at h
  | cons moment course ih =>
      rw [List.flatMap_cons] at h
      rcases List.append_eq_append_iff.mp h with ⟨between, rfl, hcourse⟩ | ⟨between, hmoment, hlater⟩
      · obtain ⟨before, rfl⟩ := ih hcourse
        exact ⟨moment.effects ++ before, (List.append_assoc _ _ _).symm⟩
      · cases between with
        | nil =>
            obtain ⟨before, hbefore⟩ := ih (hlater.symm.trans (List.nil_append _).symm)
            simp at hbefore
        | cons effect between =>
            obtain ⟨rfl, -⟩ := List.cons.inj hlater
            have hmem : .offered message taken ∈ moment.effects := by simp [hmoment]
            rw [Moment.effects_of_request hmem hrequest] at hmoment
            rcases earlier with _ | ⟨first, _ | ⟨second, rest⟩⟩
            · simp at hmoment
            · exact ⟨[], by rw [(List.cons.inj hmoment).1]; rfl⟩
            · simp at hmoment

theorem map_fst_flatMap_seen (course : List Moment) :
    (course.flatMap Moment.seen).map Prod.fst = course.flatMap Moment.heard := by
  rw [List.map_flatMap]
  simp only [Moment.map_fst_seen]

theorem flatMap_heard_of_open {course : List Moment}
    (h : ∀ moment ∈ course, moment.session.watchdog.isSome) :
    course.flatMap Moment.heard = course.flatMap (·.deed.feed) :=
  List.flatMap_congr fun moment hmem => if_pos (h moment hmem)

/-- What a watchdog has to do with the course of a run between two sessions. -/
structure Oversees (session : Session) (course : List Moment) (added : List Effect)
    (next : Session) : Prop where
  journal_eq : next.journal = session.journal ++ added
  /-- At every moment the watchdog comes first, the client second and the link last. -/
  traffic_eq : traffic added = course.flatMap Moment.effects
  /-- The watchdog is handed what concerns it, in the order of the course, and nothing else. -/
  watched_eq : watched added = course.flatMap Moment.heard
  watched_eq_of_open : next.watchdog.isSome → watched added = course.flatMap (·.deed.feed)
  /-- Nothing but what it was handed counts for what it waits for, and since when. -/
  state_eq : ∀ state, next.watchdog = some state → ∃ before, session.watchdog = some before ∧
    state = (course.flatMap Moment.seen).foldl StallState.see before
  /-- What comes after a request was offered is watched after the request. -/
  request_heard : ∀ earlier message taken later,
    traffic added = earlier ++ .offered message taken :: later → message.isRequest →
      ∃ before, earlier = before ++ [.watched message] ∧
        watched added = watched before ++ message :: watched later
  /-- A request that cannot be handed over is not sent, and changes nothing. -/
  unheard : ∀ moment ∈ course, moment.session.watchdog = none →
    (∀ message ∈ moment.offers, message.isRequest = false) ∧
      ∀ message, message.isRequest →
        moment.session.send message = (moment.session, .error .watchdogClosed)

end Session

/-- In every run, with whatever client, an open watchdog is handed exactly the messages
that come, pings and pongs apart, the requests that go out and what it is told directly,
in this order; and every request that is offered to the link was handed to it before. -/
theorem Running.oversees_steps {σ : Type} (client : Client σ) (running : Running σ)
    (todo : List Step) :
    ∃ added, Oversees running.session (course client running todo) added
      (steps client running todo).session := by
  have hrun := undergoes_steps client running todo
  obtain ⟨added, hadded, htraffic⟩ := hrun.journal
  have hwatched : watched added = (course client running todo).flatMap Moment.heard := by
    rw [← watched_traffic, htraffic, hrun.watched_eq, map_fst_flatMap_seen]
  refine ⟨added, hadded, htraffic, hwatched, ?_, hrun.state, ?_, ?_⟩
  · intro hopen
    rw [hwatched, flatMap_heard_of_open (isSome_of_mem_course client running hopen)]
  · intro earlier message taken later heq hrequest
    obtain ⟨before, rfl⟩ := heard_of_offered (htraffic.symm.trans heq) hrequest
    refine ⟨before, rfl, ?_⟩
    rw [← watched_traffic, heq]
    simp [watched]
  · intro moment _ hclosed
    exact ⟨Moment.isRequest_of_mem_offers hclosed, fun _ => send_of_closed hclosed⟩

end LightPeer
