import LightPeer.Session.Run

/-! # The client hears all news once and in order

What a recording client was told are the messages with news, each as a whole and in
the order in which they were handled. The watchdog, the link and whatever the client
failed over before have no part in it. -/

namespace LightPeer

/-- The kinds of messages with news for the client. -/
def Message.hasNews : Message → Bool
  | inv _ | merkleBlock _ | tx _ | notFound _ | reject _ => true
  | _ => false

namespace Callback

/-- The message that a callback passes on. -/
def message : Callback → Message
  | .inventory items => .inv items
  | .merkleBlock block => .merkleBlock block
  | .tx payload => .tx payload
  | .notFound items => .notFound items
  | .reject rejection => .reject rejection

theorem ofMessage?_eq_some_iff {message : Message} {callback : Callback} :
    ofMessage? message = some callback ↔ callback.message = message := by
  constructor
  · intro h
    cases message <;> cases h <;> rfl
  · rintro rfl
    cases callback <;> rfl

/-- Nothing of a message with news gets lost on the way to its callback. -/
theorem map_message_filterMap (messages : List Message) :
    (messages.filterMap ofMessage?).map message = messages.filter Message.hasNews := by
  induction messages with
  | nil => rfl
  | cons first messages ih =>
      cases first with
      | inv | merkleBlock | tx | notFound | reject => exact congrArg (_ :: ·) ih
      | _ => exact ih

end Callback

/-- A session whose client records, with what the client wrote down. -/
abbrev Recording := Running (List Client.Note)

namespace Recording

/-- A step of the session, and what the client fails over at it. -/
structure Turn where
  step : Running.Step
  failure : Callback → Option Error

/-- The message that is handled at a turn. -/
def Turn.handled? (turn : Turn) : Option Message :=
  match turn.step with
  | .handle message => some message
  | _ => none

def handled (turns : List Turn) : List Message := turns.filterMap Turn.handled?

def after (recording : Recording) (turn : Turn) : Recording :=
  (Running.step (Client.recording turn.failure) recording turn.step).1

def play (recording : Recording) (turns : List Turn) : Recording := turns.foldl after recording

/-! ## One message -/

variable (recording : Recording) (failure : Callback → Option Error) {message : Message}

theorem memory_dispatch (message : Message) :
    (Running.dispatch (Client.recording failure) recording message).1.memory =
      recording.memory ++ ([message].filterMap Callback.ofMessage?).map .called := by
  cases message with
  | inv | merkleBlock | tx | notFound | reject => rfl
  | _ => exact (List.append_nil _).symm

theorem memory_report (message : Message) (result : Except Error Unit) :
    (Running.report recording message result).memory = recording.memory := by
  cases result <;> rfl

theorem memory_handle (message : Message) :
    (Running.handle (Client.recording failure) recording message).1.memory =
      recording.memory ++ ([message].filterMap Callback.ofMessage?).map .called := by
  have hdispatch := memory_dispatch
    { recording with session := Running.alert recording.session message } failure message
  cases message with
  | ping nonce => exact (List.append_nil _).symm
  | pong nonce => exact (List.append_nil _).symm
  | _ => exact (memory_report _ _ _).trans hdispatch

theorem dispatch_eq_error_iff {error : Error} :
    (Running.dispatch (Client.recording failure) recording message).2 = .error error ↔
      ∃ callback : Callback, callback.message = message ∧ failure callback = some error := by
  simp only [Running.dispatch, ← Callback.ofMessage?_eq_some_iff]
  cases Callback.ofMessage? message with
  | none => simp
  | some callback => cases hfailure : failure callback <;> simp [Client.recording, hfailure]

/-- Handling a message fails as its callback does. A ping is answered instead, and the
answer may not get out. -/
theorem handle_eq_error_iff (hping : ∀ nonce, message ≠ .ping nonce) {error : Error} :
    (Running.handle (Client.recording failure) recording message).2 = .error error ↔
      ∃ callback : Callback, callback.message = message ∧ failure callback = some error := by
  have hdispatch := @dispatch_eq_error_iff
    { recording with session := Running.alert recording.session message } failure message error
  cases message with
  | ping nonce => exact absurd rfl (hping nonce)
  | pong nonce => simp [Running.handle, ← Callback.ofMessage?_eq_some_iff, Callback.ofMessage?]
  | _ => exact hdispatch

/-! ## Runs -/

theorem memory_after (turn : Turn) :
    (recording.after turn).memory =
      recording.memory ++ ((handled [turn]).filterMap Callback.ofMessage?).map .called := by
  obtain ⟨step, failure⟩ := turn
  cases step with
  | handle message => exact memory_handle recording failure message
  | _ => exact (List.append_nil _).symm

theorem memory_play (turns : List Turn) :
    (recording.play turns).memory =
      recording.memory ++ ((handled turns).filterMap Callback.ofMessage?).map .called := by
  induction turns generalizing recording with
  | nil => exact (List.append_nil _).symm
  | cons turn turns ih =>
      have hplay : recording.play (turn :: turns) = (recording.after turn).play turns := rfl
      have hhandled : handled (turn :: turns) = handled [turn] ++ handled turns :=
        @List.filterMap_append _ _ [turn] turns Turn.handled?
      rw [hplay, ih, memory_after, hhandled, List.filterMap_append, List.map_append,
        List.append_assoc]

/-- What a recording client is told in a run, and how its answers come back. -/
structure Told (recording : Recording) (turns : List Turn) : Prop where
  /-- The client was told of the messages with news, and of nothing else. -/
  log : ∃ callbacks : List Callback,
    (recording.play turns).memory = recording.memory ++ callbacks.map .called ∧
      callbacks.map Callback.message = (handled turns).filter Message.hasNews
  /-- Handling a message fails as its callback does, and else succeeds. -/
  answers : ∀ earlier later message failure,
    turns = earlier ++ ⟨.handle message, failure⟩ :: later → (∀ nonce, message ≠ .ping nonce) →
      ∀ error, (Running.handle (Client.recording failure) (recording.play earlier) message).2 =
          .error error ↔
        ∃ callback : Callback, callback.message = message ∧ failure callback = some error
  /-- The handled messages alone decide what the client is told. -/
  same : ∀ (other : Recording) others, other.memory = recording.memory →
    handled others = handled turns → (other.play others).memory = (recording.play turns).memory

/-- Whatever state a session is in and whatever fails, its client hears all news. -/
theorem play_told (turns : List Turn) : Told recording turns where
  log := ⟨_, memory_play recording turns, Callback.map_message_filterMap _⟩
  answers earlier later message failure _ hping _ :=
    handle_eq_error_iff (recording.play earlier) failure hping
  same other others hmemory hhandled := by
    rw [memory_play, memory_play, hmemory, hhandled]

/-- The client fails over everything, and the session hangs up in between. -/
theorem play_told_hung_up :
    let recording : Recording := ⟨.start (.v4 ⟨127, 0, 0, 1⟩ 8333) 0 {} 0, []⟩
    let failure : Callback → Option Error := fun _ => some (.client "busy")
    let steps : List Running.Step := [.handle (.tx ⟨[1]⟩), .call .disconnect, .handle (.ping 5),
      .handle .verack, .handle (.notFound [])]
    let turns : List Turn := steps.map (⟨·, failure⟩)
    Told recording turns ∧ (recording.play turns).session.watchdog.isNone ∧
      (recording.play turns).memory = [.called (.tx ⟨[1]⟩), .called (.notFound [])] := by
  intro recording failure steps turns
  have hclosed : (recording.play turns).session.watchdog.isNone := by decide +kernel
  have hmemory : (recording.play turns).memory = [.called (.tx ⟨[1]⟩), .called (.notFound [])] := by
    decide +kernel
  exact ⟨play_told recording turns, hclosed, hmemory⟩

end Recording

end LightPeer
