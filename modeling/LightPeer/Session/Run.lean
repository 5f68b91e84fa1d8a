import LightPeer.Session.Client

/-! Running a session. An inbound ping or pong only tells the peer's height;
every other message is shown to the watchdog and then to the client, if it has
news for it. -/

namespace LightPeer

/-- A session together with what its client remembers. -/
structure Running (σ : Type) where
  session : Session
  memory : σ

namespace Running

variable {σ : Type} (client : Client σ)

/-- Shows a message to the watchdog. One that is closed does not keep the
message from the client. -/
def alert (session : Session) (message : Message) : Session :=
  match session.notify message with
  | (session, .ok ()) => session
  | (session, .error error) =>
    session.log .debug
      s!"Could not notify stall handler for {session.addr} of {message.command}: {error.message}"

/-- Turns to the client, if the message has news for it. -/
def dispatch (running : Running σ) (message : Message) : Running σ × Except Error Unit :=
  match Callback.ofMessage? message with
  | some callback =>
    let (session, memory, result) :=
      (client.react callback running.memory).run (running.session.emit (.dispatched callback))
    (⟨session, memory⟩, result)
  | none =>
    ({ running with
        session := running.session.log .trace
          s!"Ignore {message.command} from {running.session.addr}" }, .ok ())

def report (running : Running σ) (message : Message) : Except Error Unit → Running σ
  | .ok () => running
  | .error error =>
    { running with
      session := running.session.log .warn
        s!"Failed to handle {message.command} from {running.session.addr}: {error.message}" }

def handle (running : Running σ) (message : Message) : Running σ × Except Error Unit :=
  match message with
  | .ping nonce =>
    let session := running.session.learnHeight nonce
    let (session, result) := session.send (.pong session.localHeight.toUInt64)
    ({ running with session }, result)
  | .pong nonce => ({ running with session := running.session.learnHeight nonce }, .ok ())
  | _ =>
    let running := { running with session := alert running.session message }
    let (running, result) := dispatch client running message
    (report running message result, result)

inductive Step where
  | handle (message : Message)
  | call (call : Session.Call)
  /-- From now on the link takes no message and answers with an error, or takes them again. -/
  | refuse (error : Option Error)
  | tick (now : Nat)

@[reducible] def Step.Result : Step → Type
  | handle _ => Except Error Unit
  | call c => c.Result
  | refuse _ => Unit
  | tick _ => Unit

def step (running : Running σ) : (step : Step) → Running σ × step.Result
  | .handle message => handle client running message
  | .call c =>
    let (session, result) := running.session.perform c
    ({ running with session }, result)
  | .refuse error =>
    let link := { running.session.link with refusal := error }
    ({ running with session := { running.session with link } }, ())
  | .tick now => ({ running with session := running.session.tick now }, ())

def steps (running : Running σ) (todo : List Step) : Running σ :=
  todo.foldl (fun r s => (step client r s).1) running

end Running

end LightPeer
