import LightPeer.Session.Call

/-! Scripts: what a client does with a session, one call after the other. A
script sees of the session what its calls give back, and nothing else. -/

namespace LightPeer

/-- Calls to a session, each of which may depend on the results so far. -/
inductive Script (α : Type) where
  | done (value : α)
  | call (call : Session.Call) (next : call.Result → Script α)

namespace Script

variable {α β : Type}

protected def bind : Script α → (α → Script β) → Script β
  | done value, next => next value
  | call c more, next => call c fun result => (more result).bind next

instance : Monad Script where
  pure := done
  bind := Script.bind

def perform (c : Session.Call) : Script c.Result := call c done

/-- The session after a script, with the script's value. -/
def run (session : Session) : Script α → Session × α
  | done value => (session, value)
  | call c next =>
    let (session, result) := session.perform c
    (next result).run session

@[simp] theorem run_done (session : Session) (value : α) :
    (done value).run session = (session, value) := rfl

@[simp] theorem run_pure (session : Session) (value : α) :
    (pure value : Script α).run session = (session, value) := rfl

@[simp] theorem run_call (session : Session) (c : Session.Call) (next : c.Result → Script α) :
    (call c next).run session = (next (session.perform c).2).run (session.perform c).1 := rfl

@[simp] theorem perform_eq (c : Session.Call) : perform c = call c done := rfl

@[simp] theorem run_bind (session : Session) (script : Script α) (next : α → Script β) :
    (script >>= next).run session = (next (script.run session).2).run (script.run session).1 := by
  show (script.bind next).run session = _
  induction script generalizing session with
  | done value => rfl
  | call c more ih => exact ih _ _

end Script

end LightPeer
