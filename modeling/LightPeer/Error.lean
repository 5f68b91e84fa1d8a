/-! What can go wrong, by cause, and how it is reported. -/

namespace LightPeer

/-- Why settings cannot be used. -/
inductive SettingsError where
  | unreadable (reason : String)
  | malformed (reason : String)
  | badField (name value : String)
deriving DecidableEq, Repr

def SettingsError.message : SettingsError → String
  | unreadable reason => reason
  | malformed reason => reason
  | badField name value => s!"identifier={name}, value={value}"

/-- Why an operation of a session fails. -/
inductive Error where
  | linkDown
  /-- The watchdog has stopped, so it can be told nothing more. -/
  | watchdogClosed
  /-- No more announced blocks can be remembered. -/
  | blockQueueFull
  | invalidMerkleBlock (reason : String)
  | client (reason : String)
  | settings (error : SettingsError)
  /-- A failure below the session, told in its own words. -/
  | io (reason : String)
deriving DecidableEq, Repr

def Error.message : Error → String
  | linkDown => "Connection to peer is broken"
  | watchdogClosed => "Stall detector has shut down"
  | blockQueueFull => "Block download queue is full"
  | invalidMerkleBlock reason => s!"Invalid merkle block: {reason}"
  | client reason => s!"Message handler failed: {reason}"
  | settings error => error.message
  | io reason => reason

/-- The report of the error that lies behind this one. -/
def Error.cause? : Error → Option String
  | settings error => some error.message
  | io reason => some reason
  | _ => none

end LightPeer
