import LightPeer.Error
import LightPeer.Message
import LightPeer.Toml.Table

/-! The settings of a session. Values that are not given are the usual ones, and
the rules hold for the values with these filled in. -/

namespace LightPeer

/-- How a session watches its peer and remembers announced blocks. -/
structure Settings where
  /-- How often answers are checked, in milliseconds. -/
  tickInterval : Nat := 15000
  /-- How long after the last traffic an answer may be missing, in milliseconds. -/
  responseTimeout : Nat := 30000
  /-- How many announced blocks may wait. -/
  blockQueueSize : Nat := maxAnnouncedBlocks
deriving DecidableEq, Repr

namespace Settings

structure Fields where
  tickInterval : Option Nat := none
  responseTimeout : Option Nat := none
  blockQueueSize : Option Nat := none
deriving DecidableEq, Repr

/-- The given values and the usual ones for the rest, whatever the rules say. -/
def Fields.complete (fields : Fields) : Settings where
  tickInterval := fields.tickInterval.getD ({} : Settings).tickInterval
  responseTimeout := fields.responseTimeout.getD ({} : Settings).responseTimeout
  blockQueueSize := fields.blockQueueSize.getD ({} : Settings).blockQueueSize

def toFields (settings : Settings) : Fields :=
  ⟨some settings.tickInterval, some settings.responseTimeout, some settings.blockQueueSize⟩

/-- Checks take time, a response has at least one interval, and some block can wait. -/
def Sound (settings : Settings) : Prop :=
  0 < settings.tickInterval ∧ settings.tickInterval ≤ settings.responseTimeout ∧
    0 < settings.blockQueueSize

/-- The settings with the given values, or the first rule that they break. -/
def ofFields (fields : Fields) : Except SettingsError Settings :=
  let settings := fields.complete
  if settings.tickInterval = 0 then .error (.badField "stall_tick_interval_ms" "0")
  else if settings.responseTimeout < settings.tickInterval then
    .error (.badField "stall_response_timeout_ms"
      s!"{settings.responseTimeout} (must be at least stall_tick_interval_ms)")
  else if settings.blockQueueSize = 0 then .error (.badField "block_queue_size" "0")
  else .ok settings

/-- Gives one more value; a name that is unknown or given before is refused, and
so is a negative value. -/
def Fields.give? (fields : Fields) : Toml.Entry → Option Fields
  | (_, .negSucc _) => none
  | (key, .ofNat value) =>
    match key, fields with
    | "stall_tick_interval_ms", ⟨none, _, _⟩ => some { fields with tickInterval := some value }
    | "stall_response_timeout_ms", ⟨_, none, _⟩ => some { fields with responseTimeout := some value }
    | "block_queue_size", ⟨_, _, none⟩ => some { fields with blockQueueSize := some value }
    | _, _ => none

def Fields.ofText? (text : String) : Option Fields := do
  (← Toml.entries? text).foldlM Fields.give? {}

def ofText (text : String) : Except SettingsError Settings :=
  match Fields.ofText? text with
  | some fields => ofFields fields
  | none => .error (.malformed "not a table of known settings")

def summary (settings : Settings) : String :=
  s!"stall tick interval: {settings.tickInterval}ms, " ++
    s!"stall response timeout: {settings.responseTimeout}ms, " ++
    s!"block queue size: {settings.blockQueueSize}"

end Settings

end LightPeer
