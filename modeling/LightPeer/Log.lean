/-! Log records, and the view of them that the environment asks for. A view
leaves out the records below its threshold and changes nothing else. A program
that logs is told the threshold, and drops what is below it at once. -/

namespace LightPeer.Log

inductive Level where
  | trace
  | debug
  | info
  | warn
  | error
deriving DecidableEq, Repr

namespace Level

/-- The rank of a level; more important levels rank higher. -/
def rank : Level → Nat
  | trace => 0
  | debug => 1
  | info => 2
  | warn => 3
  | error => 4

def label : Level → String
  | trace => "TRCE"
  | debug => "DEBG"
  | info => "INFO"
  | warn => "WARN"
  | error => "ERRO"

end Level

/-- A text with its level, and numbers with their names. -/
structure Record where
  level : Level
  text : String
  values : List (String × Nat) := []
deriving DecidableEq, Repr

namespace Record

/-- One line: the level, the text, and the values behind commas. -/
def line (record : Record) : String :=
  let values := record.values.map fun (name, value) => s!"{name}: {value}"
  let parts := if record.text.isEmpty then values else record.text :: values
  record.level.label ++ " " ++ ", ".intercalate parts

inductive Field where
  | text (value : String)
  | number (value : Nat)
deriving DecidableEq, Repr

def fields (record : Record) : List (String × Field) :=
  ("level", .text record.level.label) :: ("msg", .text record.text) ::
    record.values.map fun (name, value) => (name, .number value)

end Record

inductive Printed where
  | line (text : String)
  | fields (named : List (String × Record.Field))
deriving DecidableEq, Repr

/-- Which records are shown, and in which form. -/
structure View where
  threshold : Level
  asFields : Bool
deriving DecidableEq, Repr

namespace View

/-- The view that the environment variables ask for. A variable counts as set
when its value is exactly "1", and tracing goes before debugging. -/
def ofVariables (value : String → Option String) : View where
  threshold :=
    if value "SPV_TRACE" = some "1" then .trace
    else if value "SPV_DEBUG" = some "1" then .debug
    else .info
  asFields := value "SPV_LOG_JSON" = some "1"

/-- The records at or above the threshold, in order. -/
def select (view : View) (records : List Record) : List Record :=
  records.filter fun record => view.threshold.rank ≤ record.level.rank

def form (view : View) (record : Record) : Printed :=
  if view.asFields then .fields record.fields else .line record.line

def print (view : View) (records : List Record) : List Printed :=
  (view.select records).map view.form

end View

/-- A program that logs. -/
structure Logging (α : Type) where
  /-- What is written down at a threshold, and what the program comes to. -/
  run : Level → List Record × α

namespace Logging

variable {α : Type}

instance : Monad Logging where
  pure value := ⟨fun _ => ([], value)⟩
  bind program next := ⟨fun threshold =>
    let (first, value) := program.run threshold
    let (rest, result) := (next value).run threshold
    (first ++ rest, result)⟩

/-- Writes down a record, if its level is at or above the threshold. -/
def write (record : Record) : Logging Unit :=
  ⟨fun threshold => (if threshold.rank ≤ record.level.rank then [record] else [], ())⟩

/-- What is printed of a program under a view, and what it comes to. -/
def under (view : View) (program : Logging α) : List Printed × α :=
  let (records, result) := program.run view.threshold
  (records.map view.form, result)

end Logging

/-- One record of each level with the same text; the warning carries the value as "key". -/
def everyLevel (text : String) (key : Nat) : List Record :=
  [{ level := .trace, text }, { level := .debug, text }, { level := .info, text },
    { level := .warn, text, values := [("key", key)] }, { level := .error, text }]

/-- Writes down one record of each level. -/
def emit (text : String) (key : Nat) : Logging Unit := (everyLevel text key).forM Logging.write

end LightPeer.Log
