import SyntheticRows.Diagnostic
import SyntheticRows.Json

/-!
Log events: what a program tells about its progress, each with a level and the part of the program that
it comes from.
-/

namespace SyntheticRows.Log

inductive Level
  | error
  | warn
  | info
  | debug
  | trace
deriving DecidableEq, Repr

namespace Level

/-- How much detail a level means. -/
def detail : Level → Nat
  | error => 1
  | warn => 2
  | info => 3
  | debug => 4
  | trace => 5

def name : Level → String
  | error => "ERROR"
  | warn => "WARN"
  | info => "INFO"
  | debug => "DEBUG"
  | trace => "TRACE"

end Level

/-- The value of a field of an event. -/
inductive Field
  | text (value : String)
  /-- A text that stands for a value of another kind. -/
  | shown (value : String)
  | number (value : UInt64)
  | flag (value : Bool)

namespace Field

def toJson : Field → Json
  | text s | shown s => .text s
  | number n => .int n.toNat
  | flag b => .bool b

def plain : Field → String
  | text s => Diagnostic.quoted s
  | shown s => s
  | number n => toString n.toNat
  | flag b => toString b

end Field

structure Event where
  level : Level
  /-- The part of the program that the event comes from. -/
  target : String
  message : Option String := none
  fields : List (String × Field)

namespace Event

/-- The names of the fields, of which the message is one. -/
def fieldNames (e : Event) : List String :=
  (e.message.elim [] fun _ => ["message"]) ++ e.fields.map (·.1)

/-! ### Texts -/

/-- The event as one line of JSON. -/
def jsonLine (e : Event) (time : Instant) : List Char :=
  let message := e.message.elim [] fun m => [("message", Json.text m)]
  let json := Json.object
    [("timestamp", .text (String.ofList time.text)),
      ("level", .text e.level.name),
      ("fields", .object (message ++ e.fields.map fun (name, value) => (name, value.toJson))),
      ("target", .text e.target)]
  json.compact ++ ['\n']

/-- The event as a line for people. -/
def plainLine (e : Event) (time : Instant) : List Char :=
  let words := (e.message.elim [] fun m => [m]) ++
    e.fields.map fun (name, value) => name ++ "=" ++ value.plain
  let level := if e.level.name.length < 5 then " " ++ e.level.name else e.level.name
  (" ".intercalate ([String.ofList time.text, level] ++ words) ++ "\n").toList

/-! ### Events of a run -/

/-- The part of the program that runs passes. -/
def runTarget : String :=
  "sqlfixture_generate::engine"

/-- The part of the program that reads the command line. -/
def programTarget : String :=
  "sqlfixture"

/-- The part of the program that resolves options. -/
def configTarget : String :=
  "sqlfixture::config"

def ofRun : RunEvent → Event
  | .optionsAccepted rows =>
    { level := .debug, target := runTarget, message := some "options validated"
      fields := [("rows_per_pass", .number rows)] }
  | .started report o =>
    { level := .info, target := runTarget, message := some "generation started"
      fields :=
        [("run_id", .shown report.runId), ("seed", .number report.seed),
          ("seeded", .flag o.seed.isSome),
          ("passes", .shown (Diagnostic.list (o.selectedPasses.map Diagnostic.pass))),
          ("upper_bound", .number o.upperBound), ("step", .number o.step)] }
  | .passStarted pass =>
    { level := .info, target := runTarget, message := some "generating pass"
      fields := [("pass", .text pass.key)] }
  | .passFinished report =>
    { level := .info, target := runTarget, message := some "pass finished"
      fields :=
        [("pass", .text report.pass.key), ("rows", .number report.rows),
          ("bytes_written", .number report.bytesWritten), ("duration_ms", .number report.milliseconds)] }
  | .finished report =>
    { level := .info, target := runTarget, message := some "generation finished"
      fields :=
        [("run_id", .shown report.runId), ("rows", .number report.rowsTotal),
          ("bytes", .number report.bytesTotal), ("duration_ms", .number report.milliseconds)] }

/-! ### Events of the program -/

def configLoaded (path : String) : Event :=
  { level := .info, target := programTarget
    fields := [("event", .text "config_loaded"), ("path", .shown path)] }

/-- A warning that table names are given to no effect. -/
def tableNamesIgnored (keys : List String) : Event :=
  { level := .warn, target := configTarget
    message := some "table names only apply when insert_statement is enabled"
    fields :=
      [("event", .text "table_names_ignored"),
        ("keys", .shown (Diagnostic.list (keys.map Diagnostic.quoted)))] }

def runStarted (o : Options) : Event :=
  { level := .info, target := programTarget
    fields :=
      [("event", .text "run_started"),
        ("seed", .shown (Diagnostic.optional (o.seed.map fun seed => toString seed.toNat))),
        ("upper_bound", .number o.upperBound), ("step", .number o.step),
        ("output", .shown (Diagnostic.framing o.framing))] }

def reportWritten (path : String) : Event :=
  { level := .info, target := programTarget
    fields := [("event", .text "report_written"), ("path", .shown path)] }

def runFinished (report : Report) : Event :=
  { level := .info, target := programTarget
    fields :=
      [("event", .text "run_finished"), ("status", .text "success"), ("run_id", .shown report.runId),
        ("seed", .number report.seed), ("rows", .number report.rowsTotal),
        ("duration_ms", .number report.milliseconds)] }

end Event

end SyntheticRows.Log
