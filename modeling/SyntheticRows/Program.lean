import SyntheticRows.Arguments
import SyntheticRows.Config.Toml
import SyntheticRows.Log.Filter
import SyntheticRows.Report.Json

/-!
The program: it reads the command line and the configuration file, runs the passes to standard output
and writes the report. Each stage begins only after the one before it succeeded.
-/

namespace SyntheticRows

/-- What the program needs from the system around it, standard output included. -/
class Host (m : Type → Type) extends Outlet m where
  /-- The text of the log filter that the environment asks for. -/
  logFilter : m (Option String)
  /-- Opens a file to which log lines are appended from then on. -/
  openLog : (path : String) → m (Option IoFault)
  /-- Appends a line to the open log file. -/
  appendLog : List Char → m Unit
  /-- Shows a line to the user, apart from standard output. -/
  complain : List Char → m Unit
  readText : (path : String) → m (Except IoFault String)
  writeText : (path : String) → List Char → m (Option IoFault)
  occasion : m Occasion
  milliseconds : m UInt64
  now : m Instant

namespace Program

/-- What makes the program fail. -/
inductive Fault
  | run (fault : RunFault)
  | io (fault : IoFault)
  | config (fault : Config.Fault)

namespace Fault

/-- The fault spelled out. The words of a faulty configuration are not part of it. -/
def diagnostic : Fault → String
  | run fault => Diagnostic.holding "Generation" (Diagnostic.runFault fault)
  | io fault => Diagnostic.holding "Io" (Diagnostic.ioFault fault)
  | config fault => Diagnostic.holding "Toml" ((fault.message?.map Diagnostic.quoted).getD "..")

end Fault

inductive Outcome
  /-- The run succeeded and the report was written, if one was asked for. -/
  | finished (report : Report)
  | usage (fault : UsageFault)
  | failed (fault : Fault)

namespace Outcome

/-- The code with which the program ends. -/
def exitCode : Outcome → UInt32
  | finished _ => 0
  | usage .helpRequested | usage .versionRequested => 0
  | usage _ => 2
  | failed _ => 1

end Outcome

/-! ### Notices -/

def version : String :=
  "sqlfixture 0.1.0\n"

/-- How the program is used. -/
def help : String :=
  "Emit synthetic SQL row literals for reading and position fixtures.\n" ++
  "\n" ++
  "With no arguments, both passes run over minutes 0..2880 in steps of 5 and each row is printed as\n" ++
  "`(...),` for splicing into an `INSERT ... VALUES`.\n" ++
  "\n" ++
  "Usage: sqlfixture [OPTIONS]\n" ++
  "\n" ++
  "Options:\n" ++
  "      --seed <SEED>                      Base seed for reproducible output\n" ++
  "      --upper-bound <UPPER_BOUND>        Exclusive upper bound of the minute index\n" ++
  "      --step <STEP>                      Minute index step\n" ++
  "      --pass <PASS>                      Pass to run; repeat to select several. Defaults to all\n" ++
  "                                         [possible values: readings, positions]\n" ++
  "      --insert-statement                 Wrap each pass in a complete INSERT statement\n" ++
  "      --reading-table <READING_TABLE>    Target table for reading rows in statement mode\n" ++
  "      --position-table <POSITION_TABLE>  Target table for position rows in statement mode\n" ++
  "      --config <CONFIG>                  TOML config file; flags take precedence over it\n" ++
  "      --report <REPORT>                  Write the run report as JSON\n" ++
  "      --log-file <LOG_FILE>              Append JSON logs to this file instead of stderr\n" ++
  "  -v, --verbose                          Log run progress at info level\n" ++
  "  -h, --help                             Print help\n" ++
  "  -V, --version                          Print version\n"

/-- What the program says on standard output instead of running. -/
def Outcome.notice? : Outcome → Option String
  | .usage .helpRequested => some help
  | .usage .versionRequested => some version
  | _ => none

/-- What the program says at its end when it did not do what it was asked for. -/
def Outcome.complaint? : Outcome → Option String
  | .finished _ | .usage .helpRequested | .usage .versionRequested => none
  | .usage fault => some ("error: " ++ fault.message ++ "\n\nFor more information, try '--help'.\n")
  | .failed fault => some ("Error: " ++ fault.diagnostic ++ "\n")

/-! ### Logging -/

/-- The choices about logging: which events are logged, and whether to a file. -/
structure Journal where
  filter : Log.Filter
  toFile : Bool

/-- A stage of the program, with its journal. -/
abbrev Journaled (m : Type → Type) := ReaderT Journal m

section

variable {m : Type → Type} [Monad m] [Host m]

def log (event : Log.Event) : Journaled m Unit := fun journal => do
  if journal.filter.allows event then
    let time ← Host.now
    if journal.toFile then Host.appendLog (event.jsonLine time)
    else Host.complain (event.plainLine time)

/-- The program's own writing to standard output. If that is not open for writing, the program goes on as if
    everything was taken. -/
instance : Outlet (Journaled m) where
  write bytes := fun _ => do
    let reply ← Outlet.write bytes
    return if reply = .failed .notOpen then .took bytes.length else reply
  flush := fun _ => do
    let fault ← Outlet.flush
    return if fault = some .notOpen then none else fault

instance : Observer (Journaled m) where
  note event := log (Log.Event.ofRun event)
  clock := fun _ => Host.milliseconds

/-! ### Stages -/

/-- Stages that may fail. -/
abbrev Stage (m : Type → Type) := ExceptT Fault (Journaled m)

/-- Fails with a fault if there is one. -/
def check (fault : Option IoFault) : Stage m Unit :=
  match fault with
  | some fault => throw (.io fault)
  | none => pure ()

def loadConfig (path : String) : Stage m Config := do
  match ← liftM (m := Journaled m) (fun _ => Host.readText path) with
  | .error fault => throw (.io fault)
  | .ok text =>
    match Config.parse text with
    | .error fault => throw (.config fault)
    | .ok config =>
      liftM (m := Journaled m) (log (.configLoaded path))
      return config

/-- The options of the command line over those of the file. -/
def resolve (file : Config) (a : Arguments) : Journaled m Options := do
  let overrides := a.overrides
  let ignored := OutputConfig.ignoredKeys file.output overrides.output
  if ignored ≠ [] then log (.tableNamesIgnored ignored)
  return Config.resolve file overrides

def writeReport (path : String) (report : Report) : Stage m Unit := do
  check (← liftM (m := Journaled m) (fun _ => Host.writeText path (report.toJson.pretty 0)))
  liftM (m := Journaled m) (log (.reportWritten path))

/-- All stages after the command line is read and the log is open. -/
def stages (a : Arguments) : Stage m Report := do
  let file ← match a.config with
    | some path => loadConfig path
    | none => pure {}
  let options ← liftM (m := Journaled m) (resolve file a)
  liftM (m := Journaled m) (log (.runStarted options))
  let occasion ← liftM (m := Journaled m) (fun _ => Host.occasion)
  match ← liftM (m := Journaled m) (run options occasion) with
  | .error fault => throw (.run fault)
  | .ok report =>
    if let some path := a.report then writeReport path report
    liftM (m := Journaled m) (log (.runFinished report))
    return report

/-- Opens the log file, if one is asked for. -/
def openJournal (a : Arguments) : m (Except IoFault Journal) := do
  let filter := Log.Filter.ofEnvironment (← Host.logFilter) a.verbose
  match a.logFile with
  | none => return .ok { filter, toFile := false }
  | some path =>
    match ← Host.openLog path with
    | some fault => return .error fault
    | none => return .ok { filter, toFile := true }

/-- Runs the program with the arguments of a command line. -/
def execute (args : List String) : m Outcome := do
  match Arguments.parse args with
  | .error fault => return .usage fault
  | .ok a =>
    match ← openJournal a with
    | .error fault => return .failed (.io fault)
    | .ok journal =>
      match ← (stages a).run journal with
      | .ok report => return .finished report
      | .error fault => return .failed fault

end

end Program

end SyntheticRows
