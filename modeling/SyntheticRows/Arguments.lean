import SyntheticRows.Config
import SyntheticRows.Numeral

/-!
Command lines. Arguments are read from the left. The value of an option is looked at when the option is
complete: at the next option that is known, or at the end. An argument that fits nowhere is refused at
once.
-/

namespace SyntheticRows

/-- Why a command line is not carried out. -/
inductive UsageFault
  | unknownArgument
  /-- A value is missing, or is none of the possible ones. -/
  | invalidValue
  /-- A value is no number. -/
  | invalidNumber
  /-- An option that counts once is given twice. -/
  | repeatedOption
  /-- A value is given to a switch. -/
  | unexpectedValue
  | helpRequested
  | versionRequested
deriving DecidableEq, Repr

namespace UsageFault

def message : UsageFault → String
  | unknownArgument => "unexpected argument found"
  | invalidValue => "a value is missing or not possible for its option"
  | invalidNumber => "a value is not a number"
  | repeatedOption => "an option cannot be used multiple times"
  | unexpectedValue => "a value is given to an option that takes none"
  | helpRequested => "help requested"
  | versionRequested => "version requested"

end UsageFault

/-- An option with a value. -/
inductive ValueOption
  | seed
  | upperBound
  | step
  | pass
  | readingTable
  | positionTable
  | config
  | report
  | logFile
deriving DecidableEq, Repr

/-- An option without a value. -/
inductive Switch
  | insertStatement
  | verbose
  | help
  | version
deriving DecidableEq, Repr

/-- What a command line asks for. -/
structure Arguments where
  seed : Option UInt64 := none
  upperBound : Option UInt64 := none
  step : Option UInt64 := none
  passes : List Pass := []
  insertStatement : Bool := false
  readingTable : Option String := none
  positionTable : Option String := none
  config : Option String := none
  report : Option String := none
  logFile : Option String := none
  verbose : Bool := false
deriving DecidableEq

namespace Arguments

/-- The options as a layer over a file. -/
def overrides (a : Arguments) : Config :=
  { seed := a.seed
    upperBound := a.upperBound
    step := a.step
    passes := some a.passes
    output :=
      { statements := if a.insertStatement then some true else none
        readingTable := a.readingTable
        positionTable := a.positionTable } }

/-! ### Options -/

def valueOption? : String → Option ValueOption
  | "seed" => some .seed
  | "upper-bound" => some .upperBound
  | "step" => some .step
  | "pass" => some .pass
  | "reading-table" => some .readingTable
  | "position-table" => some .positionTable
  | "config" => some .config
  | "report" => some .report
  | "log-file" => some .logFile
  | _ => none

def switch? : String → Option Switch
  | "insert-statement" => some .insertStatement
  | "verbose" => some .verbose
  | "help" => some .help
  | "version" => some .version
  | _ => none

/-- The switches of one letter. -/
def letter? : Char → Option Switch
  | 'v' => some .verbose
  | 'h' => some .help
  | 'V' => some .version
  | _ => none

def number (value : String) : Except UsageFault UInt64 :=
  (Numeral.parse value).mapError fun _ => .invalidNumber

def path (value : String) : Except UsageFault String :=
  if value = "" then .error .invalidValue else .ok value

/-- A value for what was open before. -/
def once {α : Type} (before : Option α) (value : Except UsageFault α) : Except UsageFault (Option α) :=
  match before with
  | some _ => .error .repeatedOption
  | none => value.map some

/-- Completes an option with its value. -/
def put (a : Arguments) (value : String) : ValueOption → Except UsageFault Arguments
  | .seed => do return { a with seed := ← once a.seed (number value) }
  | .upperBound => do return { a with upperBound := ← once a.upperBound (number value) }
  | .step => do return { a with step := ← once a.step (number value) }
  | .pass =>
    match Vocabulary.find? value with
    | some pass => .ok { a with passes := a.passes ++ [pass] }
    | none => .error .invalidValue
  | .readingTable => do return { a with readingTable := ← once a.readingTable (.ok value) }
  | .positionTable => do return { a with positionTable := ← once a.positionTable (.ok value) }
  | .config => do return { a with config := ← once a.config (path value) }
  | .report => do return { a with report := ← once a.report (path value) }
  | .logFile => do return { a with logFile := ← once a.logFile (path value) }

/-- Turns on a switch. -/
def turnOn (a : Arguments) : Switch → Except UsageFault Arguments
  | .insertStatement =>
    if a.insertStatement then .error .repeatedOption else .ok { a with insertStatement := true }
  | .verbose => if a.verbose then .error .repeatedOption else .ok { a with verbose := true }
  | .help => .error .helpRequested
  | .version => .error .versionRequested

/-! ### Reading -/

/-- An option that is not complete yet, with its value if that was read. -/
abbrev Pending := Option (ValueOption × Option String)

/-- Completes the option that is pending. -/
def settle (a : Arguments) : Pending → Except UsageFault Arguments
  | none => .ok a
  | some (_, none) => .error .invalidValue
  | some (option, some value) => a.put value option

/-- Turns on the switches of a group of letters. The first completes the option before it. -/
def letters (a : Arguments) (pending : Pending) : List Char → Except UsageFault Arguments
  | [] => a.settle pending
  | c :: rest =>
    match letter? c with
    | none => .error .unknownArgument
    | some switch => do
      let a ← (← a.settle pending).turnOn switch
      letters a none rest

/-- Reads an option by its name, with the value that is attached to it, if one is. -/
def named (a : Arguments) (pending : Pending) (name : String) (attached : Option String) :
    Except UsageFault (Arguments × Pending) :=
  match valueOption? name with
  | some option => do
    let a ← a.settle pending
    match attached with
    | some value => return (← a.put value option, none)
    | none => return (a, some (option, none))
  | none =>
    match switch? name, attached with
    | none, _ => .error .unknownArgument
    | some _, some _ => .error .unexpectedValue
    | some switch, none => do return (← (← a.settle pending).turnOn switch, none)

/-- The name and the attached value of an option, which an equals sign separates. -/
def splitName (s : List Char) : String × Option String :=
  let name := String.ofList (s.takeWhile (· != '='))
  match s.dropWhile (· != '=') with
  | _ :: value => (name, some (String.ofList value))
  | [] => (name, none)

/-- Reads one argument that does not end the options. -/
def argument (a : Arguments) (pending : Pending) (s : String) :
    Except UsageFault (Arguments × Pending) :=
  match s.toList with
  | '-' :: '-' :: rest =>
    let (name, attached) := splitName rest
    a.named pending name attached
  | '-' :: c :: rest => do return (← a.letters pending (c :: rest), none)
  | _ =>
    match pending with
    | some (option, none) => .ok (a, some (option, some s))
    | _ => .error .unknownArgument

/-- Reads arguments in turn. After two dashes alone no further argument is known. -/
def read (a : Arguments) (pending : Pending) : List String → Except UsageFault Arguments
  | [] => a.settle pending
  | s :: rest =>
    if s = "--" then
      if rest = [] then a.settle pending else .error .unknownArgument
    else do
      let (a, pending) ← a.argument pending s
      a.read pending rest

def parse (args : List String) : Except UsageFault Arguments :=
  read {} none args

end Arguments

end SyntheticRows
