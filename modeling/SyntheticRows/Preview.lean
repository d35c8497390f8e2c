import SyntheticRows.Diagnostic
import SyntheticRows.Numeral

/-!
A small program that shows the rows of the first hour. It has a switch for statements and an option for
the seed.
-/

namespace SyntheticRows.Preview

/-- What makes the program fail. -/
inductive Fault
  | unexpectedArgument (argument : String)
  | badSeed (fault : Numeral.Fault)
  | run (fault : RunFault)
deriving DecidableEq

namespace Fault

def numeralFault : Numeral.Fault → String
  | .empty => "Empty"
  | .invalidDigit => "InvalidDigit"
  | .overflow => "PosOverflow"

/-- The fault spelled out. -/
def diagnostic : Fault → String
  | unexpectedArgument argument => Diagnostic.quoted ("unexpected argument: " ++ argument)
  | badSeed fault => Diagnostic.fields "ParseIntError" [("kind", numeralFault fault)]
  | run fault => Diagnostic.runFault fault

end Fault

/-- The options without any arguments. -/
def defaults : Options :=
  { upperBound := 60 }

/-- Reads arguments from the left. The option for the seed takes the argument after it, and leaves the
    seed open where there is none. -/
def read (o : Options) : List String → Except Fault Options
  | [] => .ok o
  | ["--seed"] => .ok { o with seed := none }
  | "--seed" :: value :: rest =>
    match Numeral.parse value with
    | .ok seed => read { o with seed := some seed } rest
    | .error fault => .error (.badSeed fault)
  | "--statement" :: rest => read { o with framing := .defaultStatements } rest
  | argument :: _ => .error (.unexpectedArgument argument)

def options (args : List String) : Except Fault Options :=
  read defaults args

/-- What the program says at the end. -/
def summary (report : Report) : String :=
  s!"seed={report.seed.toNat} rows={report.rowsTotal.toNat}"

/-- Runs the program. No row is written unless all arguments are understood. -/
def execute {m : Type → Type} [Monad m] [Outlet m] [Observer m] (args : List String)
    (occasion : Occasion) : m (Except Fault Report) := do
  match options args with
  | .error fault => return .error fault
  | .ok o =>
    match ← SyntheticRows.run o occasion with
    | .ok report => return .ok report
    | .error fault => return .error (.run fault)

end SyntheticRows.Preview
