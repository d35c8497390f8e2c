import SyntheticRows.Diagnostic.Shown
import SyntheticRows.Options
import SyntheticRows.Run

/-!
Diagnostics: texts that spell out how a value is made, for those who look into a fault.
-/

namespace SyntheticRows.Diagnostic

/-! ### Strings -/

/-- A character inside of a quoted string. -/
def escaped (c : Char) : String :=
  if c = '"' then "\\\""
  else if c = '\\' then "\\\\"
  else if c = '\n' then "\\n"
  else if c = '\r' then "\\r"
  else if c = '\t' then "\\t"
  else if c = '\x00' then "\\0"
  else if isShown c then c.toString
  else "\\u\x7b" ++ String.ofList (Nat.toDigits 16 c.toNat) ++ "\x7d"

def quoted (s : String) : String :=
  "\"" ++ String.join (s.toList.map escaped) ++ "\""

/-! ### Values -/

def list (items : List String) : String :=
  "[" ++ ", ".intercalate items ++ "]"

/-- A name with its fields in braces. -/
def fields (name : String) (fields : List (String × String)) : String :=
  name ++ " \x7b " ++ ", ".intercalate (fields.map fun (key, value) => key ++ ": " ++ value) ++ " \x7d"

/-- A name with what it holds. -/
def holding (name content : String) : String :=
  name ++ "(" ++ content ++ ")"

def optional (value : Option String) : String :=
  match value with
  | some content => holding "Some" content
  | none => "None"

def pass : Pass → String
  | .readings => "Readings"
  | .positions => "Positions"

def framing : Framing → String
  | .lines => "RowLiterals"
  | .statements readingTable positionTable =>
    fields "InsertStatement"
      [("reading_table", quoted readingTable), ("position_table", quoted positionTable)]

/-! ### Faults -/

def ioFault : IoFault → String
  | .system code =>
    let (kind, words) := IoFault.describe code
    fields "Os" [("code", toString code), ("kind", kind.name), ("message", quoted words)]
  | .stated kind words => fields "Error" [("kind", kind.name), ("message", quoted words)]

def runFault : RunFault → String
  | .options fault => holding "InvalidOptions" (quoted fault.message)
  | .io fault => holding "Io" (ioFault fault)

end SyntheticRows.Diagnostic
