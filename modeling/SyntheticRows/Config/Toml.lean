import SyntheticRows.Config
import SyntheticRows.Toml.Document
import SyntheticRows.Wording

/-!
Configurations as TOML. Only the known keys may occur; they are looked at in the order of the document.
-/

namespace SyntheticRows.Config

/-- Why a text is no configuration. -/
inductive Fault
  /-- The text is no TOML, or a value has the wrong kind. -/
  | malformed
  | unknownField (name : String) (expected : List String)
  | unknownVariant (name : String) (expected : List String)
deriving DecidableEq, Repr

namespace Fault

/-- The wording of the faults that name something. -/
def message? : Fault → Option String
  | malformed => none
  | unknownField name expected => some (Wording.unknownField name expected)
  | unknownVariant name expected => some (Wording.unknownVariant name expected)

end Fault

open Toml (Value Entries)

/-! ### Values -/

/-- A whole number that is not negative. -/
def word : Value → Except Fault UInt64
  | .int n => if 0 ≤ n then .ok (UInt64.ofNat n.toNat) else .error .malformed
  | _ => .error .malformed

def bool : Value → Except Fault Bool
  | .bool b => .ok b
  | _ => .error .malformed

def text : Value → Except Fault String
  | .text s => .ok s
  | _ => .error .malformed

/-- A list, or the tables of repeated headers. -/
def items : Value → Except Fault (List Value)
  | .list items => .ok items
  | .tables rows => .ok (rows.map (.table .header))
  | _ => .error .malformed

def passNames : List String :=
  (Vocabulary.all : List Pass).map Vocabulary.label

def passOfName (name : String) : Except Fault Pass :=
  match Vocabulary.find? name with
  | some pass => .ok pass
  | none => .error (.unknownVariant name passNames)

/-- A value without content. -/
def empty : Value → Except Fault Unit
  | .table _ [] => .ok ()
  | .list [] => .ok ()
  | _ => .error .malformed

/-- A pass: its name, or a table with that name as its only key and no content. -/
def pass : Value → Except Fault Pass
  | .text name => passOfName name
  | .table _ [(name, content)] => do
    let pass ← passOfName name
    empty content
    return pass
  | _ => .error .malformed

/-! ### Tables -/

def outputFields : List String :=
  ["insert_statement", "reading_table", "position_table"]

def outputEntry (c : OutputConfig) : String × Value → Except Fault OutputConfig
  | ("insert_statement", value) => do return { c with statements := some (← bool value) }
  | ("reading_table", value) => do return { c with readingTable := some (← text value) }
  | ("position_table", value) => do return { c with positionTable := some (← text value) }
  | (name, _) => .error (.unknownField name outputFields)

/-- The name under which a date or a time stands where a table is expected. -/
def timeField : String :=
  "$__toml_private_datetime"

/-- The output part: a table, or a list of its three values. A date or a time counts as a table with one
    field. -/
def outputPart : Value → Except Fault OutputConfig
  | .table _ entries => entries.foldlM outputEntry {}
  | .time _ => .error (.unknownField timeField outputFields)
  | value => do
    match ← items value with
    | statements :: readingTable :: positionTable :: _ =>
      return { statements := some (← bool statements), readingTable := some (← text readingTable),
               positionTable := some (← text positionTable) }
    | _ => .error .malformed

def fields : List String :=
  ["seed", "upper_bound", "step", "passes", "output"]

def entry (c : Config) : String × Value → Except Fault Config
  | ("seed", value) => do return { c with seed := some (← word value) }
  | ("upper_bound", value) => do return { c with upperBound := some (← word value) }
  | ("step", value) => do return { c with step := some (← word value) }
  | ("passes", value) => do return { c with passes := some (← (← items value).mapM pass) }
  | ("output", value) => do return { c with output := ← outputPart value }
  | (name, _) => .error (.unknownField name fields)

def ofEntries (entries : Entries) : Except Fault Config :=
  entries.foldlM entry {}

/-- The configuration of a text. -/
def parse (s : String) : Except Fault Config :=
  match Toml.parse? s.toList with
  | some entries => ofEntries entries
  | none => .error .malformed

end SyntheticRows.Config
