/-!
TOML documents as trees of tables, and the rules by which assignments and headers build one. A key is
assigned once; a table is opened by one header, or by dotted keys of one section, but not by both.
-/

namespace SyntheticRows.Toml

/-- How a table came to be, which decides who may still add to it. -/
inductive Origin
  /-- Written between braces: it is complete. -/
  | inline
  /-- Opened by a header of its own. -/
  | header
  /-- On the way to a table with a header: its own header may still come. -/
  | implied
  /-- Opened by dotted keys: further dotted keys may add to it. -/
  | dotted
deriving DecidableEq, Repr

/-- Values. Numbers that are no integers, and dates and times, are kept as they were written. -/
inductive Value
  | text (value : String)
  | int (value : Int)
  | real (written : String)
  | time (written : String)
  | bool (value : Bool)
  | list (items : List Value)
  /-- A table with its keys in the order in which they were added. -/
  | table (origin : Origin) (entries : List (String × Value))
  /-- Tables that repeated headers open one after the other. -/
  | tables (rows : List (List (String × Value)))

abbrev Entries := List (String × Value)

namespace Entries

/-- The value of a key replaced in its place. -/
def replace (entries : Entries) (key : String) (value : Value) : Entries :=
  entries.map fun entry => if entry.1 == key then (key, value) else entry

def erase (entries : Entries) (key : String) : Entries :=
  entries.filter (·.1 != key)

/-! ### Assignments -/

/-- Assigns a value to a key below a path of dotted keys. -/
def assign : (path : List String) → (key : String) → Value → Entries → Option Entries
  | [], key, value, entries =>
    match entries.lookup key with
    | some _ => none
    | none => some (entries ++ [(key, value)])
  | step :: path, key, value, entries =>
    match entries.lookup step with
    | none => do return entries ++ [(step, .table .dotted (← assign path key value []))]
    | some (.table origin inner) =>
      if origin = .dotted ∨ (origin = .implied ∧ path ≠ []) then do
        return entries.replace step (.table origin (← assign path key value inner))
      else none
    | some (.tables rows) =>
      match path, rows.reverse with
      | _ :: _, last :: before => do
        return entries.replace step (.tables (((← assign path key value last) :: before).reverse))
      | _, _ => none
    | some _ => none

/-! ### Sections -/

/-- How a header opens its table: as a table, or as the next one of several. -/
inductive Opening
  | single
  | repeated
deriving DecidableEq, Repr

/-- Adds the table of a header at a path. The assignments of its section are made by `fill`. A table
    that was implied before keeps what is in it, and takes its place at the header. -/
def openTable (opening : Opening) (fill : Entries → Option Entries) : (path : List String) → Entries →
    Option Entries
  | [], _ => none
  | [key], entries =>
    match opening, entries.lookup key with
    | .single, none => do return entries ++ [(key, .table .header (← fill []))]
    | .single, some (.table .implied inner) => do
      return entries.erase key ++ [(key, .table .header (← fill inner))]
    | .repeated, none => do return entries ++ [(key, .tables [← fill []])]
    | .repeated, some (.tables rows) => do return entries.replace key (.tables (rows ++ [← fill []]))
    | _, _ => none
  | step :: path, entries =>
    match entries.lookup step with
    | none => do return entries ++ [(step, .table .implied (← openTable opening fill path []))]
    | some (.table origin inner) =>
      if origin = .inline then none
      else do return entries.replace step (.table origin (← openTable opening fill path inner))
    | some (.tables rows) =>
      match rows.reverse with
      | last :: before => do
        return entries.replace step (.tables (((← openTable opening fill path last) :: before).reverse))
      | [] => none
    | some _ => none

end Entries

/-! ### Documents -/

/-- A key with the dotted keys before it. -/
structure Key where
  path : List String
  last : String
deriving DecidableEq, Repr

def Key.names (k : Key) : List String :=
  k.path ++ [k.last]

abbrev Assignment := Key × Value

/-- A header with the assignments under it. -/
structure Section where
  opening : Entries.Opening
  name : Key
  assignments : List Assignment

/-- The assignments before the first header, and the sections. -/
structure Document where
  assignments : List Assignment
  sections : List Section

/-- Makes assignments in turn. -/
def assignAll (assignments : List Assignment) (entries : Entries) : Option Entries :=
  assignments.foldlM (fun entries (key, value) => entries.assign key.path key.last value) entries

/-- The table of a document, if it keeps the rules. -/
def Document.table? (d : Document) : Option Entries := do
  let root ← assignAll d.assignments []
  d.sections.foldlM (fun root s => root.openTable s.opening (assignAll s.assignments) s.name.names) root

end SyntheticRows.Toml
