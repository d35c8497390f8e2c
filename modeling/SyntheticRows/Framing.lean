import SyntheticRows.Pass

/-!
How the rows of a pass are framed: as bare lines, or as one statement for each pass. Table names are
identifiers joined by dots, since they become part of the statement as they are.
-/

namespace SyntheticRows

/-! ### Table names -/

namespace TableName

/-- A character that an identifier may begin with. -/
def isHead (c : Char) : Bool :=
  c.isAlpha || c == '_'

/-- A character that may follow in an identifier. -/
def isTail (c : Char) : Bool :=
  c.isAlphanum || c == '_'

mutual

/-- Identifiers joined by dots, the first of them still to begin. -/
def beginsValid : List Char → Bool
  | [] => false
  | c :: rest => isHead c && continuesValid rest

/-- The rest of an identifier, and identifiers after dots. -/
def continuesValid : List Char → Bool
  | [] => true
  | c :: rest => if c = '.' then beginsValid rest else isTail c && continuesValid rest

end

def isValid (name : String) : Bool :=
  beginsValid name.toList

end TableName

/-! ### Framings -/

inductive Framing
  /-- A line for each row, its tuple and a comma. -/
  | lines
  /-- A statement for each pass, which inserts the rows into the table of the pass. -/
  | statements (readingTable positionTable : String)
deriving DecidableEq, Repr

namespace Framing

def defaultReadingTable : String :=
  "btc_usd_price"

def defaultPositionTable : String :=
  "trader_order"

/-- Statements for the tables that are used where no others are named. -/
def defaultStatements : Framing :=
  .statements defaultReadingTable defaultPositionTable

/-- The table into which the statement of a pass inserts. -/
def table? : Framing → Pass → Option String
  | .lines, _ => none
  | .statements readingTable _, .readings => some readingTable
  | .statements _ positionTable, .positions => some positionTable

/-- The opening of the statement of a pass: everything before its first tuple. -/
def header (table : String) (columns : List String) : List Char :=
  "INSERT INTO ".toList ++ table.toList ++ " (".toList ++
    [',', ' '].intercalate (columns.map String.toList) ++ ") VALUES\n".toList

end Framing

end SyntheticRows
