import SyntheticRows.Decimal.Shortest
import SyntheticRows.Digits

/-!
JSON values and their text, on one line or indented.
-/

namespace SyntheticRows

inductive Json
  | null
  | bool (value : Bool)
  | int (value : Int)
  | real (value : Binary64)
  | text (value : String)
  | list (items : List Json)
  /-- The members of an object, in the order in which they are written. -/
  | object (members : List (String × Json))

namespace Json

/-! ### Scalars -/

/-- A character inside a string: quotes, backslashes and control characters are escaped, with a short
    escape where there is one. -/
def escaped (c : Char) : List Char :=
  if c = '"' then ['\\', '"']
  else if c = '\\' then ['\\', '\\']
  else if c = '\x08' then ['\\', 'b']
  else if c = '\t' then ['\\', 't']
  else if c = '\n' then ['\\', 'n']
  else if c = '\x0c' then ['\\', 'f']
  else if c = '\r' then ['\\', 'r']
  else if c.toNat < 32 then '\\' :: 'u' :: '0' :: '0' :: Digits.ofByte c.toUInt8
  else [c]

def quoted (text : String) : List Char :=
  '"' :: text.toList.flatMap escaped ++ ['"']

/-- The text of a number: its shortest decimal. JSON has no text for the values that are no finite
    number, so they are written as null. -/
def realText (x : Binary64) : List Char :=
  if !x.isFinite then "null".toList
  else
    let sign := if x.isNegative then ['-'] else []
    sign ++ if x.rank = 0 then "0.0".toList else (Binary64.shortest x.rank .even).scientific

/-! ### On one line -/

mutual

/-- The text without any white space. -/
def compact : Json → List Char
  | null => "null".toList
  | bool true => "true".toList
  | bool false => "false".toList
  | int n => Decimal.signedNumeral n
  | real x => realText x
  | text s => quoted s
  | list items => '[' :: [','].intercalate (compactItems items) ++ [']']
  | object members => '{' :: [','].intercalate (compactMembers members) ++ ['}']

def compactItems : List Json → List (List Char)
  | [] => []
  | item :: rest => compact item :: compactItems rest

def compactMembers : List (String × Json) → List (List Char)
  | [] => []
  | (name, value) :: rest => (quoted name ++ ':' :: compact value) :: compactMembers rest

end

/-! ### Indented -/

/-- A new line, indented by two spaces for each level. -/
def newLine (depth : Nat) : List Char :=
  '\n' :: List.replicate (2 * depth) ' '

/-- Items between brackets, each on a line of its own; nothing between them if there are none. -/
def bracketed (depth : Nat) (opening closing : Char) (items : List (List Char)) : List Char :=
  if items.isEmpty then [opening, closing]
  else
    opening :: newLine (depth + 1) ++ (',' :: newLine (depth + 1)).intercalate items ++
      newLine depth ++ [closing]

mutual

/-- The text with every item and member on a line of its own. -/
def pretty (depth : Nat) : Json → List Char
  | list items => bracketed depth '[' ']' (prettyItems (depth + 1) items)
  | object members => bracketed depth '{' '}' (prettyMembers (depth + 1) members)
  | scalar => compact scalar

def prettyItems (depth : Nat) : List Json → List (List Char)
  | [] => []
  | item :: rest => pretty depth item :: prettyItems depth rest

def prettyMembers (depth : Nat) : List (String × Json) → List (List Char)
  | [] => []
  | (name, value) :: rest =>
    (quoted name ++ ':' :: ' ' :: pretty depth value) :: prettyMembers depth rest

end

end Json

end SyntheticRows
