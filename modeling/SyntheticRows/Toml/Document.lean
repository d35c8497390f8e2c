import SyntheticRows.Toml.Scalar

/-!
Reading TOML values, statements and whole documents.
-/

namespace SyntheticRows.Toml

/-! ### Keys -/

def isBareKeyChar (c : Char) : Bool :=
  c.isAlphanum || c == '_' || c == '-'

/-- Reads one key: bare, or a string in one line. -/
def simpleKey? : Reader String := fun s =>
  match s with
  | '"' :: rest => lineString '"' (rest.length + 1) [] rest
  | '\'' :: rest => lineString '\'' (rest.length + 1) [] rest
  | s =>
    let key := s.takeWhile isBareKeyChar
    if key = [] then none else some (String.ofList key, s.dropWhile isBareKeyChar)

/-- Nesting goes less deep than this, in values and in keys. -/
def depthLimit : Nat := 80

/-- Reads a key and the dotted keys before it, with blanks around each. -/
def dottedKey? : (fuel : Nat) → (reversed : List String) → Reader Key
  | 0, _, _ => none
  | fuel + 1, reversed, s => do
    let (key, s) ← simpleKey? (skipBlanks s)
    match skipBlanks s with
    | '.' :: rest => dottedKey? fuel (key :: reversed) rest
    | rest => some (⟨reversed.reverse, key⟩, rest)

def key? : Reader Key :=
  dottedKey? (depthLimit - 1) []

/-! ### Values -/

/-- Reads the items of a list after its opening bracket. Comments and line ends may stand anywhere, and a
    comma after the last item. -/
def listItems? (item : Reader Value) : (fuel : Nat) → (reversed : List Value) → Reader Value
  | 0, _, _ => none
  | fuel + 1, reversed, s =>
    match skipLines false s with
    | ']' :: rest => some (.list reversed.reverse, rest)
    | s => do
      let (value, s) ← item s
      match skipLines false s with
      | ',' :: rest => listItems? item fuel (value :: reversed) rest
      | ']' :: rest => some (.list (value :: reversed).reverse, rest)
      | _ => none

/-- Reads an assignment up to the end of its value. -/
def assignment? (item : Reader Value) : Reader Assignment := fun s => do
  let (key, s) ← key? s
  match s with
  | '=' :: rest =>
    let (value, s) ← item (skipBlanks rest)
    return ((key, value), s)
  | _ => none

/-- Reads the assignments of a table between braces, at least one, after the opening brace. -/
def inlineAssignments? (item : Reader Value) : (fuel : Nat) → (reversed : List Assignment) →
    Reader (List Assignment)
  | 0, _, _ => none
  | fuel + 1, reversed, s => do
    let (assignment, s) ← assignment? item s
    match skipBlanks s with
    | ',' :: rest => inlineAssignments? item fuel (assignment :: reversed) rest
    | '\x7d' :: rest => some ((assignment :: reversed).reverse, rest)
    | _ => none

/-- Reads a table after its opening brace. -/
def inlineTable? (item : Reader Value) : Reader Value := fun s =>
  match skipBlanks s with
  | '\x7d' :: rest => some (.table .inline [], rest)
  | s => do
    let (assignments, rest) ← inlineAssignments? item s.length [] s
    return (.table .inline (← assignAll assignments []), rest)

/-- Reads a value that nests lists and tables at most so deep. -/
def value? : (depth : Nat) → Reader Value
  | 0, s =>
    match s with
    | '"' :: _ | '\'' :: _ => (string? s).map fun (text, rest) => (.text text, rest)
    | s => scalar? s
  | depth + 1, s =>
    match s with
    | '"' :: _ | '\'' :: _ => (string? s).map fun (text, rest) => (.text text, rest)
    | '[' :: rest => listItems? (value? depth) (rest.length + 1) [] rest
    | '\x7b' :: rest => inlineTable? (value? depth) rest
    | s => scalar? s

/-! ### Statements -/

inductive Statement
  | assign (assignment : Assignment)
  | opens (opening : Entries.Opening) (name : Key)

/-- Reads a statement with the end of its line. -/
def statement? : Reader Statement
  | '[' :: '[' :: rest => do
    let (name, s) ← key? rest
    match s with
    | ']' :: ']' :: rest => return (.opens .repeated name, ← lineEnd? rest)
    | _ => none
  | '[' :: rest => do
    let (name, s) ← key? rest
    match s with
    | ']' :: rest => return (.opens .single name, ← lineEnd? rest)
    | _ => none
  | s => do
    let (assignment, s) ← assignment? (value? (depthLimit - 1)) s
    return (.assign assignment, ← lineEnd? s)

/-- Reads all statements of a text. Each takes at least a character off it. -/
def statements? : (fuel : Nat) → (reversed : List Statement) → List Char → Option (List Statement)
  | 0, _, _ => none
  | fuel + 1, reversed, s =>
    match skipLines false s with
    | [] => some reversed.reverse
    | s => do
      let (statement, rest) ← statement? s
      statements? fuel (statement :: reversed) rest

/-- Adds a statement before the document that follows it. -/
def Document.cons (statement : Statement) (d : Document) : Document :=
  match statement with
  | .assign assignment => { d with assignments := assignment :: d.assignments }
  | .opens opening name => ⟨[], ⟨opening, name, d.assignments⟩ :: d.sections⟩

def Document.ofStatements (statements : List Statement) : Document :=
  statements.foldr Document.cons ⟨[], []⟩

/-- Reads a document. A mark of the byte order may stand before it. -/
def parse? (s : List Char) : Option Entries := do
  let s := match s with
    | '\ufeff' :: rest => rest
    | s => s
  (Document.ofStatements (← statements? (s.length + 1) [] s)).table?

end SyntheticRows.Toml
