import SyntheticRows.CharClass.Alphabetic
import SyntheticRows.CharClass.Numeric
import SyntheticRows.Digits
import SyntheticRows.Log.Pattern

/-!
Reading patterns. The text of a pattern holds no closing brace, because that ends the fields of a
directive, so nothing that needs one is read: counted repetitions, names of kinds of characters, code
points of any number of digits.
-/

namespace SyntheticRows.Log.Pattern

/-! ### Blanks -/

/-- Passes over blanks, and over comments, which go from a number sign to the end of the line. -/
def skipBlanks (inComment : Bool) : List Char → List Char
  | [] => []
  | c :: rest =>
    if inComment then skipBlanks (c != '\n') rest
    else if c = '#' then skipBlanks true rest
    else if CharClass.isSpace c then skipBlanks false rest
    else c :: rest

/-- Passes over what has no meaning at a place. -/
def skip (spaced : Bool) (text : List Char) : List Char :=
  if spaced then skipBlanks false text else text

/-- The next character that has a meaning, where only the sign of a comment is passed over. -/
def peek (spaced : Bool) (text : List Char) : Option Char :=
  if spaced then
    match text.dropWhile CharClass.isSpace with
    | '#' :: rest => (rest.dropWhile CharClass.isSpace).head?
    | rest => rest.head?
  else text.head?

/-! ### Items -/

/-- Reads hexadecimal digits of a number after a value that is already read. -/
def hexadecimal? (spaced : Bool) : (width : Nat) → (value : Nat) → List Char → Option (Char × List Char)
  | 0, value, rest => if value.isValidChar then some (Char.ofNat value, rest) else none
  | width + 1, value, text =>
    match skip spaced text with
    | c :: rest => (Digits.hex? c).bind fun d => hexadecimal? spaced width (value * 16 + d) rest
    | [] => none

/-- The control character that a letter stands for. -/
def control? (c : Char) : Option Char :=
  match c with
  | 'a' => some '\x07'
  | 't' => some '\t'
  | 'n' => some '\n'
  | 'v' => some '\x0b'
  | 'f' => some '\x0c'
  | 'r' => some '\r'
  | _ => none

/-- Reads what follows a backslash. Letters and digits without a meaning are refused, and so is all that
    is not ASCII; other characters stand for themselves. -/
def escape? (spaced : Bool) : List Char → Option (PatternItem × List Char)
  | [] => none
  | c :: rest =>
    match c with
    | 'x' => (hexadecimal? spaced 2 0 rest).map fun (c, rest) => (.byte c, rest)
    | 'u' => (hexadecimal? spaced 4 0 rest).map fun (c, rest) => (.char c, rest)
    | 'U' => (hexadecimal? spaced 8 0 rest).map fun (c, rest) => (.char c, rest)
    | 'd' | 's' | 'w' => some (.kind false, rest)
    | 'D' | 'S' | 'W' => some (.kind true, rest)
    | 'A' | 'z' => some (.edge, rest)
    | 'b' | 'B' | '<' | '>' => some (.wordEdge, rest)
    | c =>
      match control? c with
      | some control => some (.char control, rest)
      | none => if c.toNat < 0x80 ∧ ¬c.isAlphanum then some (.char c, rest) else none

/-! ### Sets -/

/-- The names of classes of ASCII characters. -/
def classNames : List String :=
  ["alnum", "alpha", "ascii", "blank", "cntrl", "digit", "graph", "lower", "print", "punct", "space",
    "upper", "word", "xdigit"]

/-- Reads a class by its name after an opening bracket. -/
def named? : List Char → Option (PatternSet × List Char)
  | ':' :: rest =>
    let negated := rest.head? == some '^'
    let rest := if negated then rest.tail else rest
    let name := rest.takeWhile (· != ':')
    match rest.drop name.length with
    | ':' :: ']' :: rest => if String.ofList name ∈ classNames then some (.named negated, rest) else none
    | _ => none
  | _ => none

/-- Reads a character or an escape of a set. -/
def setItem? (spaced : Bool) : List Char → Option (PatternItem × List Char)
  | [] => none
  | '\\' :: rest => escape? spaced rest
  | c :: rest => some (.char c, rest)

/-- The character that an item stands for, if it stands for one. -/
def endpoint? : PatternItem → Option Char
  | .char c | .byte c => some c
  | _ => none

/-- Reads a character, an escape or a range of characters. A hyphen before the end of the set or before
    another hyphen makes no range. -/
def setPart? (spaced : Bool) (text : List Char) : Option (PatternSet × List Char) := do
  let (first, rest) ← setItem? spaced text
  match skip spaced rest with
  | [] => none
  | '-' :: after =>
    let next := peek spaced after
    if next = some ']' ∨ next = some '-' then
      return (← PatternSet.ofItem? first, '-' :: after)
    else
      let (last, rest) ← setItem? spaced (skip spaced after)
      let first ← endpoint? first
      let last ← endpoint? last
      if first ≤ last then return (.range first last, rest) else none
  | rest => return (← PatternSet.ofItem? first, rest)

/-- A bracket that is being read. -/
structure Bracket where
  negated : Bool := false
  /-- What stands before the last operator. -/
  left : Option PatternSet := none
  /-- What stands after it, the newest first. -/
  parts : List PatternSet := []
  /-- Whether nothing but hyphens has been read. -/
  isFresh : Bool := true

namespace Bracket

def add (b : Bracket) (part : PatternSet) : Bracket :=
  { b with parts := part :: b.parts, isFresh := false }

/-- The set that is read so far. -/
def inner (b : Bracket) : PatternSet :=
  let right := PatternSet.ofParts b.parts.reverse
  b.left.elim right (.combined · right)

def close (b : Bracket) : PatternSet :=
  .bracket b.negated b.inner

/-- Goes on after an operator. -/
def operator (b : Bracket) : Bracket :=
  { b with left := some b.inner, parts := [], isFresh := false }

/-- Reads the beginning of a bracket after its sign. -/
def start (spaced : Bool) (text : List Char) : Bracket × List Char :=
  match skip spaced text with
  | '^' :: rest => ({ negated := true }, rest)
  | rest => ({}, rest)

/-- Reads a bracket to its end. At its beginning hyphens, or a closing sign alone, stand for themselves.
    The fuel bounds the number of parts, and the length of the text is enough. -/
def readFrom (spaced : Bool) : (fuel : Nat) → Bracket → (outer : List Bracket) → List Char →
    Option (PatternSet × List Char)
  | 0, _, _, _ => none
  | fuel + 1, b, outer, text =>
    match skip spaced text with
    | [] => none
    | c :: rest =>
      if b.isFresh ∧ c = '-' then
        readFrom spaced fuel { b.add (.char c) with isFresh := true } outer rest
      else if b.isFresh ∧ c = ']' ∧ b.parts.isEmpty then readFrom spaced fuel (b.add (.char c)) outer rest
      else if c = '[' then
        match named? rest with
        | some (part, rest) => readFrom spaced fuel (b.add part) outer rest
        | none =>
          let (opened, rest) := start spaced rest
          readFrom spaced fuel opened ({ b with isFresh := false } :: outer) rest
      else if c = ']' then
        match outer with
        | [] => some (b.close, rest)
        | above :: outer => readFrom spaced fuel (above.add b.close) outer rest
      else if c ∈ ['&', '-', '~'] ∧ rest.head? = some c then
        readFrom spaced fuel b.operator outer rest.tail
      else
        match setPart? spaced (c :: rest) with
        | some (part, rest) => readFrom spaced fuel (b.add part) outer rest
        | none => none

end Bracket

/-! ### Groups -/

/-- Reads switches up to the end of their group or to the colon before what it holds. A hyphen may stand
    among them once, and those after it are switched off. -/
def switches? (s : Switches) (negated dangling : Bool) : List Char → Option (Switches × Char × List Char)
  | [] => none
  | c :: rest =>
    if c = ':' ∨ c = ')' then if dangling then none else some (s, c, rest)
    else if c = '-' then if negated then none else switches? s true true rest
    else do
      let switch ← Switch.ofLetter? c
      if switch ∈ s.on ∨ switch ∈ s.off then none
      else if negated then switches? { s with off := switch :: s.off } true false rest
      else switches? { s with on := switch :: s.on } false false rest

/-- Whether a text can name a group: a letter or an underscore, and then also digits, points and
    brackets. -/
def isGroupName : List Char → Bool
  | [] => false
  | c :: rest =>
    (c == '_' || CharClass.isAlphabetic c) &&
      rest.all fun c => c ∈ ['_', '.', '[', ']'] || CharClass.isAlphabetic c || CharClass.isNumeric c

/-- Reads the name of a group and the sign after it. -/
def groupName? (text : List Char) : Option (List Char × List Char) :=
  let name := text.takeWhile (· != '>')
  match text.drop name.length with
  | _ :: rest => if isGroupName name then some (name, rest) else none
  | [] => none

/-- A group that is being read. -/
structure Group where
  switches : Switches := {}
  /-- Whether blanks in the group have no meaning. -/
  spaced : Bool := false
  /-- The branches that are done, the newest first. -/
  branches : List Pattern := []
  /-- The parts of the branch that is being read, the newest first. -/
  parts : List Pattern := []

namespace Group

def add (g : Group) (part : Pattern) : Group :=
  { g with parts := part :: g.parts }

/-- The branches so far with the one that is being read, the newest first. -/
def allBranches (g : Group) : List Pattern :=
  ofParts g.parts.reverse :: g.branches

/-- Begins another branch. -/
def branch (g : Group) : Group :=
  { g with branches := g.allBranches, parts := [] }

/-- The pattern that is read so far. -/
def inner (g : Group) : Pattern :=
  match g.allBranches with
  | [only] => only
  | branches => choice branches.reverse

/-- Repeats the newest part. -/
def repeatLast? (g : Group) : Option Group :=
  match g.parts with
  | part :: parts => if part.isRepeatable then some { g with parts := repeated part :: parts } else none
  | [] => none

end Group

/-- A pattern that is being read. -/
structure Reading where
  group : Group := {}
  /-- The groups around it, the innermost first. -/
  outer : List Group := []
  /-- The names of groups so far. -/
  names : List (List Char) := []

namespace Reading

def add (r : Reading) (part : Pattern) : Reading :=
  { r with group := r.group.add part }

/-- Begins a group within the one that is being read. -/
def enter (r : Reading) (s : Switches) : Reading :=
  { r with
    group := { switches := s, spaced := s.state .spaced r.group.spaced }
    outer := r.group :: r.outer }

/-- Ends the group that is being read. -/
def leave? (r : Reading) : Option Reading :=
  match r.outer with
  | above :: outer => some { r with group := above.add (.group r.group.switches r.group.inner), outer }
  | [] => none

/-- Reads the beginning of a group after its parenthesis, or switches for what follows. -/
def open? (r : Reading) (text : List Char) : Option (Reading × List Char) :=
  let enterNamed (text : List Char) : Option (Reading × List Char) := do
    let (name, rest) ← groupName? text
    if name ∈ r.names then none else return ({ r.enter {} with names := name :: r.names }, rest)
  match skip r.group.spaced text with
  | '?' :: 'P' :: '<' :: rest => enterNamed rest
  | '?' :: '<' :: rest => enterNamed rest
  | '?' :: rest => do
    let (s, ending, rest) ← switches? {} false false rest
    if ending = ':' then return (r.enter s, rest)
    else if s = {} then none
    else
      let group := { r.group.add (.switches s) with spaced := s.state .spaced r.group.spaced }
      return ({ r with group }, rest)
  | rest => some (r.enter {}, rest)

/-- Reads one sign and what belongs to it. -/
def advance? (r : Reading) (c : Char) (rest : List Char) : Option (Reading × List Char) :=
  match c with
  | '(' => r.open? rest
  | ')' => r.leave?.map (·, rest)
  | '|' => some ({ r with group := r.group.branch }, rest)
  | '[' =>
    let (bracket, rest) := Bracket.start r.group.spaced rest
    (bracket.readFrom r.group.spaced (rest.length + 1) [] rest).map fun (s, rest) =>
      (r.add (.set s), rest)
  | '?' | '*' | '+' =>
    let rest := if rest.head? = some '?' then rest.tail else rest
    r.group.repeatLast?.map fun group => ({ r with group }, rest)
  | '\x7b' => none
  | '\\' => (escape? r.group.spaced rest).map fun (i, rest) => (r.add (.item i), rest)
  | '.' => some (r.add (.item .any), rest)
  | '^' | '$' => some (r.add (.item .edge), rest)
  | c => some (r.add (.item (.char c)), rest)

/-- Reads a text to its end. The fuel bounds the number of signs, and the length of the text is
    enough. -/
def readFrom : (fuel : Nat) → Reading → List Char → Option Pattern
  | 0, _, _ => none
  | fuel + 1, r, text =>
    match skip r.group.spaced text with
    | [] => if r.outer.isEmpty then some r.group.inner else none
    | c :: rest => (r.advance? c rest).bind fun (r, rest) => readFrom fuel r rest

end Reading

/-- The pattern of a text. -/
def read? (text : List Char) : Option Pattern :=
  Reading.readFrom (text.length + 1) {} text

/-- Whether a text is a pattern with a meaning. -/
def accepts (text : List Char) : Bool :=
  (read? text).any (·.isSound)

end SyntheticRows.Log.Pattern
