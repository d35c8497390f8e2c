import SyntheticRows.Digits

/-!
Reading TOML: blanks, comments, the ends of lines, and strings. A reader takes something off the front
of a text and gives the rest.
-/

namespace SyntheticRows.Toml

/-- Takes a value off the front of a text. -/
abbrev Reader (α : Type) := List Char → Option (α × List Char)

/-! ### Blanks and lines -/

def isBlank (c : Char) : Bool :=
  c == ' ' || c == '\t'

def skipBlanks (s : List Char) : List Char :=
  s.dropWhile isBlank

/-- A character that may stand as it is in a comment or a string: no control character but the tab. -/
def isPrintable (c : Char) : Bool :=
  c == '\t' || (32 ≤ c.toNat && c.toNat != 127)

/-- Skips the end of a line. -/
def newline? : List Char → Option (List Char)
  | '\n' :: rest => some rest
  | '\r' :: '\n' :: rest => some rest
  | _ => none

/-- Skips blanks and a comment. -/
def skipComment (s : List Char) : List Char :=
  match skipBlanks s with
  | '#' :: rest => rest.dropWhile isPrintable
  | s => s

/-- Skips what may stand behind a statement: blanks and a comment, up to the end of the line or of the
    text. -/
def lineEnd? (s : List Char) : Option (List Char) :=
  match skipComment s with
  | [] => some []
  | s => newline? s

/-- Skips blanks, comments and the ends of lines. -/
def skipLines (inComment : Bool) : List Char → List Char
  | '\n' :: rest => skipLines false rest
  | '\r' :: '\n' :: rest => skipLines false rest
  | c :: rest =>
    if inComment then
      if isPrintable c then skipLines true rest else c :: rest
    else if isBlank c then skipLines false rest
    else if c = '#' then skipLines true rest
    else c :: rest
  | [] => []

/-! ### Strings -/

/-- The character with a code in hexadecimal digits. -/
def charOfHex? (digits : List Char) : Option Char :=
  let code := Digits.valueIn 16 digits
  if digits.all (Digits.hex? · |>.isSome) ∧ code.isValidChar then some (Char.ofNat code) else none

/-- What an escape of one letter stands for. -/
def shortEscape? (c : Char) : Option Char :=
  match c with
  | 'b' => some '\x08'
  | 't' => some '\t'
  | 'n' => some '\n'
  | 'f' => some '\x0c'
  | 'r' => some '\r'
  | '"' => some '"'
  | '\\' => some '\\'
  | _ => none

/-- Reads an escape after its backslash. -/
def escape? : Reader Char
  | 'u' :: a :: b :: c :: d :: rest => do return (← charOfHex? [a, b, c, d], rest)
  | 'U' :: a :: b :: c :: d :: e :: f :: g :: h :: rest => do
    return (← charOfHex? [a, b, c, d, e, f, g, h], rest)
  | c :: rest => do return (← shortEscape? c, rest)
  | [] => none

/-- Skips the end of a line after a backslash, and the blanks and empty lines after it. -/
def continuation? (s : List Char) : Option (List Char) := do
  let rest ← newline? (skipBlanks s)
  return skipEmpty rest
where
  skipEmpty : List Char → List Char
    | '\n' :: rest => skipEmpty rest
    | '\r' :: '\n' :: rest => skipEmpty rest
    | c :: rest => if isBlank c then skipEmpty rest else c :: rest
    | [] => []

/-- Reads a string in one line after its opening quote. Escapes stand in those with double quotes only.
    The fuel bounds the number of characters, and the length of the text is enough. -/
def lineString (quote : Char) : (fuel : Nat) → (reversed : List Char) → Reader String
  | 0, _, _ => none
  | _ + 1, _, [] => none
  | fuel + 1, reversed, c :: rest =>
    if c = quote then some (String.ofList reversed.reverse, rest)
    else if c = '\\' ∧ quote = '"' then do
      let (d, rest) ← escape? rest
      lineString quote fuel (d :: reversed) rest
    else if isPrintable c then lineString quote fuel (c :: reversed) rest
    else none

/-- Reads a string of several lines after its three opening quotes and the end of their line. One or
    two quotes may stand anywhere in it, also before the three that close it. -/
def blockString (quote : Char) : (fuel : Nat) → (reversed : List Char) → Reader String
  | 0, _, _ => none
  | _ + 1, _, [] => none
  | fuel + 1, reversed, c :: rest =>
    if c = quote then
      let more := rest.takeWhile (· == quote)
      if 2 ≤ more.length then
        let kept := min (more.length - 2) 2
        some (String.ofList (List.replicate kept quote ++ reversed).reverse, rest.drop (kept + 2))
      else blockString quote fuel (quote :: reversed) rest
    else if c = '\\' ∧ quote = '"' then
      match continuation? rest with
      | some rest => blockString quote fuel reversed rest
      | none => do
        let (d, rest) ← escape? rest
        blockString quote fuel (d :: reversed) rest
    else
      match newline? (c :: rest) with
      | some rest => blockString quote fuel ('\n' :: reversed) rest
      | none => if isPrintable c then blockString quote fuel (c :: reversed) rest else none

/-- Reads a string of any of the four notations. -/
def string? : Reader String
  | '"' :: '"' :: '"' :: rest => blockString '"' (rest.length + 1) [] ((newline? rest).getD rest)
  | '\'' :: '\'' :: '\'' :: rest => blockString '\'' (rest.length + 1) [] ((newline? rest).getD rest)
  | '"' :: rest => lineString '"' (rest.length + 1) [] rest
  | '\'' :: rest => lineString '\'' (rest.length + 1) [] rest
  | _ => none

end SyntheticRows.Toml
