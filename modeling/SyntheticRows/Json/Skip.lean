import SyntheticRows.Json.Reader

/-!
Skipping JSON values. A value of any depth is skipped by one walk over the text that keeps the brackets
that are open.
-/

namespace SyntheticRows.Json

/-- An open bracket. -/
inductive Bracket
  | list
  | object
deriving DecidableEq, Repr

namespace Bracket

def closing : Bracket → Char
  | list => ']'
  | object => '}'

end Bracket

/-! ### Scalars -/

/-- Skips a string after its opening quote. An escaped surrogate may stand alone in it. -/
def skipString : List Char → Except Fault (List Char)
  | [] => .error .malformed
  | '"' :: rest => .ok rest
  | '\\' :: 'u' :: a :: b :: c :: d :: rest =>
    if (hex4? a b c d).isSome then skipString rest else .error .malformed
  | '\\' :: c :: rest =>
    if (shortEscape? c).isSome then skipString rest else .error .malformed
  | c :: rest => if c = '\\' ∨ c.toNat < 32 then .error .malformed else skipString rest

/-- Skips digits, at least one. -/
def skipDigits (s : List Char) : Except Fault (List Char) :=
  match s with
  | c :: rest => if c.isDigit then .ok (rest.dropWhile Char.isDigit) else .error .malformed
  | [] => .error .malformed

def skipExponent : List Char → Except Fault (List Char)
  | '+' :: rest | '-' :: rest => skipDigits rest
  | rest => skipDigits rest

/-- Skips a number after its sign. -/
def skipNumber (s : List Char) : Except Fault (List Char) := do
  let rest ← match s with
    | '0' :: d :: rest => if d.isDigit then .error .malformed else .ok (d :: rest)
    | s => skipDigits s
  match rest with
  | '.' :: rest =>
    match ← skipDigits rest with
    | 'e' :: rest | 'E' :: rest => skipExponent rest
    | rest => .ok rest
  | 'e' :: rest | 'E' :: rest => skipExponent rest
  | rest => .ok rest

/-- Skips a value that is neither a list nor an object. -/
def skipScalar : List Char → Except Fault (List Char)
  | 'n' :: rest => expectWord ['u', 'l', 'l'] rest
  | 't' :: rest => expectWord ['r', 'u', 'e'] rest
  | 'f' :: rest => expectWord ['a', 'l', 's', 'e'] rest
  | '"' :: rest => skipString rest
  | '-' :: rest => skipNumber rest
  | c :: rest => if c.isDigit then skipNumber (c :: rest) else .error .malformed
  | [] => .error .malformed

/-! ### Values -/

/-- Skips the name of a member and the colon after it. -/
def skipName (s : List Char) : Except Fault (List Char) := do
  let rest ← expect '"' s
  let rest ← skipString rest
  expect ':' rest

/-- After a value inside the open brackets: closes as many of them as close here, and goes on to the
    next value of the first that does not. Ends when none is open. -/
def skipClosings : (fuel : Nat) → List Bracket → List Char → Except Fault (List Bracket × List Char)
  | 0, _, _ => .error .malformed
  | _ + 1, [], s => .ok ([], s)
  | fuel + 1, open_ :: outer, s =>
    match skipBlanks s with
    | ',' :: rest =>
      match open_ with
      | .list => .ok (open_ :: outer, rest)
      | .object => do return (open_ :: outer, ← skipName rest)
    | c :: rest => if c = open_.closing then skipClosings fuel outer rest else .error .malformed
    | [] => .error .malformed

/-- Skips a value inside open brackets, and what follows until no bracket is open. -/
def skipFrom : (fuel : Nat) → List Bracket → List Char → Except Fault (List Char)
  | 0, _, _ => .error .malformed
  | fuel + 1, outer, s => do
    let (outer, rest, closed) ← match skipBlanks s with
      | '[' :: rest =>
        match skipBlanks rest with
        | ']' :: rest => .ok (outer, rest, true)
        | rest => .ok (.list :: outer, rest, false)
      | '{' :: rest =>
        match skipBlanks rest with
        | '}' :: rest => .ok (outer, rest, true)
        | rest => do pure (.object :: outer, ← skipName rest, false)
      | s => do pure (outer, ← skipScalar s, true)
    if closed then
      let (outer, rest) ← skipClosings (outer.length + 1) outer rest
      if outer.isEmpty then .ok rest else skipFrom fuel outer rest
    else skipFrom fuel outer rest

/-- Skips a value. Each step but the last takes a character off the text. -/
def skipValue (s : List Char) : Except Fault (List Char) :=
  skipFrom (s.length + 1) [] s

end SyntheticRows.Json
