import SyntheticRows.Digits
import SyntheticRows.Wording

/-!
Reading JSON: faults, blanks, strings and lists. A reader takes a value off the front of a text and
gives the rest; the first fault in the order of the text ends the reading.
-/

namespace SyntheticRows.Json

/-- Why a text is refused. -/
inductive Fault
  /-- The text is no JSON, or no JSON of the expected shape. -/
  | malformed
  | missingField (name : String)
  | duplicateField (name : String)
  | unknownVariant (name : String) (expected : List String)
deriving DecidableEq, Repr

namespace Fault

/-- The wording of the faults that name something. -/
def message? : Fault → Option String
  | malformed => none
  | missingField name => some (Wording.missingField name)
  | duplicateField name => some (Wording.duplicateField name)
  | unknownVariant name expected => some (Wording.unknownVariant name expected)

end Fault

/-- Takes a value off the front of a text, blanks before it included. -/
abbrev Reader (α : Type) := List Char → Except Fault (α × List Char)

/-! ### Blanks and punctuation -/

def isBlank (c : Char) : Bool :=
  c == ' ' || c == '\t' || c == '\n' || c == '\r'

def skipBlanks (s : List Char) : List Char :=
  s.dropWhile isBlank

/-- Skips blanks and one expected character. -/
def expect (c : Char) (s : List Char) : Except Fault (List Char) :=
  match skipBlanks s with
  | d :: rest => if c = d then .ok rest else .error .malformed
  | [] => .error .malformed

/-- Skips the letters of a word, which stand at once. -/
def expectWord : List Char → List Char → Except Fault (List Char)
  | [], s => .ok s
  | c :: word, d :: rest => if c = d then expectWord word rest else .error .malformed
  | _ :: _, [] => .error .malformed

/-- Reads a whole text: a value, and nothing but blanks after it. -/
def readAll {α : Type} (read : Reader α) (s : List Char) : Except Fault α := do
  let (value, rest) ← read s
  if skipBlanks rest = [] then .ok value else .error .malformed

/-! ### Strings -/

/-- A number of four hexadecimal digits. -/
def hex4? (a b c d : Char) : Option Nat := do
  return (((← Digits.hex? a) * 16 + (← Digits.hex? b)) * 16 + (← Digits.hex? c)) * 16 + (← Digits.hex? d)

/-- What a short escape stands for. -/
def shortEscape? (c : Char) : Option Char :=
  match c with
  | '"' => some '"'
  | '\\' => some '\\'
  | '/' => some '/'
  | 'b' => some '\x08'
  | 'f' => some '\x0c'
  | 'n' => some '\n'
  | 'r' => some '\r'
  | 't' => some '\t'
  | _ => none

def isHighSurrogate (n : Nat) : Bool :=
  0xD800 ≤ n && n < 0xDC00

def isLowSurrogate (n : Nat) : Bool :=
  0xDC00 ≤ n && n < 0xE000

/-- Reads a string after its opening quote. A character beyond 16 bits may be escaped as a pair of
    surrogates; a surrogate alone is refused, and so is a control character that is not escaped. -/
def stringBody (reversed : List Char) : Reader (List Char)
  | [] => .error .malformed
  | '"' :: rest => .ok (reversed.reverse, rest)
  | '\\' :: 'u' :: a :: b :: c :: d :: rest =>
    match hex4? a b c d with
    | none => .error .malformed
    | some n =>
      if isLowSurrogate n then .error .malformed
      else if isHighSurrogate n then
        match rest with
        | '\\' :: 'u' :: e :: f :: g :: h :: rest =>
          match hex4? e f g h with
          | none => .error .malformed
          | some low =>
            if isLowSurrogate low then
              let code := 0x10000 + (n - 0xD800) * 0x400 + (low - 0xDC00)
              stringBody (Char.ofNat code :: reversed) rest
            else .error .malformed
        | _ => .error .malformed
      else stringBody (Char.ofNat n :: reversed) rest
  | '\\' :: c :: rest =>
    match shortEscape? c with
    | some d => stringBody (d :: reversed) rest
    | none => .error .malformed
  | c :: rest =>
    if c = '\\' ∨ c.toNat < 32 then .error .malformed else stringBody (c :: reversed) rest

/-- Reads a string. -/
def string : Reader String := fun s => do
  let rest ← expect '"' s
  let (chars, rest) ← stringBody [] rest
  return (String.ofList chars, rest)

/-! ### Lists -/

/-- Reads items up to a closing bracket, separated by commas; at least one. The fuel bounds the number
    of items, and the length of the text is enough. -/
def separated {σ : Type} (closing : Char) (item : σ → Reader σ) :
    (fuel : Nat) → σ → Reader σ
  | 0, _, _ => .error .malformed
  | fuel + 1, acc, s => do
    let (acc, s) ← item acc s
    match skipBlanks s with
    | c :: rest =>
      if c = ',' then separated closing item fuel acc rest
      else if c = closing then .ok (acc, rest)
      else .error .malformed
    | [] => .error .malformed

/-- Reads items between brackets; there may be none. The opening bracket is already read. -/
def enclosed {σ : Type} (closing : Char) (item : σ → Reader σ) (start : σ) : Reader σ := fun s =>
  match skipBlanks s with
  | c :: rest => if c = closing then .ok (start, rest) else separated closing item s.length start s
  | [] => .error .malformed

/-- Reads a list of values. -/
def array {α : Type} (read : Reader α) : Reader (List α) := fun s => do
  let rest ← expect '[' s
  let item (acc : List α) : Reader (List α) := fun s => do
    let (value, rest) ← read s
    return (value :: acc, rest)
  let (reversed, rest) ← enclosed ']' item [] rest
  return (reversed.reverse, rest)

/-- Reads a value that may be null. -/
def optional {α : Type} (read : Reader α) : Reader (Option α) := fun s =>
  match skipBlanks s with
  | 'n' :: rest => do
    let rest ← expectWord ['u', 'l', 'l'] rest
    return (none, rest)
  | _ => do
    let (value, rest) ← read s
    return (some value, rest)

/-- Reads the word null. -/
def nullWord : Reader Unit := fun s => do
  let rest ← expectWord ['n', 'u', 'l', 'l'] (skipBlanks s)
  return ((), rest)

end SyntheticRows.Json
