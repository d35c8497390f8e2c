import SyntheticRows.Binary64
import SyntheticRows.Instant
import SyntheticRows.Toml
import SyntheticRows.Toml.Reader

/-!
TOML values that are written without quotes and brackets: numbers, dates and times, and the two truth
values.
-/

namespace SyntheticRows.Toml

/-! ### Digits -/

/-- The digits of a run in which single underscores may stand between digits. -/
def digitRun? (isDigit : Char → Bool) : (afterDigit : Bool) → List Char → Option (List Char)
  | afterDigit, [] => if afterDigit then some [] else none
  | afterDigit, c :: rest =>
    if isDigit c then (digitRun? isDigit true rest).map (c :: ·)
    else if c = '_' ∧ afterDigit then
      match rest with
      | d :: _ => if isDigit d then digitRun? isDigit false rest else none
      | [] => none
    else none

def decimalDigits? (s : List Char) : Option (List Char) :=
  digitRun? Char.isDigit false s

/-- The digits of a number without a leading zero. -/
def wholeDigits? (s : List Char) : Option (List Char) := do
  let digits ← decimalDigits? s
  if digits.length ≠ 1 ∧ digits.head? = some '0' then none else some digits

/-- A sign, if there is one, and the rest. -/
def takeSign : List Char → Bool × List Char
  | '-' :: rest => (true, rest)
  | '+' :: rest => (false, rest)
  | s => (false, s)

/-! ### Integers -/

/-- An integer that 64 bits with sign can hold. -/
def inRange? (n : Int) : Option Int :=
  if Int64.minValue.toInt ≤ n ∧ n ≤ Int64.maxValue.toInt then some n else none

def inBase? (base : Nat) (s : List Char) : Option Int := do
  let isDigit (c : Char) : Bool := (Digits.hex? c).any (· < base)
  inRange? (Digits.valueIn base (← digitRun? isDigit false s))

def integer? (s : List Char) : Option Int :=
  match s with
  | '0' :: 'x' :: rest => inBase? 16 rest
  | '0' :: 'o' :: rest => inBase? 8 rest
  | '0' :: 'b' :: rest => inBase? 2 rest
  | s => do
    let (negative, s) := takeSign s
    let n := Digits.value (← wholeDigits? s)
    inRange? (if negative then -n else n)

/-! ### Real numbers -/

/-- Whether a decimal is too large for a floating-point number. -/
def overflows (digits : List Char) (exponent : Int) : Bool :=
  let n := Digits.value digits
  if n = 0 then false
  else if 400 < exponent then true
  else if exponent < -(400 + digits.length : Int) then false
  else
    let units := n * Nat.pow 10 exponent.toNat * Binary64.unitsPerOne
    (Binary64.ofUnits units (Nat.pow 10 (-exponent).toNat)).isInfinite

/-- The exponent of a number, after its letter. -/
def exponent? (s : List Char) : Option Int := do
  let (negative, s) := takeSign s
  let n := Digits.value (← decimalDigits? s)
  return if negative then -n else n

/-- Whether a text is a real number: digits with a fraction, an exponent or both, or one of the names of
    infinity and of no number. A positive number must not be too large. -/
def isReal (s : List Char) : Bool :=
  let (negative, s) := takeSign s
  if s = "inf".toList ∨ s = "nan".toList then true
  else
    let isMark (c : Char) : Bool := c == 'e' || c == 'E'
    let mantissa := s.takeWhile (!isMark ·)
    let tail := s.dropWhile (!isMark ·)
    let whole := mantissa.takeWhile (· != '.')
    let point := mantissa.dropWhile (· != '.')
    let fraction := if point = [] then some [] else decimalDigits? (point.drop 1)
    let exponent := if tail = [] then some 0 else exponent? (tail.drop 1)
    match wholeDigits? whole, fraction, exponent with
    | some whole, some fraction, some exponent =>
      (point ≠ [] || tail ≠ []) && (negative || !overflows (whole ++ fraction) (exponent - fraction.length))
    | _, _, _ => false

/-! ### Dates and times -/

/-- A number of exactly so many digits. -/
def fixed? (width : Nat) (s : List Char) : Option (Nat × List Char) :=
  let digits := s.take width
  if digits.length = width ∧ digits.all Char.isDigit then some (Digits.value digits, s.drop width) else none

def mark? (mark : Char) : List Char → Option (List Char)
  | c :: rest => if c = mark then some rest else none
  | [] => none

/-- Skips a date that the calendar has. -/
def date? (s : List Char) : Option (List Char) := do
  let (year, s) ← fixed? 4 s
  let (month, s) ← fixed? 2 (← mark? '-' s)
  let (day, s) ← fixed? 2 (← mark? '-' s)
  if 1 ≤ month ∧ month ≤ 12 ∧ 1 ≤ day ∧ day ≤ Date.daysInMonth year month then some s else none

/-- Skips a time of the day. The second number 60 is a leap second. -/
def clockTime? (s : List Char) : Option (List Char) := do
  let (hour, s) ← fixed? 2 s
  let (minute, s) ← fixed? 2 (← mark? ':' s)
  let (second, s) ← fixed? 2 (← mark? ':' s)
  if hour < 24 ∧ minute < 60 ∧ second ≤ 60 then
    match s with
    | '.' :: rest =>
      if (rest.takeWhile Char.isDigit).isEmpty then none else some (rest.dropWhile Char.isDigit)
    | s => some s
  else none

/-- Skips the distance from universal time. -/
def offset? : List Char → Option (List Char)
  | [] => some []
  | c :: rest =>
    if c = 'Z' ∨ c = 'z' then some rest
    else if c = '+' ∨ c = '-' then do
      let (hour, s) ← fixed? 2 rest
      let (minute, s) ← fixed? 2 (← mark? ':' s)
      if hour < 24 ∧ minute < 60 then some s else none
    else none

/-- Whether a text is a time of the day with what may follow it after a date. -/
def isTimeWithOffset (s : List Char) : Bool :=
  ((clockTime? s).bind offset?) == some []

/-- Whether a text is a date, a time of the day, or both joined by a letter. -/
def isTime (s : List Char) : Bool :=
  clockTime? s == some [] ||
    match date? s with
    | some [] => true
    | some (c :: rest) => (c == 'T' || c == 't') && isTimeWithOffset rest
    | none => false

/-! ### Scalars -/

/-- A character of the values that are written without quotes. -/
def isTokenChar (c : Char) : Bool :=
  c.isAlphanum || c == '_' || c == '+' || c == '-' || c == '.' || c == ':'

/-- The value of a text without quotes. -/
def ofToken? (token : List Char) : Option Value :=
  if token = "true".toList then some (.bool true)
  else if token = "false".toList then some (.bool false)
  else if isTime token then some (.time (String.ofList token))
  else if isReal token then some (.real (String.ofList token))
  else (integer? token).map .int

/-- Reads a value without quotes. A blank may stand between a date and the time that belongs to it. -/
def scalar? : Reader Value := fun s => do
  let token := s.takeWhile isTokenChar
  let rest := s.dropWhile isTokenChar
  let value ← ofToken? token
  match rest with
  | ' ' :: after =>
    let time := after.takeWhile isTokenChar
    if date? token = some [] ∧ isTimeWithOffset time then
      some (.time (String.ofList (token ++ ' ' :: time)), after.dropWhile isTokenChar)
    else some (value, rest)
  | rest => some (value, rest)

end SyntheticRows.Toml
