import SyntheticRows.CharClass
import SyntheticRows.Digits
import SyntheticRows.Instant

/-!
Reading moments: a date, a letter or a blank, a time and the distance of the local time from universal
time. Numbers may lack leading zeros, and blanks may stand between the parts.
-/

namespace SyntheticRows.Instant

def skipSpaces (s : List Char) : List Char :=
  s.dropWhile CharClass.isSpace

/-! ### Parts -/

/-- A number of at least one digit and at most `width` digits. -/
def number? (width : Nat) (s : List Char) : Option (Nat × List Char) :=
  let digits := (s.takeWhile Char.isDigit).take width
  if digits = [] then none else some (Digits.value digits, s.drop digits.length)

/-- One or two digits after blanks. -/
def part? (s : List Char) : Option (Nat × List Char) :=
  number? 2 (skipSpaces s)

/-- A punctuation mark after blanks. -/
def mark? (mark : Char) (s : List Char) : Option (List Char) :=
  match skipSpaces s with
  | c :: rest => if c = mark then some rest else none
  | [] => none

/-- A year after blanks. It has at most four digits unless it has a sign. -/
def year? (s : List Char) : Option (Int × List Char) :=
  match skipSpaces s with
  | '-' :: rest => do
    let (n, rest) ← number? rest.length rest
    return (-n, rest)
  | '+' :: rest => do
    let (n, rest) ← number? rest.length rest
    return (n, rest)
  | s => do
    let (n, rest) ← number? 4 s
    return (n, rest)

/-- A fraction of a second in nanoseconds, if there is one. Digits after the ninth do not count. -/
def fraction? (s : List Char) : Option (Nat × List Char) :=
  match s with
  | '.' :: rest =>
    let digits := rest.takeWhile Char.isDigit
    if digits = [] then none
    else
      let kept := digits.take 9
      some (Digits.value kept * Nat.pow 10 (9 - kept.length), rest.drop digits.length)
  | s => some (0, s)

/-- Exactly two digits. -/
def twoDigits? : List Char → Option (Nat × List Char)
  | a :: b :: rest => if a.isDigit ∧ b.isDigit then some (Digits.value [a, b], rest) else none
  | _ => none

/-- Minutes by which the local time is ahead: none for the name of universal time, else a sign, hours
    and minutes. Colons and blanks may separate the two. -/
def offset? (s : List Char) : Option (Int × List Char) :=
  match s with
  | u :: t :: c :: rest =>
    if u.toUpper = 'U' ∧ t.toUpper = 'T' ∧ c.toUpper = 'C' then some (0, rest) else numeric s
  | s => numeric s
where
  numeric : List Char → Option (Int × List Char)
    | [] => none
    | sign :: rest =>
      if sign = 'Z' ∨ sign = 'z' then some (0, rest)
      else if sign = '+' ∨ sign = '-' ∨ sign = '\u2212' then do
        let (hours, rest) ← twoDigits? rest
        let (minutes, rest) ← twoDigits? (rest.dropWhile fun c => c = ':' || CharClass.isSpace c)
        let ahead : Int := hours * 60 + minutes
        if minutes < 60 then some (if sign = '+' then ahead else -ahead, rest) else none
      else none

/-! ### Moments -/

/-- The moment of a text: each part is in its range, the calendar has the date, the distance from
    universal time is below a day, and the moment lies in a year that a moment can have. -/
def parse? (s : List Char) : Option Instant := do
  let (year, s) ← year? s
  let s ← mark? '-' s
  let (month, s) ← part? s
  let s ← mark? '-' s
  let (day, s) ← part? s
  let s ← match s with
    | c :: rest => if c = 'T' ∨ c = 't' ∨ c = ' ' then some rest else none
    | [] => none
  let (hour, s) ← part? s
  let s ← mark? ':' s
  let (minute, s) ← part? s
  let s ← mark? ':' s
  let (second, s) ← part? s
  let (nanosecond, s) ← fraction? s
  let (ahead, s) ← offset? (skipSpaces s)
  let t : Instant := ⟨⟨year, month, day⟩, hour, minute, second, nanosecond⟩
  if skipSpaces s = [] ∧ t.isValid ∧ ahead.natAbs < 1440 then
    let t := t.minusMinutes ahead
    if t.isValid then some t else none
  else none

end SyntheticRows.Instant
