import SyntheticRows.Binary64
import SyntheticRows.Json.Reader

/-!
Reading JSON numbers. A number without fraction and exponent that fits in 64 bits is an integer. Every
other number is a real one, read as a significand of 64 bits and a power of ten: digits that the
significand cannot hold count for its exponent or, in the fraction, not at all.
-/

namespace SyntheticRows.Json

inductive Number
  | int (value : Int)
  | real (value : Binary64)

namespace Number

/-- The most that a significand can hold. -/
def maxSignificand : Nat :=
  UInt64.size - 1

/-- The most that the digits of an exponent can say. -/
def maxExponent : Nat :=
  0x7fffffff

/-! ### Digits -/

/-- Reads the digits before the point: the significand, and how many digits it had no room for. -/
def wholeDigits (value dropped : Nat) : List Char → Nat × Nat × List Char
  | [] => (value, dropped, [])
  | c :: rest =>
    if c.isDigit then
      if dropped = 0 ∧ value * 10 + Digits.decimal c ≤ maxSignificand then
        wholeDigits (value * 10 + Digits.decimal c) 0 rest
      else wholeDigits value (dropped + 1) rest
    else (value, dropped, c :: rest)

/-- Reads the digits after the point: the significand, and how many digits it took in. -/
def fractionDigits (value taken : Nat) : List Char → Nat × Nat × List Char
  | [] => (value, taken, [])
  | c :: rest =>
    if c.isDigit then
      if value * 10 + Digits.decimal c ≤ maxSignificand then
        fractionDigits (value * 10 + Digits.decimal c) (taken + 1) rest
      else (value, taken, rest.dropWhile Char.isDigit)
    else (value, taken, c :: rest)

/-! ### Real numbers -/

/-- Moves the point: one multiplication or division by a power of ten, after divisions by 10^308 for
    as long as the exponent is below that. Fails when the number is too large. -/
def scale (x : Binary64) (exponent : Int) : Except Fault Binary64 :=
  if exponent.natAbs ≤ 308 then
    if 0 ≤ exponent then
      let y := x.mul (Binary64.tenTo exponent.natAbs)
      if y.isInfinite then .error .malformed else .ok y
    else .ok (x.divPositive (Binary64.tenTo exponent.natAbs))
  else if x.rank = 0 then .ok x
  else if 0 ≤ exponent then .error .malformed
  else scale (x.divPositive (Binary64.tenTo 308)) (exponent + 308)
termination_by exponent.natAbs

def signed (negative : Bool) (x : Binary64) : Binary64 :=
  if negative then x.neg else x

/-- The real number with a sign, a significand and an exponent. -/
def ofParts (negative : Bool) (significand : Nat) (exponent : Int) : Except Fault Binary64 := do
  let x ← scale (Binary64.ofInt significand) exponent
  return signed negative x

/-- Reads an exponent after its letter, and gives the number. -/
def exponentPart (negative : Bool) (significand : Nat) (exponent : Int) : Reader Number := fun s =>
  let (down, s) := match s with
    | '-' :: rest => (true, rest)
    | '+' :: rest => (false, rest)
    | s => (false, s)
  let digits := s.takeWhile Char.isDigit
  let rest := s.dropWhile Char.isDigit
  let value := Digits.value digits
  if digits = [] then .error .malformed
  else if maxExponent < value then
    if significand ≠ 0 ∧ !down then .error .malformed
    else .ok (.real (signed negative .zero), rest)
  else do
    let x ← ofParts negative significand (if down then exponent - value else exponent + value)
    return (.real x, rest)

/-- Reads what may follow the digits: an exponent or nothing. -/
def afterFraction (negative : Bool) (significand : Nat) (exponent : Int) : Reader Number
  | 'e' :: rest | 'E' :: rest => exponentPart negative significand exponent rest
  | rest => do
    let x ← ofParts negative significand exponent
    return (.real x, rest)

/-- Reads a fraction after its point. -/
def fractionPart (negative : Bool) (significand dropped : Nat) : Reader Number
  | c :: rest =>
    if c.isDigit then
      let (significand, taken, rest) := fractionDigits significand 0 (c :: rest)
      afterFraction negative significand (dropped - taken : Int) rest
    else .error .malformed
  | [] => .error .malformed

/-! ### Numbers -/

/-- The number of a sign and digits without fraction and exponent. A zero with a minus sign is no
    integer. -/
def ofWhole (negative : Bool) (significand : Nat) : Number :=
  if negative then
    if significand = 0 ∨ -(significand : Int) < Int64.minValue.toInt then
      .real (Binary64.ofInt significand).neg
    else .int (-significand)
  else .int significand

/-- Reads a number after its sign. No digit follows a leading zero. -/
def unsigned (negative : Bool) : Reader Number
  | [] => .error .malformed
  | c :: rest =>
    if !c.isDigit then .error .malformed
    else
      let (significand, dropped, rest) :=
        if c = '0' then (0, 0, rest) else wholeDigits (Digits.decimal c) 0 rest
      match rest with
      | '.' :: rest => fractionPart negative significand dropped rest
      | 'e' :: rest | 'E' :: rest => exponentPart negative significand dropped rest
      | d :: _ =>
        if c = '0' ∧ d.isDigit then .error .malformed
        else if dropped = 0 then .ok (ofWhole negative significand, rest)
        else afterFraction negative significand dropped rest
      | [] =>
        if dropped = 0 then .ok (ofWhole negative significand, rest)
        else afterFraction negative significand dropped rest

end Number

/-- Reads a number. -/
def number : Reader Number := fun s =>
  match skipBlanks s with
  | '-' :: rest => Number.unsigned true rest
  | s => Number.unsigned false s

/-! ### Numbers of fixed kinds -/

/-- Reads an integer of 64 bits with sign. -/
def int64 : Reader Int64 := fun s => do
  match ← number s with
  | (.int n, rest) =>
    if Int64.minValue.toInt ≤ n ∧ n ≤ Int64.maxValue.toInt then .ok (Int64.ofInt n, rest)
    else .error .malformed
  | (.real _, _) => .error .malformed

/-- Reads an integer of 64 bits without sign. -/
def uint64 : Reader UInt64 := fun s => do
  match ← number s with
  | (.int n, rest) =>
    if 0 ≤ n ∧ n < UInt64.size then .ok (UInt64.ofNat n.toNat, rest) else .error .malformed
  | (.real _, _) => .error .malformed

/-- Reads a real number; an integer is one too. -/
def real64 : Reader Binary64 := fun s => do
  match ← number s with
  | (.int n, rest) => .ok (Binary64.ofInt n, rest)
  | (.real x, rest) => .ok (x, rest)

end SyntheticRows.Json
