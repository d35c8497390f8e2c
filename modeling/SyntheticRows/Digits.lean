/-!
Digits: what characters are worth as digits, and the numbers of runs of digits.
-/

namespace SyntheticRows.Digits

/-- The worth of a decimal digit. -/
def decimal (c : Char) : Nat :=
  c.toNat - '0'.toNat

/-- The worth of a hexadecimal digit, in either case. -/
def hex? (c : Char) : Option Nat :=
  if '0' ≤ c ∧ c ≤ '9' then some (decimal c)
  else if 'a' ≤ c ∧ c ≤ 'f' then some (c.toNat - 'a'.toNat + 10)
  else if 'A' ≤ c ∧ c ≤ 'F' then some (c.toNat - 'A'.toNat + 10)
  else none

/-- The number of a run of decimal digits. -/
def value (digits : List Char) : Nat :=
  digits.foldl (fun value c => value * 10 + decimal c) 0

/-- The number of a run of digits in a base up to sixteen. -/
def valueIn (base : Nat) (digits : List Char) : Nat :=
  digits.foldl (fun value c => value * base + (hex? c).getD 0) 0

/-- The two hexadecimal digits of a byte. -/
def ofByte (byte : UInt8) : List Char :=
  [Nat.digitChar (byte.toNat / 16), Nat.digitChar (byte.toNat % 16)]

end SyntheticRows.Digits
