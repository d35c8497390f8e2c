/-!
Decimal numbers and their positional text.
-/

namespace SyntheticRows

/-- The number `digits · 10 ^ exponent`. -/
structure Decimal where
  digits : Nat
  exponent : Int
deriving DecidableEq, Repr

namespace Decimal

/-- The digits of a whole number, the first one not zero unless the number is. -/
def numeral (n : Nat) : List Char :=
  Nat.toDigits 10 n

/-- The numeral of a whole number that may be negative. -/
def signedNumeral (n : Int) : List Char :=
  if n < 0 then '-' :: numeral n.natAbs else numeral n.natAbs

/-- The positional text: no exponent, zeros filled in on either side of the point as needed, and a
    point only before a fraction. -/
def plain (d : Decimal) : List Char :=
  let digits := numeral d.digits
  let places := (-d.exponent).toNat
  if 0 ≤ d.exponent then
    digits ++ List.replicate d.exponent.toNat '0'
  else if places < digits.length then
    digits.take (digits.length - places) ++ '.' :: digits.drop (digits.length - places)
  else
    '0' :: '.' :: (List.replicate (places - digits.length) '0' ++ digits)

/-- The text with a point in every number, and an exponent outside of the range where the point stays
    near the digits: from five places before the first digit to sixteen places after it. -/
def scientific (d : Decimal) : List Char :=
  let digits := numeral d.digits
  let point : Int := digits.length + d.exponent
  if 0 ≤ d.exponent ∧ point ≤ 16 then
    plain d ++ ['.', '0']
  else if -5 < point ∧ point ≤ 16 then
    plain d
  else
    let mantissa := match digits with
      | first :: second :: rest => first :: '.' :: second :: rest
      | short => short
    let sign := if point - 1 < 0 then ['-'] else []
    mantissa ++ 'e' :: (sign ++ numeral (point - 1).natAbs)

end Decimal

end SyntheticRows
