import SyntheticRows.Binary64
import SyntheticRows.Decimal

/-!
The shortest decimal of a floating-point number: the decimal with the fewest digits among those that
round to the number, and the one nearest to the number among these.
-/

namespace SyntheticRows

/-- The real numbers that round to one positive floating-point number, over a common denominator: the
    number itself and the midpoints to its two neighbours. -/
structure RoundingInterval where
  low : Nat
  value : Nat
  high : Nat
  den : Nat
  /-- Whether the midpoints round to the number too. -/
  closed : Bool

namespace RoundingInterval

/-- The interval of the number of a rank. Its ends are midpoints, so all is counted in half units; a
    midpoint rounds to the number of even rank. From exponent two on all three are multiples of the
    same power of two, which is divided out. -/
def ofRank (rank : Nat) : RoundingInterval :=
  let shift := min (rank / Binary64.binade - 2) 1075
  let lower := Binary64.magnitude (rank - 1)
  let value := Binary64.magnitude rank
  let upper := Binary64.magnitude (rank + 1)
  { low := (lower + value) / Nat.pow 2 shift
    value := 2 * value / Nat.pow 2 shift
    high := (value + upper) / Nat.pow 2 shift
    den := Nat.pow 2 (1075 - shift)
    closed := rank % 2 == 0 }

def contains (i : RoundingInterval) (d : Decimal) : Bool :=
  let scale := Nat.pow 10 (-d.exponent).toNat
  let number := d.digits * Nat.pow 10 d.exponent.toNat * i.den
  if i.closed then i.low * scale ≤ number && number ≤ i.high * scale
  else i.low * scale < number && number < i.high * scale

end RoundingInterval

/-- Which decimal stands for a number that lies in the middle of two. -/
inductive MidpointRule
  | upward
  | even
deriving DecidableEq, Repr

namespace RoundingInterval

/-- Of the two multiples of `10 ^ place` next to the number, those in the interval; of two such the
    nearer one. -/
def decimalAt? (i : RoundingInterval) (rule : MidpointRule) (place : Int) : Option Decimal :=
  let scale := Nat.pow 10 (-place).toNat
  let unit := Nat.pow 10 place.toNat * i.den
  let below := i.value * scale / unit
  let rest := i.value * scale % unit
  let lower : Decimal := ⟨below, place⟩
  let upper : Decimal := ⟨below + 1, place⟩
  if i.contains lower then
    if i.contains upper then
      if 2 * rest < unit || (2 * rest == unit && rule == .even && below % 2 == 0) then some lower
      else some upper
    else some lower
  else if i.contains upper then some upper
  else none

/-- The first decimal found when the grid is refined place by place, `steps` times at most. -/
def shortestFrom (i : RoundingInterval) (rule : MidpointRule) : (steps : Nat) → (place : Int) → Decimal
  | 0, _ => ⟨0, 0⟩
  | steps + 1, place => (i.decimalAt? rule place).getD (i.shortestFrom rule steps (place - 1))

end RoundingInterval

/-- The shortest decimal of the positive number of a rank. No power of ten above the number is worth
    trying, and on the grid of 10^-1074 every number lies itself. -/
def Binary64.shortest (rank : Nat) (rule : MidpointRule) : Decimal :=
  let i := RoundingInterval.ofRank rank
  let places := (Decimal.numeral (i.value / i.den)).length
  i.shortestFrom rule (places + 1075) places

/-- The shortest text of a finite number, positional, with a sign exactly where the sign bit is set. -/
def Binary64.plain (x : Binary64) : List Char :=
  let sign := if x.isNegative then ['-'] else []
  sign ++ if x.rank = 0 then ['0'] else (shortest x.rank .upward).plain

end SyntheticRows
