/-!
Floating-point numbers of 64 bits, held as bit patterns. The absolute value of a finite number is a
whole number of units of 2^-1074, so every operation is an exact one on integers whose result is
rounded to the nearest number, a tie going to the even one.
-/

namespace SyntheticRows

/-- A floating-point number: a sign bit, 11 exponent bits and 52 fraction bits. -/
structure Binary64 where
  bits : UInt64
deriving DecidableEq, Inhabited

namespace Binary64

/-! ### Bit patterns -/

/-- The worth of the sign bit. -/
def signWeight : Nat := 0x8000000000000000

/-- How many numbers of one sign have the same exponent. -/
def binade : Nat := 0x10000000000000

/-- The sign bit: set for the negative numbers and the negative zero. -/
def isNegative (x : Binary64) : Bool :=
  signWeight ≤ x.bits.toNat

/-- The bits below the sign. Among numbers of one sign the rank grows with the absolute value, and
    neighbours have neighbouring ranks. -/
def rank (x : Binary64) : Nat :=
  x.bits.toNat % signWeight

/-- The rank of the two infinities: above it are the patterns that are no number. -/
def infiniteRank : Nat :=
  2047 * binade

def ofRank (negative : Bool) (rank : Nat) : Binary64 :=
  ⟨UInt64.ofNat (if negative then signWeight + rank else rank)⟩

def isFinite (x : Binary64) : Bool :=
  x.rank < infiniteRank

def isInfinite (x : Binary64) : Bool :=
  x.rank == infiniteRank

def isNaN (x : Binary64) : Bool :=
  infiniteRank < x.rank

def zero : Binary64 := ⟨0⟩

/-- The same number with the other sign. -/
def neg (x : Binary64) : Binary64 :=
  ofRank (!x.isNegative) x.rank

/-! ### Values -/

/-- The absolute value of the numbers of a rank, in units of 2^-1074. The fraction of a rank below
    2^52 counts units; above, each further exponent doubles the worth of a significand of 53 bits. -/
def magnitude (rank : Nat) : Nat :=
  if rank < binade then rank else (binade + rank % binade) * Nat.pow 2 (rank / binade - 1)

/-- How many units are one. -/
def unitsPerOne : Nat :=
  Nat.pow 2 1074

/-- The value of a finite number, in units. -/
def units (x : Binary64) : Int :=
  if x.isNegative then -(magnitude x.rank : Int) else magnitude x.rank

/-! ### Rounding -/

/-- `num / den` as a whole number: the nearest one, of two equally near ones the even one. -/
def roundHalfEven (num den : Nat) : Nat :=
  let below := num / den
  let rest := num % den
  if 2 * rest < den || (2 * rest == den && below % 2 == 0) then below else below + 1

/-- The rank of the number nearest to `num / den` units. Of a value of more than 53 bits the excess is
    cut off by rounding; each bit of excess raises the exponent by one. A value past the largest
    number gives the rank of infinity. -/
def nearestRank (num den : Nat) : Nat :=
  let excess := Nat.log2 (num / den) - 52
  min infiniteRank (excess * binade + roundHalfEven num (den * Nat.pow 2 excess))

/-- The number nearest to `num / den` units. A zero is positive. -/
def ofUnits (num : Int) (den : Nat) : Binary64 :=
  ofRank (decide (num < 0)) (nearestRank num.natAbs den)

/-- The number nearest to a whole number. -/
def ofInt (n : Int) : Binary64 :=
  ofUnits (n * unitsPerOne) 1

/-- The number nearest to a power of ten. -/
def tenTo (k : Nat) : Binary64 :=
  ofInt (Nat.pow 10 k)

/-! ### Arithmetic on finite numbers -/

/-- The rounded sum. A sum of zero is the positive zero. -/
def add (x y : Binary64) : Binary64 :=
  ofUnits (x.units + y.units) 1

/-- The rounded product. A product of zero is the positive zero. -/
def mul (x y : Binary64) : Binary64 :=
  ofUnits (x.units * y.units) unitsPerOne

/-- The rounded quotient by a positive number. A quotient of zero is the positive zero. -/
def divPositive (x y : Binary64) : Binary64 :=
  ofUnits (x.units * unitsPerOne) y.units.natAbs

end Binary64

end SyntheticRows
