import SyntheticRows.Binary64
import SyntheticRows.Random.Words

/-!
Draws from a source of words. A whole number below a bound comes from the high half of a product of a
word with the bound, and a real number from 52 bits of a word.
-/

namespace SyntheticRows

/-- A computation that takes words from a source. -/
abbrev Draw (σ α : Type) := StateM σ α

namespace Draw

variable {σ α : Type} [WordSource σ]

/-! ### Words -/

def word32 : Draw σ UInt32 :=
  modifyGet WordSource.next

/-- Two words, the low half first. -/
def word64 : Draw σ UInt64 := do
  let low ← word32
  let high ← word32
  return high.toUInt64 <<< 32 ||| low.toUInt64

/-! ### Whole numbers -/

/-- A number below `bound` from words that are below `size`. Where the low half of the product leaves
    room for a carry, the high half of a second product decides about it. -/
def below (size bound : Nat) (word : Draw σ Nat) : Draw σ Nat := do
  let product := (← word) * bound
  let high := product / size
  let low := product % size
  if size - bound < low then
    let extra := (← word) * bound / size
    return if size ≤ low + extra then high + 1 else high
  else
    return high

/-- An integer between two others, both included. -/
def int64 (low high : Int64) : Draw σ Int64 := do
  let offset ← below UInt64.size (high.toInt - low.toInt + 1).toNat (UInt64.toNat <$> word64)
  return Int64.ofInt (low.toInt + offset)

/-- One of the listed values. -/
def oneOf (values : List α) (fallback : α) : Draw σ α := do
  let place ← below UInt32.size values.length (UInt32.toNat <$> word32)
  return values.getD place fallback

/-! ### Real numbers -/

/-- A fraction from the upper 52 bits of a word: at least zero and below one. -/
def fraction : Draw σ Binary64 := do
  let word ← word64
  return Binary64.ofUnits ((word >>> 12).toNat * Nat.pow 2 1022) 1

/-- A fraction stretched to the width of a range and moved to where the range begins, rounded each
    time. -/
def stretch (low high : Int) (fraction : Binary64) : Binary64 :=
  (fraction.mul (Binary64.ofInt (high - low))).add (Binary64.ofInt low)

/-- How often at most a real number is drawn again. -/
def maxRetries : Nat := 64

/-- A real number of a range. One that rounding carries up to `high` is drawn again. -/
def realWithin (low high : Int) : (retries : Nat) → Draw σ Binary64
  | 0 => return stretch low high (← fraction)
  | retries + 1 => do
    let x := stretch low high (← fraction)
    if x.units < high * Binary64.unitsPerOne then return x else realWithin low high retries

/-- A real number from `low` on and below `high`. -/
def real (low high : Int) : Draw σ Binary64 :=
  realWithin low high maxRetries

end Draw

end SyntheticRows
