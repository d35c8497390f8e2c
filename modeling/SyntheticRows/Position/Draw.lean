import SyntheticRows.Position
import SyntheticRows.Random.Draw

/-!
Random positions. Whole numbers are drawn from ranges that include both ends, real numbers from ranges
that leave out the upper one.
-/

namespace SyntheticRows.Position

/-! ### Ranges -/

def entryPriceMax : Int := 5000

/-- How far the execution price may lie from the entry price. -/
def executionJitter : Int := 50

def sizeMin : Int64 := 200

def sizeMax : Int64 := 5000

def leverageMin : Int64 := 1

def leverageMax : Int64 := 10

def marginMin : Int64 := 1

def marginMax : Int64 := 10

def valuationMax : Int := 2000

/-- The distance of the entry nonces of neighbouring indexes. -/
def nonceStride : Int64 := 10

def exitNonceGapMin : Int64 := 3

def exitNonceGapMax : Int64 := 20

/-! ### Draws -/

section

variable {σ : Type} [WordSource σ]

def drawLabel {α : Type} [Vocabulary α] (fallback : α) : Draw σ α :=
  Draw.oneOf Vocabulary.all fallback

def drawValuation : Draw σ Binary64 :=
  Draw.real 0 valuationMax

/-- A position for an index, which is also its minute and its sequence number. -/
def draw (index : UInt32) : Draw σ Position := do
  let account ← drawLabel Account.one
  let direction ← drawLabel Direction.long
  let stage ← drawLabel OrderStage.pending
  let pricing ← drawLabel OrderPricing.limit
  let entryPrice ← Draw.real 0 entryPriceMax
  let jitter ← Draw.real (-executionJitter) executionJitter
  let size ← Draw.int64 sizeMin sizeMax
  let leverage ← Draw.int64 leverageMin leverageMax
  let initialMargin ← Draw.int64 marginMin marginMax
  let availableMargin ← Draw.int64 marginMin marginMax
  let bankruptcyPrice ← drawValuation
  let bankruptcyValue ← drawValuation
  let maintenanceMargin ← drawValuation
  let liquidationPrice ← drawValuation
  let unrealizedProfit ← drawValuation
  let settlementPrice ← drawValuation
  let gap ← Draw.int64 exitNonceGapMin exitNonceGapMax
  let entrySequence := index.toUInt64.toInt64
  let entryNonce := entrySequence * nonceStride
  return {
    account, direction, stage, pricing
    entryPrice
    executionPrice := entryPrice.add jitter
    size, leverage, initialMargin, availableMargin
    minutes := index.toUInt64
    bankruptcyPrice, bankruptcyValue, maintenanceMargin
    liquidationPrice, unrealizedProfit, settlementPrice
    entryNonce
    exitNonce := entryNonce + gap
    entrySequence }

end

end SyntheticRows.Position
