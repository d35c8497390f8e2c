import SyntheticRows.Random.Draw
import SyntheticRows.Reading

/-!
Random readings.
-/

namespace SyntheticRows.Reading

def valueMin : Int64 := 0

/-- The bound below which values are drawn. -/
def valueMax : Int64 := 30000

/-- A reading for an index, which is also its minute. -/
def draw {σ : Type} [WordSource σ] (index : UInt32) : Draw σ Reading := do
  let value ← Draw.int64 valueMin (valueMax - 1)
  return { value, minutes := index.toUInt64 }

end SyntheticRows.Reading
