import SyntheticRows.Literal

/-!
Readings of a time series: an integer value at a minute.
-/

namespace SyntheticRows

structure Reading where
  value : Int64
  /-- Minutes after the moment at which the statement runs. -/
  minutes : UInt64
deriving DecidableEq

namespace Reading

/-- The columns of a reading, in the order of its values. -/
def columns : List String :=
  ["price", "timestamp"]

def literals (r : Reading) : List Literal :=
  [.int r.value, .minutesFromNow r.minutes]

def tuple (r : Reading) : List Char :=
  Literal.tuple r.literals

end Reading

end SyntheticRows
