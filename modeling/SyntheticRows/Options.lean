import SyntheticRows.Framing

/-!
The options of a run, and what is wrong with those that no run accepts.
-/

namespace SyntheticRows

structure Options where
  /-- The seed of the run. Without one a run takes a random seed. -/
  seed : Option Seed := none
  /-- The bound below which the indexes of rows lie. -/
  upperBound : UInt64 := 2880
  /-- The distance between the indexes of neighbouring rows. -/
  step : UInt64 := 5
  /-- The passes that are asked for. Their order and repetitions do not matter. -/
  passes : List Pass := Vocabulary.all
  framing : Framing := .lines
deriving DecidableEq

/-- A reason to refuse options. -/
inductive OptionFault
  | stepZero
  | boundTooLarge
  | noPass
  | badTable (name : String)
  | indexTooLarge (index : Nat)
deriving DecidableEq, Repr

namespace Options

/-- The largest bound: each index below it is a number of 32 bits. -/
def maxUpperBound : Nat :=
  UInt32.size

/-- How many rows a pass has: the number of multiples of the step below the bound. -/
def rowsPerPass (o : Options) : UInt64 :=
  if o.step = 0 then 0
  else UInt64.ofNat ((o.upperBound.toNat + o.step.toNat - 1) / o.step.toNat)

/-- The passes of a run, in the order in which they are run. -/
def selectedPasses (o : Options) : List Pass :=
  (Vocabulary.all : List Pass).filter (· ∈ o.passes)

/-- The first table name that cannot stand in a statement. -/
def tableFault? : Framing → Option OptionFault
  | .lines => none
  | .statements readingTable positionTable =>
    if !TableName.isValid readingTable then some (.badTable readingTable)
    else if !TableName.isValid positionTable then some (.badTable positionTable)
    else none

/-- The first reason to refuse the options. -/
def fault? (o : Options) : Option OptionFault :=
  if o.step = 0 then some .stepZero
  else if maxUpperBound < o.upperBound.toNat then some .boundTooLarge
  else if o.passes = [] then some .noPass
  else tableFault? o.framing

end Options

namespace OptionFault

def message : OptionFault → String
  | stepZero => "step must be greater than zero"
  | boundTooLarge => s!"upper bound must be at most {Options.maxUpperBound}"
  | noPass => "at least one pass must be selected"
  | badTable name => "invalid table name '" ++ name ++ "'"
  | indexTooLarge index => s!"row index {index} exceeds u32"

end OptionFault

end SyntheticRows
