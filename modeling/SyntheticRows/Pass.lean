import SyntheticRows.Position.Draw
import SyntheticRows.Reading.Draw
import SyntheticRows.Seed

/-!
Passes: the kinds of rows that a run writes one after the other, and the row of each at an index. A row
depends on the seed of the run, its pass and its index alone.
-/

namespace SyntheticRows

inductive Pass
  | readings
  | positions
deriving DecidableEq, Repr

/-- Passes are listed in the order in which they are run. -/
instance : Vocabulary Pass where
  kind := "pass"
  all := [.readings, .positions]
  label
    | .readings => "readings"
    | .positions => "positions"

namespace Pass

/-- The name of a pass, from which its seed is derived. -/
def key (pass : Pass) : String :=
  Vocabulary.label pass

def columns : Pass → List String
  | .readings => Reading.columns
  | .positions => Position.columns

/-- The seed from which a pass draws in a run with a seed. -/
def seed (pass : Pass) (runSeed : Seed) : Seed :=
  runSeed.forKey pass.key

/-- The tuple of the row at an index. -/
def tuple (pass : Pass) (passSeed : Seed) (index : UInt32) : List Char :=
  let words := passSeed.rowWords index.toUInt64
  match pass with
  | .readings => (StateT.run (Reading.draw index) words).1.tuple
  | .positions => (StateT.run (Position.draw index) words).1.tuple

/-- A tuple as a line of its own, with the comma that separates it from the tuple that follows. -/
def lineOf (tuple : List Char) : List Char :=
  tuple ++ [',']

/-- The row at an index as a line of its own. -/
def line (pass : Pass) (passSeed : Seed) (index : UInt32) : List Char :=
  lineOf (pass.tuple passSeed index)

end Pass

end SyntheticRows
