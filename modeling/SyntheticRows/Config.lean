import SyntheticRows.Options

/-!
Configurations: options of which any may be left open. What a command line leaves open is taken from a
file, and what the file leaves open has a default.
-/

namespace SyntheticRows

/-- The part of a configuration that is about the framing of rows. -/
structure OutputConfig where
  /-- Whether the rows of a pass go into a statement. -/
  statements : Option Bool := none
  readingTable : Option String := none
  positionTable : Option String := none
deriving DecidableEq

structure Config where
  seed : Option UInt64 := none
  upperBound : Option UInt64 := none
  step : Option UInt64 := none
  passes : Option (List Pass) := none
  output : OutputConfig := {}
deriving DecidableEq

namespace OutputConfig

/-- Whether rows are framed by statements, by the overrides, else by the file, else not. -/
def usesStatements (file overrides : OutputConfig) : Bool :=
  (overrides.statements.or file.statements).getD false

/-- The framing of two layers. The table names matter in statements only. -/
def framing (file overrides : OutputConfig) : Framing :=
  if usesStatements file overrides then
    .statements
      ((overrides.readingTable.or file.readingTable).getD Framing.defaultReadingTable)
      ((overrides.positionTable.or file.positionTable).getD Framing.defaultPositionTable)
  else .lines

/-- The keys of the table names that either layer gives to no effect. -/
def ignoredKeys (file overrides : OutputConfig) : List String :=
  if usesStatements file overrides then []
  else
    (if (overrides.readingTable.or file.readingTable).isSome then ["reading_table"] else []) ++
      (if (overrides.positionTable.or file.positionTable).isSome then ["position_table"] else [])

end OutputConfig

namespace Config

/-- The options of two layers: each is taken from the overrides, else from the file, else it has its
    default. A list of no passes in the overrides leaves them open; in the file it does not. -/
def resolve (file overrides : Config) : Options :=
  let defaults : Options := {}
  { seed := overrides.seed.or file.seed
    upperBound := (overrides.upperBound.or file.upperBound).getD defaults.upperBound
    step := (overrides.step.or file.step).getD defaults.step
    passes := ((overrides.passes.filter (· ≠ [])).or file.passes).getD defaults.passes
    framing := OutputConfig.framing file.output overrides.output }

end Config

end SyntheticRows
