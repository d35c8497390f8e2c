import SyntheticRows.Json
import SyntheticRows.Json.Record
import SyntheticRows.Options

/-!
Options as JSON.
-/

namespace SyntheticRows

namespace Pass

def toJson (pass : Pass) : Json :=
  .text pass.key

end Pass

namespace Framing

def toJson : Framing → Json
  | .lines => .text "row_literals"
  | .statements readingTable positionTable =>
    .object [("insert_statement", .object
      [("reading_table", .text readingTable), ("position_table", .text positionTable)])]

open Json in
def tableMembers : Members [String, String] :=
  .cons "reading_table" string none <|
  .cons "position_table" string none .nil

def fromJson : Json.Reader Framing :=
  Json.choice ["row_literals", "insert_statement"]
    (fun name => if name = "row_literals" then some .lines else none)
    fun name s =>
      if name = "row_literals" then do
        let (_, s) ← Json.nullWord s
        return (.lines, s)
      else
        Json.record tableMembers (fun (reading, position, _) => .statements reading position) s

end Framing

namespace Options

def toJson (o : Options) : Json :=
  .object
    [("seed", o.seed.elim .null fun seed => .int seed.toNat),
      ("upper_bound", .int o.upperBound.toNat),
      ("step", .int o.step.toNat),
      ("passes", .list (o.passes.map Pass.toJson)),
      ("output", o.framing.toJson)]

/-- Only the seed may be absent. -/
def members : Json.Members [Option UInt64, UInt64, UInt64, List Pass, Framing] :=
  .cons "seed" (Json.optional Json.uint64) (some none) <|
  .cons "upper_bound" Json.uint64 none <|
  .cons "step" Json.uint64 none <|
  .cons "passes" (Json.array Json.label) none <|
  .cons "output" Framing.fromJson none .nil

def fromJson : Json.Reader Options :=
  Json.record members fun (seed, upperBound, step, passes, framing, _) =>
    { seed, upperBound, step, passes, framing }

end Options

end SyntheticRows
