import SyntheticRows.Json
import SyntheticRows.Json.Record
import SyntheticRows.Reading

/-!
Readings as JSON.
-/

namespace SyntheticRows.Reading

def toJson (r : Reading) : Json :=
  .object [("value", .int r.value.toInt), ("timestamp_offset_minutes", .int r.minutes.toNat)]

open Json in
def members : Members [Int64, UInt64] :=
  .cons "value" int64 none <|
  .cons "timestamp_offset_minutes" uint64 none .nil

def fromJson : Json.Reader Reading :=
  Json.record members fun (value, minutes, _) => { value, minutes }

end SyntheticRows.Reading
