import SyntheticRows.Random.ChaCha

/-!
Seeds. From the seed of a run each pass derives a seed of its own by a key, and from that seed each row
by its index, so that no row depends on another.
-/

namespace SyntheticRows

abbrev Seed := UInt64

namespace Seed

/-- An odd number, so multiplying by it loses nothing. -/
def multiplier : UInt64 := 0x100000001b3

/-- One byte of a key, mixed in. -/
def mix (seed : Seed) (byte : UInt8) : Seed :=
  (seed ^^^ byte.toUInt64) * multiplier

/-- The seed of the pass with a key: the bytes of the key are mixed in one after another. -/
def forKey (seed : Seed) (key : String) : Seed :=
  (key.toList.flatMap String.utf8EncodeChar).foldl mix (seed ^^^ 0xcbf29ce484222325)

/-- The seed of the row at an index of a pass. -/
def forRow (passSeed : Seed) (index : UInt64) : Seed :=
  (passSeed ^^^ index * 0x9e3779b97f4a7c15) * multiplier

/-- The words of the row at an index of a pass. -/
def rowWords (passSeed : Seed) (index : UInt64) : Keystream :=
  Keystream.ofSeed (forRow passSeed index)

end Seed

end SyntheticRows
