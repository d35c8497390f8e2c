import SyntheticRows.Sink

/-!
A device that takes bytes up to a limit and fails from then on.
-/

namespace SyntheticRows

/-- How many more bytes are taken, if there is a limit, and the fault after them. -/
structure Limited where
  room : Option Nat := none
  fault : IoFault := .system 28

namespace Limited

def write (s : Limited) (bytes : Bytes) : Answer × Limited :=
  match s.room with
  | none => (.took bytes.length, s)
  | some 0 => (.failed s.fault, s)
  | some (room + 1) =>
    let count := min bytes.length (room + 1)
    (.took count, { s with room := some (room + 1 - count) })

theorem write_ne_interrupted {s t : Limited} {bytes : Bytes} : s.write bytes ≠ (.interrupted, t) := by
  unfold write
  split <;> simp

def device : Device Limited where
  write := write
  flush s := (none, s)
  patience _ := 0
  patience_lt h := absurd h write_ne_interrupted

/-- A device without a limit. -/
def unlimited : Limited := {}

/-- A device that takes nothing because its storage is full. -/
def full : Limited := { room := some 0, fault := .system 28 }

/-- A device that takes nothing because nobody reads from it. -/
def closed : Limited := { room := some 0, fault := .system 32 }

end Limited

end SyntheticRows
