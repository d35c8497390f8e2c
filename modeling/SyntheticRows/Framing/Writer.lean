import SyntheticRows.Framing
import SyntheticRows.Sink

/-!
Writing the rows of one pass to a sink. Rows are counted when they are written whole, bytes when the
sink takes them.
-/

namespace SyntheticRows.Framing

/-- The progress of a pass. -/
structure Writer where
  /-- The opening of the statement, if the rows go into one. -/
  header? : Option Bytes
  rows : Nat := 0
  bytes : Nat := 0

namespace Writer

/-- The most that a count of bytes can hold. -/
def maxBytes : Nat :=
  UInt64.size - 1

/-- A writer of bare lines. -/
def lines : Writer :=
  { header? := none }

/-- A writer of one statement. Its opening comes with the first row, so a pass without rows leaves no
    statement. -/
def statement (table : String) (columns : List String) : Writer :=
  { header? := some (utf8 (header table columns)) }

def count (w : Writer) (bytes : Nat) : Writer :=
  { w with bytes := min maxBytes (w.bytes + bytes) }

/-- The texts that a row adds: in a statement the opening or a separator goes before it, and a line
    ends after it. -/
def rowTexts (w : Writer) (row : Bytes) : List Bytes :=
  match w.header? with
  | none => [row, utf8 ['\n']]
  | some header => [if w.rows = 0 then header else utf8 [',', '\n'], row]

/-- The texts after the last row: the end of a statement that was opened. -/
def lastTexts (w : Writer) : List Bytes :=
  if w.header?.isSome ∧ 0 < w.rows then [utf8 [';', '\n']] else []

section

variable {m : Type → Type} [Monad m] [Outlet m]

/-- Writes a row. A line is expected with its comma, a tuple of a statement without. -/
def writeRow (w : Writer) (row : Bytes) : m (Option IoFault × Writer) := do
  let (taken, fault) ← writeEach (w.rowTexts row)
  let w := w.count taken
  match fault with
  | some fault => pure (some fault, w)
  | none => pure (none, { w with rows := w.rows + 1 })

/-- Ends the pass: closes the statement if one is open, and flushes the sink. -/
def finish (w : Writer) : m (Option IoFault × Writer) := do
  let (taken, fault) ← writeEach w.lastTexts
  let w := w.count taken
  match fault with
  | some fault => pure (some fault, w)
  | none => pure (← Outlet.flush, w)

end

end Writer

end SyntheticRows.Framing
