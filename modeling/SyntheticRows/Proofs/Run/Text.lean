import SyntheticRows.Proofs.Framing.Rows
import SyntheticRows.Proofs.Options.Indexes
import SyntheticRows.Proofs.Text
import SyntheticRows.Run

/-!
The text that a run has to write: for each selected pass the tuples of its rows, framed as lines or as one
statement. The rows that the run hands to its writers are framed to just this text.
-/

namespace SyntheticRows

theorem Run.writerFor_eq_into (framing : Framing) (pass : Pass) :
    writerFor framing pass = .into ((framing.table? pass).map (·, pass.columns)) := by
  unfold writerFor
  cases framing.table? pass <;> rfl

namespace Options

/-! ### The text of a run -/

def tuples (o : Options) (seed : Seed) (pass : Pass) : List (List Char) :=
  o.indexes.map fun i => pass.tuple (pass.seed seed) (UInt32.ofNat i)

/-- The text of a pass. Lines hold a tuple and a comma each; a statement stands only if there are rows. -/
def passText (o : Options) (seed : Seed) (pass : Pass) : List Char :=
  match o.framing.table? pass with
  | none => (o.tuples seed pass).flatMap (· ++ [',', '\n'])
  | some table =>
    if o.tuples seed pass = [] then []
    else Framing.header table pass.columns ++ [',', '\n'].intercalate (o.tuples seed pass) ++ [';', '\n']

/-- The texts of the selected passes, readings before positions. -/
def text (o : Options) (seed : Seed) : List Char :=
  ([.readings, .positions].filter (· ∈ o.passes)).flatMap (o.passText seed)

/-! ### The rows of a run -/

def rows (o : Options) (seed : Seed) (pass : Pass) : List Bytes :=
  o.indexes.map fun i => utf8 (Run.rowText o.framing pass (pass.seed seed) (UInt32.ofNat i))

theorem length_rows {o : Options} (h : o.step ≠ 0) (seed : Seed) (pass : Pass) :
    (o.rows seed pass).length = o.rowsPerPass.toNat := by
  rw [rows, List.length_map, length_indexes h]

variable {o : Options} {pass : Pass}

theorem rows_lines (h : o.framing.table? pass = none) (seed : Seed) :
    o.rows seed pass = (o.tuples seed pass).map fun tuple => utf8 (Pass.lineOf tuple) := by
  have hf : o.framing = .lines := by
    cases hf : o.framing with
    | lines => rfl
    | statements => cases pass <;> simp [hf, Framing.table?] at h
  simp [rows, tuples, Run.rowText, hf, Pass.line]

theorem rows_statements {table : String} (h : o.framing.table? pass = some table) (seed : Seed) :
    o.rows seed pass = (o.tuples seed pass).map utf8 := by
  cases hf : o.framing with
  | lines => simp [hf, Framing.table?] at h
  | statements => simp [rows, tuples, Run.rowText, hf]

/-- The framed rows of a pass and what closes them are the text of the pass. -/
theorem framed_rows (o : Options) (seed : Seed) (pass : Pass) :
    Framing.Writer.framed (Run.writerFor o.framing pass).header? (o.rows seed pass) ++
        Framing.Writer.closing (Run.writerFor o.framing pass).header? (o.rows seed pass).length =
      utf8 (o.passText seed pass) := by
  rw [Run.writerFor_eq_into]
  cases htable : o.framing.table? pass with
  | none =>
    have hframed := Framing.Writer.framed_append_closing none ((o.tuples seed pass).map Pass.lineOf)
    rw [List.map_map] at hframed
    rw [passText, htable, rows_lines htable]
    refine hframed.trans (congrArg utf8 ?_)
    simp [Framing.Writer.textOf, List.flatMap_map, Pass.lineOf]
  | some table =>
    rw [passText, htable, rows_statements htable]
    refine (Framing.Writer.framed_append_closing (some (table, pass.columns)) (o.tuples seed pass)).trans ?_
    cases o.tuples seed pass with
    | nil => rfl
    | cons tuple rest => rfl

end Options

end SyntheticRows
