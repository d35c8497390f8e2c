import Mathlib
import SyntheticRows.Proofs.Framing.Statement
import SyntheticRows.Proofs.Position.Decoding
import SyntheticRows.Proofs.Run.Modes
import SyntheticRows.Proofs.Run.Refusal

/-!
What a run writes as statements. However the tables are named and whatever is drawn, the text is one complete
statement for each selected pass, and no tuple in it has a value too many or too few for the columns.
-/

namespace SyntheticRows

/-! ### Rows and columns -/

theorem Reading.fits_tuple (r : Reading) : Framing.Fits Reading.columns.length r.tuple :=
  ⟨r.inline_tuple, _, Literal.fields?_tuple (List.cons_ne_nil _ _) r.whole_literals, rfl⟩

theorem Position.fits_tuple (p : Position) : Framing.Fits Position.columns.length p.tuple :=
  ⟨p.inline_tuple, _, Literal.fields?_tuple (List.cons_ne_nil _ _) p.whole_literals, rfl⟩

namespace Pass

/-- Every row of a pass has a value for each column of the pass. -/
theorem fits_tuple (pass : Pass) (passSeed : Seed) (index : UInt32) :
    Framing.Fits pass.columns.length (pass.tuple passSeed index) := by
  cases pass with
  | readings => exact Reading.fits_tuple _
  | positions => exact Position.fits_tuple _

theorem whole_columns (pass : Pass) : ∀ column ∈ pass.columns.map String.toList, Literal.Whole column := by
  cases pass <;> decide +kernel

theorem inline_columns (pass : Pass) : ∀ column ∈ pass.columns.map String.toList, Inline column := by
  cases pass <;> decide +kernel

end Pass

namespace TableName

theorem inline_of_dotted {name : List Char} (h : Dotted name) : Inline name := fun c hc => by
  rw [isInline_iff]
  constructor
  · rintro rfl
    exact not_mem_of_foreign h (by decide) hc
  · rintro rfl
    exact not_mem_of_foreign h (by decide) hc

theorem space_not_mem_of_dotted {name : List Char} (h : Dotted name) : ' ' ∉ name :=
  not_mem_of_foreign h (by decide)

end TableName

/-! ### Texts of passes -/

namespace Options
variable {o : Options} {readingTable positionTable : String}

theorem dotted_tableOf (accepted : o.fault? = none) (hframing : o.framing = .statements readingTable positionTable)
    (pass : Pass) : TableName.Dotted (tableOf readingTable positionTable pass).toList := by
  have hcomplaints := (accepted_iff o).mp accepted
  rw [complaints, hframing, List.forall_mem_append] at hcomplaints
  obtain ⟨-, hnames⟩ := hcomplaints
  cases pass with
  | readings => exact not_not.mp (hnames _ List.mem_cons_self)
  | positions => exact not_not.mp (hnames _ (List.mem_cons_of_mem _ List.mem_cons_self))

theorem passText_eq_statementBody (hframing : o.framing = .statements readingTable positionTable)
    (hbound : o.upperBound ≠ 0) (seed : Seed) (pass : Pass) :
    o.passText seed pass = Framing.statementBody (tableOf readingTable positionTable pass).toList
      (pass.columns.map String.toList) (o.tuples seed pass) ++ [';', '\n'] := by
  have htable : o.framing.table? pass = some (tableOf readingTable positionTable pass) := by
    rw [hframing]
    cases pass <;> rfl
  rw [passText_statement htable, if_neg hbound, Framing.header_eq]
  rfl

theorem inline_opening (accepted : o.fault? = none) (hframing : o.framing = .statements readingTable positionTable)
    (pass : Pass) : Inline (Framing.opening (tableOf readingTable positionTable pass).toList
      (pass.columns.map String.toList)) :=
  Framing.inline_opening (TableName.inline_of_dotted (dotted_tableOf accepted hframing pass)) pass.inline_columns

theorem fits_of_mem_tuples (seed : Seed) (pass : Pass) :
    ∀ tuple ∈ o.tuples seed pass, Framing.Fits pass.columns.length tuple := by
  intro tuple htuple
  obtain ⟨i, -, rfl⟩ := List.mem_map.mp htuple
  exact pass.fits_tuple _ _

theorem isStatement_passText (accepted : o.fault? = none)
    (hframing : o.framing = .statements readingTable positionTable) (hbound : o.upperBound ≠ 0) (seed : Seed)
    (pass : Pass) :
    Framing.IsStatement (tableOf readingTable positionTable pass).toList (pass.columns.map String.toList)
      o.rowsPerPass.toNat (o.passText seed pass) := by
  have hspace := TableName.space_not_mem_of_dotted (dotted_tableOf accepted hframing pass)
  have hcolumns : pass.columns.map String.toList ≠ [] := by
    cases pass <;> exact List.cons_ne_nil _ _
  rw [passText_eq_statementBody hframing hbound, ← length_tuples accepted seed pass]
  refine Framing.isStatement (inline_opening accepted hframing pass)
    (Framing.readOpening?_opening hspace hcolumns pass.whole_columns) (mt tuples_eq_nil_iff.mp hbound) ?_
  rw [List.length_map]
  exact fits_of_mem_tuples seed pass

end Options

section
variable {σ : Type} {device : Device σ}

/-- A run into a device without faults that writes statements leaves one for each selected pass: cut behind each
    semicolon that ends a line, its text falls into these and nothing else. Each tells the table and the columns of
    its pass, and has a line for each row, with a value for each column. -/
theorem statements_well_formed (hfree : device.FaultFree) (state : σ) {o : Options} (occasion : Occasion)
    {readingTable positionTable : String} (accepted : o.fault? = none)
    (hframing : o.framing = .statements readingTable positionTable) (hbound : o.upperBound ≠ 0) :
    ∃ (report : Report) (text : List Char) (pieces : List (List Char)),
      (runInto device state o occasion).1 = .ok report ∧
      (runInto device state o occasion).2.stored = utf8 text ∧
      Framing.cut text = (pieces, []) ∧ text = pieces.flatten ∧
      List.Forall₂ (fun (pass : Pass) piece => Framing.IsStatement
          (Options.tableOf readingTable positionTable pass).toList (pass.columns.map String.toList)
          o.rowsPerPass.toNat piece)
        ([.readings, .positions].filter (· ∈ o.passes)) pieces ∧
      Pass.readings.columns.length = 2 ∧ Pass.positions.columns.length = 21 := by
  obtain ⟨hreport, -⟩ := runInto_of_faultFree accepted hfree state occasion
  have hstored := stored_of_faultFree accepted hfree state occasion
  generalize o.seed.getD occasion.randomSeed = seed at hstored
  refine ⟨_, o.text seed, ([Pass.readings, .positions].filter (· ∈ o.passes)).map (o.passText seed), hreport, hstored,
    ?_, ?_, ?_, rfl, rfl⟩
  · have hpass := funext (Options.passText_eq_statementBody hframing hbound seed)
    rw [Options.text, hpass]
    refine Framing.cut_flatMap fun pass _ => ?_
    refine Framing.semicolon_not_mem_statementBody (Options.inline_opening accepted hframing pass) fun tuple htuple => ?_
    exact (Options.fits_of_mem_tuples seed pass tuple htuple).1
  · rw [Options.text, List.flatMap_def]
  · rw [List.forall₂_map_right_iff]
    exact List.forall₂_same.mpr fun pass _ => Options.isStatement_passText accepted hframing hbound seed pass

/-- Five rows for each of two tables, one of them in a schema. -/
theorem statements_well_formed_of_five_rows :
    let o : Options := { upperBound := 4294967296, step := 1000000000, framing := .statements "a.b" "_9" }
    (Device.byteByByte.FaultFree ∧ o.fault? = none ∧ o.framing = .statements "a.b" "_9" ∧ o.upperBound ≠ 0) ∧
      ∃ text readings positions, (runInto Device.byteByByte () o .epoch).2.stored = utf8 text ∧
        Framing.cut text = ([readings, positions], []) ∧
        Framing.IsStatement "a.b".toList ["price".toList, "timestamp".toList] 5 readings ∧
        Framing.IsStatement "_9".toList (Position.columns.map String.toList) 5 positions := by
  intro o
  have accepted : o.fault? = none := by decide
  have hbound : o.upperBound ≠ 0 := by decide
  have hrows : o.rowsPerPass.toNat = 5 := by decide
  obtain ⟨-, text, pieces, -, hstored, hcut, -, hpieces, -, -⟩ :=
    statements_well_formed Device.faultFree_byteByByte () .epoch accepted rfl hbound
  rw [hrows] at hpieces
  obtain _ | ⟨hreadings, _ | ⟨hpositions, _ | _⟩⟩ := hpieces
  exact ⟨⟨Device.faultFree_byteByByte, accepted, rfl, hbound⟩, text, _, _, hstored, hcut, hreadings, hpositions⟩

end

end SyntheticRows
