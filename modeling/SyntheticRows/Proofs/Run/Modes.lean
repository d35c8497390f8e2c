import Mathlib
import SyntheticRows.Proofs.Run.Delivery

/-!
The two framings of a run. With the same seed, bound, step and passes, lines and statements carry the same
tuples: what stands in the lines of a pass before the last comma stands between the opening of its statement
and the semicolon.
-/

namespace SyntheticRows

namespace Options

/-! ### The same rows -/

/-- The tuples of a pass as they stand in either framing, with a comma and a line break between any two. -/
def body (o : Options) (seed : Seed) (pass : Pass) : List Char :=
  [',', '\n'].intercalate (o.tuples seed pass)

variable {o : Options} {seed : Seed} {pass : Pass}

theorem indexes_eq_nil_iff : o.indexes = [] ↔ o.upperBound = 0 := by
  rw [List.eq_nil_iff_forall_not_mem, ← UInt64.toNat_inj]
  constructor
  · intro h
    by_contra hpos
    exact h 0 (mem_indexes.mpr ⟨Nat.pos_of_ne_zero hpos, Nat.dvd_zero _⟩)
  · intro h i hi
    have := (mem_indexes.mp hi).1
    rw [h] at this
    exact absurd this (Nat.not_lt_zero i)

theorem tuples_eq_nil_iff : o.tuples seed pass = [] ↔ o.upperBound = 0 := by
  rw [tuples, List.map_eq_nil_iff, indexes_eq_nil_iff]

theorem passText_lines (h : o.framing.table? pass = none) :
    o.passText seed pass = if o.upperBound = 0 then [] else o.body seed pass ++ [',', '\n'] := by
  rw [passText, h]
  by_cases hzero : o.upperBound = 0
  · rw [if_pos hzero, tuples_eq_nil_iff.mpr hzero]
    rfl
  · rw [if_neg hzero]
    exact flatMap_append_eq_intercalate _ fun hnil => hzero (tuples_eq_nil_iff.mp hnil)

theorem passText_statement {table : String} (h : o.framing.table? pass = some table) :
    o.passText seed pass =
      if o.upperBound = 0 then [] else Framing.header table pass.columns ++ o.body seed pass ++ [';', '\n'] := by
  rw [passText, h]
  simp only [tuples_eq_nil_iff]
  rfl

/-- The text of a statement is longer than that of the same lines by the opening. -/
theorem length_passText_statement {p : Options} {table : String} (ho : o.framing.table? pass = none)
    (hp : p.framing.table? pass = some table) (hbound : p.upperBound = o.upperBound)
    (hbody : p.body seed pass = o.body seed pass) :
    (utf8 (p.passText seed pass)).length = (utf8 (o.passText seed pass)).length +
      if o.upperBound = 0 then 0 else (utf8 (Framing.header table pass.columns)).length := by
  have hcomma : (utf8 [',', '\n']).length = 2 := rfl
  have hend : (utf8 [';', '\n']).length = 2 := rfl
  rw [passText_statement hp, passText_lines ho, hbound, hbody]
  split
  · rfl
  · simp only [utf8_append, List.length_append, hcomma, hend]
    omega

/-- The line of a row: its record, drawn from the words of its seed, as a tuple with a comma. -/
def drawnLine (seed : Seed) (pass : Pass) (index : UInt32) : List Char :=
  match pass with
  | .readings =>
    (StateT.run (Reading.draw index) ((seed.forKey "readings").rowWords index.toUInt64)).1.tuple ++ [',']
  | .positions =>
    (StateT.run (Position.draw index) ((seed.forKey "positions").rowWords index.toUInt64)).1.tuple ++ [',']

theorem line_eq_drawnLine (seed : Seed) (pass : Pass) (index : UInt32) :
    pass.line (pass.seed seed) index = drawnLine seed pass index := by
  cases pass <;> rfl

theorem body_eq_lines (h : o.upperBound ≠ 0) :
    o.body seed pass ++ [',', '\n'] =
      o.indexes.flatMap fun i => drawnLine seed pass (UInt32.ofNat i) ++ ['\n'] := by
  have hne : o.tuples seed pass ≠ [] := fun hnil => h (tuples_eq_nil_iff.mp hnil)
  rw [body, ← flatMap_append_eq_intercalate _ hne, tuples, List.flatMap_map]
  simp only [← line_eq_drawnLine, Pass.line, Pass.lineOf, List.append_assoc, List.singleton_append]

/-! ### The two framings -/

def asLines (o : Options) (seed : Seed) : Options :=
  { o with seed := some seed, framing := .lines }

def asStatements (o : Options) (seed : Seed) (readingTable positionTable : String) : Options :=
  { o with seed := some seed, framing := .statements readingTable positionTable }

def tableOf (readingTable positionTable : String) : Pass → String
  | .readings => readingTable
  | .positions => positionTable

theorem table?_asStatements (o : Options) (seed : Seed) (readingTable positionTable : String) (pass : Pass) :
    (o.asStatements seed readingTable positionTable).framing.table? pass =
      some (tableOf readingTable positionTable pass) := by
  cases pass <;> rfl

variable {readingTable positionTable : String}

theorem accepted_asLines (h : (o.asStatements seed readingTable positionTable).fault? = none) :
    (o.asLines seed).fault? = none := by
  obtain ⟨hstep, hbound, hpasses, -⟩ := fault?_eq_none_iff.mp h
  exact fault?_eq_none_iff.mpr ⟨hstep, hbound, hpasses, rfl⟩

/-- The bytes of a statement are those of the lines and of the opening. -/
theorem bytes_asStatements (h : (o.asStatements seed readingTable positionTable).fault? = none)
    (hname : (utf8 (tableOf readingTable positionTable pass).toList).length < 2 ^ 63) :
    ((o.asStatements seed readingTable positionTable).passReport seed pass).bytesWritten.toNat =
      ((o.asLines seed).passReport seed pass).bytesWritten.toNat + if o.upperBound = 0 then 0
        else (utf8 (Framing.header (tableOf readingTable positionTable pass) pass.columns)).length := by
  have htable := table?_asStatements o seed readingTable positionTable pass
  have hlines := bytes_passText (accepted_asLines h) seed pass fun table hnone => by cases hnone
  have hstatements := bytes_passText h seed pass fun table hsome => by
    rw [htable] at hsome
    exact Option.some.inj hsome ▸ hname
  rw [toNat_bytesWritten, toNat_bytesWritten]
  calc min Framing.Writer.maxBytes _ = _ := hstatements
    _ = _ + _ := length_passText_statement (o := o.asLines seed) rfl htable rfl rfl
    _ = min Framing.Writer.maxBytes _ + _ := congrArg (· + _) hlines.symm

end Options

section
open Options

/-- Two runs with the same seed, bound, step and passes on devices without faults, one that writes lines and
    one that writes statements. For each pass there is one text: it stands in the lines before the last comma,
    each line being the row of its index, and in the statement between the opening and the semicolon. Without
    rows both write nothing. The reports count the same rows, and their bytes differ by the opening if the names
    of the tables have fewer than 2^63 bytes, as every text in memory has. -/
theorem framings_agree {σ τ : Type} {device : Device σ} {other : Device τ} (hdevice : device.FaultFree)
    (hother : other.FaultFree) (state : σ) (otherState : τ) (o : Options) (seed : Seed)
    (readingTable positionTable : String) (occasion : Occasion)
    (accepted : (o.asStatements seed readingTable positionTable).fault? = none) :
    let lines := runInto device state (o.asLines seed) occasion
    let statements := runInto other otherState (o.asStatements seed readingTable positionTable) occasion
    let header : Pass → List Char := fun pass =>
      "INSERT INTO ".toList ++ (tableOf readingTable positionTable pass).toList ++ " (".toList ++
        ", ".toList.intercalate (pass.columns.map String.toList) ++ ") VALUES\n".toList
    ∃ (body : Pass → List Char) (a b : Report), lines.1 = .ok a ∧ statements.1 = .ok b ∧
      effects lines.2.happenings = o.selectedPasses.flatMap (fun pass =>
        (utf8 (if o.upperBound = 0 then [] else body pass ++ ",\n".toList)).map .byte ++ [.flush]) ∧
      effects statements.2.happenings = o.selectedPasses.flatMap (fun pass =>
        (utf8 (if o.upperBound = 0 then [] else header pass ++ body pass ++ ";\n".toList)).map .byte ++ [.flush]) ∧
      (o.upperBound ≠ 0 → ∀ pass, body pass ++ ",\n".toList =
        o.indexes.flatMap fun i => drawnLine seed pass (UInt32.ofNat i) ++ ['\n']) ∧
      a.passes.map (·.pass) = o.selectedPasses ∧ b.passes.map (·.pass) = o.selectedPasses ∧
      a.passes.map (·.rows) = b.passes.map (·.rows) ∧
      ((∀ pass, (utf8 (tableOf readingTable positionTable pass).toList).length < 2 ^ 63) →
        List.Forall₂ (fun x y => y.bytesWritten.toNat = x.bytesWritten.toNat +
          if o.upperBound = 0 then 0 else (utf8 (header x.pass)).length) a.passes b.passes) := by
  intro lines statements header
  obtain ⟨hlines, hlineEffects⟩ := runInto_of_faultFree (accepted_asLines accepted) hdevice state occasion
  obtain ⟨hstatements, hstatementEffects⟩ := runInto_of_faultFree accepted hother otherState occasion
  have hlineText : ∀ pass, (o.asLines seed).passText seed pass =
      if o.upperBound = 0 then [] else o.body seed pass ++ ",\n".toList := fun pass => passText_lines rfl
  have hstatementText : ∀ pass, (o.asStatements seed readingTable positionTable).passText seed pass =
      if o.upperBound = 0 then [] else header pass ++ o.body seed pass ++ ";\n".toList := fun pass =>
    passText_statement (table?_asStatements o seed readingTable positionTable pass)
  refine ⟨o.body seed, _, _, hlines, hstatements, hlineEffects.trans ?_, hstatementEffects.trans ?_,
    fun hne pass => body_eq_lines hne, ?_, ?_, ?_, fun hnames => ?_⟩
  · refine congrArg (List.flatMap · o.selectedPasses) (funext fun pass => ?_)
    exact congrArg (fun text => (utf8 text).map Effect.byte ++ [.flush]) (hlineText pass)
  · refine congrArg (List.flatMap · o.selectedPasses) (funext fun pass => ?_)
    exact congrArg (fun text => (utf8 text).map Effect.byte ++ [.flush]) (hstatementText pass)
  · rw [report, List.map_map]
    exact List.map_id _
  · rw [report, List.map_map]
    exact List.map_id _
  · rw [report, report, List.map_map, List.map_map]
    rfl
  · rw [report, report, List.forall₂_map_left_iff, List.forall₂_map_right_iff]
    refine (List.forall₂_same (l := o.selectedPasses)).mpr fun pass _ => ?_
    exact bytes_asStatements accepted (hnames pass)

/-- Two passes of five rows, once as lines and once as statements. -/
theorem framings_agree_on_five_rows :
    let o : Options := { upperBound := 4294967296, step := 1000000000 }
    let lines := o.asLines 7
    let statements := o.asStatements 7 "a.b" "c"
    (Device.byteByByte.FaultFree ∧ statements.fault? = none) ∧
      ∃ (body : Pass → List Char) (a b : Report), (runInto Device.byteByByte () lines .epoch).1 = .ok a ∧
        (runInto Device.byteByByte () statements .epoch).1 = .ok b ∧
        (∀ pass, body pass ++ ",\n".toList =
          o.indexes.flatMap fun i => drawnLine 7 pass (UInt32.ofNat i) ++ ['\n']) ∧
        List.Forall₂ (fun x y => y.bytesWritten.toNat = x.bytesWritten.toNat +
          (utf8 (Framing.header (tableOf "a.b" "c" x.pass) x.pass.columns)).length) a.passes b.passes := by
  intro o lines statements
  have hfree := Device.faultFree_byteByByte
  have accepted : statements.fault? = none := by decide
  have hrows : o.upperBound ≠ 0 := by decide
  have hnames : ∀ pass, (utf8 (tableOf "a.b" "c" pass).toList).length < 2 ^ 63 := by
    intro pass
    cases pass <;> decide
  obtain ⟨body, a, b, ha, hb, -, -, hbody, -, -, -, hbytes⟩ :=
    framings_agree hfree hfree () () o 7 "a.b" "c" .epoch accepted
  exact ⟨⟨hfree, accepted⟩, body, a, b, ha, hb, hbody hrows, hbytes hnames⟩

end

end SyntheticRows
