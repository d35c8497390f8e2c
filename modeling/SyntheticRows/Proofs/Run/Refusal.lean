import Mathlib
import SyntheticRows.Proofs.Framing.TableName
import SyntheticRows.Proofs.Run.Streaming
import SyntheticRows.Sink.Scripted

/-!
Refused options. A run refuses options for the first of five reasons that applies to them, before it touches
the device. The rows of options that are not refused can all be written: no index is too large.
-/

namespace SyntheticRows

namespace Options

/-! ### Reasons to refuse -/

/-- What can be wrong with options, in the order in which it is looked for, and what is then said. -/
def complaints (o : Options) : List (Prop × String) :=
  [(o.step = 0, "step must be greater than zero"),
    (4294967296 < o.upperBound.toNat, "upper bound must be at most 4294967296"),
    (o.passes = [], "at least one pass must be selected")] ++
  match o.framing with
  | .lines => []
  | .statements readingTable positionTable =>
    [(¬TableName.Dotted readingTable.toList, "invalid table name '" ++ readingTable ++ "'"),
      (¬TableName.Dotted positionTable.toList, "invalid table name '" ++ positionTable ++ "'")]

/-- The first of the complaints that applies says this. -/
def FirstSays : List (Prop × String) → String → Prop
  | [], _ => False
  | (applies, said) :: rest, text => applies ∧ said = text ∨ ¬applies ∧ FirstSays rest text

theorem exists_firstSays_iff (complaints : List (Prop × String)) :
    (∃ text, FirstSays complaints text) ↔ ∃ c ∈ complaints, c.1 := by
  induction complaints with
  | nil => simp [FirstSays]
  | cons c rest ih =>
    obtain ⟨applies, said⟩ := c
    by_cases h : applies
    · simp [FirstSays, h]
    · simpa [FirstSays, h] using ih

theorem boundTooLarge_message : OptionFault.boundTooLarge.message = "upper bound must be at most 4294967296" :=
  rfl

theorem badTable_message (name : String) :
    (OptionFault.badTable name).message = "invalid table name '" ++ name ++ "'" :=
  rfl

theorem tableFault?_iff (readingTable positionTable text : String) :
    (∃ fault, tableFault? (.statements readingTable positionTable) = some fault ∧ fault.message = text) ↔
      FirstSays [(¬TableName.Dotted readingTable.toList, "invalid table name '" ++ readingTable ++ "'"),
        (¬TableName.Dotted positionTable.toList, "invalid table name '" ++ positionTable ++ "'")] text := by
  simp only [tableFault?, FirstSays, ← TableName.isValid_iff, ← badTable_message]
  by_cases hr : TableName.isValid readingTable
  · by_cases hp : TableName.isValid positionTable
    · simp [hr, hp]
    · simp [hr, hp]
  · simp [hr]

/-- The fault of options says what the first complaint says that applies to them. -/
theorem fault?_iff (o : Options) (text : String) :
    (∃ fault, o.fault? = some fault ∧ fault.message = text) ↔ FirstSays o.complaints text := by
  have hstepSays : "step must be greater than zero" = OptionFault.stepZero.message := rfl
  have hpassSays : "at least one pass must be selected" = OptionFault.noPass.message := rfl
  rw [fault?, complaints, hstepSays, ← boundTooLarge_message, hpassSays, maxUpperBound,
    show UInt32.size = 4294967296 from rfl]
  simp only [List.cons_append, List.nil_append, FirstSays]
  by_cases hstep : o.step = 0
  · simp [hstep]
  by_cases hbound : 4294967296 < o.upperBound.toNat
  · simp [hstep, hbound]
  by_cases hpasses : o.passes = []
  · simp [hstep, hbound, hpasses]
  simp only [hstep, hbound, hpasses, if_false, false_and, false_or, not_false_eq_true, true_and]
  cases o.framing with
  | lines => simp [FirstSays, tableFault?]
  | statements readingTable positionTable => exact tableFault?_iff readingTable positionTable text

theorem fault?_ne_indexTooLarge (o : Options) (index : Nat) : o.fault? ≠ some (.indexTooLarge index) := by
  unfold fault? tableFault?
  intro h
  repeat' split at h
  all_goals cases h

theorem exists_fault?_iff (o : Options) : (∃ fault, o.fault? = some fault) ↔ ∃ c ∈ o.complaints, c.1 := by
  rw [← exists_firstSays_iff]
  constructor
  · rintro ⟨fault, h⟩
    exact ⟨fault.message, (fault?_iff o _).mp ⟨fault, h, rfl⟩⟩
  · rintro ⟨text, h⟩
    obtain ⟨fault, h, -⟩ := (fault?_iff o text).mpr h
    exact ⟨fault, h⟩

theorem accepted_iff (o : Options) : o.fault? = none ↔ ∀ c ∈ o.complaints, ¬c.1 := by
  constructor
  · intro h c hc happlies
    obtain ⟨fault, hfault⟩ := (exists_fault?_iff o).mpr ⟨c, hc, happlies⟩
    rw [h] at hfault
    cases hfault
  · intro h
    cases hfault : o.fault? with
    | none => rfl
    | some fault =>
      obtain ⟨c, hc, happlies⟩ := (exists_fault?_iff o).mp ⟨fault, hfault⟩
      exact absurd happlies (h c hc)

end Options

/-! ### Runs -/

section
variable {σ : Type} {device : Device σ} {state : σ} {o : Options} {occasion : Occasion}

theorem runInto_of_fault {fault : OptionFault} (h : o.fault? = some fault) :
    runInto device state o occasion = (.error (.options fault), { device, state }) := by
  rw [runInto, run, h]
  rfl

theorem runInto_options_iff {fault : OptionFault} :
    (runInto device state o occasion).1 = .error (.options fault) ↔ o.fault? = some fault := by
  constructor
  · intro h
    cases hfault : o.fault? with
    | none =>
      have := runInto_of_accepted hfault device state occasion
      rw [h] at this
      obtain ⟨io, hio, -⟩ := this
      cases hio
    | some other =>
      rw [runInto_of_fault hfault] at h
      cases h
      rfl
  · intro h
    rw [runInto_of_fault h]

/-- A run is refused just if a complaint applies to its options. It then says what the first such complaint
    says, and nothing has reached the device. If none applies, the loop over the rows visits the multiples of
    the step below the bound, one after the other, and each of them is a row index; and each pass of the run
    goes through this loop. -/
theorem run_refused_iff (device : Device σ) (state : σ) (o : Options) (occasion : Occasion) :
    ((∃ fault, (runInto device state o occasion).1 = .error (.options fault)) ↔ ∃ c ∈ o.complaints, c.1) ∧
    (∀ fault, (runInto device state o occasion).1 = .error (.options fault) →
      Options.FirstSays o.complaints fault.message ∧ (∀ index, fault ≠ .indexTooLarge index) ∧
        (runInto device state o occasion).2 = { device, state }) ∧
    ((∀ c ∈ o.complaints, ¬c.1) →
      o.indexes.Pairwise (· < ·) ∧ (∀ i, i ∈ o.indexes ↔ i < o.upperBound.toNat ∧ o.step.toNat ∣ i) ∧
        o.indexes.length = o.rowsPerPass.toNat ∧
        (∀ i ∈ o.indexes, ∃ index, Run.rowIndex? i = some index ∧ index.toNat = i) ∧
        (∀ (row : UInt32 → List Char) (w : Framing.Writer),
          (Run.writeRows row o.step.toNat o.upperBound.toNat o.upperBound.toNat 0 w : StateM (Recording σ) _) =
            Run.asRun <$> w.writeRows (o.indexes.map fun i => utf8 (row (UInt32.ofNat i)))) ∧
        ∀ (seed : Seed) (pass : Pass),
          (Run.writePass o seed pass : StateM (Recording σ) _) = Run.writePassAt o seed pass o.indexes) := by
  simp only [runInto_options_iff]
  refine ⟨Options.exists_fault?_iff o, fun fault h => ⟨?_, fun index hindex => ?_, ?_⟩, fun h => ?_⟩
  · exact (Options.fault?_iff o _).mp ⟨fault, h, rfl⟩
  · exact Options.fault?_ne_indexTooLarge o index (hindex ▸ h)
  · rw [runInto_of_fault h]
  · have accepted := (Options.accepted_iff o).mpr h
    refine ⟨o.indexes_pairwise, fun i => Options.mem_indexes, Options.length_indexes (Options.step_ne_zero accepted),
      fun i hi => ?_, fun row w => Run.writeRows_indexes accepted w, Run.writePass_indexes accepted⟩
    have hlt := Options.lt_of_mem_indexes accepted hi
    exact ⟨_, Run.rowIndex?_of_lt hlt, UInt32.toNat_ofNat_of_lt' hlt⟩

/-- The largest bound with the largest step leaves one row. A step of zero is refused before the bound is. -/
theorem run_refused_iff_at_limits :
    let o : Options := { upperBound := 4294967296, step := 18446744073709551615, framing := .statements "a.b" "_9" }
    let refused : Options := { upperBound := 4294967297, step := 0 }
    ((∀ c ∈ o.complaints, ¬c.1) ∧ o.indexes.length = 1) ∧
      (runInto Script.device {} refused .epoch).1 = .error (.options .stepZero) ∧
      Options.FirstSays refused.complaints "step must be greater than zero" := by
  intro o refused
  have hnone : ∀ c ∈ o.complaints, ¬c.1 := (Options.accepted_iff o).mp (by decide)
  have hrows : o.rowsPerPass.toNat = 1 := by decide
  have haccepted := (run_refused_iff Script.device {} o .epoch).2.2 hnone
  have hrefused : (runInto Script.device {} refused .epoch).1 = .error (.options .stepZero) :=
    runInto_options_iff.mpr rfl
  have hsays := (run_refused_iff Script.device {} refused .epoch).2.1 _ hrefused
  exact ⟨⟨hnone, haccepted.2.2.1.trans hrows⟩, hrefused, hsays.1⟩

end

end SyntheticRows
