import Mathlib
import SyntheticRows.Proofs.Run.Replay

/-!
True reports. The report on a run that succeeds counts what was written, and its seed gives the same bytes again
(`tellsOf_of_runInto`).
-/

namespace SyntheticRows

/-- A running sum of words is exact as long as 64 bits hold the numbers together. -/
theorem toNat_foldl_add {α : Type} (f : α → UInt64) (xs : List α) (total : UInt64)
    (h : total.toNat + (xs.map fun x => (f x).toNat).sum < 2 ^ 64) :
    (xs.foldl (fun total x => total + f x) total).toNat = total.toNat + (xs.map fun x => (f x).toNat).sum := by
  induction xs generalizing total with
  | nil => rfl
  | cons x xs ih =>
    rw [List.map_cons, List.sum_cons] at h ⊢
    have hadd : (total + f x).toNat = total.toNat + (f x).toNat := by
      rw [UInt64.toNat_add]
      omega
    rw [List.foldl_cons, ih _ (by omega), hadd, Nat.add_assoc]

namespace Report
variable {r : Report}

theorem toNat_rowsTotal (h : (r.passes.map (·.rows.toNat)).sum < 2 ^ 64) :
    r.rowsTotal.toNat = (r.passes.map (·.rows.toNat)).sum :=
  (toNat_foldl_add PassReport.rows r.passes 0 (by simpa using h)).trans (Nat.zero_add _)

theorem toNat_bytesTotal (h : (r.passes.map (·.bytesWritten.toNat)).sum < 2 ^ 64) :
    r.bytesTotal.toNat = (r.passes.map (·.bytesWritten.toNat)).sum :=
  (toNat_foldl_add PassReport.bytesWritten r.passes 0 (by simpa using h)).trans (Nat.zero_add _)

end Report

namespace Options

/-- The bytes of the names of the tables. -/
def nameBytes (o : Options) : Nat :=
  match o.framing with
  | .lines => 0
  | .statements readingTable positionTable => (utf8 readingTable.toList).length + (utf8 positionTable.toList).length

end Options

/-- What a report tells is true of a run with these options that wrote these bytes. They are counted in full unless
    the names of the tables have 2^63 bytes or more, as no texts in memory have. The seed gives the bytes again wherever
    it is used. -/
structure Report.TellsOf (report : Report) (o : Options) (written : Bytes) : Prop where
  passes : report.passes.map (·.pass) = o.selectedPasses
  rows : ∀ p ∈ report.passes, p.rows = o.rowsPerPass
  bytes : o.nameBytes < 2 ^ 63 → report.bytesTotal.toNat = written.length
  replays : ∀ v : Venue, v.output? (o.withSeed report.seed) = some written

namespace Options
variable {o : Options}

theorem length_table_le {pass : Pass} {table : String} (h : o.framing.table? pass = some table) :
    (utf8 table.toList).length ≤ o.nameBytes := by
  rw [nameBytes]
  cases hframing : o.framing with
  | lines =>
    rw [hframing] at h
    cases h
  | statements readingTable positionTable =>
    rw [hframing] at h
    cases pass <;> obtain rfl := Option.some.inj h
    · exact Nat.le_add_right _ _
    · exact Nat.le_add_left _ _

theorem toNat_bytesWritten_eq (accepted : o.fault? = none) (h : o.nameBytes < 2 ^ 63) (seed : Seed) (pass : Pass) :
    (o.passReport seed pass).bytesWritten.toNat = (utf8 (o.passText seed pass)).length :=
  (o.toNat_bytesWritten seed pass).trans
    (bytes_passText accepted seed pass fun _ htable => Nat.lt_of_le_of_lt (length_table_le htable) h)

theorem length_text (o : Options) (seed : Seed) :
    (utf8 (o.text seed)).length = (o.selectedPasses.map fun pass => (utf8 (o.passText seed pass)).length).sum := by
  rw [text, utf8_flatMap, List.length_flatMap]
  rfl

/-- Only names that no memory holds make a text that is too long for its bytes to be counted. -/
theorem length_text_lt (accepted : o.fault? = none) (seed : Seed) (h : o.nameBytes < 2 ^ 63) :
    (utf8 (o.text seed)).length < 2 ^ 64 := by
  have hreadings := length_passText_lt accepted seed .readings
  have hpositions := length_passText_lt accepted seed .positions
  have hnames : ((o.framing.table? .readings).elim 0 fun table => (utf8 table.toList).length) +
      ((o.framing.table? .positions).elim 0 fun table => (utf8 table.toList).length) = o.nameBytes := by
    rw [nameBytes]
    cases o.framing <;> rfl
  have hle : (utf8 (o.text seed)).length ≤
      (utf8 (o.passText seed .readings)).length + (utf8 (o.passText seed .positions)).length := by
    rw [text_eq_append, utf8_append, List.length_append]
    refine Nat.add_le_add ?_ ?_ <;> split <;> simp [utf8]
  omega

theorem sum_bytesWritten (accepted : o.fault? = none) (h : o.nameBytes < 2 ^ 63) (seed : Seed) :
    ((o.selectedPasses.map (o.passReport seed)).map (·.bytesWritten.toNat)).sum = (utf8 (o.text seed)).length := by
  rw [length_text, List.map_map]
  exact congrArg List.sum (List.map_congr_left fun pass _ => toNat_bytesWritten_eq accepted h seed pass)

end Options

section
variable {σ : Type} {device : Device σ} {state : σ} {o : Options} {occasion : Occasion} {report : Report}

theorem eq_report_of_runInto (h : (runInto device state o occasion).1 = .ok report) : report = o.report occasion := by
  have hresult := runInto_of_accepted (accepted_of_runInto h) device state occasion
  rw [h] at hresult
  exact hresult.2

theorem passes_of_runInto (h : (runInto device state o occasion).1 = .ok report) :
    report.passes = o.selectedPasses.map (o.passReport report.seed) := by
  obtain rfl := eq_report_of_runInto h
  rfl

theorem tellsOf_of_runInto (h : (runInto device state o occasion).1 = .ok report) :
    report.TellsOf o (runInto device state o occasion).2.stored := by
  have accepted := accepted_of_runInto h
  obtain ⟨hseed, hstored⟩ := runInto_ok h
  have hpasses := passes_of_runInto h
  refine ⟨?_, fun p hp => ?_, fun hnames => ?_, fun v => ?_⟩
  · rw [hpasses, List.map_map]
    exact List.map_id _
  · rw [hpasses] at hp
    obtain ⟨pass, -, rfl⟩ := List.mem_map.mp hp
    rfl
  · have hsum := Options.sum_bytesWritten accepted hnames report.seed
    have hlt := Options.length_text_lt accepted report.seed hnames
    rw [← hpasses] at hsum
    rw [hstored, Report.toNat_bytesTotal (hsum ▸ hlt), hsum]
  · have haccepted : (o.withSeed report.seed).fault? = none := (o.fault?_withSeed report.seed).trans accepted
    rw [v.output?_eq haccepted rfl, hstored, Options.text_withSeed]

end

end SyntheticRows
