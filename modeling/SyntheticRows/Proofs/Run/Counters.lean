import Mathlib
import SyntheticRows.Proofs.Run.Truth

/-!
Counters that hold what they count. No row is long, whatever its record says, and a pass has at most 2^32 rows. So with
table names of less than 2^32 bytes the counts of a pass are exact at every moment (`counts_rounds`), and the sums of a
report are the true ones.
-/

namespace SyntheticRows
open Recording

/-! ### Rows and passes -/

theorem length_utf8_tuple_le {tuple : List Char} (h : tuple.length ≤ 52565) : (utf8 tuple).length ≤ 210260 := by
  have := length_utf8_le tuple
  omega

namespace Options
variable {o : Options}

theorem length_passText_lt_of_names (accepted : o.fault? = none) (hnames : o.nameBytes < 2 ^ 32) (seed : Seed)
    (pass : Pass) : (utf8 (o.passText seed pass)).length < 2 ^ 53 := by
  have hlength := length_passText_lt accepted seed pass
  cases htable : o.framing.table? pass with
  | none =>
    rw [htable, Option.elim_none] at hlength
    omega
  | some table =>
    have hname := length_table_le htable
    rw [htable, Option.elim_some] at hlength
    omega

/-- The first rows of a pass are framed to a part of its text. -/
theorem length_framed_take_le (o : Options) (seed : Seed) (pass : Pass) (n : ℕ) :
    (Framing.Writer.framed (Run.writerFor o.framing pass).header? ((o.rows seed pass).take n)).length ≤
      (utf8 (o.passText seed pass)).length := by
  obtain ⟨hrows, -⟩ := Run.writerFor_fresh o.framing pass
  rw [← framed_rows, List.length_append, ← Framing.Writer.added_eq_framed hrows, ← Framing.Writer.added_eq_framed hrows]
  exact Nat.le_trans (Framing.Writer.added_prefix _ (List.take_prefix n _)).length_le (Nat.le_add_right _ _)

end Options

/-! ### Counts -/

namespace Framing.Writer
variable {σ : Type}

/-- The counts of a writer that has led a device from one recording to another: each byte that the device took on the way
    is counted, and 64 bits are enough for the count. -/
structure Counts (w : Writer) (r t : Recording σ) : Prop where
  bytes : t.stored.length = r.stored.length + w.bytes
  bytes_lt : w.bytes < 2 ^ 64
  rows_le : w.rows ≤ 2 ^ 32

theorem Counts.of_extends {w : Writer} (hfresh : w.bytes = 0) {r t : Recording σ} {hs : List Happening}
    (hextends : r.Extends hs t) {n : ℕ} (hbytes : (taken hs).length < 2 ^ 64) (hrows : n ≤ 2 ^ 32) :
    Counts { w.count (taken hs).length with rows := n } r t := by
  have hcount : min maxBytes (w.bytes + (taken hs).length) = (taken hs).length := by
    rw [hfresh, Nat.zero_add]
    exact Nat.min_eq_right (Nat.le_sub_one_of_lt hbytes)
  refine ⟨?_, ?_, hrows⟩
  · rw [hextends.stored, List.length_append]
    exact congrArg _ hcount.symm
  · exact hcount.trans_lt hbytes

theorem length_closing_le (header? : Option Bytes) (rows : ℕ) : (closing header? rows).length ≤ 2 := by
  unfold closing
  split
  · exact Nat.le_of_eq rfl
  · exact Nat.zero_le 2

/-- Ending a pass writes two bytes at most, and counts those that are taken. -/
theorem adds_finish_counted (w : Writer) :
    Adds (w.finish : StateM (Recording σ) (Option IoFault × Writer)) fun a hs =>
      (taken hs).length ≤ 2 ∧ a.2 = w.count (taken hs).length := by
  refine (adds_finish w).mono fun a hs ⟨hattempt, hw, _⟩ => ⟨?_, hw⟩
  have hpart := hattempt.taken_prefix
  rw [List.filterMap_append, filterMap_map_byte] at hpart
  calc (taken hs).length ≤ (closing w.header? w.rows ++ []).length := hpart.length_le
    _ ≤ 2 := by
      rw [List.append_nil]
      exact length_closing_le w.header? w.rows

end Framing.Writer

namespace Run
variable {σ : Type} {o : Options}

/-- Rounds of the loop over the rows of a pass write no more than a part of its text, and count the bytes that are
    taken. -/
theorem adds_rounds_counted (accepted : o.fault? = none) (seed : Seed) (pass : Pass) (rounds : ℕ) :
    Adds (writeRows (rowText o.framing pass (pass.seed seed)) o.step.toNat o.upperBound.toNat rounds 0
        (writerFor o.framing pass) : StateM (Recording σ) _) fun a hs =>
      (taken hs).length ≤ (utf8 (o.passText seed pass)).length ∧
        ∃ n ≤ 2 ^ 32, a.2 = { (writerFor o.framing pass).count (taken hs).length with rows := n } := by
  refine (adds_rounds accepted seed pass rounds).mono fun a hs ⟨fault, _, hattempt, n, hn, hw, _⟩ => ⟨?_, n, ?_, hw⟩
  · have hpart := hattempt.taken_prefix
    rw [filterMap_map_byte] at hpart
    exact Nat.le_trans hpart.length_le (o.length_framed_take_le seed pass rounds)
  · have hall := Options.rowsPerPass_le accepted
    have hsize : UInt32.size = 2 ^ 32 := rfl
    rw [List.length_take, Options.length_rows (Options.step_ne_zero accepted)] at hn
    omega

/-- After any number of rounds of the loop over the rows of a pass the counts are exact, and they stay so when the pass
    is ended there, whatever the device does. -/
theorem counts_rounds (accepted : o.fault? = none) (hnames : o.nameBytes < 2 ^ 32) (seed : Seed) (pass : Pass)
    (rounds : ℕ) (r : Recording σ) :
    let loop := StateT.run (m := Id) (writeRows (rowText o.framing pass (pass.seed seed)) o.step.toNat o.upperBound.toNat
      rounds 0 (writerFor o.framing pass)) r
    let ending := StateT.run (m := Id) loop.1.2.finish loop.2
    loop.1.2.Counts r loop.2 ∧ ending.1.2.Counts r ending.2 := by
  intro loop ending
  obtain ⟨-, hfresh⟩ := writerFor_fresh o.framing pass
  obtain ⟨hs, hextends, htaken, n, hrows, hw⟩ := adds_rounds_counted accepted seed pass rounds r
  obtain ⟨ks, kextends, ktaken, kw⟩ := Framing.Writer.adds_finish_counted loop.1.2 loop.2
  have hw : loop.1.2 = { (writerFor o.framing pass).count (taken hs).length with rows := n } := hw
  have kw : ending.1.2 = loop.1.2.count (taken ks).length := kw
  have htext := Options.length_passText_lt_of_names accepted hnames seed pass
  constructor
  · rw [hw]
    exact .of_extends hfresh hextends (by omega) hrows
  · have hboth : ending.1.2 = { (writerFor o.framing pass).count (taken (hs ++ ks)).length with rows := n } := by
      rw [kw, hw, taken_append, List.length_append, ← Framing.Writer.count_count]
      rfl
    rw [hboth]
    refine .of_extends hfresh (hextends.trans kextends) ?_ hrows
    rw [taken_append, List.length_append]
    omega

end Run

/-! ### Reports -/

namespace Report
variable {r : Report}

/-- The report without the passes after the first ones, as it is while its sums are built up. -/
def first (r : Report) (n : ℕ) : Report :=
  { r with passes := r.passes.take n }

theorem sum_first_le (f : PassReport → ℕ) (n : ℕ) : ((r.first n).passes.map f).sum ≤ (r.passes.map f).sum :=
  ((List.take_sublist n r.passes).map f).sum_le_sum fun _ _ => Nat.zero_le _

theorem toNat_rowsTotal_first (h : (r.passes.map (·.rows.toNat)).sum < 2 ^ 64) (n : ℕ) :
    (r.first n).rowsTotal.toNat = ((r.first n).passes.map (·.rows.toNat)).sum :=
  toNat_rowsTotal (Nat.lt_of_le_of_lt (sum_first_le (·.rows.toNat) n) h)

theorem toNat_bytesTotal_first (h : (r.passes.map (·.bytesWritten.toNat)).sum < 2 ^ 64) (n : ℕ) :
    (r.first n).bytesTotal.toNat = ((r.first n).passes.map (·.bytesWritten.toNat)).sum :=
  toNat_bytesTotal (Nat.lt_of_le_of_lt (sum_first_le (·.bytesWritten.toNat) n) h)

end Report

namespace Options
variable {o : Options}

theorem sum_rows (o : Options) (seed : Seed) :
    ((o.selectedPasses.map (o.passReport seed)).map (·.rows.toNat)).sum = o.selectedPasses.length * o.rowsPerPass.toNat := by
  have heach : (fun p : PassReport => p.rows.toNat) ∘ o.passReport seed = fun _ => o.rowsPerPass.toNat := rfl
  rw [List.map_map, heach, List.map_const', List.sum_replicate, smul_eq_mul]

theorem sum_rows_lt (accepted : o.fault? = none) : o.selectedPasses.length * o.rowsPerPass.toNat < 2 ^ 64 := by
  have hpasses : o.selectedPasses.length ≤ 2 := List.length_filter_le _ _
  have hrows := rowsPerPass_le accepted
  have hsize : UInt32.size = 2 ^ 32 := rfl
  calc o.selectedPasses.length * o.rowsPerPass.toNat ≤ 2 * UInt32.size := Nat.mul_le_mul hpasses hrows
    _ < 2 ^ 64 := by rw [hsize]; decide

end Options

/-- No count of a run is cut off, if the names of the tables have less than 2^32 bytes. No row has more than 210260 bytes,
    whatever is drawn. So at every moment of a pass, on any device, each byte that was taken is counted in 64 bits, and no
    more than 2^32 rows are. The sums of a report are the sums of whole numbers, and never wrap on the way: they are the
    rows and the bytes that were written. -/
theorem counters_never_clip {σ : Type} (device : Device σ) (state : σ) {o : Options} (occasion : Occasion)
    (accepted : o.fault? = none) (hnames : o.nameBytes < 2 ^ 32) :
    ((∀ p : Position, (utf8 p.tuple).length ≤ 210260) ∧ (∀ r : Reading, (utf8 r.tuple).length ≤ 210260) ∧
      ∀ (pass : Pass) (passSeed : Seed) (index : UInt32), (utf8 (pass.tuple passSeed index)).length ≤ 210260) ∧
    (∀ (seed : Seed) (pass : Pass) (rounds : ℕ) (r : Recording σ),
      let loop := StateT.run (m := Id) (Run.writeRows (Run.rowText o.framing pass (pass.seed seed)) o.step.toNat
        o.upperBound.toNat rounds 0 (Run.writerFor o.framing pass)) r
      let ending := StateT.run (m := Id) loop.1.2.finish loop.2
      loop.1.2.Counts r loop.2 ∧ ending.1.2.Counts r ending.2) ∧
    ∀ report, (runInto device state o occasion).1 = .ok report →
      (∀ p ∈ report.passes, p.rows.toNat ≤ 2 ^ 32 ∧
        p.bytesWritten.toNat = (utf8 (o.passText report.seed p.pass)).length) ∧
      (∀ n, (report.first n).rowsTotal.toNat = ((report.first n).passes.map (·.rows.toNat)).sum ∧
        (report.first n).bytesTotal.toNat = ((report.first n).passes.map (·.bytesWritten.toNat)).sum) ∧
      report.rowsTotal.toNat = o.selectedPasses.length * o.rowsPerPass.toNat ∧
      report.bytesTotal.toNat = (runInto device state o occasion).2.stored.length := by
  refine ⟨⟨fun p => length_utf8_tuple_le p.length_tuple_le, fun r => length_utf8_tuple_le r.length_tuple_le,
    fun pass passSeed index => length_utf8_tuple_le (pass.length_tuple_le passSeed index)⟩,
    fun seed pass rounds r => Run.counts_rounds accepted hnames seed pass rounds r, fun report hreport => ?_⟩
  have hshort : o.nameBytes < 2 ^ 63 := Nat.lt_trans hnames (by decide)
  have hpasses := passes_of_runInto hreport
  have hrows := o.sum_rows report.seed
  have hbytes := Options.sum_bytesWritten accepted hshort report.seed
  rw [← hpasses] at hrows hbytes
  have hrowsLt : (report.passes.map (·.rows.toNat)).sum < 2 ^ 64 := hrows ▸ Options.sum_rows_lt accepted
  have hbytesLt : (report.passes.map (·.bytesWritten.toNat)).sum < 2 ^ 64 :=
    hbytes ▸ Options.length_text_lt accepted report.seed hshort
  refine ⟨fun p hp => ?_, fun n => ⟨Report.toNat_rowsTotal_first hrowsLt n, Report.toNat_bytesTotal_first hbytesLt n⟩,
    (Report.toNat_rowsTotal hrowsLt).trans hrows, ?_⟩
  · rw [hpasses] at hp
    obtain ⟨pass, -, rfl⟩ := List.mem_map.mp hp
    exact ⟨Options.rowsPerPass_le accepted, Options.toNat_bytesWritten_eq accepted hshort report.seed pass⟩
  · rw [Report.toNat_bytesTotal hbytesLt, hbytes, (runInto_ok hreport).2]

/-- A device that takes one byte at a time gets a row for each index there is, twice. -/
theorem counters_never_clip_at_all_indexes :
    let o : Options := { seed := some 7, upperBound := 4294967296, step := 1, framing := .statements "a.b" "c" }
    (o.fault? = none ∧ o.nameBytes < 2 ^ 32) ∧
      ∃ report, (runInto Device.byteByByte () o .epoch).1 = .ok report ∧ report.rowsTotal.toNat = 2 ^ 33 ∧
        report.bytesTotal.toNat = (runInto Device.byteByByte () o .epoch).2.stored.length := by
  intro o
  have accepted : o.fault? = none := by decide
  have hnames : o.nameBytes < 2 ^ 32 := by decide
  have hreport := (runInto_of_faultFree accepted Device.faultFree_byteByByte () .epoch).1
  obtain ⟨-, -, hrows, hbytes⟩ :=
    (counters_never_clip Device.byteByByte () .epoch accepted hnames).2.2 _ hreport
  have hcount : o.selectedPasses.length * o.rowsPerPass.toNat = 2 ^ 33 := by decide
  exact ⟨⟨accepted, hnames⟩, _, hreport, hrows.trans hcount, hbytes⟩

end SyntheticRows
