import Mathlib
import SyntheticRows.Proofs.Literal.Inline
import SyntheticRows.Proofs.Run.Delivery

/-!
Runs compared with each other. A row depends on the seed of its run, its pass and its index alone, so the output for
several passes is that for each of them, and runs with other bounds and steps agree in the rows that they share.
-/

namespace SyntheticRows

/-! ### Lines and indexes -/

namespace Options
variable {o : Options}

theorem getElem?_indexes (h : o.step ≠ 0) (i : Nat) :
    o.indexes[i]? = if i * o.step.toNat < o.upperBound.toNat then some (i * o.step.toNat) else none := by
  have hrows : i < o.rowsPerPass.toNat ↔ i * o.step.toNat < o.upperBound.toNat := by
    rw [toNat_rowsPerPass h, lt_ceil_iff (step_pos h)]
  rw [indexes_eq_range' h]
  split
  · rename_i hlt
    rw [List.getElem?_range' (hrows.mpr hlt), Nat.zero_add, Nat.mul_comm]
  · rename_i hge
    refine List.getElem?_eq_none ?_
    rw [List.length_range']
    exact Nat.le_of_not_lt (mt hrows.mp hge)

/-- A lower bound cuts the indexes off, and changes none of those that are left. -/
theorem indexes_prefix {bound : UInt64} (hbound : bound ≤ o.upperBound) (h : o.step ≠ 0) :
    { o with upperBound := bound }.indexes <+: o.indexes := by
  rw [List.prefix_iff_getElem?]
  intro i hi
  have hfewer := getElem?_indexes (o := { o with upperBound := bound }) h i
  rw [List.getElem?_eq_getElem hi] at hfewer
  split at hfewer
  · rename_i hlt
    rw [hfewer, getElem?_indexes h, if_pos (Nat.lt_of_lt_of_le hlt (UInt64.le_iff_toNat_le.mp hbound))]
  · cases hfewer

theorem toNat_mul_step {k : Nat} (hlt : k * o.step.toNat < 2 ^ 64) :
    (UInt64.ofNat (k * o.step.toNat)).toNat = k * o.step.toNat :=
  UInt64.toNat_ofNat_of_lt' hlt

theorem mul_step_ne_zero {k : Nat} (hk : 0 < k) (hlt : k * o.step.toNat < 2 ^ 64) (h : o.step ≠ 0) :
    UInt64.ofNat (k * o.step.toNat) ≠ 0 := fun hzero => by
  have hstep := toNat_mul_step hlt
  rw [hzero] at hstep
  exact absurd hstep (Nat.ne_of_lt (Nat.mul_pos hk (step_pos h)))

/-- With a step that is `k` times as long, the index number `i` is the one that was number `k * i`. -/
theorem getElem?_indexes_mul {k : Nat} (hk : 0 < k) (hlt : k * o.step.toNat < 2 ^ 64) (h : o.step ≠ 0) (i : Nat) :
    { o with step := UInt64.ofNat (k * o.step.toNat) }.indexes[i]? = o.indexes[k * i]? := by
  have hindex : i * (k * o.step.toNat) = k * i * o.step.toNat := by rw [Nat.mul_left_comm, Nat.mul_assoc]
  rw [getElem?_indexes (o := { o with step := UInt64.ofNat (k * o.step.toNat) }) (mul_step_ne_zero hk hlt h),
    getElem?_indexes h]
  simp only [toNat_mul_step hlt, hindex]

/-- The row of a pass at an index, as the bytes of its line. -/
def lineAt (seed : Seed) (pass : Pass) (index : Nat) : Bytes :=
  utf8 (pass.line (pass.seed seed) (UInt32.ofNat index))

theorem newline_not_mem_lineAt (seed : Seed) (pass : Pass) (index : Nat) : newline ∉ lineAt seed pass index := by
  have hcomma : Inline [','] := by decide
  exact newline_not_mem_utf8 ((pass.inline_tuple _ _).append hcomma).newline_not_mem

theorem utf8_passText (hlines : o.framing = .lines) (seed : Seed) (pass : Pass) :
    utf8 (o.passText seed pass) = (o.indexes.map (lineAt seed pass)).flatMap (· ++ [newline]) := by
  have htable : o.framing.table? pass = none := by rw [hlines]; rfl
  have hend : [newline] = utf8 ['\n'] := rfl
  rw [passText, htable, tuples, utf8_flatMap, List.flatMap_map, List.flatMap_map]
  refine congrArg (o.indexes.flatMap ·) (funext fun i => ?_)
  rw [hend, lineAt, ← utf8_append, Pass.line, Pass.lineOf, List.append_assoc]
  rfl

theorem text_single (o : Options) (seed : Seed) (pass : Pass) :
    { o with passes := [pass] }.text seed = o.passText seed pass := by
  cases pass <;> exact List.append_nil _

theorem text_eq_append (o : Options) (seed : Seed) : o.text seed =
    (if .readings ∈ o.passes then o.passText seed .readings else []) ++
      if .positions ∈ o.passes then o.passText seed .positions else [] := by
  rw [text]
  by_cases hreadings : .readings ∈ o.passes <;> by_cases hpositions : .positions ∈ o.passes <;>
    simp [hreadings, hpositions]

end Options

/-! ### Runs -/

/-- Where and when a run takes place: a device without faults, in some state, and an occasion. -/
structure Venue where
  State : Type
  device : Device State
  faultFree : device.FaultFree
  state : State
  occasion : Occasion

namespace Venue
variable {o : Options} {seed : Seed}

/-- The output of a run, if it succeeds. -/
def output? (v : Venue) (o : Options) : Option Bytes :=
  (runInto v.device v.state o v.occasion).1.toOption.map fun _ => (runInto v.device v.state o v.occasion).2.stored

/-- A run succeeds and prints these lines. -/
def Prints (v : Venue) (o : Options) (lines : List Bytes) : Prop :=
  v.output? o = some (lines.flatMap (· ++ [newline])) ∧ ∀ line ∈ lines, newline ∉ line

theorem output?_eq (v : Venue) (accepted : o.fault? = none) (hseed : o.seed = some seed) :
    v.output? o = some (utf8 (o.text seed)) := by
  have hreport := (runInto_of_faultFree accepted v.faultFree v.state v.occasion).1
  have hstored := stored_of_faultFree accepted v.faultFree v.state v.occasion
  rw [hseed, Option.getD_some] at hstored
  rw [output?, hreport, hstored]
  rfl

theorem output?_single (v : Venue) (accepted : o.fault? = none) (hseed : o.seed = some seed) (pass : Pass) :
    v.output? { o with passes := [pass] } = some (utf8 (o.passText seed pass)) := by
  obtain ⟨hstep, hbound, -, htables⟩ := Options.fault?_eq_none_iff.mp accepted
  have haccepted : { o with passes := [pass] }.fault? = none :=
    Options.fault?_eq_none_iff.mpr ⟨hstep, hbound, List.cons_ne_nil _ _, htables⟩
  rw [v.output?_eq haccepted hseed, Options.text_single]

theorem prints_single (v : Venue) (accepted : o.fault? = none) (hseed : o.seed = some seed)
    (hlines : o.framing = .lines) (pass : Pass) :
    v.Prints { o with passes := [pass] } (o.indexes.map (Options.lineAt seed pass)) := by
  refine ⟨?_, List.forall_mem_map.mpr fun i _ => Options.newline_not_mem_lineAt seed pass i⟩
  rw [v.output?_single accepted hseed, Options.utf8_passText hlines]

end Venue

/-- Runs with one seed that write lines, in three places. The output for passes in any order is that for readings
    alone and that for positions alone, as far as they are asked for. For a single pass, each line is the row at one of
    the indexes; a lower bound leaves the first of its lines, and a step that is `k` times as long leaves the lines
    number 0, `k`, `2 * k` and so on. -/
theorem runs_share_rows (u v w : Venue) {o : Options} {seed : Seed} (accepted : o.fault? = none)
    (hseed : o.seed = some seed) (hlines : o.framing = .lines) :
    (∃ readings positions, v.output? { o with passes := [.readings] } = some readings ∧
      w.output? { o with passes := [.positions] } = some positions ∧
      u.output? o = some ((if .readings ∈ o.passes then readings else []) ++
        if .positions ∈ o.passes then positions else [])) ∧
    ∀ pass, ∃ lines, lines = o.indexes.map (Options.lineAt seed pass) ∧ u.Prints { o with passes := [pass] } lines ∧
      (∀ bound ≤ o.upperBound, ∃ first, v.Prints { o with passes := [pass], upperBound := bound } first ∧
        first <+: lines) ∧
      ∀ k : Nat, 0 < k → k * o.step.toNat < 2 ^ 64 → ∃ every,
        w.Prints { o with passes := [pass], step := UInt64.ofNat (k * o.step.toNat) } every ∧
          ∀ i : Nat, every[i]? = lines[k * i]? := by
  obtain ⟨hstep, hbound, hpasses, htables⟩ := Options.fault?_eq_none_iff.mp accepted
  refine ⟨⟨_, _, v.output?_single accepted hseed .readings, w.output?_single accepted hseed .positions, ?_⟩,
    fun pass => ⟨_, rfl, u.prints_single accepted hseed hlines pass, fun bound hle => ?_, fun k hk hlt => ?_⟩⟩
  · rw [u.output?_eq accepted hseed, Options.text_eq_append, utf8_append]
    split <;> split <;> rfl
  · -- The lower bound and the longer step are accepted like those that they stand for.
    have hlower : { o with upperBound := bound }.fault? = none :=
      Options.fault?_eq_none_iff.mpr ⟨hstep, (UInt64.le_iff_toNat_le.mp hle).trans hbound, hpasses, htables⟩
    exact ⟨_, v.prints_single hlower hseed hlines pass, (Options.indexes_prefix hle hstep).map _⟩
  · have hlonger : { o with step := UInt64.ofNat (k * o.step.toNat) }.fault? = none :=
      Options.fault?_eq_none_iff.mpr ⟨Options.mul_step_ne_zero hk hlt hstep, hbound, hpasses, htables⟩
    refine ⟨_, w.prints_single hlonger hseed hlines pass, fun i => ?_⟩
    rw [List.getElem?_map, List.getElem?_map, Options.getElem?_indexes_mul hk hlt hstep]

/-- Both passes, asked for the wrong way round and one of them twice, against each of them alone and with every
    third row. -/
theorem runs_share_rows_of_repeated_passes :
    let o : Options :=
      { seed := some 7, upperBound := 61, step := 10, passes := [.positions, .readings, .positions] }
    let v : Venue := ⟨Unit, Device.byteByByte, Device.faultFree_byteByByte, (), .epoch⟩
    (o.fault? = none ∧ o.seed = some 7 ∧ o.framing = .lines) ∧
      (∃ readings positions, v.output? { o with passes := [.readings] } = some readings ∧
        v.output? { o with passes := [.positions] } = some positions ∧
        v.output? o = some (readings ++ positions)) ∧
      ∃ lines every, lines = [0, 10, 20, 30, 40, 50, 60].map (Options.lineAt 7 .readings) ∧
        v.Prints { o with passes := [.readings] } lines ∧
        v.Prints { o with passes := [.readings], step := 30 } every ∧ every[1]? = lines[3]? := by
  intro o v
  have accepted : o.fault? = none := by decide
  have hindexes : o.indexes = [0, 10, 20, 30, 40, 50, 60] := by decide
  obtain ⟨⟨readings, positions, hreadings, hpositions, hboth⟩, hpass⟩ :=
    runs_share_rows v v v accepted rfl rfl
  obtain ⟨lines, hrows, hlines, -, hstep⟩ := hpass .readings
  obtain ⟨every, hevery, hshared⟩ := hstep 3 (by decide) (by decide)
  exact ⟨⟨accepted, rfl, rfl⟩, ⟨readings, positions, hreadings, hpositions, hboth⟩,
    lines, every, hindexes ▸ hrows, hlines, hevery, hshared 1⟩

end SyntheticRows
