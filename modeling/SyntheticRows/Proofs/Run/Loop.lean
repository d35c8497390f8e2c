import SyntheticRows.Proofs.Framing.Rows
import SyntheticRows.Proofs.Options.Indexes
import SyntheticRows.Run

/-!
The loop over the rows of a pass visits the indexes of the options one after the other: it is the same
computation as writing the rows at these indexes, and no index is too large on the way.
-/

namespace SyntheticRows.Run

theorem rowIndex?_of_lt {n : Nat} (h : n < UInt32.size) : rowIndex? n = some (UInt32.ofNat n) := by
  rw [rowIndex?, dif_pos h, UInt32.ofNatLT_eq_ofNat]

/-- What writing rows gives, as what the loop gives. -/
def asRun (a : Option IoFault × Framing.Writer) : Option RunFault × Framing.Writer :=
  (a.1.map .io, a.2)

section
variable {m : Type → Type} [Monad m] [LawfulMonad m] [Outlet m] {row : UInt32 → List Char} {step bound : Nat}

/-- From an index on the loop visits `n` indexes, if so many are below the bound and the fuel lasts: then it is at the
    bound or its fuel is used up. The induction is on their number. -/
theorem writeRows_range' (hbound : bound ≤ UInt32.size) (n fuel index : Nat) (hfuel : n ≤ fuel)
    (inside : ∀ k < n, index + k * step < bound) (stops : fuel = n ∨ bound ≤ index + n * step) (w : Framing.Writer) :
    (writeRows row step bound fuel index w : m _) =
      asRun <$> w.writeRows ((List.range' index n step).map fun i => utf8 (row (UInt32.ofNat i))) := by
  induction n generalizing fuel index w with
  | zero =>
    rw [List.range'_zero, List.map_nil, Framing.Writer.writeRows, map_pure]
    cases fuel with
    | zero => rfl
    | succ fuel =>
      have hnot : ¬index < bound := by omega
      rw [writeRows, if_neg hnot]
      rfl
  | succ n ih =>
    obtain ⟨fuel, rfl⟩ : ∃ f, fuel = f + 1 := ⟨fuel - 1, by omega⟩
    have hlt : index < bound := by simpa using inside 0 (Nat.succ_pos n)
    rw [writeRows, if_pos hlt, rowIndex?_of_lt (Nat.lt_of_lt_of_le hlt hbound), List.range'_succ, List.map_cons,
      Framing.Writer.writeRows, map_bind]
    refine bind_congr fun a => ?_
    obtain ⟨fault, w⟩ := a
    cases fault with
    | some fault => exact (map_pure asRun (some fault, w)).symm
    | none =>
      refine ih fuel (index + step) (Nat.le_of_succ_le_succ hfuel) (fun k hk => ?_) ?_ w
      · have := inside (k + 1) (Nat.succ_lt_succ hk)
        rw [Nat.succ_mul] at this
        omega
      · rw [Nat.succ_mul] at stops
        omega

/-- The first rounds of the loop of accepted options visit their first indexes, in order, and nothing else. -/
theorem writeRows_rounds {o : Options} (accepted : o.fault? = none) (rounds : Nat) (w : Framing.Writer) :
    (writeRows row o.step.toNat o.upperBound.toNat rounds 0 w : m _) =
      asRun <$> w.writeRows ((o.indexes.take rounds).map fun i => utf8 (row (UInt32.ofNat i))) := by
  have hstep := Options.step_ne_zero accepted
  have hpos := Options.step_pos hstep
  have hrows := Options.toNat_rowsPerPass hstep
  rw [Options.take_indexes hstep]
  refine writeRows_range' (Options.upperBound_le accepted) _ _ 0 (Nat.min_le_left _ _) (fun k hk => ?_) ?_ w
  · have hk := Nat.lt_of_lt_of_le hk (Nat.min_le_right _ _)
    rw [hrows, Options.lt_ceil_iff hpos] at hk
    rwa [Nat.zero_add]
  · rcases Nat.le_total rounds o.rowsPerPass.toNat with hle | hle
    · exact Or.inl (Nat.min_eq_left hle).symm
    · refine Or.inr ?_
      rw [Nat.min_eq_right hle, Nat.zero_add, hrows, ← Nat.not_lt, ← Options.lt_ceil_iff hpos]
      exact Nat.lt_irrefl _

/-- The loop of accepted options visits their indexes, in order, and nothing else. -/
theorem writeRows_indexes {o : Options} (accepted : o.fault? = none) (w : Framing.Writer) :
    (writeRows row o.step.toNat o.upperBound.toNat o.upperBound.toNat 0 w : m _) =
      asRun <$> w.writeRows (o.indexes.map fun i => utf8 (row (UInt32.ofNat i))) := by
  rw [writeRows_rounds accepted, List.take_of_length_le (Options.length_indexes_le (Options.step_ne_zero accepted))]

/-- A pass that has rows at these indexes, one after the other. -/
def writePassAt (o : Options) (seed : Seed) (pass : Pass) (indexes : List Nat) : m (Except RunFault (Nat × Nat)) := do
  let row := rowText o.framing pass (pass.seed seed)
  let (fault, w) ← (writerFor o.framing pass).writeRows (indexes.map fun i => utf8 (row (UInt32.ofNat i)))
  match fault with
  | some fault => pure (.error (.io fault))
  | none =>
    let (fault, w) ← w.finish
    match fault with
    | some fault => pure (.error (.io fault))
    | none => pure (.ok (w.rows, w.bytes))

/-- A pass of accepted options has rows at their indexes. -/
theorem writePass_indexes {o : Options} (accepted : o.fault? = none) (seed : Seed) (pass : Pass) :
    (writePass o seed pass : m _) = writePassAt o seed pass o.indexes := by
  rw [writePass, writeRows_indexes accepted, bind_map_left]
  refine bind_congr fun a => ?_
  obtain ⟨fault, w⟩ := a
  cases fault <;> rfl

end

end SyntheticRows.Run
