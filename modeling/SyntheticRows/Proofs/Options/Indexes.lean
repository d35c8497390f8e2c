import Mathlib.Data.List.Sort
import SyntheticRows.Options

/-!
The indexes of the rows of a pass: the multiples of the step below the bound. They are as many as
`rowsPerPass` says, and below an accepted bound each is a number of 32 bits.
-/

namespace SyntheticRows.Options

/-- The multiples of the step below the bound, in rising order. -/
def indexes (o : Options) : List Nat :=
  (List.range o.upperBound.toNat).filter (o.step.toNat ∣ ·)

theorem mem_indexes {o : Options} {i : Nat} : i ∈ o.indexes ↔ i < o.upperBound.toNat ∧ o.step.toNat ∣ i := by
  simp [indexes]

theorem indexes_pairwise (o : Options) : o.indexes.Pairwise (· < ·) :=
  List.pairwise_lt_range.filter _

/-! ### The number of rows -/

/-- A quotient rounded up counts the multiples below the dividend. -/
theorem lt_ceil_iff {b s i : Nat} (hs : 0 < s) : i < (b + s - 1) / s ↔ i * s < b := by
  rw [← Nat.succ_le_iff, Nat.le_div_iff_mul_le hs, Nat.succ_mul]
  omega

theorem ceil_le {b s : Nat} (hs : 0 < s) : (b + s - 1) / s ≤ b := by
  by_contra h
  have := (lt_ceil_iff hs).mp (Nat.lt_of_not_le h)
  exact absurd this (Nat.not_lt.mpr (Nat.le_mul_of_pos_right b hs))

variable {o : Options}

theorem step_pos (h : o.step ≠ 0) : 0 < o.step.toNat :=
  Nat.pos_of_ne_zero fun h0 => h (UInt64.toNat_inj.mp h0)

theorem toNat_rowsPerPass (h : o.step ≠ 0) :
    o.rowsPerPass.toNat = (o.upperBound.toNat + o.step.toNat - 1) / o.step.toNat := by
  rw [rowsPerPass, if_neg h]
  exact UInt64.toNat_ofNat_of_lt' (Nat.lt_of_le_of_lt (ceil_le (step_pos h)) o.upperBound.toNat_lt_size)

theorem indexes_eq_range' (h : o.step ≠ 0) : o.indexes = List.range' 0 o.rowsPerPass.toNat o.step.toNat := by
  have hpos := step_pos h
  refine (indexes_pairwise o).eq_of_mem_iff (List.pairwise_lt_range' _ hpos) fun i => ?_
  rw [mem_indexes, List.mem_range', toNat_rowsPerPass h]
  constructor
  · rintro ⟨hi, k, rfl⟩
    exact ⟨k, (lt_ceil_iff hpos).mpr (by rwa [Nat.mul_comm]), (Nat.zero_add _).symm⟩
  · rintro ⟨k, hk, rfl⟩
    rw [Nat.zero_add]
    exact ⟨by rw [Nat.mul_comm]; exact (lt_ceil_iff hpos).mp hk, Nat.dvd_mul_right _ _⟩

theorem length_indexes (h : o.step ≠ 0) : o.indexes.length = o.rowsPerPass.toNat := by
  rw [indexes_eq_range' h, List.length_range']

theorem length_indexes_le (h : o.step ≠ 0) : o.indexes.length ≤ o.upperBound.toNat := by
  rw [length_indexes h, toNat_rowsPerPass h]
  exact ceil_le (step_pos h)

theorem take_range' (k start n step : Nat) :
    (List.range' start n step).take k = List.range' start (min k n) step := by
  induction n generalizing k start with
  | zero => simp
  | succ n ih =>
    cases k with
    | zero => simp
    | succ k => rw [List.range'_succ, List.take_succ_cons, ih, Nat.succ_min_succ, List.range'_succ]

theorem take_indexes (h : o.step ≠ 0) (k : Nat) :
    o.indexes.take k = List.range' 0 (min k o.rowsPerPass.toNat) o.step.toNat := by
  rw [indexes_eq_range' h, take_range']

/-! ### Accepted options -/

theorem fault?_eq_none_iff : o.fault? = none ↔
    o.step ≠ 0 ∧ o.upperBound.toNat ≤ UInt32.size ∧ o.passes ≠ [] ∧ tableFault? o.framing = none := by
  rw [fault?, maxUpperBound, ← Nat.not_lt]
  by_cases hstep : o.step = 0
  · simp [hstep]
  by_cases hbound : UInt32.size < o.upperBound.toNat
  · simp [hstep, hbound]
  by_cases hpasses : o.passes = []
  · simp [hstep, hbound, hpasses]
  · simp [hstep, hbound, hpasses]

theorem step_ne_zero (h : o.fault? = none) : o.step ≠ 0 :=
  (fault?_eq_none_iff.mp h).1

theorem upperBound_le (h : o.fault? = none) : o.upperBound.toNat ≤ UInt32.size :=
  (fault?_eq_none_iff.mp h).2.1

theorem lt_of_mem_indexes (h : o.fault? = none) {i : Nat} (hi : i ∈ o.indexes) : i < UInt32.size :=
  Nat.lt_of_lt_of_le (mem_indexes.mp hi).1 (upperBound_le h)

theorem rowsPerPass_le (h : o.fault? = none) : o.rowsPerPass.toNat ≤ UInt32.size := by
  rw [toNat_rowsPerPass (step_ne_zero h)]
  exact Nat.le_trans (ceil_le (step_pos (step_ne_zero h))) (upperBound_le h)

end SyntheticRows.Options
