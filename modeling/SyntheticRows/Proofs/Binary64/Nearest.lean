import SyntheticRows.Proofs.Binary64.Arithmetic

/-!
Numbers with a sign as values. A sum or a product that is not too large is the number that the exact result rounds to
(`isNearest_add`, `isNearest_mul`), and no number lies between a value and the one it rounds to: rounding keeps what is
at most a number at most that number (`IsNearest.le`, `IsNearest.ge`). A sum is never the negative zero.
-/

namespace SyntheticRows.Binary64

variable {x y : Binary64} {q : ℚ}

/-! ### Values -/

/-- The value of a finite number. -/
def toRat (x : Binary64) : ℚ :=
  x.units / unitsPerOne

theorem unitsPerOne_pos_rat : (0 : ℚ) < unitsPerOne :=
  Nat.cast_pos.mpr unitsPerOne_pos

theorem toRat_mul (x : Binary64) : x.toRat * unitsPerOne = x.units :=
  div_mul_cancel₀ _ unitsPerOne_pos_rat.ne'

theorem abs_units (x : Binary64) : |(x.units : ℚ)| = magnitude x.rank := by
  unfold units
  split
  · rw [Int.cast_neg, abs_neg, Int.cast_natCast, Nat.abs_cast]
  · rw [Int.cast_natCast, Nat.abs_cast]

theorem abs_toRat_mul (x : Binary64) : |x.toRat| * unitsPerOne = magnitude x.rank := by
  rw [← abs_units, ← toRat_mul, abs_mul, abs_of_pos unitsPerOne_pos_rat]

theorem toRat_nonneg (h : x.isNegative = false) : 0 ≤ x.toRat := by
  refine div_nonneg ?_ unitsPerOne_pos_rat.le
  rw [units, h, if_neg Bool.false_ne_true]
  exact_mod_cast Nat.zero_le _

theorem toRat_nonpos (h : x.isNegative = true) : x.toRat ≤ 0 := by
  refine div_nonpos_of_nonpos_of_nonneg ?_ unitsPerOne_pos_rat.le
  rw [units, h]
  exact_mod_cast Int.neg_nonpos_of_nonneg (Int.natCast_nonneg _)

theorem toRat_lt_intCast {n : ℤ} : x.units < n * unitsPerOne ↔ x.toRat < n := by
  rw [toRat, div_lt_iff₀ unitsPerOne_pos_rat]
  exact_mod_cast Iff.rfl

/-! ### Rounding of values with a sign -/

theorem RoundsTo.rank_le {rank other : ℕ} {z : ℚ} (h : RoundsTo rank z) (hz : z ≤ magnitude other) : rank ≤ other := by
  rcases hz.lt_or_eq with hlt | rfl
  · exact h.le_of_lt_magnitude hlt
  · exact h.eq_of_magnitude.le

theorem RoundsTo.le_rank {rank other : ℕ} {z : ℚ} (h : RoundsTo rank z) (hz : magnitude other ≤ z) : other ≤ rank := by
  by_contra hnot
  have hnext : (magnitude (rank + 1) : ℚ) ≤ magnitude other :=
    Nat.cast_le.mpr (magnitude_strictMono.monotone (by omega))
  have hstrict : (magnitude rank : ℚ) < magnitude (rank + 1) := Nat.cast_lt.mpr (magnitude_lt_succ rank)
  linarith [h.upper]

/-- A value rounds to a number: the number has the sign of the value, a zero the positive sign. -/
structure IsNearest (x : Binary64) (q : ℚ) : Prop where
  finite : x.isFinite
  negative : x.isNegative = decide (q < 0)
  rounds : RoundsTo x.rank (|q| * unitsPerOne)

namespace IsNearest

theorem abs_le (h : x.IsNearest q) (hq : |q| ≤ |y.toRat|) : |x.toRat| ≤ |y.toRat| := by
  have hU := unitsPerOne_pos_rat
  have hrank : x.rank ≤ y.rank := h.rounds.rank_le (by rw [← abs_toRat_mul]; gcongr)
  rw [← mul_le_mul_iff_left₀ hU, abs_toRat_mul, abs_toRat_mul]
  exact Nat.cast_le.mpr (magnitude_strictMono.monotone hrank)

theorem le_abs (h : x.IsNearest q) (hq : |y.toRat| ≤ |q|) : |y.toRat| ≤ |x.toRat| := by
  have hU := unitsPerOne_pos_rat
  have hrank : y.rank ≤ x.rank := h.rounds.le_rank (by rw [← abs_toRat_mul]; gcongr)
  rw [← mul_le_mul_iff_left₀ hU, abs_toRat_mul, abs_toRat_mul]
  exact Nat.cast_le.mpr (magnitude_strictMono.monotone hrank)

theorem toRat_nonneg (h : x.IsNearest q) (hq : 0 ≤ q) : 0 ≤ x.toRat :=
  Binary64.toRat_nonneg (h.negative.trans (decide_eq_false hq.not_gt))

theorem toRat_nonpos (h : x.IsNearest q) (hq : q < 0) : x.toRat ≤ 0 :=
  Binary64.toRat_nonpos (h.negative.trans (decide_eq_true hq))

theorem le (h : x.IsNearest q) (hq : q ≤ y.toRat) : x.toRat ≤ y.toRat := by
  rcases le_or_gt 0 q with hpos | hneg
  · have habs := h.abs_le (y := y) (by rwa [abs_of_nonneg hpos, abs_of_nonneg (hpos.trans hq)])
    rwa [abs_of_nonneg (h.toRat_nonneg hpos), abs_of_nonneg (hpos.trans hq)] at habs
  · rcases le_or_gt 0 y.toRat with hy | hy
    · exact (h.toRat_nonpos hneg).trans hy
    · have habs := h.le_abs (y := y) (by rw [abs_of_neg hneg, abs_of_neg hy]; linarith)
      rw [abs_of_nonpos (h.toRat_nonpos hneg), abs_of_neg hy] at habs
      linarith

theorem ge (h : x.IsNearest q) (hq : y.toRat ≤ q) : y.toRat ≤ x.toRat := by
  rcases lt_or_ge q 0 with hneg | hpos
  · have habs := h.abs_le (y := y) (by rw [abs_of_neg hneg, abs_of_neg (hq.trans_lt hneg)]; linarith)
    rw [abs_of_nonpos (h.toRat_nonpos hneg), abs_of_neg (hq.trans_lt hneg)] at habs
    linarith
  · rcases le_or_gt y.toRat 0 with hy | hy
    · exact hy.trans (h.toRat_nonneg hpos)
    · have habs := h.le_abs (y := y) (by rwa [abs_of_nonneg hpos, abs_of_pos hy])
      rwa [abs_of_nonneg (h.toRat_nonneg hpos), abs_of_pos hy] at habs

theorem eq (h : x.IsNearest y.toRat) : x.toRat = y.toRat :=
  le_antisymm (h.le le_rfl) (h.ge le_rfl)

end IsNearest

/-! ### Numbers with up to 53 bits -/

theorem magnitude_infiniteRank : magnitude infiniteRank = binade * 2 ^ 2046 := by
  have hrank : infiniteRank = 2046 * binade + binade := by decide
  rw [hrank]
  exact magnitude_add (.inr le_rfl) (by decide)

theorem exists_magnitude_finite {m k : ℕ} (hm : m ≤ 2 * binade) (hk : k ≤ 1074) :
    ∃ rank < infiniteRank, magnitude rank = m * 2 ^ k := by
  obtain ⟨rank, hrank⟩ := exists_magnitude_eq hm k
  have hpower : 2 ^ (1074 + 1) < 2 ^ 2046 := Nat.pow_lt_pow_right (by decide) (by decide)
  refine ⟨rank, magnitude_strictMono.lt_iff_lt.mp ?_, hrank⟩
  calc magnitude rank = m * 2 ^ k := hrank
    _ ≤ 2 * binade * 2 ^ 1074 := Nat.mul_le_mul hm (Nat.pow_le_pow_right (by decide) hk)
    _ = binade * 2 ^ (1074 + 1) := by rw [pow_succ' 2 1074, Nat.mul_comm 2, Nat.mul_assoc]
    _ < binade * 2 ^ 2046 := Nat.mul_lt_mul_of_pos_left hpower (by decide)
    _ = magnitude infiniteRank := magnitude_infiniteRank.symm

/-- A whole number of 53 bits divided by a power of two is the value of a number. -/
theorem exists_toRat_eq {m : ℤ} {k : ℕ} (hm : |m| ≤ 2 * binade) (hk : k ≤ 1074) :
    ∃ y : Binary64, y.isFinite ∧ y.toRat = m / 2 ^ k := by
  have hbits : m.natAbs ≤ 2 * binade := by
    rw [Int.abs_eq_natAbs] at hm
    exact_mod_cast hm
  obtain ⟨rank, hfinite, hrank⟩ := exists_magnitude_finite hbits (Nat.sub_le 1074 k)
  have hsign := hfinite.trans infiniteRank_lt
  refine ⟨ofRank (decide (m < 0)) rank, ?_, ?_⟩
  · rw [isFinite, rank_ofRank hsign]
    exact decide_eq_true hfinite
  · have hunits : (ofRank (decide (m < 0)) rank).units = m * 2 ^ (1074 - k) := by
      rw [units, isNegative_ofRank hsign, rank_ofRank hsign, hrank]
      push_cast
      rcases lt_or_ge m 0 with hneg | hpos
      · rw [decide_eq_true hneg, if_pos rfl, abs_of_neg hneg, neg_mul, neg_neg]
      · rw [decide_eq_false hpos.not_gt, if_neg Bool.false_ne_true, abs_of_nonneg hpos]
    have hpower : (unitsPerOne : ℚ) = 2 ^ (1074 - k) * 2 ^ k := by
      rw [← pow_add, Nat.sub_add_cancel hk, unitsPerOne_eq]
      push_cast
      rfl
    rw [toRat, hunits, hpower]
    push_cast
    rw [mul_comm (m : ℚ)]
    exact mul_div_mul_left _ _ (by positivity)

/-- One step below a whole number is a number. -/
theorem exists_toRat_eq_sub {n : ℤ} {k : ℕ} (hn : 0 < n) (h : n * 2 ^ k ≤ 2 * binade) (hk : k ≤ 1074) :
    ∃ y : Binary64, y.toRat = n - 1 / 2 ^ k := by
  have hsteps : 0 < n * 2 ^ k := mul_pos hn (by positivity)
  obtain ⟨y, -, hy⟩ := exists_toRat_eq (m := n * 2 ^ k - 1) (by rw [abs_of_nonneg (by omega)]; omega) hk
  refine ⟨y, ?_⟩
  rw [hy]
  push_cast
  rw [sub_div, mul_div_cancel_right₀ _ (by positivity)]

/-! ### Arithmetic -/

theorem isNearest_ofUnits {num : ℤ} {den : ℕ} (hden : 0 < den) (hq : q * unitsPerOne = num / den)
    (hbound : |q| ≤ 2 * binade) : (ofUnits num den).IsNearest q := by
  have hU := unitsPerOne_pos_rat
  have hd : (0 : ℚ) < den := Nat.cast_pos.mpr hden
  have habs : |q| * unitsPerOne = num.natAbs / den := by
    rw [← abs_of_pos hU, ← abs_mul, hq, abs_div, abs_of_pos hd, Nat.cast_natAbs, Int.cast_abs]
  obtain ⟨rank, hrank⟩ := exists_roundsTo (mul_nonneg (abs_nonneg q) hU.le)
  obtain ⟨last, hlast, hmagnitude⟩ := exists_magnitude_finite (le_refl (2 * binade)) (le_refl 1074)
  have hfinite : rank < infiniteRank := by
    refine (hrank.rank_le ?_).trans_lt hlast
    rw [hmagnitude, ← unitsPerOne_eq, Nat.cast_mul]
    exact mul_le_mul_of_nonneg_right (by exact_mod_cast hbound) hU.le
  have hsign : decide (num < 0) = decide (q < 0) := by
    have hq : q = num / (den * unitsPerOne) := by rw [← div_div, ← hq, mul_div_cancel_right₀ _ hU.ne']
    rw [decide_eq_decide, hq, div_lt_iff₀ (mul_pos hd hU), zero_mul, Int.cast_lt_zero]
  have hnearest : ofUnits num den = ofRank (decide (q < 0)) rank := by
    rw [ofUnits, nearestRank_eq hden hfinite (habs ▸ hrank), hsign]
  have hbits := hfinite.trans infiniteRank_lt
  rw [hnearest]
  refine ⟨?_, isNegative_ofRank hbits _, ?_⟩
  · rw [isFinite, rank_ofRank hbits]
    exact decide_eq_true hfinite
  · rwa [rank_ofRank hbits]

theorem isNearest_add (h : |x.toRat + y.toRat| ≤ 2 * binade) : (x.add y).IsNearest (x.toRat + y.toRat) := by
  refine isNearest_ofUnits Nat.one_pos ?_ h
  rw [add_mul, toRat_mul, toRat_mul]
  push_cast
  rw [div_one]

theorem isNearest_mul (h : |x.toRat * y.toRat| ≤ 2 * binade) : (x.mul y).IsNearest (x.toRat * y.toRat) := by
  refine isNearest_ofUnits unitsPerOne_pos ?_ h
  rw [eq_div_iff unitsPerOne_pos_rat.ne', Int.cast_mul, ← toRat_mul, ← toRat_mul]
  ring

theorem toRat_ofInt {n : ℤ} (h : |n| ≤ 2 * binade) : (ofInt n).toRat = n := by
  obtain ⟨y, -, hy⟩ := exists_toRat_eq h (Nat.zero_le 1074)
  rw [pow_zero, div_one] at hy
  have hnearest : (ofInt n).IsNearest y.toRat := by
    refine isNearest_ofUnits Nat.one_pos ?_ ?_
    · rw [hy]
      push_cast
      rw [div_one]
    · rw [hy]
      exact_mod_cast h
  rw [hnearest.eq, hy]

/-! ### The negative zero -/

def negativeZero : Binary64 :=
  ofRank true 0

/-- A sum below zero is one unit below it at least, and so is the number that it rounds to. -/
theorem add_ne_negativeZero (h : |x.toRat + y.toRat| ≤ 2 * binade) : x.add y ≠ negativeZero := by
  intro hzero
  have hnearest := isNearest_add h
  rw [hzero] at hnearest
  have hneg : x.toRat + y.toRat < 0 := of_decide_eq_true (hnearest.negative.symm.trans (by decide))
  have hunits : (x.toRat + y.toRat) * unitsPerOne = (x.units + y.units : ℤ) := by
    rw [add_mul, toRat_mul, toRat_mul]
    push_cast
    rfl
  have hone : ((1 : ℤ) : ℚ) ≤ |x.toRat + y.toRat| * unitsPerOne := by
    have hlt : ((x.units + y.units : ℤ) : ℚ) < 0 := by
      rw [← hunits]
      exact mul_neg_of_neg_of_pos hneg unitsPerOne_pos_rat
    rw [← abs_of_pos unitsPerOne_pos_rat, ← abs_mul, hunits, ← Int.cast_abs, Int.cast_le]
    exact Int.one_le_abs (Int.cast_lt_zero.mp hlt).ne
  have hrank : 1 ≤ negativeZero.rank := hnearest.rounds.le_rank (by exact_mod_cast hone)
  exact absurd hrank (by decide)

end SyntheticRows.Binary64
