import SyntheticRows.Proofs.Binary64.Error
import SyntheticRows.Proofs.Binary64.Plain

/-!
Arithmetic on positive numbers. A whole number, a product and a quotient are the number that the exact result rounds
to, as long as that is finite.
-/

namespace SyntheticRows.Binary64

theorem infiniteRank_lt : infiniteRank < signWeight := by
  decide

theorem toNat_bits_ofRank {rank : ℕ} (h : rank < signWeight) (negative : Bool) :
    (ofRank negative rank).bits.toNat = if negative then signWeight + rank else rank := by
  refine UInt64.toNat_ofNat_of_lt' ?_
  have hsize : UInt64.size = 2 * signWeight := rfl
  split <;> omega

theorem rank_ofRank {rank : ℕ} (h : rank < signWeight) (negative : Bool) : (ofRank negative rank).rank = rank := by
  rw [Binary64.rank, toNat_bits_ofRank h]
  split
  · rw [Nat.add_mod_left, Nat.mod_eq_of_lt h]
  · exact Nat.mod_eq_of_lt h

theorem isNegative_ofRank {rank : ℕ} (h : rank < signWeight) (negative : Bool) :
    (ofRank negative rank).isNegative = negative := by
  rw [isNegative, toNat_bits_ofRank h]
  cases negative with
  | true => exact decide_eq_true (Nat.le_add_right _ _)
  | false => exact decide_eq_false (Nat.not_le.mpr h)

section
variable {a b rank : ℕ}

theorem units_ofRank (h : rank < infiniteRank) : (ofRank false rank).units = magnitude rank := by
  have hrank := h.trans infiniteRank_lt
  rw [units, isNegative_ofRank hrank, rank_ofRank hrank]
  rfl

theorem ofUnits_natCast (num den : ℕ) : ofUnits num den = ofRank false (nearestRank num den) := by
  rw [ofUnits, Int.natAbs_natCast, decide_eq_false (Int.not_lt.mpr (Int.natCast_nonneg num))]

theorem ofUnits_eq {num den : ℕ} (hden : 0 < den) (hfinite : rank < infiniteRank) (h : RoundsTo rank (num / den)) :
    ofUnits num den = ofRank false rank := by
  rw [ofUnits_natCast, nearestRank_eq hden hfinite h]

theorem ofInt_eq {n : ℕ} (hfinite : rank < infiniteRank) (h : RoundsTo rank (n * unitsPerOne)) :
    ofInt n = ofRank false rank := by
  have hcast : ((n : ℤ) * unitsPerOne : ℤ) = (n * unitsPerOne : ℕ) := by push_cast; rfl
  rw [ofInt, hcast]
  refine ofUnits_eq Nat.one_pos hfinite ?_
  convert h using 1
  push_cast
  ring

theorem mul_eq (ha : a < infiniteRank) (hb : b < infiniteRank) (hfinite : rank < infiniteRank)
    (h : RoundsTo rank (magnitude a * magnitude b / unitsPerOne)) :
    (ofRank false a).mul (ofRank false b) = ofRank false rank := by
  have hcast : (magnitude a : ℤ) * magnitude b = (magnitude a * magnitude b : ℕ) := by push_cast; rfl
  rw [mul, units_ofRank ha, units_ofRank hb, hcast]
  refine ofUnits_eq unitsPerOne_pos hfinite ?_
  convert h using 1
  push_cast
  rfl

theorem divPositive_eq (ha : a < infiniteRank) (hb : b < infiniteRank) (hpos : 0 < b) (hfinite : rank < infiniteRank)
    (h : RoundsTo rank (magnitude a * unitsPerOne / magnitude b)) :
    (ofRank false a).divPositive (ofRank false b) = ofRank false rank := by
  have hcast : (magnitude a : ℤ) * unitsPerOne = (magnitude a * unitsPerOne : ℕ) := by push_cast; rfl
  rw [divPositive, units_ofRank ha, units_ofRank hb, hcast, Int.natAbs_natCast]
  refine ofUnits_eq (hpos.trans_le (le_magnitude b)) hfinite ?_
  convert h using 1
  push_cast
  rfl

end

end SyntheticRows.Binary64
