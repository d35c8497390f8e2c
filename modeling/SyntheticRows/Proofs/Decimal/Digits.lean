import Mathlib
import SyntheticRows.Proofs.Decimal.Shortest

/-!
The digits of shortest decimals. A grid that is not wider than a rounding interval gives a decimal, so the search ends
at a grid not much finer than the interval, and the decimal has few digits (`digits_shortest_le`).
-/

namespace SyntheticRows
open Binary64

namespace RoundingInterval

/-- On a grid, the interval lies between two multiples if neither of them is in it. -/
theorem bounds_of_decimalAt?_eq_none {i : RoundingInterval} {rule : MidpointRule} {place : ℤ} (hlow : i.low < i.value)
    (hhigh : i.value < i.high) (hden : 0 < i.den) (h : i.decimalAt? rule place = none) :
    ∃ below : ℕ, below * (10 ^ place.toNat * i.den) ≤ i.low * 10 ^ (-place).toNat ∧
      i.high * 10 ^ (-place).toNat ≤ (below + 1) * (10 ^ place.toNat * i.den) := by
  have hscale : 0 < 10 ^ (-place).toNat := Nat.pow_pos (by decide)
  have hunit : 0 < 10 ^ place.toNat * i.den := Nat.mul_pos (Nat.pow_pos (by decide)) hden
  have hbelow := Nat.div_mul_le_self (i.value * 10 ^ (-place).toNat) (10 ^ place.toNat * i.den)
  have habove := (Nat.div_lt_iff_lt_mul hunit).mp
    (Nat.lt_succ_self (i.value * 10 ^ (-place).toNat / (10 ^ place.toNat * i.den)))
  have hlow' := Nat.mul_lt_mul_of_pos_right hlow hscale
  have hhigh' := Nat.mul_lt_mul_of_pos_right hhigh hscale
  unfold decimalAt? at h
  simp only [Nat.pow_eq] at h
  generalize i.value * 10 ^ (-place).toNat / (10 ^ place.toNat * i.den) = below at *
  have hlower : i.contains ⟨below, place⟩ = false := by
    by_contra hne
    rw [Bool.not_eq_false] at hne
    simp only [hne, if_true] at h
    split at h
    · split at h <;> cases h
    · cases h
  have hupper : i.contains ⟨below + 1, place⟩ = false := by
    by_contra hne
    rw [Bool.not_eq_false] at hne
    simp [hlower, hne] at h
  unfold contains at hlower hupper
  simp only [Nat.pow_eq, Nat.mul_assoc] at hlower hupper
  rw [Nat.succ_eq_add_one] at habove
  refine ⟨below, ?_, ?_⟩
  · split at hlower
    · simp at hlower; omega
    · simp at hlower; omega
  · split at hupper
    · simp at hupper; omega
    · simp at hupper; omega

/-- The number of an interval is at most so many times as large as the interval is wide: at most 2^54 times, and fewer
    times where numbers have fewer bits. -/
theorem value_le_width {rank : ℕ} (h : 0 < rank) :
    (ofRank rank).value ≤ 2 * min rank (2 ^ 53) * ((ofRank rank).high - (ofRank rank).low) := by
  obtain ⟨s, hlow, hvalue, hhigh, -⟩ := ofRank_scaled rank
  refine Nat.le_of_mul_le_mul_right ?_ (Nat.two_pow_pos s)
  rw [Nat.mul_assoc, Nat.sub_mul, hlow, hhigh, hvalue]
  have hbelow := magnitude_pred_lt h
  obtain ⟨k, m, rfl, hm, hk⟩ := exists_significand rank
  have hmagnitude := magnitude_add hk hm.le
  have hnext : magnitude (k * binade + (m + 1)) = m * 2 ^ k + 2 ^ k := by
    rw [magnitude_add (hk.imp_right Nat.le_succ_of_le) hm, Nat.succ_mul]
  have hbits : m ≤ min (k * binade + m) (2 ^ 53) := le_min (Nat.le_add_left _ _) hm.le
  rw [Nat.add_assoc]
  rw [hmagnitude] at hbelow ⊢
  rw [hnext]
  generalize min (k * binade + m) (2 ^ 53) = bound at hbits
  calc 2 * (m * 2 ^ k) ≤ 2 * (bound * 2 ^ k) := Nat.mul_le_mul_left 2 (Nat.mul_le_mul_right _ hbits)
    _ = 2 * bound * 2 ^ k := (Nat.mul_assoc _ _ _).symm
    _ ≤ _ := Nat.mul_le_mul_left _ (by omega)

theorem den_pos (rank : ℕ) : 0 < (ofRank rank).den := by
  refine Nat.pos_of_ne_zero fun hzero => ?_
  have hunits := den_mul_two_pow rank
  have hone := unitsPerOne_pos
  rw [hzero, Nat.zero_mul] at hunits
  omega

/-- On the first grid the number lies below the first multiple that is not zero. -/
theorem first_quotient_eq_zero {rank : ℕ} {place : ℤ}
    (h : place = (Decimal.numeral ((ofRank rank).value / (ofRank rank).den)).length) :
    (ofRank rank).value * 10 ^ (-place).toNat / (10 ^ place.toNat * (ofRank rank).den) = 0 := by
  have hlt : (ofRank rank).value / (ofRank rank).den < 10 ^ (Decimal.numeral
      ((ofRank rank).value / (ofRank rank).den)).length :=
    (Nat.length_toDigits_le_iff (by decide) Nat.length_toDigits_pos).mp le_rfl
  rw [h, Int.toNat_natCast, show (-((Decimal.numeral _).length : ℤ)).toNat = 0 by omega, pow_zero, Nat.mul_one]
  exact Nat.div_eq_of_lt ((Nat.div_lt_iff_lt_mul (den_pos rank)).mp hlt)

theorem place_succ (place : ℤ) :
    10 ^ (-place).toNat * 10 ^ (place + 1).toNat = 10 * (10 ^ (-(place + 1)).toNat * 10 ^ place.toNat) := by
  rcases lt_or_ge place 0 with h | h
  · rw [show (-place).toNat = (-(place + 1)).toNat + 1 by omega, show (place + 1).toNat = 0 by omega,
      show place.toNat = 0 by omega]
    ring
  · rw [show (place + 1).toNat = place.toNat + 1 by omega, show (-place).toNat = 0 by omega,
      show (-(place + 1)).toNat = 0 by omega]
    ring

end RoundingInterval

namespace Binary64
open RoundingInterval

theorem digits_shortest_le_min {rank : ℕ} (hpos : 0 < rank) (hfinite : rank < infiniteRank) (rule : MidpointRule) :
    (shortest rank rule).digits ≤ 10 * (2 * min rank (2 ^ 53)) + 1 := by
  obtain ⟨place, -, -, hfound, hbefore⟩ := shortest_mem hpos hfinite rule
  obtain ⟨-, -, hdigits⟩ := contains_of_decimalAt? hfound
  refine Nat.le_trans hdigits (Nat.succ_le_succ ?_)
  rcases hbefore with hfirst | hnone
  · rw [first_quotient_eq_zero hfirst]
    exact Nat.zero_le _
  · obtain ⟨below, hlow, hhigh⟩ :=
      bounds_of_decimalAt?_eq_none (low_lt_value hpos) (value_lt_high rank) (den_pos rank) hnone
    have hvalue := value_le_width hpos
    have hplace := place_succ place
    generalize 2 * min rank (2 ^ 53) = bound at hvalue ⊢
    generalize RoundingInterval.ofRank rank = i at *
    have hwidth : (i.high - i.low) * 10 ^ (-(place + 1)).toNat ≤ 10 ^ (place + 1).toNat * i.den := by
      rw [Nat.sub_mul]
      rw [Nat.succ_mul] at hhigh
      omega
    refine Nat.div_le_of_le_mul (Nat.le_of_mul_le_mul_right ?_ (Nat.pow_pos (by decide) : 0 < 10 ^ (place + 1).toNat))
    calc i.value * 10 ^ (-place).toNat * 10 ^ (place + 1).toNat
        = i.value * (10 * (10 ^ (-(place + 1)).toNat * 10 ^ place.toNat)) := by rw [Nat.mul_assoc, hplace]
      _ ≤ bound * (i.high - i.low) * (10 * (10 ^ (-(place + 1)).toNat * 10 ^ place.toNat)) :=
          Nat.mul_le_mul_right _ hvalue
      _ = 10 * bound * 10 ^ place.toNat * ((i.high - i.low) * 10 ^ (-(place + 1)).toNat) := by ring
      _ ≤ 10 * bound * 10 ^ place.toNat * (10 ^ (place + 1).toNat * i.den) := Nat.mul_le_mul_left _ hwidth
      _ = 10 ^ place.toNat * i.den * (10 * bound) * 10 ^ (place + 1).toNat := by ring

theorem digits_shortest_le {rank : ℕ} (hpos : 0 < rank) (hfinite : rank < infiniteRank) (rule : MidpointRule) :
    (shortest rank rule).digits ≤ 10 * 2 ^ 54 + 1 := by
  have hdigits := digits_shortest_le_min hpos hfinite rule
  have := Nat.min_le_right rank (2 ^ 53)
  omega

theorem digits_shortest_pos {rank : ℕ} (hpos : 0 < rank) (hfinite : rank < infiniteRank) (rule : MidpointRule) :
    0 < (shortest rank rule).digits := by
  refine Nat.pos_of_ne_zero fun hzero => ?_
  have hlow := (roundsTo_shortest hpos hfinite rule).lower
  have hmagnitude : magnitude (rank - 1) < magnitude rank := magnitude_pred_lt hpos
  rw [Decimal.toRat, hzero, Nat.cast_zero, zero_mul, zero_mul, mul_zero] at hlow
  have hcast : magnitude (rank - 1) + magnitude rank ≤ 0 := by exact_mod_cast hlow
  omega

theorem unitsPerOne_lt : 42 * unitsPerOne < 10 ^ 325 := by
  rw [← Nat.pow_eq]
  decide +kernel

/-- A decimal is not finer than its digits need, and no number is much smaller than 10^-323. -/
theorem exponent_shortest_ge {rank : ℕ} (hpos : 0 < rank) (hfinite : rank < infiniteRank) (rule : MidpointRule) :
    -324 ≤ (shortest rank rule).exponent := by
  have hdigits := digits_shortest_le_min hpos hfinite rule
  have hlow := (roundsTo_shortest hpos hfinite rule).lower
  have hrank : 2 * rank - 1 ≤ magnitude (rank - 1) + magnitude rank := by
    have hbelow : rank - 1 ≤ magnitude (rank - 1) := magnitude_strictMono.le_apply
    have hself : rank ≤ magnitude rank := magnitude_strictMono.le_apply
    omega
  by_contra hnot
  obtain ⟨k, hk⟩ := Int.exists_eq_neg_ofNat (by omega : (shortest rank rule).exponent ≤ 0)
  have hten : (0 : ℚ) < 10 ^ k := by positivity
  rw [Decimal.toRat, hk, zpow_neg, zpow_natCast, ← div_eq_mul_inv, div_mul_eq_mul_div, ← mul_div_assoc,
    le_div_iff₀ hten] at hlow
  have hlow' : (magnitude (rank - 1) + magnitude rank) * 10 ^ k ≤ 2 * ((shortest rank rule).digits * unitsPerOne) := by
    exact_mod_cast hlow
  have hfine : 10 ^ k ≤ 42 * unitsPerOne := by
    refine Nat.le_of_mul_le_mul_left ?_ (by omega : 0 < 2 * rank - 1)
    calc (2 * rank - 1) * 10 ^ k ≤ (magnitude (rank - 1) + magnitude rank) * 10 ^ k := Nat.mul_le_mul_right _ hrank
      _ ≤ 2 * ((shortest rank rule).digits * unitsPerOne) := hlow'
      _ = 2 * (shortest rank rule).digits * unitsPerOne := (Nat.mul_assoc _ _ _).symm
      _ ≤ (2 * rank - 1) * 42 * unitsPerOne := Nat.mul_le_mul_right _ (by omega)
      _ = (2 * rank - 1) * (42 * unitsPerOne) := Nat.mul_assoc _ _ _
  exact absurd (hfine.trans_lt unitsPerOne_lt)
    (Nat.not_lt.mpr (Nat.pow_le_pow_right (by decide) (by omega)))

theorem exponent_shortest_mem {rank : ℕ} (hpos : 0 < rank) (hfinite : rank < infiniteRank) (rule : MidpointRule) :
    -324 ≤ (shortest rank rule).exponent ∧ (shortest rank rule).exponent ≤ 342 := by
  obtain ⟨place, -, hhigh, hfound, -⟩ := shortest_mem hpos hfinite rule
  obtain ⟨-, hexponent, -⟩ := contains_of_decimalAt? hfound
  exact ⟨exponent_shortest_ge hpos hfinite rule, hexponent ▸ hhigh⟩

end Binary64

end SyntheticRows
