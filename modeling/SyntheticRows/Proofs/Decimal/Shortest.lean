import Mathlib
import SyntheticRows.Decimal.Shortest
import SyntheticRows.Proofs.Binary64.Rounding
import SyntheticRows.Proofs.Decimal.Plain

/-!
The shortest decimal of a floating-point number rounds to the number. The search over finer and finer grids
ends at the first one with a decimal in the rounding interval, at the latest on the grid of 10^-1074, on
which the number itself lies.
-/

namespace SyntheticRows
open Binary64

namespace Decimal

theorem toRat_eq_div (d : Decimal) :
    d.toRat = ((d.digits * 10 ^ d.exponent.toNat : ℕ) : ℚ) / ((10 ^ (-d.exponent).toNat : ℕ) : ℚ) := by
  rw [toRat]
  push_cast
  rcases Int.le_total 0 d.exponent with h | h
  · obtain ⟨n, hn⟩ := Int.eq_ofNat_of_zero_le h
    simp [hn]
  · obtain ⟨n, hn⟩ := Int.eq_ofNat_of_zero_le (Int.neg_nonneg_of_nonpos h)
    rw [show d.exponent = -(n : ℤ) by omega]
    simp [div_eq_mul_inv]

end Decimal

namespace RoundingInterval

/-! ### Rounding intervals -/

theorem two_pow_dvd_magnitude {s rank : ℕ} (h : s ≤ rank / binade - 1) : 2 ^ s ∣ magnitude rank := by
  unfold magnitude
  rw [Nat.pow_eq]
  split
  · rename_i hlt
    rw [Nat.div_eq_of_lt hlt] at h
    obtain rfl : s = 0 := by omega
    exact one_dvd _
  · exact Dvd.dvd.mul_left (pow_dvd_pow 2 h) _

theorem two_mul_unitsPerOne : 2 * unitsPerOne = 2 ^ 1075 := by
  rw [unitsPerOne_eq, ← pow_succ']

theorem den_mul_two_pow (rank : ℕ) : (ofRank rank).den * 2 ^ min (rank / binade - 2) 1075 = 2 * unitsPerOne := by
  have hden : (ofRank rank).den = 2 ^ (1075 - min (rank / binade - 2) 1075) := by simp only [ofRank, Nat.pow_eq]
  rw [hden, ← pow_add, Nat.sub_add_cancel (Nat.min_le_right _ _)]
  exact two_mul_unitsPerOne.symm

/-- Up to a common power of two, the ends and the value of an interval are counted in half units. -/
theorem ofRank_scaled (rank : ℕ) : ∃ s,
    (ofRank rank).low * 2 ^ s = magnitude (rank - 1) + magnitude rank ∧
    (ofRank rank).value * 2 ^ s = 2 * magnitude rank ∧
    (ofRank rank).high * 2 ^ s = magnitude rank + magnitude (rank + 1) ∧
    (ofRank rank).den * 2 ^ s = 2 * unitsPerOne := by
  have hdvd : ∀ r, rank - 1 ≤ r → 2 ^ min (rank / binade - 2) 1075 ∣ magnitude r := fun r hr => by
    refine two_pow_dvd_magnitude (Nat.le_trans (Nat.min_le_left _ _) ?_)
    have := Nat.div_le_div_right (c := binade) hr
    rw [binade_eq] at *
    omega
  refine ⟨min (rank / binade - 2) 1075, ?_, ?_, ?_, den_mul_two_pow rank⟩
  · exact Nat.div_mul_cancel ((hdvd _ le_rfl).add (hdvd _ (Nat.sub_le _ _)))
  · exact Nat.div_mul_cancel ((hdvd _ (Nat.sub_le _ _)).mul_left 2)
  · exact Nat.div_mul_cancel ((hdvd _ (Nat.sub_le _ _)).add (hdvd _ (by omega)))

/-- A decimal in the interval of a rank is a value that rounds to the number of the rank. -/
theorem contains_iff (rank : ℕ) (d : Decimal) :
    (ofRank rank).contains d = true ↔ RoundsTo rank (d.toRat * unitsPerOne) := by
  obtain ⟨s, hlow, -, hhigh, hden⟩ := ofRank_scaled rank
  have hs := Nat.two_pow_pos s
  have hq : d.toRat * unitsPerOne =
      ((d.digits * 10 ^ d.exponent.toNat * unitsPerOne : ℕ) : ℚ) / ((10 ^ (-d.exponent).toNat : ℕ) : ℚ) := by
    rw [d.toRat_eq_div]
    push_cast
    ring
  rw [hq, roundsTo_div_iff (Nat.pow_pos (by decide)), ← hlow, ← hhigh]
  -- Both sides of each comparison hold the same power of two.
  have hnum : 2 * (d.digits * 10 ^ d.exponent.toNat * unitsPerOne) =
      d.digits * 10 ^ d.exponent.toNat * (ofRank rank).den * 2 ^ s := by
    rw [Nat.mul_assoc _ (ofRank rank).den, hden]
    ring
  have hscale : ∀ a : ℕ, a * 2 ^ s * 10 ^ (-d.exponent).toNat = a * 10 ^ (-d.exponent).toNat * 2 ^ s := fun a => by
    ring
  rw [hnum, hscale, hscale, Nat.mul_le_mul_right_iff hs, Nat.mul_le_mul_right_iff hs, Nat.mul_lt_mul_right hs,
    Nat.mul_lt_mul_right hs]
  unfold contains
  simp only [Nat.pow_eq]
  have hclosed : (ofRank rank).closed = (rank % 2 == 0) := rfl
  rcases Nat.mod_two_eq_zero_or_one rank with h | h
  · simp [hclosed, h]
  · simp only [hclosed, h]
    simp
    omega

/-! ### The grids -/

/-- What a grid gives lies in the interval and is at most one unit of the grid above the number. -/
theorem contains_of_decimalAt? {i : RoundingInterval} {rule : MidpointRule} {place : ℤ} {d : Decimal}
    (h : i.decimalAt? rule place = some d) :
    i.contains d = true ∧ d.exponent = place ∧
      d.digits ≤ i.value * 10 ^ (-place).toNat / (10 ^ place.toNat * i.den) + 1 := by
  unfold decimalAt? at h
  simp only [Nat.pow_eq] at h
  split at h
  · rename_i hlower
    split at h
    · rename_i hupper
      split at h
      · cases h
        exact ⟨hlower, rfl, Nat.le_succ _⟩
      · cases h
        exact ⟨hupper, rfl, le_rfl⟩
    · cases h
      exact ⟨hlower, rfl, Nat.le_succ _⟩
  · split at h
    · rename_i hupper
      cases h
      exact ⟨hupper, rfl, le_rfl⟩
    · cases h

theorem isSome_decimalAt? {i : RoundingInterval} (rule : MidpointRule) {n : ℕ} (hlow : i.low < i.value)
    (hhigh : i.value < i.high) (h : i.den ∣ i.value * 10 ^ n) : (i.decimalAt? rule (-(n : ℤ))).isSome := by
  have hn : (-(n : ℤ)).toNat = 0 := by omega
  have hpos : 0 < 10 ^ n := Nat.pow_pos (by decide)
  have hl := (Nat.mul_lt_mul_right hpos).mpr hlow
  have hh := (Nat.mul_lt_mul_right hpos).mpr hhigh
  have hcontains : i.contains ⟨i.value * 10 ^ n / i.den, -(n : ℤ)⟩ = true := by
    simp only [contains, Nat.pow_eq, Int.neg_neg, Int.toNat_natCast, hn, pow_zero, Nat.mul_one,
      Nat.div_mul_cancel h]
    split <;> simp <;> omega
  unfold decimalAt?
  simp only [Nat.pow_eq, Int.neg_neg, Int.toNat_natCast, hn, pow_zero, Nat.one_mul, hcontains, if_true]
  split
  · split <;> rfl
  · rfl

/-- The search ends at the first grid that gives something, if there is one on its way. -/
theorem shortestFrom_mem {i : RoundingInterval} {rule : MidpointRule} {steps : ℕ} {place : ℤ}
    (h : ∃ k < steps, (i.decimalAt? rule (place - (k : ℕ))).isSome) :
    ∃ k < steps, i.decimalAt? rule (place - (k : ℕ)) = some (i.shortestFrom rule steps place) ∧
      ∀ j < k, i.decimalAt? rule (place - (j : ℕ)) = none := by
  induction steps generalizing place with
  | zero =>
    obtain ⟨k, hk, -⟩ := h
    exact absurd hk (Nat.not_lt_zero k)
  | succ steps ih =>
    rw [shortestFrom]
    cases hd : i.decimalAt? rule place with
    | some d => exact ⟨0, Nat.succ_pos _, by simpa using hd, nofun⟩
    | none =>
      obtain ⟨k, hk, hsome⟩ := h
      cases k with
      | zero =>
        rw [Int.natCast_zero, Int.sub_zero, hd] at hsome
        cases hsome
      | succ k =>
        have hplace : ∀ j : ℕ, place - (j + 1 : ℕ) = place - 1 - (j : ℕ) := fun j => by omega
        rw [hplace] at hsome
        obtain ⟨j, hj, hfound, hbefore⟩ := ih ⟨k, Nat.lt_of_succ_lt_succ hk, hsome⟩
        refine ⟨j + 1, Nat.succ_lt_succ hj, by rw [hplace]; exact hfound, fun l hl => ?_⟩
        cases l with
        | zero => simpa using hd
        | succ l => exact hplace l ▸ hbefore l (Nat.lt_of_succ_lt_succ hl)

/-! ### The number in its interval -/

theorem low_lt_value {rank : ℕ} (h : 0 < rank) : (ofRank rank).low < (ofRank rank).value := by
  obtain ⟨s, hlow, hvalue, -, -⟩ := ofRank_scaled rank
  refine Nat.lt_of_mul_lt_mul_right (a := 2 ^ s) ?_
  have := magnitude_pred_lt h
  omega

theorem value_lt_high (rank : ℕ) : (ofRank rank).value < (ofRank rank).high := by
  obtain ⟨s, -, hvalue, hhigh, -⟩ := ofRank_scaled rank
  refine Nat.lt_of_mul_lt_mul_right (a := 2 ^ s) ?_
  have := magnitude_lt_succ rank
  omega

theorem den_dvd {n : ℕ} (h : unitsPerOne ∣ 10 ^ n) (rank : ℕ) : (ofRank rank).den ∣ (ofRank rank).value * 10 ^ n := by
  obtain ⟨s, -, hvalue, -, hden⟩ := ofRank_scaled rank
  refine Nat.dvd_of_mul_dvd_mul_right (Nat.two_pow_pos s) ?_
  rw [hden, Nat.mul_right_comm, hvalue, Nat.mul_assoc]
  exact Nat.mul_dvd_mul_left 2 (h.mul_left _)

theorem unitsPerOne_dvd : unitsPerOne ∣ 10 ^ 1074 := by
  rw [unitsPerOne_eq]
  exact pow_dvd_pow_of_dvd (by decide) _

theorem value_lt {rank : ℕ} (h : rank < infiniteRank) : (ofRank rank).value < 2 ^ 1025 * (ofRank rank).den := by
  obtain ⟨s, -, hvalue, -, hden⟩ := ofRank_scaled rank
  refine Nat.lt_of_mul_lt_mul_right (a := 2 ^ s) ?_
  have hmagnitude := magnitude_lt (e := 2046) h
  rw [show 53 + 2046 = 1025 + 1074 from rfl, pow_add, ← unitsPerOne_eq] at hmagnitude
  rw [hvalue, Nat.mul_assoc, hden, Nat.mul_left_comm]
  exact Nat.mul_lt_mul_of_pos_left hmagnitude (by decide)

theorem two_pow_le_ten_pow {b k : ℕ} (h : b ≤ 3 * k) : 2 ^ b ≤ 10 ^ k :=
  calc 2 ^ b ≤ 2 ^ (3 * k) := Nat.pow_le_pow_right (by decide) h
    _ = 8 ^ k := pow_mul 2 3 k
    _ ≤ 10 ^ k := Nat.pow_le_pow_left (by decide) k

theorem places_le {rank : ℕ} (h : rank < infiniteRank) :
    (Decimal.numeral ((ofRank rank).value / (ofRank rank).den)).length ≤ 342 := by
  refine Decimal.length_numeral_le (by decide) (Nat.div_lt_of_lt_mul ?_)
  rw [Nat.mul_comm]
  exact Nat.lt_of_lt_of_le (value_lt h) (Nat.mul_le_mul_right _ (two_pow_le_ten_pow (by decide)))

end RoundingInterval

namespace Binary64
open RoundingInterval

/-! ### The shortest decimal -/

/-- The search for the shortest decimal of a finite number finds it on one of these grids: on the first one, or on one
    behind a grid that gives nothing. -/
theorem shortest_mem {rank : ℕ} (hpos : 0 < rank) (hfinite : rank < infiniteRank) (rule : MidpointRule) :
    ∃ place : ℤ, -1074 ≤ place ∧ place ≤ 342 ∧
      (RoundingInterval.ofRank rank).decimalAt? rule place = some (shortest rank rule) ∧
      (place = (Decimal.numeral ((RoundingInterval.ofRank rank).value / (RoundingInterval.ofRank rank).den)).length ∨
        (RoundingInterval.ofRank rank).decimalAt? rule (place + 1) = none) := by
  have hplaces := places_le hfinite
  have hfinest := isSome_decimalAt? rule (low_lt_value hpos) (value_lt_high rank) (den_dvd unitsPerOne_dvd rank)
  dsimp only [shortest]
  generalize (Decimal.numeral _).length = places at hplaces
  have hend : ∃ k < places + 1075, ((RoundingInterval.ofRank rank).decimalAt? rule (places - (k : ℕ))).isSome :=
    ⟨places + 1074, by omega, by rwa [show (places : ℤ) - (places + 1074 : ℕ) = -(1074 : ℕ) by omega]⟩
  obtain ⟨k, hk, hfound, hbefore⟩ := shortestFrom_mem hend
  refine ⟨(places : ℤ) - k, by omega, by omega, hfound, ?_⟩
  rcases Nat.eq_zero_or_pos k with rfl | hkpos
  · exact Or.inl (Int.sub_zero _)
  · have hlast := hbefore (k - 1) (Nat.sub_lt hkpos Nat.one_pos)
    rw [show (places : ℤ) - (k - 1 : ℕ) = places - k + 1 by omega] at hlast
    exact Or.inr hlast

theorem roundsTo_shortest {rank : ℕ} (hpos : 0 < rank) (hfinite : rank < infiniteRank) (rule : MidpointRule) :
    RoundsTo rank ((shortest rank rule).toRat * unitsPerOne) := by
  obtain ⟨place, -, -, hfound, -⟩ := shortest_mem hpos hfinite rule
  exact (contains_iff rank _).mp (contains_of_decimalAt? hfound).1

theorem length_plain_shortest_le {rank : ℕ} (hpos : 0 < rank) (hfinite : rank < infiniteRank) (rule : MidpointRule) :
    (shortest rank rule).plain.length ≤ 2500 := by
  obtain ⟨place, hlow, hhigh, hfound, -⟩ := shortest_mem hpos hfinite rule
  obtain ⟨-, hexponent, hdigits⟩ := contains_of_decimalAt? hfound
  -- On the finest grid a number below 2^1025 has at most so many digits, and on coarser ones fewer.
  have hunit : (RoundingInterval.ofRank rank).den ≤ 10 ^ place.toNat * (RoundingInterval.ofRank rank).den :=
    Nat.le_mul_of_pos_left _ (Nat.pow_pos (by decide))
  have hbelow : (RoundingInterval.ofRank rank).value * 10 ^ (-place).toNat /
      (10 ^ place.toNat * (RoundingInterval.ofRank rank).den) < 10 ^ 342 * 10 ^ 1074 := by
    refine Nat.div_lt_of_lt_mul ?_
    calc (RoundingInterval.ofRank rank).value * 10 ^ (-place).toNat
        < 2 ^ 1025 * (RoundingInterval.ofRank rank).den * 10 ^ (-place).toNat :=
          Nat.mul_lt_mul_of_pos_right (value_lt hfinite) (Nat.pow_pos (by decide))
      _ ≤ 10 ^ 342 * (10 ^ place.toNat * (RoundingInterval.ofRank rank).den) * 10 ^ 1074 :=
          Nat.mul_le_mul (Nat.mul_le_mul (two_pow_le_ten_pow (by decide)) hunit)
            (Nat.pow_le_pow_right (by decide) (by omega))
      _ = 10 ^ place.toNat * (RoundingInterval.ofRank rank).den * (10 ^ 342 * 10 ^ 1074) := by
          rw [Nat.mul_comm (10 ^ 342), Nat.mul_assoc]
  have hlength : (Decimal.numeral (shortest rank rule).digits).length ≤ 342 + 1074 + 1 := by
    refine Decimal.length_numeral_le (Nat.succ_pos _) ?_
    rw [pow_succ, pow_add]
    omega
  have := Decimal.length_plain_le (shortest rank rule)
  omega

end Binary64
end SyntheticRows
