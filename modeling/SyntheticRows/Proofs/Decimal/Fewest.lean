import SyntheticRows.Proofs.Binary64.Error
import SyntheticRows.Proofs.Decimal.Digits
import SyntheticRows.Proofs.Decimal.Significant

/-!
The shortest decimal is the shortest. No decimal that rounds to the number has fewer significant digits
(`significant_shortest_le`), and of those with as many none is nearer to it (`shortest_nearest`). Each grid gives the
decimal nearest to the number among those of the grid that round to it, and nothing if there is none, so a coarser grid
holds no decimal that rounds to the number.
-/

namespace SyntheticRows
open Binary64

namespace RoundingInterval

variable {rank : ℕ} {rule : MidpointRule} {place : ℤ}

/-! ### Decimals of a grid -/

theorem step_pos (place : ℤ) : (0 : ℚ) < 10 ^ place * unitsPerOne :=
  mul_pos (by positivity) (Nat.cast_pos.mpr unitsPerOne_pos)

theorem step_mono {e place : ℤ} (h : e ≤ place) : (10 : ℚ) ^ e * unitsPerOne ≤ 10 ^ place * unitsPerOne :=
  mul_le_mul_of_nonneg_right (zpow_le_zpow_right₀ (by norm_num) h) (Nat.cast_nonneg _)

/-- Multiples of a step are ordered as their factors. -/
theorem mul_step_le {a b : ℕ} (h : a ≤ b) (place : ℤ) :
    (a : ℚ) * (10 ^ place * unitsPerOne) ≤ b * (10 ^ place * unitsPerOne) :=
  mul_le_mul_of_nonneg_right (Nat.cast_le.mpr h) (step_pos place).le

theorem mul_ten_step (m : ℕ) (place : ℤ) :
    ((m * 10 : ℕ) : ℚ) * (10 ^ place * unitsPerOne) = m * (10 ^ (place + 1) * unitsPerOne) := by
  rw [zpow_add_one₀ (by norm_num)]
  push_cast
  ring

/-- A number below a power of ten, counted on a grid that is finer by a place or more, lies below the power before. -/
theorem lt_of_finer {m n : ℕ} {e place : ℤ} (hm : m < 10 ^ (n + 1)) (h : e < place) :
    (m : ℚ) * (10 ^ e * unitsPerOne) < (10 ^ n : ℕ) * (10 ^ place * unitsPerOne : ℚ) :=
  calc (m : ℚ) * (10 ^ e * unitsPerOne) < (10 ^ (n + 1) : ℕ) * (10 ^ e * unitsPerOne) :=
        mul_lt_mul_of_pos_right (Nat.cast_lt.mpr hm) (step_pos e)
    _ = (10 ^ n : ℕ) * (10 ^ (e + 1) * unitsPerOne) := by rw [pow_succ, mul_ten_step]
    _ ≤ (10 ^ n : ℕ) * (10 ^ place * unitsPerOne) := mul_le_mul_of_nonneg_left (step_mono h) (Nat.cast_nonneg _)

/-- One digit on a grid that is finer by a place or more is at most nine tenths of a step. -/
theorem one_digit_le {m : ℕ} {e place : ℤ} (hm : m < 10) (h : e < place) :
    10 * ((m : ℚ) * (10 ^ e * unitsPerOne)) ≤ 9 * (10 ^ place * unitsPerOne) :=
  calc 10 * ((m : ℚ) * (10 ^ e * unitsPerOne)) ≤ 10 * ((9 : ℕ) * (10 ^ e * unitsPerOne)) :=
        mul_le_mul_of_nonneg_left (mul_step_le (Nat.le_of_lt_succ hm) e) (by norm_num)
    _ = 9 * (10 ^ (e + 1) * unitsPerOne) := by
        rw [zpow_add_one₀ (by norm_num)]
        push_cast
        ring
    _ ≤ 9 * (10 ^ place * unitsPerOne) := mul_le_mul_of_nonneg_left (step_mono h) (by norm_num)

/-- A decimal in terms of a finer grid. -/
theorem toRat_on_grid {d : Decimal} {m : ℕ} {e place : ℤ} (hd : d.toRat = m * 10 ^ e) (h : place ≤ e) :
    d.toRat * unitsPerOne = (m * 10 ^ (e - place).toNat : ℕ) * (10 ^ place * unitsPerOne : ℚ) := by
  rw [hd, Decimal.mul_zpow_of_le m h, mul_assoc]

theorem toRat_mul_units (d : Decimal) : d.toRat * unitsPerOne = d.digits * (10 ^ d.exponent * unitsPerOne : ℚ) := by
  rw [Decimal.toRat, mul_assoc]

/-! ### What a grid gives -/

/-- A grid gives the multiple below the number or the one above it: one that is in the interval, and the nearer one if
    both are. -/
theorem decimalAt?_cases (i : RoundingInterval) (rule : MidpointRule) (place : ℤ) : ∃ below : ℕ,
    below = i.value * 10 ^ (-place).toNat / (10 ^ place.toNat * i.den) ∧
    (i.decimalAt? rule place = none ∧ i.contains ⟨below, place⟩ = false ∧ i.contains ⟨below + 1, place⟩ = false ∨
      i.decimalAt? rule place = some ⟨below, place⟩ ∧ (i.contains ⟨below + 1, place⟩ = true →
        2 * (i.value * 10 ^ (-place).toNat) ≤ (2 * below + 1) * (10 ^ place.toNat * i.den)) ∨
      i.decimalAt? rule place = some ⟨below + 1, place⟩ ∧ (i.contains ⟨below, place⟩ = true →
        (2 * below + 1) * (10 ^ place.toNat * i.den) ≤ 2 * (i.value * 10 ^ (-place).toNat))) := by
  have hsplit := Nat.div_add_mod' (i.value * 10 ^ (-place).toNat) (10 ^ place.toNat * i.den)
  refine ⟨_, rfl, ?_⟩
  unfold decimalAt?
  simp only [Nat.pow_eq]
  generalize i.value * 10 ^ (-place).toNat = number at *
  generalize 10 ^ place.toNat * i.den = unit at *
  generalize number / unit = below at *
  generalize number % unit = rest at *
  rw [Nat.add_mul, Nat.mul_assoc]
  cases hlower : i.contains ⟨below, place⟩ with
  | false =>
    cases hupper : i.contains ⟨below + 1, place⟩ with
    | false => exact .inl (by simp)
    | true => exact .inr (.inr (by simp))
  | true =>
    cases hupper : i.contains ⟨below + 1, place⟩ with
    | false => exact .inr (.inl (by simp))
    | true =>
      by_cases hnear : (2 * rest < unit || 2 * rest == unit && rule == .even && below % 2 == 0) = true
      · refine .inr (.inl ⟨by simp [hnear], fun _ => ?_⟩)
        simp only [Bool.or_eq_true, decide_eq_true_eq, Bool.and_eq_true, beq_iff_eq] at hnear
        omega
      · refine .inr (.inr ⟨by simp [hnear], fun _ => ?_⟩)
        simp only [Bool.or_eq_true, decide_eq_true_eq] at hnear
        omega

theorem zpow_mul_scale (place : ℤ) : (10 : ℚ) ^ place * 10 ^ (-place).toNat = 10 ^ place.toNat := by
  rw [← zpow_natCast, ← zpow_natCast, ← zpow_add₀ (by norm_num)]
  congr 1
  omega

/-- A step of a grid and the number, counted in the same unit. -/
theorem exists_unit (rank : ℕ) (place : ℤ) : ∃ unit : ℚ, 0 < unit ∧
    10 ^ place * (unitsPerOne : ℚ) = (10 ^ place.toNat * (ofRank rank).den : ℕ) * unit ∧
    (magnitude rank : ℚ) = ((ofRank rank).value * 10 ^ (-place).toNat : ℕ) * unit := by
  obtain ⟨s, -, hvalue, -, hden⟩ := ofRank_scaled rank
  have hscale : (0 : ℚ) < 10 ^ (-place).toNat := by positivity
  qify at hvalue hden
  refine ⟨2 ^ s / (2 * 10 ^ (-place).toNat), by positivity, ?_, ?_⟩
  · rw [mul_div_assoc', eq_div_iff (by positivity)]
    push_cast
    rw [← zpow_mul_scale place]
    linear_combination (-(10 : ℚ) ^ place * 10 ^ (-place).toNat) * hden
  · rw [mul_div_assoc', eq_div_iff (by positivity)]
    push_cast
    linear_combination (-(10 : ℚ) ^ (-place).toNat) * hvalue

/-- What a grid gives for the number of a rank, in terms of values that round to it. -/
theorem exists_neighbours (rank : ℕ) (rule : MidpointRule) (place : ℤ) : ∃ below : ℕ,
    below * (10 ^ place * unitsPerOne : ℚ) ≤ magnitude rank ∧
    magnitude rank < (below + 1) * (10 ^ place * unitsPerOne : ℚ) ∧
    ((ofRank rank).decimalAt? rule place = none ∧ ¬RoundsTo rank (below * (10 ^ place * unitsPerOne)) ∧
        ¬RoundsTo rank ((below + 1) * (10 ^ place * unitsPerOne)) ∨
      (ofRank rank).decimalAt? rule place = some ⟨below, place⟩ ∧
        (RoundsTo rank ((below + 1) * (10 ^ place * unitsPerOne)) →
          2 * magnitude rank ≤ (2 * below + 1) * (10 ^ place * unitsPerOne : ℚ)) ∨
      (ofRank rank).decimalAt? rule place = some ⟨below + 1, place⟩ ∧
        (RoundsTo rank (below * (10 ^ place * unitsPerOne)) →
          (2 * below + 1) * (10 ^ place * unitsPerOne : ℚ) ≤ 2 * magnitude rank)) := by
  obtain ⟨unit, hunit, hstep, hnumber⟩ := exists_unit rank place
  obtain ⟨below, hbelow, hcases⟩ := decimalAt?_cases (ofRank rank) rule place
  have hpos : 0 < 10 ^ place.toNat * (ofRank rank).den := Nat.mul_pos (Nat.pow_pos (by decide)) (den_pos rank)
  have hbelow_le : below * (10 ^ place.toNat * (ofRank rank).den) ≤ (ofRank rank).value * 10 ^ (-place).toNat := by
    rw [hbelow]
    exact Nat.div_mul_le_self _ _
  have hlt_above : (ofRank rank).value * 10 ^ (-place).toNat < (below + 1) * (10 ^ place.toNat * (ofRank rank).den) := by
    rw [← Nat.div_lt_iff_lt_mul hpos, ← hbelow]
    exact Nat.lt_succ_self below
  have hcontains (digits : ℕ) : (ofRank rank).contains ⟨digits, place⟩ = true ↔
      RoundsTo rank (digits * (10 ^ place * unitsPerOne)) := by
    rw [contains_iff, Decimal.toRat, mul_assoc]
  have hupper := hcontains (below + 1)
  rw [Nat.cast_succ] at hupper
  rw [← Bool.not_eq_true, ← Bool.not_eq_true, hcontains, hupper] at hcases
  have hle {a b : ℕ} (h : a ≤ b) : (a : ℚ) * unit ≤ b * unit := mul_le_mul_of_nonneg_right (Nat.cast_le.mpr h) hunit.le
  have hlt {a b : ℕ} (h : a < b) : (a : ℚ) * unit < b * unit := mul_lt_mul_of_pos_right (Nat.cast_lt.mpr h) hunit
  rw [hstep, hnumber] at *
  refine ⟨below, ?_, ?_, hcases.imp_right (Or.imp ?_ ?_)⟩
  · rw [← mul_assoc]
    exact_mod_cast hle hbelow_le
  · rw [← mul_assoc]
    exact_mod_cast hlt hlt_above
  · refine And.imp_right fun hnear h => ?_
    rw [← mul_assoc, ← mul_assoc]
    exact_mod_cast hle (hnear h)
  · refine And.imp_right fun hnear h => ?_
    rw [← mul_assoc, ← mul_assoc]
    exact_mod_cast hle (hnear h)

/-- If a grid gives nothing, no decimal of the grid rounds to the number. -/
theorem not_roundsTo_of_decimalAt?_eq_none (h : (ofRank rank).decimalAt? rule place = none) (digits : ℕ) :
    ¬RoundsTo rank (digits * (10 ^ place * unitsPerOne)) := by
  intro hdigits
  obtain ⟨below, hlow, hhigh, ⟨-, hlower, hupper⟩ | ⟨hsome, -⟩ | ⟨hsome, -⟩⟩ := exists_neighbours rank rule place
  · rcases Nat.lt_or_ge below digits with hlt | hge
    · refine hupper ((roundsTo_magnitude rank).convex hdigits hhigh.le ?_)
      exact_mod_cast mul_step_le hlt place
    · exact hlower (hdigits.convex (roundsTo_magnitude rank) (mul_step_le hge place) hlow)
  · rw [h] at hsome
    cases hsome
  · rw [h] at hsome
    cases hsome

/-- Of the decimals of a grid that round to the number, the grid gives one that is nearest to it. -/
theorem nearest_of_decimalAt? {d : Decimal} (h : (ofRank rank).decimalAt? rule place = some d) {digits : ℕ}
    (hdigits : RoundsTo rank (digits * (10 ^ place * unitsPerOne))) :
    |(d.digits : ℚ) * (10 ^ place * unitsPerOne) - magnitude rank| ≤
      |(digits : ℚ) * (10 ^ place * unitsPerOne) - magnitude rank| := by
  obtain ⟨below, hlow, hhigh, hcases⟩ := exists_neighbours rank rule place
  have hstep := step_pos place
  -- A decimal of the grid is not nearer than its neighbour on the same side, which rounds to the number too.
  have hside : (digits : ℚ) * (10 ^ place * unitsPerOne) ≤ below * (10 ^ place * unitsPerOne) ∧
        RoundsTo rank (below * (10 ^ place * unitsPerOne)) ∨
      ((below : ℚ) + 1) * (10 ^ place * unitsPerOne) ≤ digits * (10 ^ place * unitsPerOne) ∧
        RoundsTo rank ((below + 1) * (10 ^ place * unitsPerOne)) := by
    rcases Nat.lt_or_ge below digits with hlt | hge
    · have hupper := mul_step_le hlt place
      rw [Nat.cast_succ] at hupper
      exact .inr ⟨hupper, (roundsTo_magnitude rank).convex hdigits hhigh.le hupper⟩
    · have hlower := mul_step_le hge place
      exact .inl ⟨hlower, hdigits.convex (roundsTo_magnitude rank) hlower hlow⟩
  rw [h] at hcases
  generalize (10 : ℚ) ^ place * unitsPerOne = step at *
  rcases hcases with ⟨hnone, -⟩ | ⟨hsome, hnear⟩ | ⟨hsome, hnear⟩
  · cases hnone
  · cases hsome
    rw [abs_of_nonpos (by linarith : (below : ℚ) * step - magnitude rank ≤ 0)]
    rcases hside with ⟨hle, -⟩ | ⟨hle, hupper⟩
    · rw [abs_of_nonpos (by linarith)]
      linarith
    · rw [abs_of_nonneg (by linarith)]
      linarith [hnear hupper]
  · cases hsome
    rw [Nat.cast_succ, abs_of_nonneg (by linarith : 0 ≤ ((below : ℚ) + 1) * step - magnitude rank)]
    rcases hside with ⟨hle, hlower⟩ | ⟨hle, -⟩
    · rw [abs_of_nonpos (by linarith)]
      linarith [hnear hlower]
    · rw [abs_of_nonneg (by linarith)]
      linarith

end RoundingInterval

namespace Binary64
open RoundingInterval

section
variable {rank : ℕ}

/-! ### The search -/

theorem RoundsTo.pos {q : ℚ} (h : RoundsTo rank q) (hpos : 0 < rank) : 0 < q := by
  have hmagnitude : (0 : ℚ) < magnitude rank := Nat.cast_pos.mpr (hpos.trans_le (le_magnitude rank))
  have hbelow : (0 : ℚ) ≤ magnitude (rank - 1) := Nat.cast_nonneg _
  linarith [h.lower]

/-- The shortest decimal is what its grid gives. The grid is the first one, where no decimal has more than one digit, or
    the next coarser one gives nothing. -/
theorem shortest_cases (hpos : 0 < rank) (hfinite : rank < infiniteRank) (rule : MidpointRule) :
    (RoundingInterval.ofRank rank).decimalAt? rule (shortest rank rule).exponent = some (shortest rank rule) ∧
      ((shortest rank rule).digits = 1 ∨
        (RoundingInterval.ofRank rank).decimalAt? rule ((shortest rank rule).exponent + 1) = none) := by
  obtain ⟨place, -, -, hfound, hbefore⟩ := shortest_mem hpos hfinite rule
  obtain ⟨-, hexponent, hdigits⟩ := contains_of_decimalAt? hfound
  rw [hexponent]
  refine ⟨hfound, hbefore.imp_left fun hfirst => ?_⟩
  rw [first_quotient_eq_zero hfirst] at hdigits
  have hone := digits_shortest_pos hpos hfinite rule
  omega

/-! ### Fewest digits -/

theorem RoundsTo.toRat_pos {d : Decimal} (h : RoundsTo rank (d.toRat * unitsPerOne)) (hpos : 0 < rank) : 0 < d.toRat :=
  pos_of_mul_pos_left (h.pos hpos) (Nat.cast_nonneg _)

/-- A power of ten with as many digits as the shortest decimal, but at least two, does not round to the number: it lies
    on the next coarser grid. -/
theorem not_roundsTo_power (hpos : 0 < rank) (hfinite : rank < infiniteRank) (rule : MidpointRule) {n : ℕ}
    (hmany : 10 ^ (n + 1) ≤ (shortest rank rule).digits) :
    ¬RoundsTo rank ((10 ^ (n + 1) : ℕ) * (10 ^ (shortest rank rule).exponent * unitsPerOne)) := by
  have hpower : 0 < 10 ^ n := Nat.pow_pos (by decide)
  rw [pow_succ] at hmany ⊢
  rw [mul_ten_step]
  exact not_roundsTo_of_decimalAt?_eq_none ((shortest_cases hpos hfinite rule).2.resolve_left (by omega)) _

/-- No decimal that rounds to a number has fewer significant digits than its shortest decimal: between one that had and
    the shortest one there would be a power of ten that rounds to the number. -/
theorem significant_shortest_le (hpos : 0 < rank) (hfinite : rank < infiniteRank) (rule : MidpointRule) {d : Decimal}
    (hd : RoundsTo rank (d.toRat * unitsPerOne)) : (shortest rank rule).significant ≤ d.significant := by
  obtain ⟨n, m, e, hn, hm, hvalue⟩ := Decimal.exists_digits (hd.toRat_pos hpos)
  rw [hn]
  refine Decimal.significant_le_iff.mpr ⟨_, _, Nat.lt_of_not_le fun hmany => ?_, rfl⟩
  rcases Int.lt_or_le (shortest rank rule).exponent e with hlt | hle
  · have hpower : 0 < 10 ^ n := Nat.pow_pos (by decide)
    rw [pow_succ] at hmany
    rw [toRat_on_grid hvalue hlt] at hd
    exact not_roundsTo_of_decimalAt?_eq_none ((shortest_cases hpos hfinite rule).2.resolve_left (by omega)) _ hd
  · refine not_roundsTo_power hpos hfinite rule hmany (hd.convex (roundsTo_shortest hpos hfinite rule) ?_ ?_)
    · rw [hvalue, mul_assoc, pow_succ, mul_ten_step]
      exact (lt_of_finer hm (Int.lt_add_one_of_le hle)).le
    · rw [toRat_mul_units]
      exact mul_step_le hmany _

/-! ### The nearest of the shortest ones -/

theorem unitsPerOne_bounds : 20 * 10 ^ 322 < unitsPerOne ∧ unitsPerOne < 21 * 10 ^ 322 := by
  rw [← Nat.pow_eq]
  decide +kernel

theorem step_bounds (place : ℤ) : (20 : ℚ) * 10 ^ (place + 322) < 10 ^ place * unitsPerOne ∧
    (10 : ℚ) ^ place * unitsPerOne < 21 * 10 ^ (place + 322) := by
  obtain ⟨hlow, hhigh⟩ := unitsPerOne_bounds
  have hten : (0 : ℚ) < 10 ^ place := by positivity
  have hlow' : (20 : ℚ) * 10 ^ 322 < unitsPerOne := by exact_mod_cast hlow
  have hhigh' : (unitsPerOne : ℚ) < 21 * 10 ^ 322 := by exact_mod_cast hhigh
  rw [zpow_add₀ (by norm_num), mul_left_comm, mul_left_comm (21 : ℚ)]
  exact ⟨mul_lt_mul_of_pos_left hlow' hten, mul_lt_mul_of_pos_left hhigh' hten⟩

theorem magnitude_of_lt {rank : ℕ} (h : rank < binade) : magnitude rank = rank :=
  if_pos h

theorem spacing_of_lt {rank : ℕ} (h : rank < 2 * binade) : spacing rank = 1 := by
  have hspacing := spacing_eq (k := 0) h (.inl rfl)
  rwa [Nat.zero_mul, Nat.zero_add, pow_zero] at hspacing

/-- Only the first numbers are a tenth apart or more. -/
theorem rank_le_nine (hpos : 0 < rank)
    (h : 10 * magnitude (rank - 1) + magnitude rank ≤ 9 * magnitude (rank + 1)) : rank ≤ 9 := by
  obtain ⟨below, rfl⟩ : ∃ n, rank = n + 1 := ⟨rank - 1, by omega⟩
  rw [Nat.add_sub_cancel, magnitude_succ (below + 1), magnitude_succ] at h
  have hspace := spacing_succ below
  have hspacing := spacing_pos below
  rcases Nat.lt_or_ge below binade with hlt | hge
  · rw [magnitude_of_lt hlt, spacing_of_lt (by omega), spacing_of_lt (by omega)] at h
    omega
  · have hbits := spacing_le_magnitude hge
    rw [binade_eq] at hbits
    omega

/-- Where a power of ten and a decimal of nine tenths or less round to the same number below the power, the number is
    the second one of all, and the power is nearer to it. -/
theorem power_nearer {place : ℤ} {q : ℚ} (hpos : 0 < rank) (hq : RoundsTo rank q)
    (hpower : RoundsTo rank (10 ^ place * unitsPerOne)) (hfar : 10 * q ≤ 9 * (10 ^ place * unitsPerOne))
    (hlt : magnitude rank < 10 ^ place * (unitsPerOne : ℚ)) :
    10 ^ place * unitsPerOne - magnitude rank ≤ magnitude rank - q := by
  have hnine : rank ≤ 9 := by
    refine rank_le_nine hpos ?_
    have : (10 : ℚ) * magnitude (rank - 1) + magnitude rank ≤ 9 * magnitude (rank + 1) := by
      linarith [hq.lower, hpower.upper]
    exact_mod_cast this
  obtain ⟨hlow, hhigh⟩ := step_bounds place
  have hupper := hpower.upper
  have hbinade := binade_eq
  rw [magnitude_of_lt (by omega), magnitude_of_lt (by omega)] at hupper
  rw [magnitude_of_lt (by omega)] at hlt ⊢
  push_cast at hupper
  have hnine' : (rank : ℚ) ≤ 9 := by exact_mod_cast hnine
  have hone : (1 : ℚ) ≤ rank := by exact_mod_cast hpos
  generalize (10 : ℚ) ^ place * unitsPerOne = step at *
  rcases lt_trichotomy place (-323) with hfine | rfl | hcoarse
  · have hten : (10 : ℚ) ^ (place + 322) ≤ 10 ^ (-2 : ℤ) := zpow_le_zpow_right₀ (by norm_num) (by omega)
    norm_num at hten
    linarith
  · norm_num at hlow hhigh
    have htwo : rank = 2 := by
      have hlt3 : (rank : ℚ) < 3 := by linarith
      have hgt1 : (1 : ℚ) < rank := by linarith
      have : rank < 3 := by exact_mod_cast hlt3
      have : 1 < rank := by exact_mod_cast hgt1
      omega
    rw [htwo]
    push_cast
    linarith
  · have hten : (1 : ℚ) ≤ 10 ^ (place + 322) := one_le_zpow₀ (by norm_num) (by omega)
    linarith

/-- A decimal on a finer grid that rounds to the number and has as many digits as the shortest one lies below a power of
    ten on the grid of the shortest one, and the power rounds to the number too. -/
theorem power_of_finer (hpos : 0 < rank) (hfinite : rank < infiniteRank) (rule : MidpointRule) {n m : ℕ} {e : ℤ}
    (hd : RoundsTo rank (m * (10 ^ e * unitsPerOne))) (hm : m < 10 ^ (n + 1))
    (hsame : (shortest rank rule).significant = n + 1) (hlt : e < (shortest rank rule).exponent) :
    (m : ℚ) * (10 ^ e * unitsPerOne) < (10 ^ n : ℕ) * (10 ^ (shortest rank rule).exponent * unitsPerOne) ∧
      RoundsTo rank ((10 ^ n : ℕ) * (10 ^ (shortest rank rule).exponent * unitsPerOne)) := by
  have hbelow : (m : ℚ) * (10 ^ e * unitsPerOne) < (10 ^ n : ℕ) * (10 ^ (shortest rank rule).exponent * unitsPerOne) :=
    lt_of_finer hm hlt
  refine ⟨hbelow, hd.convex (roundsTo_shortest hpos hfinite rule) hbelow.le ?_⟩
  rw [toRat_mul_units]
  exact mul_step_le (Decimal.pow_le_digits hsame) _

/-- Of the decimals with as many significant digits that round to the number, none is nearer to it than the shortest
    decimal. One on a finer grid is not nearer than the power of ten above it, which is on the grid of the shortest one. -/
theorem shortest_nearest (hpos : 0 < rank) (hfinite : rank < infiniteRank) (rule : MidpointRule) {d : Decimal}
    (hd : RoundsTo rank (d.toRat * unitsPerOne)) (hsame : d.significant = (shortest rank rule).significant) :
    |(shortest rank rule).toRat * unitsPerOne - magnitude rank| ≤ |d.toRat * unitsPerOne - magnitude rank| := by
  obtain ⟨hfound, -⟩ := shortest_cases hpos hfinite rule
  obtain ⟨n, m, e, hn, hm, hvalue⟩ := Decimal.exists_digits (hd.toRat_pos hpos)
  rw [toRat_mul_units (shortest rank rule)]
  rcases Int.lt_or_le e (shortest rank rule).exponent with hlt | hle
  · rw [hvalue, mul_assoc] at hd ⊢
    have hsignificant := hsame.symm.trans hn
    obtain ⟨hbelow, hpower⟩ := power_of_finer hpos hfinite rule hd hm hsignificant hlt
    refine (nearest_of_decimalAt? hfound hpower).trans ?_
    rcases le_or_gt ((10 ^ n : ℕ) * (10 ^ (shortest rank rule).exponent * unitsPerOne) : ℚ) (magnitude rank) with hle | hgt
    · rw [abs_of_nonpos (by linarith), abs_of_nonpos (by linarith)]
      linarith
    · cases n with
      | zero =>
        rw [pow_zero, Nat.cast_one, one_mul] at hpower hgt hbelow ⊢
        have hnearer := power_nearer hpos hd hpower (one_digit_le hm hlt) hgt
        have hstep := step_pos (shortest rank rule).exponent
        rw [abs_of_pos (by linarith), abs_of_neg (by linarith)]
        linarith
      | succ n => exact absurd hpower (not_roundsTo_power hpos hfinite rule (Decimal.pow_le_digits hsignificant))
  · rw [toRat_on_grid hvalue hle] at hd ⊢
    exact nearest_of_decimalAt? hfound hd

end

end Binary64
end SyntheticRows
