import Mathlib
import SyntheticRows.Binary64

/-!
Rounding to the nearest floating-point number. Each number has an interval of values that round to it, up
to the midpoints to its neighbours (`RoundsTo`), and `nearestRank` finds the number in whose interval a
value lies, also where the exponent changes, among the numbers without a leading digit, and at a tie.
-/

namespace SyntheticRows.Binary64

/-! ### Magnitudes -/

theorem binade_eq : binade = 4503599627370496 := rfl

theorem binade_eq_pow : binade = 2 ^ 52 := rfl

theorem unitsPerOne_eq : unitsPerOne = 2 ^ 1074 := by
  rw [unitsPerOne, Nat.pow_eq]

theorem unitsPerOne_pos : 0 < unitsPerOne := by
  rw [unitsPerOne_eq]
  exact Nat.two_pow_pos 1074

/-- The significands of one exponent count multiples of the same power of two, up to the first significand
    of the next exponent. -/
theorem magnitude_add {k m : ℕ} (hk : k = 0 ∨ binade ≤ m) (hm : m ≤ 2 * binade) :
    magnitude (k * binade + m) = m * 2 ^ k := by
  unfold magnitude
  rw [Nat.pow_eq]
  have hb := binade_eq
  rcases Nat.lt_or_ge m binade with hlt | hge
  · obtain rfl : k = 0 := hk.resolve_right (Nat.not_le.mpr hlt)
    simp [hlt]
  · rw [if_neg (Nat.not_lt.mpr (Nat.le_add_left_of_le hge))]
    rcases Nat.lt_or_ge m (2 * binade) with hlt | hge2
    · have hdiv : (k * binade + m) / binade = k + 1 := by rw [hb] at *; omega
      have hmod : (k * binade + m) % binade = m - binade := by rw [hb] at *; omega
      rw [hdiv, hmod, Nat.add_sub_cancel, Nat.add_sub_cancel' hge]
    · obtain rfl : m = 2 * binade := Nat.le_antisymm hm hge2
      have hdiv : (k + 2) * binade / binade = k + 2 := Nat.mul_div_cancel _ (by decide)
      rw [← Nat.add_mul, hdiv, Nat.mul_mod_left, show k + 2 - 1 = k + 1 from rfl, pow_succ]
      ring

@[simp] theorem magnitude_zero : magnitude 0 = 0 :=
  if_pos (by decide)

theorem exists_significand (rank : ℕ) :
    ∃ k m, rank = k * binade + m ∧ m < 2 * binade ∧ (k = 0 ∨ binade ≤ m) := by
  refine ⟨rank / binade - 1, rank - (rank / binade - 1) * binade, ?_⟩
  simp only [binade_eq]
  omega

theorem magnitude_lt_succ (rank : ℕ) : magnitude rank < magnitude (rank + 1) := by
  obtain ⟨k, m, rfl, hm, hk⟩ := exists_significand rank
  rw [Nat.add_assoc, magnitude_add hk hm.le, magnitude_add (hk.imp_right Nat.le_succ_of_le) hm]
  exact Nat.mul_lt_mul_of_pos_right m.lt_succ_self (Nat.two_pow_pos k)

theorem magnitude_strictMono : StrictMono magnitude :=
  strictMono_nat_of_lt_succ magnitude_lt_succ

theorem magnitude_pred_lt {rank : ℕ} (h : 0 < rank) : magnitude (rank - 1) < magnitude rank :=
  magnitude_strictMono (Nat.sub_lt h Nat.one_pos)

theorem magnitude_lt {rank e : ℕ} (h : rank < (e + 1) * binade) : magnitude rank < 2 ^ (53 + e) := by
  obtain ⟨k, m, rfl, hm, hk⟩ := exists_significand rank
  rw [magnitude_add hk hm.le, pow_add, show 2 ^ 53 = 2 * binade from rfl]
  have hke : k ≤ e := Nat.le_of_lt_succ (Nat.lt_of_mul_lt_mul_right (Nat.lt_of_le_of_lt (Nat.le_add_right _ m) h))
  calc m * 2 ^ k < 2 * binade * 2 ^ k := Nat.mul_lt_mul_of_pos_right hm (Nat.two_pow_pos k)
    _ ≤ 2 * binade * 2 ^ e := Nat.mul_le_mul_left _ (Nat.pow_le_pow_right (by decide) hke)

/-! ### Rounding to whole numbers -/

/-- A whole number at most one half away is the rounded one; an odd one has to be nearer. -/
theorem roundHalfEven_eq {num den m : ℕ} (hden : 0 < den) (hlow : 2 * (m * den) ≤ 2 * num + den)
    (hhigh : 2 * num ≤ 2 * (m * den) + den)
    (hodd : m % 2 = 1 → 2 * (m * den) < 2 * num + den ∧ 2 * num < 2 * (m * den) + den) :
    roundHalfEven num den = m := by
  have hsplit := Nat.div_add_mod' num den
  have hrest := Nat.mod_lt num hden
  generalize hq : num / den = q at hsplit
  generalize hr : num % den = r at hsplit hrest
  -- The rounded number is the quotient or the one after it.
  have hle : q ≤ m := by
    refine Nat.le_of_lt_succ (Nat.lt_of_mul_lt_mul_right (a := den) ?_)
    rw [Nat.succ_mul]
    omega
  have hge : m < q + 2 := by
    refine Nat.lt_of_mul_lt_mul_right (a := den) ?_
    rw [Nat.add_mul]
    omega
  simp only [roundHalfEven, hq, hr, Bool.or_eq_true, Bool.and_eq_true, decide_eq_true_eq, beq_iff_eq]
  rcases Nat.lt_or_ge q m with hlt | hge'
  · obtain rfl : m = q + 1 := by omega
    simp only [Nat.succ_mul] at hlow hodd
    rw [if_neg (by omega)]
  · obtain rfl : m = q := by omega
    rw [if_pos (by omega)]

/-! ### Rounding to floating-point numbers -/

theorem log2_sub_eq {q k : ℕ} (hlow : k = 0 ∨ 2 ^ (52 + k) ≤ q) (hhigh : q < 2 ^ (53 + k)) :
    Nat.log2 q - 52 = k := by
  rcases Nat.eq_zero_or_pos q with rfl | hpos
  · have : k = 0 := hlow.resolve_right (Nat.not_le.mpr (Nat.two_pow_pos _))
    simp [this]
  · have hne : q ≠ 0 := Nat.ne_of_gt hpos
    have hlt := (Nat.log2_lt hne).mpr hhigh
    rcases hlow with rfl | hlow
    · omega
    · have := (Nat.le_log2 hne).mpr hlow
      omega

theorem nearestRank_eq_of_excess {num den k m : ℕ} (hlog : Nat.log2 (num / den) - 52 = k)
    (hround : roundHalfEven num (den * 2 ^ k) = m) (hfinite : k * binade + m ≤ infiniteRank) :
    nearestRank num den = k * binade + m := by
  simp only [nearestRank, hlog, Nat.pow_eq, hround]
  exact Nat.min_eq_right hfinite

/-- Rounding within one exponent: the value has a whole part of 53 bits, or fewer where there are no more,
    and is nearest to `m` multiples of `2 ^ k`. -/
theorem nearestRank_eq_of_near {num den k m : ℕ} (hden : 0 < den)
    (hfirst : k = 0 ∨ binade * (den * 2 ^ k) ≤ num) (hlast : num < 2 * binade * (den * 2 ^ k))
    (hlow : 2 * (m * (den * 2 ^ k)) ≤ 2 * num + den * 2 ^ k)
    (hhigh : 2 * num ≤ 2 * (m * (den * 2 ^ k)) + den * 2 ^ k)
    (hodd : m % 2 = 1 → 2 * (m * (den * 2 ^ k)) < 2 * num + den * 2 ^ k ∧
      2 * num < 2 * (m * (den * 2 ^ k)) + den * 2 ^ k)
    (hfinite : k * binade + m ≤ infiniteRank) : nearestRank num den = k * binade + m := by
  have hpos : 0 < den * 2 ^ k := Nat.mul_pos hden (Nat.two_pow_pos k)
  refine nearestRank_eq_of_excess (log2_sub_eq ?_ ?_) (roundHalfEven_eq hpos hlow hhigh hodd) hfinite
  · refine hfirst.imp_right fun h => ?_
    rw [Nat.le_div_iff_mul_le hden, pow_add, ← binade_eq_pow]
    calc binade * 2 ^ k * den = binade * (den * 2 ^ k) := by ring
      _ ≤ num := h
  · rw [Nat.div_lt_iff_lt_mul hden, pow_add, show 2 ^ 53 = 2 * binade from rfl]
    calc num < 2 * binade * (den * 2 ^ k) := hlast
      _ = 2 * binade * 2 ^ k * den := by ring

/-- The values, in units, that round to the number of a rank. The midpoints to the neighbours round to the
    number whose rank is even. -/
structure RoundsTo (rank : ℕ) (x : ℚ) : Prop where
  lower : magnitude (rank - 1) + magnitude rank ≤ 2 * x
  upper : 2 * x ≤ magnitude rank + magnitude (rank + 1)
  odd : rank % 2 = 1 → magnitude (rank - 1) + magnitude rank < 2 * x ∧ 2 * x < magnitude rank + magnitude (rank + 1)

theorem roundsTo_div_iff {num den rank : ℕ} (hden : 0 < den) :
    RoundsTo rank (num / den) ↔
      (magnitude (rank - 1) + magnitude rank) * den ≤ 2 * num ∧
      2 * num ≤ (magnitude rank + magnitude (rank + 1)) * den ∧
      (rank % 2 = 1 → (magnitude (rank - 1) + magnitude rank) * den < 2 * num ∧
        2 * num < (magnitude rank + magnitude (rank + 1)) * den) := by
  have hd : (0 : ℚ) < den := Nat.cast_pos.mpr hden
  have hle : ∀ a b : ℕ, (a : ℚ) + b ≤ 2 * (num / den) ↔ (a + b) * den ≤ 2 * num := fun a b => by
    rw [← mul_div_assoc, le_div_iff₀ hd]
    exact_mod_cast Iff.rfl
  have hge : ∀ a b : ℕ, 2 * ((num : ℚ) / den) ≤ a + b ↔ 2 * num ≤ (a + b) * den := fun a b => by
    rw [← mul_div_assoc, div_le_iff₀ hd]
    exact_mod_cast Iff.rfl
  constructor
  · rintro ⟨hlow, hhigh, hodd⟩
    rw [← not_le, ← not_le] at hodd
    rw [hle, hge] at *
    rw [← not_le, ← not_le]
    exact ⟨hlow, hhigh, hodd⟩
  · rintro ⟨hlow, hhigh, hodd⟩
    rw [← not_le, ← not_le] at hodd
    rw [← hle, ← hge] at *
    rw [not_le, not_le] at hodd
    exact ⟨hlow, hhigh, hodd⟩

section
variable {num den k m : ℕ}

theorem parity_rank : (k * binade + m) % 2 = m % 2 := by
  rw [binade_eq]
  omega

/-- A value in the interval of a number lies at most half a unit of its exponent above it. -/
theorem RoundsTo.above (hden : 0 < den) (hm : m < 2 * binade) (hk : k = 0 ∨ binade ≤ m)
    (h : RoundsTo (k * binade + m) (num / den)) :
    2 * num ≤ 2 * (m * (den * 2 ^ k)) + den * 2 ^ k ∧
      (m % 2 = 1 → 2 * num < 2 * (m * (den * 2 ^ k)) + den * 2 ^ k) := by
  obtain ⟨-, hhigh, hodd⟩ := (roundsTo_div_iff hden).mp h
  have hsum : (m * 2 ^ k + (m + 1) * 2 ^ k) * den = 2 * (m * (den * 2 ^ k)) + den * 2 ^ k := by ring
  rw [parity_rank] at hodd
  rw [Nat.add_assoc (k * binade), magnitude_add (m := m + 1) (hk.imp_right Nat.le_succ_of_le) hm,
    magnitude_add hk hm.le, hsum] at hhigh hodd
  exact ⟨hhigh, fun h1 => (hodd h1).2⟩

/-- It lies at most half a unit below the number if the neighbour below has the same exponent. -/
theorem RoundsTo.below (hden : 0 < den) (hm : m < 2 * binade) (hsame : k = 0 ∨ binade < m)
    (h : RoundsTo (k * binade + m) (num / den)) :
    2 * (m * (den * 2 ^ k)) ≤ 2 * num + den * 2 ^ k ∧
      (m % 2 = 1 → 2 * (m * (den * 2 ^ k)) < 2 * num + den * 2 ^ k) := by
  cases m with
  | zero => exact ⟨by omega, fun h1 => absurd h1 (by decide)⟩
  | succ n =>
    obtain ⟨hlow, -, hodd⟩ := (roundsTo_div_iff hden).mp h
    have hsum : (n * 2 ^ k + (n + 1) * 2 ^ k) * den + den * 2 ^ k = 2 * ((n + 1) * (den * 2 ^ k)) := by ring
    rw [parity_rank] at hodd
    rw [← Nat.add_assoc (k * binade), Nat.add_sub_cancel,
      magnitude_add (m := n) (hsame.imp_right Nat.le_of_lt_succ) (Nat.le_of_succ_le hm.le), Nat.add_assoc (k * binade),
      magnitude_add (m := n + 1) (hsame.imp_right Nat.le_of_lt) hm.le] at hlow hodd
    exact ⟨by omega, fun h1 => by have := (hodd h1).1; omega⟩

theorem lt_of_above (hm : m < 2 * binade) (hpos : 0 < den) (h : 2 * num ≤ 2 * (m * (den * 2 ^ k)) + den * 2 ^ k) :
    num < 2 * binade * (den * 2 ^ k) := by
  have hunit : 0 < den * 2 ^ k := Nat.mul_pos hpos (Nat.two_pow_pos k)
  have := Nat.mul_le_mul_right (den * 2 ^ k) (Nat.succ_le_of_lt hm)
  rw [Nat.succ_mul] at this
  omega

/-- Rounding to a number whose neighbour below has the same exponent. -/
theorem nearestRank_eq_of_same (hden : 0 < den) (hm : m < 2 * binade) (hsame : k = 0 ∨ binade < m)
    (hrank : k * binade + m < infiniteRank) (h : RoundsTo (k * binade + m) (num / den)) :
    nearestRank num den = k * binade + m := by
  have hunit : 0 < den * 2 ^ k := Nat.mul_pos hden (Nat.two_pow_pos k)
  obtain ⟨hhigh, hhighOdd⟩ := h.above hden hm (hsame.imp_right Nat.le_of_lt)
  obtain ⟨hlow, hlowOdd⟩ := h.below hden hm hsame
  refine nearestRank_eq_of_near hden (hsame.imp_right fun hlt => ?_) (lt_of_above hm hden hhigh) hlow hhigh
    (fun h1 => ⟨hlowOdd h1, hhighOdd h1⟩) hrank.le
  have := Nat.mul_le_mul_right (den * 2 ^ k) (Nat.succ_le_of_lt hlt)
  rw [Nat.succ_mul] at this
  omega

/-- Rounding to the first number of an exponent. Below it the numbers lie twice as dense. -/
theorem nearestRank_eq_of_first (hden : 0 < den) (hrank : (k + 1) * binade + binade < infiniteRank)
    (h : RoundsTo ((k + 1) * binade + binade) (num / den)) : nearestRank num den = (k + 1) * binade + binade := by
  have hunit : 0 < den * 2 ^ k := Nat.mul_pos hden (Nat.two_pow_pos k)
  have hm : binade < 2 * binade := by decide
  obtain ⟨hhigh, -⟩ := h.above hden hm (Or.inr le_rfl)
  have hdouble : binade * (den * 2 ^ (k + 1)) = 2 * binade * (den * 2 ^ k) := by ring
  rcases Nat.lt_or_ge num (binade * (den * 2 ^ (k + 1))) with hlt | hge
  · -- The value has one bit less, and the number is the end of the exponent below.
    obtain ⟨hlow, -, -⟩ := (roundsTo_div_iff hden).mp h
    have hprev : (k + 1) * binade + binade - 1 = k * binade + (2 * binade - 1) := by
      rw [binade_eq]
      omega
    have hsum : ((2 * binade - 1) * 2 ^ k + binade * 2 ^ (k + 1)) * den + den * 2 ^ k =
        2 * (2 * binade * (den * 2 ^ k)) := by
      rw [show 2 * binade - 1 = 9007199254740991 from rfl, binade_eq]
      ring
    rw [hprev, magnitude_add (by rw [binade_eq]; omega) (Nat.sub_le _ _), magnitude_add (Or.inr le_rfl) hm.le] at hlow
    have hone : den * 2 ^ k ≤ binade * (den * 2 ^ k) := Nat.le_mul_of_pos_left _ (by decide)
    have hhalf : 2 * (binade * (den * 2 ^ k)) = 2 * binade * (den * 2 ^ k) := by ring
    have hnext : (k + 1) * binade + binade = k * binade + 2 * binade := by ring
    rw [hnext] at hrank ⊢
    refine nearestRank_eq_of_near hden (Or.inr (by omega)) (by omega) (by omega) (by omega) ?_ hrank.le
    exact fun h1 => absurd h1 (by decide)
  · exact nearestRank_eq_of_near hden (Or.inr hge) (lt_of_above hm hden hhigh) (by omega) hhigh
      (fun h1 => absurd h1 (by decide)) hrank.le

end

/-- A value in the interval of a finite number rounds to that number. -/
theorem nearestRank_eq {num den rank : ℕ} (hden : 0 < den) (hrank : rank < infiniteRank)
    (h : RoundsTo rank (num / den)) : nearestRank num den = rank := by
  obtain ⟨k, m, rfl, hm, hk⟩ := exists_significand rank
  by_cases hsame : k = 0 ∨ binade < m
  · exact nearestRank_eq_of_same hden hm hsame hrank h
  · obtain ⟨j, rfl⟩ : ∃ j, k = j + 1 := ⟨k - 1, by omega⟩
    obtain rfl : m = binade := by omega
    exact nearestRank_eq_of_first hden hrank h

end SyntheticRows.Binary64
