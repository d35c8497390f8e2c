import SyntheticRows.Proofs.Json.Scaling

/-!
Scaling down by more than 308 digits takes two divisions. The number nearest to 10^308 is too large by less than one
part in 10 * 2^53, which leaves room for the errors of the significand and of the first quotient (`firstQuotient_near`);
the second divisor is a number without an error.
-/

namespace SyntheticRows.Json.Number
open Binary64

/-! ### The first divisor -/

/-- The 53 bits of the number nearest to 10^308. -/
def hugeSignificand : ℕ :=
  5010420900022432

theorem nearestRank_huge : nearestRank (Nat.pow 10 308 * unitsPerOne) 1 = 2045 * binade + hugeSignificand := by
  decide +kernel

theorem huge_bounds : 10 ^ 308 ≤ hugeSignificand * 2 ^ 971 ∧
    hugeSignificand * 2 ^ 971 * (10 * 2 ^ 53) ≤ 10 ^ 308 * (10 * 2 ^ 53 + 1) := by
  simp only [← Nat.pow_eq]
  decide +kernel

theorem tenTo_huge : tenTo 308 = ofRank false (2045 * binade + hugeSignificand) := by
  have hcast : ((Nat.pow 10 308 : ℕ) : ℤ) * unitsPerOne = (Nat.pow 10 308 * unitsPerOne : ℕ) := by push_cast; rfl
  rw [tenTo, ofInt, hcast, ofUnits_natCast, nearestRank_huge]

theorem magnitude_huge : magnitude (2045 * binade + hugeSignificand) = hugeSignificand * 2 ^ 2045 :=
  magnitude_add (.inr (by decide)) (by decide)

/-- What the first division makes of one, in units. -/
def ratio : ℚ :=
  2 ^ 103 / hugeSignificand

/-- What it would make of one without an error. -/
def exactRatio : ℚ :=
  unitsPerOne / 10 ^ 308

theorem ratio_pos : 0 < ratio := by
  norm_num [ratio, hugeSignificand]

theorem div_huge (v : ℚ) : v * unitsPerOne / magnitude (2045 * binade + hugeSignificand) = v / unitsPerOne * ratio := by
  have hsplit : unitsPerOne * unitsPerOne = 2 ^ 103 * 2 ^ 2045 := by rw [unitsPerOne_eq, ← pow_add, ← pow_add]
  have htop : (unitsPerOne : ℚ) * unitsPerOne = 2 ^ 103 * (2 ^ 2045 : ℕ) := by exact_mod_cast hsplit
  have hpos : (0 : ℚ) < (2 ^ 2045 : ℕ) := Nat.cast_pos.mpr (Nat.two_pow_pos _)
  rw [magnitude_huge, ratio, Nat.cast_mul]
  generalize ((2 ^ 2045 : ℕ) : ℚ) = top at htop hpos
  have hunits := cast_unitsPerOne_pos
  have hhuge : (0 : ℚ) < hugeSignificand := by norm_num [hugeSignificand]
  rw [div_mul_div_comm, div_eq_div_iff (mul_pos hhuge hpos).ne' (mul_pos hunits hhuge).ne']
  linear_combination v * hugeSignificand * htop

theorem unitsPerOne_eq_mul : (unitsPerOne : ℚ) = 2 ^ 103 * 2 ^ 971 := by
  rw [unitsPerOne_eq, Nat.cast_pow, Nat.cast_two, ← pow_add]

theorem ratio_le : ratio ≤ exactRatio := by
  have hbound := huge_bounds.1
  rw [ratio, exactRatio, div_le_div_iff₀ (by norm_num [hugeSignificand]) (by positivity), unitsPerOne_eq_mul]
  qify at hbound
  linarith [mul_le_mul_of_nonneg_left hbound (by positivity : (0 : ℚ) ≤ 2 ^ 103)]

theorem exactRatio_le : exactRatio ≤ (1 + 1 / (10 * 2 ^ 53)) * ratio := by
  have hbound := huge_bounds.2
  have hsum : (1 + 1 / (10 * 2 ^ 53)) * ratio = 2 ^ 103 * (10 * 2 ^ 53 + 1) / (hugeSignificand * (10 * 2 ^ 53)) := by
    rw [ratio, hugeSignificand]
    norm_num
  rw [hsum, exactRatio, div_le_div_iff₀ (by positivity) (by norm_num [hugeSignificand]), unitsPerOne_eq_mul]
  qify at hbound
  linarith [mul_le_mul_of_nonneg_left hbound (by positivity : (0 : ℚ) ≤ 2 ^ 103)]

/-! ### The first quotient -/

/-- A quotient is near to `z`: by one part in 2^52, or by ten units. -/
def Near (z y : ℚ) : Prop :=
  (1 - 1 / 2 ^ 52) * z ≤ y ∧ y ≤ (1 + 1 / 2 ^ 52) * z ∨ z - 10 ≤ y ∧ y ≤ z + 10

section
variable {n v y : ℚ}

/-- A quotient that is not a number of 53 bits is off by half a unit. -/
theorem near_of_lt (hn : 0 ≤ n) (hv : Off n v) (hsmall : v * ratio < 2 ^ 52) (hy : |y - v * ratio| ≤ 1 / 2) :
    Near (n * exactRatio) y := by
  obtain ⟨hylow, hyhigh⟩ := abs_le.mp hy
  have hvlow := mul_le_mul_of_nonneg_right hv.bounds.1 ratio_pos.le
  have hvhigh := mul_le_mul_of_nonneg_right hv.bounds.2 ratio_pos.le
  have hlow := mul_le_mul_of_nonneg_left ratio_le hn
  have hhigh := mul_le_mul_of_nonneg_left exactRatio_le hn
  right
  constructor <;> nlinarith

/-- A significand without an error leaves the errors of the divisor and of the quotient. -/
theorem near_of_off (hn : 0 ≤ n) (hy : Off (n * ratio) y) : Near (n * exactRatio) y := by
  have hlow := mul_le_mul_of_nonneg_left ratio_le hn
  have hhigh := mul_le_mul_of_nonneg_left exactRatio_le hn
  have hbounds := hy.bounds
  left
  constructor <;> linarith

/-- A significand of the exponent of `A` that has an error. The quotient has the exponent of `A * 2^50` or the next one:
    only at the top of it, where it is large, is its error that of the next exponent. -/
theorem near_of_ge {A : ℚ} (hA : 0 < A) (hn : A ≤ n) (hv : |v - n| ≤ A / 2 ^ 53) (hy : |y - v * ratio| ≤ A / 4)
    (hy' : v * ratio < A * 2 ^ 51 → |y - v * ratio| ≤ A / 8) : Near (n * exactRatio) y := by
  have hn0 : 0 ≤ n := hA.le.trans hn
  have hlow := mul_le_mul_of_nonneg_left ratio_le hn0
  have hhigh := mul_le_mul_of_nonneg_left exactRatio_le hn0
  obtain ⟨hvlow, hvhigh⟩ := abs_le.mp hv
  left
  rcases lt_or_ge (v * ratio) (A * 2 ^ 51) with hlt | hge
  · obtain ⟨hylow, hyhigh⟩ := abs_le.mp (hy' hlt)
    rw [ratio, hugeSignificand] at *
    push_cast at *
    constructor <;> linarith
  · obtain ⟨hylow, hyhigh⟩ := abs_le.mp hy
    rw [ratio, hugeSignificand] at *
    push_cast at *
    constructor <;> linarith

end

theorem ratio_lt : ratio < 9 / 10 * 2 ^ 51 := by
  norm_num [ratio, hugeSignificand]

section
variable {n a b : ℕ}

/-- The error of a value, in ones. -/
theorem abs_div_units_sub (v x : ℚ) : |v / unitsPerOne - x| = |v - x * unitsPerOne| / unitsPerOne := by
  have hU := cast_unitsPerOne_pos
  rw [← abs_of_pos hU, ← abs_div, abs_of_pos hU, sub_div, mul_div_cancel_right₀ _ hU.ne']

/-- The error of a significand of more than 53 bits. -/
theorem abs_sub_le_of_roundsTo {t : ℕ} (hlt : n < 2 ^ (t + 1)) (ht : 53 ≤ t) (ha : RoundsTo a (n * unitsPerOne)) :
    |magnitude a / unitsPerOne - (n : ℚ)| ≤ 2 ^ t / 2 ^ 53 := by
  have hU := cast_unitsPerOne_pos
  obtain ⟨e, rfl⟩ : ∃ e, t = 53 + e := ⟨t - 53, by omega⟩
  have hvalue : (n * unitsPerOne : ℚ) < 2 ^ (53 + (e + 1 + 1074)) := by
    have hlt' : n * unitsPerOne < 2 ^ (53 + e + 1) * unitsPerOne := Nat.mul_lt_mul_of_pos_right hlt unitsPerOne_pos
    rw [unitsPerOne_eq, ← pow_add, ← unitsPerOne_eq] at hlt'
    rw [show 53 + (e + 1 + 1074) = 53 + e + 1 + 1074 by omega]
    exact_mod_cast hlt'
  have herror := ha.error_of_lt (mul_nonneg n.cast_nonneg hU.le) hvalue
  have hunits : (unitsPerOne : ℚ) = 2 ^ 1074 := by rw [unitsPerOne_eq, Nat.cast_pow, Nat.cast_ofNat]
  have hsize : (2 : ℚ) ^ (e + 1 + 1074) / 2 = 2 ^ (53 + e) / 2 ^ 53 * unitsPerOne := by
    rw [pow_add _ 53, mul_div_cancel_left₀ _ (by norm_num), pow_add _ (e + 1), pow_succ, ← hunits]
    ring
  rwa [abs_div_units_sub, div_le_iff₀ hU, ← hsize]

theorem off_div_units (hn : 0 < n) (ha : RoundsTo a (n * unitsPerOne)) : Off (n : ℚ) (magnitude a / unitsPerOne) := by
  have hoff := off_magnitude hn ha
  rw [Off] at hoff ⊢
  rwa [abs_div_units_sub, div_mul_eq_mul_div, div_le_iff₀ cast_unitsPerOne_pos]

/-- A significand of at most 53 bits has no error. -/
theorem magnitude_eq_of_lt (hn : n < 2 ^ 53) (ha : RoundsTo a (n * unitsPerOne)) :
    (magnitude a : ℚ) = n * unitsPerOne := by
  obtain ⟨other, hother⟩ := exists_magnitude_eq (m := n) hn.le 1074
  rw [← unitsPerOne_eq] at hother
  have hother' : (n * unitsPerOne : ℚ) = magnitude other := by rw [hother]; push_cast; rfl
  rw [hother'] at ha ⊢
  rw [ha.eq_of_magnitude]

theorem firstQuotient_nonneg (a : ℕ) : 0 ≤ (magnitude a : ℚ) / unitsPerOne * ratio :=
  mul_nonneg (div_nonneg (cast_magnitude_nonneg a) cast_unitsPerOne_pos.le) ratio_pos.le

/-- The first quotient of a significand of more than 53 bits. -/
theorem firstQuotient_near_of_ge {e : ℕ} (he : 51 ≤ e) (hlow : 2 ^ (e + 2) ≤ n) (hhigh : n < 2 ^ (e + 2 + 1))
    (ha : RoundsTo a (n * unitsPerOne)) (hb : RoundsTo b (magnitude a / unitsPerOne * ratio)) :
    Near (n * exactRatio) (magnitude b) := by
  have herror := abs_sub_le_of_roundsTo hhigh (by omega) ha
  have hlow' : (2 : ℚ) ^ (e + 2) ≤ n := by exact_mod_cast hlow
  have hhigh' : (n : ℚ) < 2 ^ (e + 2 + 1) := by exact_mod_cast hhigh
  rw [pow_succ] at hhigh'
  refine near_of_ge (by positivity) hlow' herror ?_ fun hsmall => ?_
  · have hv : (magnitude a : ℚ) / unitsPerOne < 2 * 2 ^ (e + 2) + 2 ^ (e + 2) / 2 ^ 53 := by
      linarith [(abs_le.mp herror).2]
    have htop : (magnitude a : ℚ) / unitsPerOne * ratio < 2 ^ (53 + (e + 1)) := by
      have hmul := mul_lt_mul hv ratio_lt.le ratio_pos (by positivity)
      have hpos : (0 : ℚ) < 2 ^ e := by positivity
      rw [pow_add] at hmul
      rw [pow_add, pow_succ 2 e]
      linarith
    have hquotient := hb.error_of_lt (firstQuotient_nonneg a) htop
    rw [pow_succ] at hquotient
    rw [pow_add]
    linarith
  · rw [pow_add] at hsmall ⊢
    have htop : (magnitude a : ℚ) / unitsPerOne * ratio < 2 ^ (53 + e) := by
      rw [pow_add]
      linarith
    have hquotient := hb.error_of_lt (firstQuotient_nonneg a) htop
    linarith

theorem firstQuotient_near (hn : 0 < n) (ha : RoundsTo a (n * unitsPerOne))
    (hb : RoundsTo b (magnitude a / unitsPerOne * ratio)) : Near (n * exactRatio) (magnitude b) := by
  rcases lt_or_ge ((magnitude a : ℚ) / unitsPerOne * ratio) (2 ^ 52) with hsmall | hlarge
  · have herror := hb.error_of_lt (firstQuotient_nonneg a) (e := 0) (hsmall.trans (by norm_num))
    rw [pow_zero] at herror
    exact near_of_lt n.cast_nonneg (off_div_units hn ha) hsmall herror
  · rcases Nat.lt_or_ge n (2 ^ 53) with hshort | hlong
    · rw [magnitude_eq_of_lt hshort ha, mul_div_cancel_right₀ _ cast_unitsPerOne_pos.ne'] at hb hlarge
      exact near_of_off n.cast_nonneg (hb.relative hlarge)
    · have hbits : 53 ≤ n.log2 := (Nat.le_log2 hn.ne').mpr hlong
      have hlow : 2 ^ n.log2 ≤ n := Nat.log2_self_le hn.ne'
      have hhigh : n < 2 ^ (n.log2 + 1) := Nat.lt_log2_self
      obtain ⟨e, he⟩ : ∃ e, n.log2 = e + 2 := ⟨n.log2 - 2, by omega⟩
      rw [he] at hbits hlow hhigh
      exact firstQuotient_near_of_ge (by omega) hlow hhigh ha hb

/-! ### Both quotients -/

/-- The second division brings a difference of ten units down to one. -/
theorem roundsTo_of_near {z y : ℚ} {j rank other : ℕ} (hj : 0 < j) (hnear : Near z y) (h : RoundsTo rank (z / 10 ^ j))
    (hother : RoundsTo other (y / 10 ^ j)) : other ≤ rank + 2 ∧ rank ≤ other + 2 := by
  have hten : (0 : ℚ) < 10 ^ j := by positivity
  rcases hnear with ⟨hlow, hhigh⟩ | ⟨hlow, hhigh⟩
  · refine h.near hother ?_ ?_
    · rw [← mul_div_assoc]
      exact div_le_div_of_nonneg_right hlow hten.le
    · rw [← mul_div_assoc]
      exact div_le_div_of_nonneg_right hhigh hten.le
  · have hone : (10 : ℚ) ≤ 10 ^ j := le_self_pow₀ (by norm_num) hj.ne'
    refine h.near_of_unit hother ?_ ?_
    · rw [sub_le_iff_le_add, div_add_one hten.ne']
      exact div_le_div_of_nonneg_right (by linarith) hten.le
    · rw [div_add_one hten.ne']
      exact div_le_div_of_nonneg_right (by linarith) hten.le

theorem firstQuotient_finite (hn : 0 < n) (hmax : n < 2 ^ 64) (ha : RoundsTo a (n * unitsPerOne))
    (hb : RoundsTo b (magnitude a / unitsPerOne * ratio)) : b < infiniteRank := by
  have hbound : (magnitude a : ℚ) / unitsPerOne * ratio < 2 ^ 128 := by
    have hhigh := (off_magnitude hn ha).bounds.2
    have hmax' : (n : ℚ) < 2 ^ 64 := by exact_mod_cast hmax
    have hv : (magnitude a : ℚ) / unitsPerOne ≤ 2 ^ 65 := by
      rw [div_le_iff₀ cast_unitsPerOne_pos]
      linarith [mul_le_mul_of_nonneg_right hmax'.le cast_unitsPerOne_pos.le]
    calc (magnitude a : ℚ) / unitsPerOne * ratio ≤ 2 ^ 65 * (9 / 10 * 2 ^ 51) :=
          mul_le_mul hv ratio_lt.le ratio_pos.le (by positivity)
      _ < 2 ^ 128 := by norm_num
  have hlast : 2 ^ 128 < magnitude (infiniteRank - 1) := by
    rw [← Nat.pow_eq]
    decide +kernel
  exact Nat.lt_of_le_of_lt (hb.le_of_lt_magnitude (hbound.trans (by exact_mod_cast hlast))) (by decide)

theorem scale_far {j rank : ℕ} (hn : 0 < n) (hmax : n < 2 ^ 64) (hpos : 0 < j) (hj : j ≤ 22)
    (hrank : rank + 2 < infiniteRank) (h : RoundsTo rank (n / 10 ^ (308 + j) * unitsPerOne)) :
    ScalesNear n (-(308 + j : ℕ)) rank := by
  have hU := cast_unitsPerOne_pos
  obtain ⟨a, ha, hint, hvalue⟩ := exists_ofInt (le_ten_pow_308 hmax.le)
  have hapos : 0 < a := (off_magnitude hn hvalue).rank_pos (mul_pos (Nat.cast_pos.mpr hn) hU)
  obtain ⟨b, hb⟩ := exists_roundsTo (firstQuotient_nonneg a)
  have hbfinite := firstQuotient_finite hn hmax hvalue hb
  have hfirst : (ofInt n).divPositive (tenTo 308) = ofRank false b := by
    rw [hint, tenTo_huge]
    exact divPositive_eq ha (by decide) (by decide) hbfinite (by rwa [div_huge])
  obtain ⟨p, hp, hten, hpower⟩ := exists_tenTo_exact hj
  have hpower' : (magnitude p : ℚ) = 10 ^ j * unitsPerOne := by exact_mod_cast hpower
  have htarget : (n : ℚ) / 10 ^ (308 + j) * unitsPerOne = n * exactRatio / 10 ^ j := by
    rw [exactRatio, pow_add, ← mul_div_assoc, div_div, div_mul_eq_mul_div]
  rw [htarget] at h
  obtain ⟨other, hother⟩ := exists_roundsTo (div_nonneg (cast_magnitude_nonneg b) (by positivity : (0 : ℚ) ≤ 10 ^ j))
  obtain ⟨habove, hbelow⟩ := roundsTo_of_near hpos (firstQuotient_near hn hvalue hb) h hother
  have hfinite : other < infiniteRank := Nat.lt_of_le_of_lt habove hrank
  have hsecond : (ofRank false b).divPositive (tenTo j) = ofRank false other := by
    rw [hten]
    refine divPositive_eq hbfinite hp (rank_pos_of_magnitude hpower) hfinite ?_
    rwa [hpower', mul_div_mul_right _ _ hU.ne']
  refine ⟨other, hfinite, ?_, habove, hbelow⟩
  have hagain : -((308 + j : ℕ) : ℤ) + 308 = -(j : ℤ) := by push_cast; ring
  rw [scale, if_neg (by omega), hint, rank_ofRank (ha.trans infiniteRank_lt), if_neg hapos.ne', if_neg (by omega),
    ← hint, hfirst, hagain, scale_neg_natCast hpos (by omega) hsecond]

end

end SyntheticRows.Json.Number
