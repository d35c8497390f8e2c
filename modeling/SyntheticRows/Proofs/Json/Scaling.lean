import SyntheticRows.Json.Number
import SyntheticRows.Proofs.Binary64.Arithmetic

/-!
Scaling a significand by a power of ten. The result is at most two numbers away from the one that the exact decimal
rounds to (`scale_near`), and it is that number if significand and power have 53 bits (`scale_exact`).
-/

namespace SyntheticRows.Json.Number
open Binary64

/-! ### Whole numbers -/

theorem le_ten_pow_308 {n : ℕ} (h : n ≤ 2 ^ 64) : n ≤ 10 ^ 308 :=
  h.trans (Nat.le_trans (by decide : 2 ^ 64 ≤ 10 ^ 20) (Nat.pow_le_pow_right (by decide) (by decide)))

theorem lt_magnitude_last : 10 ^ 308 * unitsPerOne < magnitude (infiniteRank - 1) := by
  rw [← Nat.pow_eq]
  decide +kernel

theorem exists_ofInt {n : ℕ} (h : n ≤ 10 ^ 308) :
    ∃ a < infiniteRank, ofInt n = ofRank false a ∧ RoundsTo a (n * unitsPerOne) := by
  obtain ⟨a, ha⟩ := exists_roundsTo (mul_nonneg n.cast_nonneg unitsPerOne.cast_nonneg : (0 : ℚ) ≤ n * unitsPerOne)
  have hlt : n * unitsPerOne < magnitude (infiniteRank - 1) :=
    Nat.lt_of_le_of_lt (Nat.mul_le_mul_right _ h) lt_magnitude_last
  have hfinite : a < infiniteRank :=
    Nat.lt_of_le_of_lt (ha.le_of_lt_magnitude (by exact_mod_cast hlt)) (by decide)
  exact ⟨a, hfinite, ofInt_eq hfinite ha, ha⟩

/-- A multiple of a power of two with 53 bits is a number itself. -/
theorem exists_ofInt_exact {n m e : ℕ} (h : n ≤ 10 ^ 308) (hm : m ≤ 2 * binade) (hn : n = m * 2 ^ e) :
    ∃ a < infiniteRank, ofInt n = ofRank false a ∧ magnitude a = n * unitsPerOne := by
  obtain ⟨a, ha⟩ := exists_magnitude_eq hm (e + 1074)
  have hvalue : magnitude a = n * unitsPerOne := by
    rw [ha, hn, unitsPerOne_eq, pow_add, Nat.mul_assoc]
  have hrounds : RoundsTo a (n * unitsPerOne) := by
    have := roundsTo_magnitude a
    rw [hvalue] at this
    exact_mod_cast this
  have hlt : n * unitsPerOne < magnitude (infiniteRank - 1) :=
    Nat.lt_of_le_of_lt (Nat.mul_le_mul_right _ h) lt_magnitude_last
  have hfinite : a < infiniteRank :=
    Nat.lt_of_le_of_lt (hrounds.le_of_lt_magnitude (by exact_mod_cast hlt)) (by decide)
  exact ⟨a, hfinite, ofInt_eq hfinite hrounds, hvalue⟩

theorem exists_tenTo {k : ℕ} (h : k ≤ 308) :
    ∃ b < infiniteRank, tenTo k = ofRank false b ∧ RoundsTo b (10 ^ k * unitsPerOne) := by
  obtain ⟨b, hb, htenTo, hrounds⟩ := exists_ofInt (Nat.pow_le_pow_right (by decide : 0 < 10) h)
  exact ⟨b, hb, htenTo, by exact_mod_cast hrounds⟩

theorem exists_tenTo_exact {k : ℕ} (h : k ≤ 22) :
    ∃ b < infiniteRank, tenTo k = ofRank false b ∧ magnitude b = 10 ^ k * unitsPerOne := by
  have hfive : 5 ^ k ≤ 2 * binade := Nat.le_trans (Nat.pow_le_pow_right (by decide) h) (by decide)
  have hten : 10 ^ k = 5 ^ k * 2 ^ k := by rw [← Nat.mul_pow]
  exact exists_ofInt_exact (Nat.pow_le_pow_right (by decide : 0 < 10) (by omega)) hfive hten

/-! ### Two errors -/

/-- A value off by at most one part in 2^53 + 1, as rounding is where numbers have 53 bits. -/
def Off (x y : ℚ) : Prop :=
  |y - x| * (2 ^ 53 + 1) ≤ x

theorem off_magnitude {n a : ℕ} (hn : 0 < n) (h : RoundsTo a (n * unitsPerOne)) :
    Off (n * unitsPerOne) (magnitude a) := by
  refine h.relative ?_
  have hone : 2 ^ 52 ≤ n * unitsPerOne := by
    rw [unitsPerOne_eq]
    exact Nat.le_trans (Nat.pow_le_pow_right (by decide) (by decide)) (Nat.le_mul_of_pos_left _ hn)
  exact_mod_cast hone

section
variable {X Y x y : ℚ}

theorem Off.bounds (h : Off X x) : 2 ^ 53 * X ≤ (2 ^ 53 + 1) * x ∧ (2 ^ 53 + 1) * x ≤ (2 ^ 53 + 2) * X := by
  rw [Off, ← abs_of_pos (by norm_num : (0 : ℚ) < 2 ^ 53 + 1), ← abs_mul, abs_le] at h
  constructor <;> linarith

theorem Off.nonneg (h : Off X x) (hX : 0 ≤ X) : 0 ≤ x := by
  linarith [h.bounds.1]

theorem Off.mul (hX : 0 ≤ X) (hY : 0 ≤ Y) (hx : Off X x) (hy : Off Y y) :
    (1 - 1 / 2 ^ 52) * (X * Y) ≤ x * y ∧ x * y ≤ (1 + 1 / 2 ^ 52) * (X * Y) := by
  have hlow := mul_le_mul hx.bounds.1 hy.bounds.1 (by positivity) (mul_nonneg (by norm_num) (hx.nonneg hX))
  have hhigh := mul_le_mul hx.bounds.2 hy.bounds.2 (mul_nonneg (by norm_num) (hy.nonneg hY)) (by positivity)
  have hXY := mul_nonneg hX hY
  constructor <;> nlinarith

theorem Off.div (hX : 0 ≤ X) (hY : 0 < Y) (hx : Off X x) (hy : Off Y y) :
    (1 - 1 / 2 ^ 52) * (X / Y) ≤ x / y ∧ x / y ≤ (1 + 1 / 2 ^ 52) * (X / Y) := by
  have hypos : 0 < y := by linarith [hy.bounds.1]
  constructor
  · rw [← mul_div_assoc, div_le_div_iff₀ hY hypos]
    have hlow := mul_le_mul hx.bounds.1 hy.bounds.2 (mul_nonneg (by norm_num) hypos.le)
      (mul_nonneg (by norm_num) (hx.nonneg hX))
    have hXy := mul_nonneg hX hypos.le
    nlinarith
  · rw [← mul_div_assoc, div_le_div_iff₀ hypos hY]
    have hhigh := mul_le_mul hx.bounds.2 hy.bounds.1 (by positivity) (by positivity)
    nlinarith

/-- The product of two values in units. -/
theorem Off.mul_units {U n t v p : ℚ} (hU : 0 < U) (hn : 0 ≤ n) (ht : 0 ≤ t) (hv : Off (n * U) v) (hp : Off (t * U) p) :
    (1 - 1 / 2 ^ 52) * (n * t * U) ≤ v * p / U ∧ v * p / U ≤ (1 + 1 / 2 ^ 52) * (n * t * U) := by
  obtain ⟨hlow, hhigh⟩ := hv.mul (mul_nonneg hn hU.le) (mul_nonneg ht hU.le) hp
  rw [le_div_iff₀ hU, div_le_iff₀ hU]
  constructor <;> linarith

/-- The quotient of two values in units. -/
theorem Off.div_units {U n t v p : ℚ} (hU : 0 < U) (hn : 0 ≤ n) (ht : 0 < t) (hv : Off (n * U) v) (hp : Off (t * U) p) :
    (1 - 1 / 2 ^ 52) * (n / t * U) ≤ v * U / p ∧ v * U / p ≤ (1 + 1 / 2 ^ 52) * (n / t * U) := by
  obtain ⟨hlow, hhigh⟩ := hv.div (mul_nonneg hn hU.le) (mul_pos ht hU) hp
  rw [mul_div_mul_right _ _ hU.ne'] at hlow hhigh
  have hscale : v * U / p = v / p * U := by ring
  rw [hscale]
  constructor
  · linarith [mul_le_mul_of_nonneg_right hlow hU.le]
  · linarith [mul_le_mul_of_nonneg_right hhigh hU.le]

end

/-! ### One multiplication or division -/

theorem scale_natCast {x y : Binary64} {k : ℕ} (hk : k ≤ 308) (h : x.mul (tenTo k) = y)
    (hfinite : y.isInfinite = false) :
    scale x k = .ok y := by
  rw [scale, Int.natAbs_natCast, if_pos hk, if_pos (Int.natCast_nonneg k), h]
  simp only [hfinite]
  rfl

theorem scale_neg_natCast {x y : Binary64} {k : ℕ} (hpos : 0 < k) (hk : k ≤ 308) (h : x.divPositive (tenTo k) = y) :
    scale x (-k) = .ok y := by
  rw [scale, Int.natAbs_neg, Int.natAbs_natCast, if_pos hk, if_neg (by omega), h]

theorem natCast_or_neg_natCast (e : ℤ) : (∃ k : ℕ, e = k) ∨ ∃ k : ℕ, 0 < k ∧ e = -k := by
  rcases Int.lt_or_le e 0 with h | h
  · exact .inr ⟨e.natAbs, by omega, by omega⟩
  · exact .inl ⟨e.natAbs, by omega⟩

theorem isInfinite_ofRank {rank : ℕ} (h : rank < infiniteRank) : (ofRank false rank).isInfinite = false := by
  rw [isInfinite, rank_ofRank (h.trans infiniteRank_lt)]
  exact beq_false_of_ne h.ne

/-! ### Near numbers -/

/-- The result of scaling is finite and at most two ranks away. -/
def ScalesNear (n : ℕ) (e : ℤ) (rank : ℕ) : Prop :=
  ∃ other < infiniteRank, scale (ofInt n) e = .ok (ofRank false other) ∧ other ≤ rank + 2 ∧ rank ≤ other + 2

theorem cast_unitsPerOne_pos : (0 : ℚ) < unitsPerOne :=
  Nat.cast_pos.mpr unitsPerOne_pos

theorem cast_magnitude_nonneg (rank : ℕ) : (0 : ℚ) ≤ magnitude rank :=
  Nat.cast_nonneg _

theorem off_ten_pow {k b : ℕ} (h : RoundsTo b (10 ^ k * unitsPerOne)) : Off (10 ^ k * unitsPerOne) (magnitude b) := by
  have hoff := off_magnitude (n := 10 ^ k) (a := b) (Nat.pow_pos (by decide)) (by exact_mod_cast h)
  exact_mod_cast hoff

theorem Off.rank_pos {x : ℚ} {b : ℕ} (h : Off x (magnitude b)) (hx : 0 < x) : 0 < b := by
  refine Nat.pos_of_ne_zero ?_
  rintro rfl
  have hbound := h.bounds.1
  rw [magnitude_zero, Nat.cast_zero] at hbound
  linarith

section
variable {n rank k : ℕ}

theorem scale_up (hn : 0 < n) (hmax : n ≤ 10 ^ 308) (hk : k ≤ 308) (hrank : rank + 2 < infiniteRank)
    (h : RoundsTo rank (n * 10 ^ k * unitsPerOne)) : ScalesNear n k rank := by
  obtain ⟨a, ha, hint, hvalue⟩ := exists_ofInt hmax
  obtain ⟨b, hb, hten, hpower⟩ := exists_tenTo hk
  obtain ⟨hlow, hhigh⟩ := (off_magnitude hn hvalue).mul_units cast_unitsPerOne_pos n.cast_nonneg (by positivity)
    (off_ten_pow hpower)
  obtain ⟨other, hother⟩ := exists_roundsTo
    (div_nonneg (mul_nonneg (cast_magnitude_nonneg a) (cast_magnitude_nonneg b)) cast_unitsPerOne_pos.le)
  obtain ⟨habove, hbelow⟩ := h.near hother hlow hhigh
  have hfinite : other < infiniteRank := Nat.lt_of_le_of_lt habove hrank
  refine ⟨other, hfinite, scale_natCast hk ?_ (isInfinite_ofRank hfinite), habove, hbelow⟩
  rw [hint, hten, mul_eq ha hb hfinite hother]

theorem scale_down (hn : 0 < n) (hmax : n ≤ 10 ^ 308) (hpos : 0 < k) (hk : k ≤ 308) (hrank : rank + 2 < infiniteRank)
    (h : RoundsTo rank (n / 10 ^ k * unitsPerOne)) : ScalesNear n (-k) rank := by
  obtain ⟨a, ha, hint, hvalue⟩ := exists_ofInt hmax
  obtain ⟨b, hb, hten, hpower⟩ := exists_tenTo hk
  have hoff := off_ten_pow hpower
  obtain ⟨hlow, hhigh⟩ := (off_magnitude hn hvalue).div_units cast_unitsPerOne_pos n.cast_nonneg (by positivity) hoff
  obtain ⟨other, hother⟩ := exists_roundsTo
    (div_nonneg (mul_nonneg (cast_magnitude_nonneg a) cast_unitsPerOne_pos.le) (cast_magnitude_nonneg b))
  obtain ⟨habove, hbelow⟩ := h.near hother hlow hhigh
  have hfinite : other < infiniteRank := Nat.lt_of_le_of_lt habove hrank
  have hbpos : 0 < b := hoff.rank_pos (mul_pos (by positivity) cast_unitsPerOne_pos)
  refine ⟨other, hfinite, scale_neg_natCast hpos hk ?_, habove, hbelow⟩
  rw [hint, hten, divPositive_eq ha hb hbpos hfinite hother]

/-! ### Scaling without an error -/

theorem rank_pos_of_magnitude {b : ℕ} (h : magnitude b = 10 ^ k * unitsPerOne) : 0 < b := by
  refine Nat.pos_of_ne_zero ?_
  rintro rfl
  rw [magnitude_zero] at h
  exact (Nat.mul_pos (Nat.pow_pos (by decide)) unitsPerOne_pos).ne h

/-- Significands of 53 bits and the powers of ten up to 10^22 are numbers, so only the result is rounded. -/
theorem scale_exact {e : ℤ} (hn : n ≤ 2 * binade) (he : e.natAbs ≤ 22) (hrank : rank < infiniteRank)
    (h : RoundsTo rank (n * 10 ^ e * unitsPerOne)) : scale (ofInt n) e = .ok (ofRank false rank) := by
  have hU := cast_unitsPerOne_pos
  have hsmall : n ≤ 10 ^ 308 := le_ten_pow_308 (hn.trans (by decide))
  obtain ⟨a, ha, hint, hvalue⟩ := exists_ofInt_exact hsmall hn (e := 0) (by rw [pow_zero, Nat.mul_one])
  obtain ⟨b, hb, hten, hpower⟩ := exists_tenTo_exact he
  have hbpos := rank_pos_of_magnitude hpower
  have hvalue' : (magnitude a : ℚ) = n * unitsPerOne := by exact_mod_cast hvalue
  have hpower' : (magnitude b : ℚ) = 10 ^ e.natAbs * unitsPerOne := by exact_mod_cast hpower
  obtain ⟨k, rfl⟩ | ⟨k, hpos, rfl⟩ := natCast_or_neg_natCast e
  · rw [Int.natAbs_natCast] at he hten hpower'
    refine scale_natCast (he.trans (by decide)) ?_ (isInfinite_ofRank hrank)
    rw [hint, hten]
    refine mul_eq ha hb hrank ?_
    rw [zpow_natCast] at h
    rwa [hvalue', hpower', ← mul_assoc, mul_div_cancel_right₀ _ hU.ne', mul_right_comm]
  · rw [Int.natAbs_neg, Int.natAbs_natCast] at he hten hpower'
    refine scale_neg_natCast hpos (he.trans (by decide)) ?_
    rw [hint, hten]
    refine divPositive_eq ha hb hbpos hrank ?_
    rw [zpow_neg, zpow_natCast, ← div_eq_mul_inv] at h
    rwa [hvalue', hpower', mul_div_mul_right _ _ hU.ne', mul_div_right_comm]

end

end SyntheticRows.Json.Number
