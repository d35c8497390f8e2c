import SyntheticRows.Proofs.Binary64.Nearest
import SyntheticRows.Proofs.Random.Whole

/-!
Real numbers drawn from a range. The largest fraction is one step of 2^-52 below one, which in a range that is wide
enough for its ends (`Resolves`) is at least the distance of the numbers below the upper end. So neither of the two
roundings reaches the upper end (`inRange_stretch`), and no number is drawn a second time (`realWithin_eq`).
-/

namespace SyntheticRows.Draw
open Binary64

variable {σ : Type} [WordSource σ]

/-! ### Fractions -/

/-- The fraction of a word. -/
def fractionOf (word : UInt64) : Binary64 :=
  ofUnits ((word >>> 12).toNat * Nat.pow 2 1022) 1

theorem fraction_eq : (fraction : Draw σ Binary64) = fractionOf <$> word64 :=
  rfl

theorem toNat_shiftRight_lt (word : UInt64) : (word >>> 12).toNat < binade := by
  rw [UInt64.toNat_shiftRight, show (12 : UInt64).toNat % 64 = 12 from rfl, Nat.shiftRight_eq_div_pow]
  exact Nat.div_lt_of_lt_mul word.toNat_lt

theorem toRat_fractionOf (word : UInt64) : (fractionOf word).toRat = (word >>> 12).toNat / 2 ^ 52 := by
  have hlt := toNat_shiftRight_lt word
  generalize hn : (word >>> 12).toNat = n at hlt
  have hbits : |(n : ℤ)| ≤ 2 * binade := by
    rw [Nat.abs_cast]
    exact_mod_cast (by omega : n ≤ 2 * binade)
  obtain ⟨y, -, hy⟩ := exists_toRat_eq hbits (by decide : 52 ≤ 1074)
  have hpower : (unitsPerOne : ℚ) = 2 ^ 52 * 2 ^ 1022 := by
    rw [← pow_add, unitsPerOne_eq]
    push_cast
    rfl
  have hnearest : (fractionOf word).IsNearest y.toRat := by
    refine isNearest_ofUnits Nat.one_pos ?_ ?_
    · rw [hy, hn, hpower, Nat.pow_eq]
      push_cast
      rw [div_one, ← mul_assoc, div_mul_cancel₀ _ (by positivity)]
    · rw [hy, abs_div, abs_of_pos (by positivity : (0 : ℚ) < 2 ^ 52)]
      refine (div_le_self (abs_nonneg _) (one_le_pow₀ (by norm_num))).trans ?_
      exact_mod_cast hbits
  rw [hnearest.eq, hy, Int.cast_natCast]

theorem toRat_fractionOf_mem (word : UInt64) :
    0 ≤ (fractionOf word).toRat ∧ (fractionOf word).toRat ≤ 1 - 1 / 2 ^ 52 := by
  have hlt : ((word >>> 12).toNat : ℚ) ≤ 2 ^ 52 - 1 := by
    have := toNat_shiftRight_lt word
    rw [binade_eq_pow] at this
    have := Nat.cast_le (α := ℚ).mpr (Nat.succ_le_of_lt this)
    push_cast at this
    linarith
  rw [toRat_fractionOf]
  refine ⟨by positivity, ?_⟩
  rw [div_le_iff₀ (by positivity)]
  linarith

/-! ### Ranges -/

/-- A number of a half-open range that is not the negative zero. -/
structure InRange (low high : ℤ) (x : Binary64) : Prop where
  finite : x.isFinite
  low_le : low ≤ x.toRat
  lt_high : x.toRat < high
  ne_negativeZero : x ≠ negativeZero

/-- A range whose ends are numbers, where numbers just below the upper end and below the width lie 2^-k apart at most,
    and one part in 2^52 of the width is not less than that. -/
structure Resolves (low high : ℤ) (k : ℕ) : Prop where
  fine : k ≤ 1074
  low_bits : |low| ≤ 2 * binade
  high_pos : 0 < high
  high_bits : high * 2 ^ k ≤ 2 * binade
  width : binade ≤ (high - low) * 2 ^ k
  width_bits : (high - low) * 2 ^ k ≤ 2 * binade

theorem le_of_mul_two_pow_le {n bound : ℤ} {k : ℕ} (hn : 0 ≤ n) (h : n * 2 ^ k ≤ bound) : n ≤ bound :=
  (le_mul_of_one_le_right hn (one_le_pow₀ (by decide))).trans h

namespace Resolves
variable {low high : ℤ} {k : ℕ}

theorem width_pos (h : Resolves low high k) : 0 < high - low :=
  pos_of_mul_pos_left ((by decide : (0 : ℤ) < binade).trans_le h.width) (by positivity)

theorem width_le (h : Resolves low high k) : high - low ≤ 2 * binade :=
  le_of_mul_two_pow_le h.width_pos.le h.width_bits

theorem high_le (h : Resolves low high k) : high ≤ 2 * binade :=
  le_of_mul_two_pow_le h.high_pos.le h.high_bits

theorem step_le (h : Resolves low high k) : (1 : ℚ) / 2 ^ k ≤ 1 / 2 ^ 52 * (high - low) := by
  have hwidth : (2 : ℚ) ^ 52 ≤ (high - low) * 2 ^ k := by
    have := h.width
    rw [binade_eq_pow] at this
    exact_mod_cast this
  rw [one_div_mul_eq_div, div_le_div_iff₀ (by positivity) (by positivity), one_mul]
  exact hwidth

/-- The exact product of a fraction and the width of a range is one step at least below the width. -/
theorem fraction_mul_mem (h : Resolves low high k) (word : UInt64) :
    0 ≤ (fractionOf word).toRat * (high - low) ∧
      (fractionOf word).toRat * (high - low) ≤ high - low - 1 / 2 ^ k := by
  obtain ⟨hnonneg, hlast⟩ := toRat_fractionOf_mem word
  have hpos : (0 : ℚ) < high - low := by exact_mod_cast h.width_pos
  have hstep := h.step_le
  have hmul := mul_le_mul_of_nonneg_right hlast hpos.le
  rw [sub_mul, one_mul] at hmul
  exact ⟨mul_nonneg hnonneg hpos.le, by linarith⟩

/-- The product is rounded once, and it stays one step at least below the width. -/
theorem product_mem (h : Resolves low high k) (word : UInt64) :
    ((fractionOf word).mul (ofInt (high - low))).IsNearest ((fractionOf word).toRat * (high - low)) ∧
      0 ≤ ((fractionOf word).mul (ofInt (high - low))).toRat ∧
      ((fractionOf word).mul (ofInt (high - low))).toRat ≤ high - low - 1 / 2 ^ k := by
  have hfactor : (ofInt (high - low)).toRat = high - low := by
    have := toRat_ofInt (n := high - low) (by rw [abs_of_pos h.width_pos]; exact h.width_le)
    exact_mod_cast this
  obtain ⟨hnonneg, hlast⟩ := h.fraction_mul_mem word
  have hwidth : (high - low : ℚ) ≤ 2 * binade := by exact_mod_cast h.width_le
  have hnearest : ((fractionOf word).mul (ofInt (high - low))).IsNearest
      ((fractionOf word).toRat * (ofInt (high - low)).toRat) := by
    refine isNearest_mul ?_
    rw [hfactor, abs_of_nonneg hnonneg]
    exact hlast.trans ((sub_le_self _ (by positivity)).trans hwidth)
  rw [hfactor] at hnearest
  obtain ⟨last, hbelow⟩ := exists_toRat_eq_sub h.width_pos h.width_bits h.fine
  push_cast at hbelow
  refine ⟨hnearest, hnearest.toRat_nonneg hnonneg, ?_⟩
  rw [← hbelow] at hlast ⊢
  exact hnearest.le hlast

theorem sum_bits (h : Resolves low high k) (word : UInt64) :
    |((fractionOf word).mul (ofInt (high - low))).toRat + (ofInt low).toRat| ≤ 2 * binade := by
  obtain ⟨-, hnonneg, hlast⟩ := h.product_mem word
  have hhigh : (high : ℚ) ≤ 2 * binade := by exact_mod_cast h.high_le
  have hlow : |(low : ℚ)| ≤ 2 * binade := by exact_mod_cast h.low_bits
  have hstep : (0 : ℚ) < 1 / 2 ^ k := by positivity
  rw [toRat_ofInt h.low_bits, abs_le]
  rw [abs_le] at hlow
  constructor <;> linarith

/-- The sum is rounded once. -/
theorem isNearest_stretch (h : Resolves low high k) (word : UInt64) :
    (stretch low high (fractionOf word)).IsNearest (((fractionOf word).mul (ofInt (high - low))).toRat + low) := by
  rw [← toRat_ofInt h.low_bits]
  exact isNearest_add (h.sum_bits word)

/-- Like the product, the sum stays one step at least below the end of its range. -/
theorem stretch_le (h : Resolves low high k) (word : UInt64) :
    (stretch low high (fractionOf word)).toRat ≤ high - 1 / 2 ^ k := by
  obtain ⟨-, -, hlast⟩ := h.product_mem word
  obtain ⟨last, hbelow⟩ := exists_toRat_eq_sub h.high_pos h.high_bits h.fine
  rw [← hbelow]
  refine (h.isNearest_stretch word).le ?_
  rw [hbelow]
  linarith

theorem inRange_stretch (h : Resolves low high k) (word : UInt64) :
    InRange low high (stretch low high (fractionOf word)) := by
  obtain ⟨-, hnonneg, -⟩ := h.product_mem word
  refine ⟨(h.isNearest_stretch word).finite, ?_, ?_, add_ne_negativeZero (h.sum_bits word)⟩
  · rw [← toRat_ofInt h.low_bits]
    refine (h.isNearest_stretch word).ge ?_
    rw [toRat_ofInt h.low_bits]
    linarith
  · exact (h.stretch_le word).trans_lt (sub_lt_self _ (by positivity))

end Resolves

/-! ### Draws -/

section
variable {low high : ℤ} {k : ℕ} {x : Binary64}

/-- Nothing is drawn again: a number drawn from such a range takes two words and is that of their fraction. -/
theorem realWithin_eq (h : Resolves low high k) (retries : ℕ) :
    (realWithin low high retries : Draw σ Binary64) = (fun word => stretch low high (fractionOf word)) <$> word64 := by
  cases retries with
  | zero => rw [realWithin, fraction_eq, bind_map_left, map_eq_pure_bind]
  | succ retries =>
    rw [realWithin, fraction_eq, bind_map_left, map_eq_pure_bind]
    refine bind_congr_of_yields fun word _ => ?_
    dsimp only
    rw [if_pos (toRat_lt_intCast.mpr (h.inRange_stretch word).lt_high)]

theorem Yields.exists_word (h : Resolves low high k) (hx : (real low high : Draw σ Binary64).Yields x) :
    ∃ word, x = stretch low high (fractionOf word) := by
  rw [real, realWithin_eq h, map_eq_pure_bind] at hx
  obtain ⟨word, -, hx⟩ := hx.exists_of_bind
  exact ⟨word, hx.eq_of_pure.symm⟩

theorem Yields.inRange (h : Resolves low high k) (hx : (real low high : Draw σ Binary64).Yields x) :
    InRange low high x := by
  obtain ⟨word, rfl⟩ := hx.exists_word h
  exact h.inRange_stretch word

theorem Yields.le_last (h : Resolves low high k) (hx : (real low high : Draw σ Binary64).Yields x) :
    x.toRat ≤ high - 1 / 2 ^ k := by
  obtain ⟨word, rfl⟩ := hx.exists_word h
  exact h.stretch_le word

theorem Resolves.exists_reaches (h : Resolves low high k) :
    ∃ x, (real low high : Draw WordSequence Binary64).Reaches x := by
  rw [real, realWithin_eq h]
  exact ⟨_, (reaches_word64 0).map _⟩

end

end SyntheticRows.Draw
