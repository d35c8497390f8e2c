import SyntheticRows.Proofs.Decimal.Plain

/-!
Significant digits: the digits of a decimal without the zeros behind them. How many there are depends on the number
alone, and a number has at most so many of them if it is a multiple of a power of ten with so many digits
(`significant_le_iff`).
-/

namespace SyntheticRows.Decimal

/-- How many digits a decimal has, without the zeros at the end. -/
def significant (d : Decimal) : ℕ :=
  ((numeral d.digits).rdropWhile (· == '0')).length

/-! ### Zeros at the end -/

theorem numeral_of_lt {n : ℕ} (h : n < 10) : numeral n = [Nat.digitChar n] :=
  Nat.toDigits_of_lt_base h

theorem numeral_of_le {n : ℕ} (h : 10 ≤ n) : numeral n = numeral (n / 10) ++ [Nat.digitChar (n % 10)] :=
  Nat.toDigits_of_base_le (by decide) h

theorem exists_numeral_concat (n : ℕ) : ∃ ds, numeral n = ds ++ [Nat.digitChar (n % 10)] := by
  rcases Nat.lt_or_ge n 10 with hlt | hge
  · exact ⟨[], by rw [numeral_of_lt hlt, Nat.mod_eq_of_lt hlt, List.nil_append]⟩
  · exact ⟨_, numeral_of_le hge⟩

theorem digitChar_eq_zero_iff {n : ℕ} : Nat.digitChar (n % 10) = '0' ↔ n % 10 = 0 :=
  Nat.digitChar_eq_zero

theorem length_numeral_le_iff {m n : ℕ} (hm : 0 < m) : (numeral m).length ≤ n ↔ m < 10 ^ n := by
  rcases Nat.eq_zero_or_pos n with rfl | hn
  · have hlength : 0 < (numeral m).length := Nat.length_toDigits_pos
    rw [pow_zero]
    omega
  · exact Nat.length_toDigits_le_iff (by decide) hn

theorem significant_of_mod_ne {d : Decimal} (h : d.digits % 10 ≠ 0) : d.significant = (numeral d.digits).length := by
  obtain ⟨ds, hds⟩ := exists_numeral_concat d.digits
  have hlast : ¬(Nat.digitChar (d.digits % 10) == '0') = true := by
    rw [beq_iff_eq, digitChar_eq_zero_iff]
    exact h
  rw [significant, hds, List.rdropWhile_concat_neg (· == '0') _ _ hlast]

theorem significant_mul_ten {m : ℕ} {e f : ℤ} (hm : 0 < m) : significant ⟨m * 10, e⟩ = significant ⟨m, f⟩ := by
  have hnumeral : numeral (m * 10) = numeral m ++ ['0'] := by
    rw [numeral_of_le (by omega), Nat.mul_div_cancel _ (by decide), Nat.mul_mod_left]
    rfl
  rw [significant, hnumeral, List.rdropWhile_concat_pos (· == '0') _ _ rfl, significant]

theorem significant_mul_pow {m k : ℕ} {e f : ℤ} (hm : 0 < m) : significant ⟨m * 10 ^ k, e⟩ = significant ⟨m, f⟩ := by
  induction k with
  | zero => rw [pow_zero, Nat.mul_one]; rfl
  | succ k ih => rw [pow_succ, ← Nat.mul_assoc, significant_mul_ten (f := e) (Nat.mul_pos hm (Nat.pow_pos (by decide))), ih]

/-! ### Numbers with so many digits -/

theorem mul_zpow_of_le (m : ℕ) {e f : ℤ} (h : e ≤ f) : (m : ℚ) * 10 ^ f = (m * 10 ^ (f - e).toNat : ℕ) * 10 ^ e := by
  obtain ⟨j, rfl⟩ := Int.le.dest h
  rw [add_sub_cancel_left, Int.toNat_natCast, zpow_add₀ (by norm_num), zpow_natCast]
  push_cast
  ring

/-- The digits of a number without zeros behind them. -/
theorem exists_stripped {d : Decimal} (hpos : 0 < d.digits) :
    ∃ (m : ℕ) (e : ℤ), m % 10 ≠ 0 ∧ d.significant = (numeral m).length ∧ d.toRat = m * 10 ^ e := by
  obtain ⟨k, m, hm, hdigits⟩ := Nat.exists_eq_pow_mul_and_not_dvd hpos.ne' 10 (by decide)
  rw [Nat.dvd_iff_mod_eq_zero] at hm
  have hmpos : 0 < m := Nat.pos_of_ne_zero fun h => hm (by rw [h])
  refine ⟨m, d.exponent + k, hm, ?_, ?_⟩
  · have hsame : d.significant = significant ⟨m, 0⟩ := by
      rw [← significant_mul_pow (k := k) (e := d.exponent) hmpos, Nat.mul_comm, ← hdigits]
    rw [hsame, significant_of_mod_ne hm]
  · rw [toRat, hdigits, zpow_add₀ (by norm_num), zpow_natCast]
    push_cast
    ring

/-- The number of the stripped digits is the least one: it is on no coarser grid. -/
theorem le_of_mul_zpow_eq {m l : ℕ} {e f : ℤ} (hm : m % 10 ≠ 0) (h : (m : ℚ) * 10 ^ e = l * 10 ^ f) : m ≤ l := by
  have hten {g : ℤ} : (10 : ℚ) ^ g ≠ 0 := zpow_ne_zero _ (by norm_num)
  rcases lt_or_ge e f with hcoarse | hfine
  · -- The digits would end in a zero.
    rw [mul_zpow_of_le l hcoarse.le, mul_left_inj' hten, Nat.cast_inj] at h
    obtain ⟨j, hj⟩ : ∃ j, (f - e).toNat = j + 1 := ⟨(f - e).toNat - 1, by omega⟩
    rw [hj, pow_succ, ← Nat.mul_assoc] at h
    exact absurd (h ▸ Nat.mul_mod_left _ _) hm
  · rw [mul_zpow_of_le m hfine, mul_left_inj' hten, Nat.cast_inj] at h
    exact h ▸ Nat.le_mul_of_pos_right m (Nat.pow_pos (by decide))

theorem significant_le_iff {d : Decimal} {n : ℕ} :
    d.significant ≤ n ↔ ∃ (m : ℕ) (e : ℤ), m < 10 ^ n ∧ d.toRat = m * 10 ^ e := by
  rcases Nat.eq_zero_or_pos d.digits with hzero | hpos
  · have hnone : d.significant = 0 := by
      rw [significant, hzero]
      decide
    rw [hnone]
    refine ⟨fun _ => ⟨0, 0, Nat.pow_pos (by decide), ?_⟩, fun _ => Nat.zero_le n⟩
    rw [toRat, hzero, Nat.cast_zero, zero_mul, zero_mul]
  · obtain ⟨m, e, hm, hsignificant, hvalue⟩ := exists_stripped hpos
    have hmpos : 0 < m := Nat.pos_of_ne_zero fun h => hm (by rw [h])
    rw [hsignificant, length_numeral_le_iff hmpos, hvalue]
    constructor
    · exact fun hlt => ⟨m, e, hlt, rfl⟩
    · rintro ⟨l, f, hlt, heq⟩
      exact (le_of_mul_zpow_eq hm heq).trans_lt hlt

theorem pow_le_digits {d : Decimal} {n : ℕ} (h : d.significant = n + 1) : 10 ^ n ≤ d.digits := by
  by_contra hfew
  have hsignificant : d.significant ≤ n := significant_le_iff.mpr ⟨_, _, Nat.lt_of_not_le hfew, rfl⟩
  omega

theorem exists_digits {d : Decimal} (hpos : 0 < d.toRat) :
    ∃ (n m : ℕ) (e : ℤ), d.significant = n + 1 ∧ m < 10 ^ (n + 1) ∧ d.toRat = m * 10 ^ e := by
  obtain ⟨m, e, hm, hd⟩ := significant_le_iff.mp (le_refl d.significant)
  obtain ⟨n, hn⟩ : ∃ n, d.significant = n + 1 := by
    refine Nat.exists_eq_succ_of_ne_zero fun hzero => ?_
    rw [hzero, pow_zero, Nat.lt_one_iff] at hm
    rw [hd, hm, Nat.cast_zero, zero_mul] at hpos
    exact lt_irrefl _ hpos
  exact ⟨n, m, e, hn, hn ▸ hm, hd⟩

theorem significant_congr {d d' : Decimal} (h : d.toRat = d'.toRat) : d.significant = d'.significant := by
  have hle (n : ℕ) : d.significant ≤ n ↔ d'.significant ≤ n := by rw [significant_le_iff, significant_le_iff, h]
  exact Nat.le_antisymm ((hle _).mpr le_rfl) ((hle _).mp le_rfl)

end SyntheticRows.Decimal
