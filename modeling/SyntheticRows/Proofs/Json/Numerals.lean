import Mathlib
import SyntheticRows.Proofs.Decimal.Plain
import SyntheticRows.Proofs.Json.Reading

/-!
Numerals as numbers. A number whose digits fit in a significand is read with all of them
(`NumberText.number_of_fits`), and a whole number that fits in 64 bits is read back from its numeral.
-/

namespace SyntheticRows

namespace Json
open Number

/-! ### Digits that fit -/

theorem wholeDigits_of_le {ds : List Char} (hds : ∀ c ∈ ds, c.isDigit) {v : ℕ}
    (h : v * 10 ^ ds.length + Digits.value ds ≤ maxSignificand) :
    wholeDigits v 0 ds = (v * 10 ^ ds.length + Digits.value ds, 0, []) := by
  induction ds generalizing v with
  | nil => simp [wholeDigits, Digits.value]
  | cons c ds ih =>
    obtain ⟨hc, hrest⟩ := List.forall_mem_cons.mp hds
    rw [Digits.shift_add_value_cons] at h ⊢
    have hone : v * 10 + Digits.decimal c ≤ maxSignificand := Nat.le_trans (Digits.le_shift_add_value _ ds) h
    rw [wholeDigits, if_pos hc, if_pos ⟨rfl, hone⟩]
    exact ih hrest h

theorem fractionDigits_of_le {ds : List Char} (hds : ∀ c ∈ ds, c.isDigit) {v : ℕ} (taken : ℕ)
    (h : v * 10 ^ ds.length + Digits.value ds ≤ maxSignificand) :
    fractionDigits v taken ds = (v * 10 ^ ds.length + Digits.value ds, taken + ds.length, []) := by
  induction ds generalizing v taken with
  | nil => simp [fractionDigits, Digits.value]
  | cons c ds ih =>
    obtain ⟨hc, hrest⟩ := List.forall_mem_cons.mp hds
    rw [Digits.shift_add_value_cons] at h ⊢
    have hone : v * 10 + Digits.decimal c ≤ maxSignificand := Nat.le_trans (Digits.le_shift_add_value _ ds) h
    rw [fractionDigits, if_pos hc, if_pos hone, ih hrest _ h, List.length_cons]
    congr 2
    omega

namespace NumberText

/-- All digits of a number. -/
def digits (n : NumberText) : List Char :=
  n.first :: (n.whole ++ n.fraction)

/-- A number whose digits fit in a significand is read with all of them. -/
theorem number_of_fits {n : NumberText} (h : Digits.value n.digits ≤ maxSignificand) :
    n.number = if n.fraction = [] ∧ n.exponent = none then .ok (ofWhole n.negative (Digits.value n.digits))
      else n.afterDigits (Digits.value n.digits) (-(n.fraction.length : ℤ)) := by
  have hsplit : Digits.value n.digits =
      (Digits.decimal n.first * 10 ^ n.whole.length + Digits.value n.whole) * 10 ^ n.fraction.length +
        Digits.value n.fraction := by
    rw [← Digits.value_cons, ← Digits.value_append, digits, List.cons_append]
  rw [hsplit] at h
  have hwhole : Digits.decimal n.first * 10 ^ n.whole.length + Digits.value n.whole ≤ maxSignificand :=
    Nat.le_trans (Nat.le_trans (Nat.le_mul_of_pos_right _ (Nat.pow_pos (by decide))) (Nat.le_add_right _ _)) h
  simp only [number, wholeDigits_of_le n.whole_isDigit hwhole, fractionDigits_of_le n.fraction_isDigit 0 h, hsplit]
  by_cases hfraction : n.fraction = []
  · rw [if_pos hfraction, hfraction]
    simp only [List.length_nil, pow_zero, Nat.mul_one, true_and, and_true, Option.isNone_iff_eq_none]
    rfl
  · rw [if_neg hfraction, if_neg fun h => hfraction h.1]
    simp

end NumberText

/-! ### Whole numbers -/

/-- The numeral of a whole number as a number. -/
theorem exists_signedNumeral (n : ℤ) : ∃ t : NumberText,
    t.text = Decimal.signedNumeral n ∧ t.negative = decide (n < 0) ∧
    t.fraction = [] ∧ t.exponent = none ∧ Digits.value t.digits = n.natAbs := by
  obtain ⟨c, ds, hnumeral, hc, hds, hzero⟩ := Decimal.exists_numeral_cons n.natAbs
  refine ⟨⟨decide (n < 0), c, ds, [], none, hc, hds, fun h => (hzero h).1, List.forall_mem_nil _⟩, ?_, rfl, rfl, rfl, ?_⟩
  · simp [NumberText.text, NumberText.unsignedText, NumberText.tailText, NumberText.exponentText,
      Decimal.signedNumeral, hnumeral]
  · rw [NumberText.digits, List.append_nil, ← hnumeral, Decimal.value_numeral]

theorem result_number_signedNumeral {n : ℤ} (hlow : Int64.minValue.toInt ≤ n) (hhigh : n ≤ maxSignificand) :
    result number (Decimal.signedNumeral n) = some (.int n) := by
  obtain ⟨t, htext, hnegative, hfraction, hexponent, hdigits⟩ := exists_signedNumeral n
  have hmin : Int64.minValue.toInt = -9223372036854775808 := rfl
  have hmax : maxSignificand = 18446744073709551615 := rfl
  rw [← htext, (gives_number t).result, NumberText.number_of_fits (by rw [hdigits]; omega),
    if_pos ⟨hfraction, hexponent⟩, hnegative, hdigits, ofWhole]
  by_cases hn : n < 0
  · rw [decide_eq_true hn, if_pos rfl, if_neg (by omega)]
    change some (Number.int (-(n.natAbs : ℤ))) = _
    congr 2
    omega
  · rw [decide_eq_false hn, if_neg Bool.false_ne_true]
    change some (Number.int (n.natAbs : ℤ)) = _
    congr 2
    omega

theorem isValue_signedNumeral (n : ℤ) : IsValue (Decimal.signedNumeral n) := by
  obtain ⟨t, htext, -⟩ := exists_signedNumeral n
  exact htext ▸ IsValue.number t

/-! ### Whole numbers of 64 bits -/

theorem result_int64 (n : Int64) : result int64 (Decimal.signedNumeral n.toInt) = some n := by
  have hlow := Int64.le_toInt n
  have hhigh := Int64.toInt_lt n
  have hmin : Int64.minValue.toInt = -2 ^ 63 := rfl
  have hmax : Int64.maxValue.toInt = 2 ^ 63 - 1 := rfl
  have hnumber := result_number_signedNumeral (n := n.toInt) (by omega) (by change _ ≤ 18446744073709551615; omega)
  have hgives := takesValues_number.gives (isValue_signedNumeral n.toInt)
  rw [hnumber] at hgives
  rw [int64_eq, result_converted hgives, Option.bind_some, int64Of, if_pos ⟨by omega, by omega⟩]
  exact congrArg some (Int64.ofInt_toInt n)

theorem result_uint64 (n : UInt64) : result uint64 (Decimal.signedNumeral n.toNat) = some n := by
  have hlt := n.toNat_lt
  have hmin : Int64.minValue.toInt = -2 ^ 63 := rfl
  have hnumber := result_number_signedNumeral (n := n.toNat) (by omega) (by change _ ≤ 18446744073709551615; omega)
  have hgives := takesValues_number.gives (isValue_signedNumeral n.toNat)
  rw [hnumber] at hgives
  have hsize : UInt64.size = 2 ^ 64 := rfl
  rw [uint64_eq, result_converted hgives, Option.bind_some, uint64Of, if_pos ⟨by omega, by omega⟩, Int.toNat_natCast]
  exact congrArg some UInt64.ofNat_toNat

end Json

end SyntheticRows
