import Mathlib
import SyntheticRows.Instant.Reader
import SyntheticRows.Proofs.Decimal.Plain

/-!
Moments read back. A moment is read back from its text, whatever its year is (`parse?_text`).
-/

namespace SyntheticRows.Instant

/-! ### Padded numbers -/

theorem length_padded {width n : ℕ} (hwidth : 0 < width) (h : n < 10 ^ width) : (padded width n).length = width := by
  have hlength := Decimal.length_numeral_le hwidth h
  rw [Decimal.numeral] at hlength
  rw [padded, List.length_append, List.length_replicate]
  omega

theorem isDigit_of_mem_padded {width n : ℕ} {c : Char} (h : c ∈ padded width n) : c.isDigit := by
  rcases List.mem_append.mp h with h | h
  · rw [List.eq_of_mem_replicate h]
    decide
  · exact Decimal.isDigit_of_mem_numeral h

theorem value_padded (width n : ℕ) : Digits.value (padded width n) = n := by
  have hnumeral := Decimal.value_numeral n
  rw [Decimal.numeral] at hnumeral
  rw [padded, Digits.value_append, Digits.value_zeros, Nat.zero_mul, Nat.zero_add, hnumeral]

/-! ### Parts -/

theorem isSpace_of_isDigit {c : Char} (h : c.isDigit) : CharClass.isSpace c = false := by
  simp only [Char.isDigit, Bool.and_eq_true, decide_eq_true_eq, ge_iff_le, UInt32.le_iff_toNat_le] at h
  change 48 ≤ c.toNat ∧ c.toNat ≤ 57 at h
  have hafter : ¬c.toNat ≤ 13 ∧ ¬c.toNat ≤ 32 := by omega
  simp only [CharClass.isSpace, CharClass.space, CharClass.contains, if_neg hafter.1, if_neg hafter.2]
  rw [if_pos (by omega)]
  exact decide_eq_false (by omega)

theorem skipSpaces_of_not_isSpace {c : Char} (h : CharClass.isSpace c = false) (s : List Char) :
    skipSpaces (c :: s) = c :: s :=
  List.dropWhile_cons_of_neg (by rw [h]; exact Bool.false_ne_true)

theorem skipSpaces_of_isDigit {c : Char} (h : c.isDigit) (s : List Char) : skipSpaces (c :: s) = c :: s :=
  skipSpaces_of_not_isSpace (isSpace_of_isDigit h) s

theorem takeWhile_padded {w n : ℕ} {c : Char} (hc : c.isDigit = false) (s : List Char) :
    (padded w n ++ c :: s).takeWhile Char.isDigit = padded w n := by
  rw [List.takeWhile_append_of_pos fun d hd => isDigit_of_mem_padded hd]
  simp [hc]

/-- The digits of a number that are not more than may be read. -/
theorem number?_padded_of_le {w width n : ℕ} {c : Char} (hc : c.isDigit = false) (s : List Char)
    (hpos : 0 < (padded width n).length) (hle : (padded width n).length ≤ w) :
    number? w (padded width n ++ c :: s) = some (n, c :: s) := by
  have htake : (padded width n).take w = padded width n := List.take_of_length_le hle
  rw [number?, takeWhile_padded hc]
  simp only [htake, if_neg (List.length_pos_iff.mp hpos), value_padded]
  rw [List.drop_left]

section
variable {w n : ℕ} (hw : 0 < w) (hn : n < 10 ^ w) {c : Char} (hc : c.isDigit = false) (s : List Char)
include hw hn

theorem exists_padded_cons : ∃ d ds, padded w n = d :: ds ∧ d.isDigit := by
  obtain ⟨d, ds, hds⟩ := List.exists_cons_of_length_pos (l := padded w n) (by rw [length_padded hw hn]; exact hw)
  exact ⟨d, ds, hds, isDigit_of_mem_padded (hds ▸ List.mem_cons_self)⟩

theorem skipSpaces_padded : skipSpaces (padded w n ++ s) = padded w n ++ s := by
  obtain ⟨d, ds, hds, hd⟩ := exists_padded_cons hw hn
  rw [hds, List.cons_append, skipSpaces_of_isDigit hd]

include hc

theorem number?_padded : number? w (padded w n ++ c :: s) = some (n, c :: s) := by
  have hlength := length_padded hw hn
  exact number?_padded_of_le hc s (by omega) hlength.le

end

theorem part?_padded {n : ℕ} (hn : n < 100) {c : Char} (hc : c.isDigit = false) (s : List Char) :
    part? (padded 2 n ++ c :: s) = some (n, c :: s) := by
  rw [part?, skipSpaces_padded (by decide) hn, number?_padded (by decide) hn hc]

theorem mark?_cons {c : Char} (hc : CharClass.isSpace c = false) (s : List Char) : mark? c (c :: s) = some s := by
  rw [mark?, skipSpaces_of_not_isSpace hc]
  simp

theorem year?_padded {n : ℕ} (hn : n < 10000) {c : Char} (hc : c.isDigit = false) (s : List Char) :
    year? (padded 4 n ++ c :: s) = some ((n : ℤ), c :: s) := by
  have hnumber := number?_padded (w := 4) (by decide) hn hc s
  obtain ⟨d, ds, hds, hd⟩ := exists_padded_cons (w := 4) (by decide) hn
  rw [year?, skipSpaces_padded (by decide) hn]
  rw [hds, List.cons_append] at hnumber ⊢
  split
  · rename_i heq
    rw [(List.cons.inj heq).1] at hd
    exact absurd hd (by decide)
  · rename_i heq
    rw [(List.cons.inj heq).1] at hd
    exact absurd hd (by decide)
  · rw [hnumber]
    rfl

/-- A year is read back, in four digits or with a sign. -/
theorem year?_yearText (year : ℤ) {c : Char} (hc : c.isDigit = false) (s : List Char) :
    year? (yearText year ++ c :: s) = some (year, c :: s) := by
  have hpos : 0 < (padded 4 year.natAbs).length := by
    rw [padded, List.length_append, List.length_replicate]
    omega
  have hnumber : number? (padded 4 year.natAbs ++ c :: s).length (padded 4 year.natAbs ++ c :: s) =
      some (year.natAbs, c :: s) := by
    refine number?_padded_of_le hc s hpos ?_
    rw [List.length_append]
    exact Nat.le_add_right _ _
  rw [yearText]
  split
  · rename_i hyear
    rw [year?_padded (by omega) hc, Int.natAbs_of_nonneg hyear.1]
  · split
    · rename_i hneg
      have hyear : -(year.natAbs : ℤ) = year := by omega
      rw [List.cons_append, year?, skipSpaces_of_not_isSpace (by decide)]
      exact Option.bind_eq_some_iff.mpr ⟨_, hnumber, by dsimp only; rw [hyear]; rfl⟩
    · rename_i hneg
      have hyear : (year.natAbs : ℤ) = year := by omega
      rw [List.cons_append, year?, skipSpaces_of_not_isSpace (by decide)]
      exact Option.bind_eq_some_iff.mpr ⟨_, hnumber, by dsimp only; rw [hyear]; rfl⟩

/-- A fraction of a width that keeps it is read back. -/
theorem fraction?_padded {width n : ℕ} (hwidth : 0 < width ∧ width ≤ 9) (hn : n < 10 ^ width) :
    fraction? ('.' :: padded width n ++ ['Z']) = some (n * 10 ^ (9 - width), ['Z']) := by
  have hlength := length_padded hwidth.1 hn
  obtain ⟨d, ds, hds, -⟩ := exists_padded_cons hwidth.1 hn
  have hne : padded width n ≠ [] := hds ▸ List.cons_ne_nil d ds
  have htake : (padded width n).take 9 = padded width n := List.take_of_length_le (by omega)
  have hdigits : (padded width n ++ ['Z']).takeWhile Char.isDigit = padded width n := takeWhile_padded rfl []
  simp only [List.cons_append, fraction?, hdigits, if_neg hne, htake, value_padded, hlength, Nat.pow_eq]
  rw [List.drop_left' hlength]

theorem fraction?_text {n : ℕ} (hn : n < 1000000000) : fraction? (fractionText n ++ ['Z']) = some (n, ['Z']) := by
  rw [fractionText]
  split
  · rename_i hzero
    rw [hzero]
    rfl
  · split
    · rw [fraction?_padded (by decide) (by omega)]
      congr 2
      omega
    · split
      · rw [fraction?_padded (by decide) (by omega)]
        congr 2
        omega
      · rw [fraction?_padded (by decide) (by omega)]
        congr 2
        omega

theorem exists_fractionText_cons (n : ℕ) : ∃ c s, fractionText n ++ ['Z'] = c :: s ∧ c.isDigit = false := by
  rw [fractionText]
  split
  · exact ⟨'Z', [], rfl, rfl⟩
  · split
    · exact ⟨'.', _, rfl, rfl⟩
    · split
      · exact ⟨'.', _, rfl, rfl⟩
      · exact ⟨'.', _, rfl, rfl⟩

/-! ### Moments -/

theorem minusMinutes_zero {t : Instant} (hhour : t.hour < 24) (hminute : t.minute < 60) : t.minusMinutes 0 = t := by
  have hlow : ¬((t.hour : ℤ) * 60 + t.minute - 0 < 0) := by omega
  have hhigh : ¬(1440 ≤ (t.hour : ℤ) * 60 + t.minute - 0) := by omega
  have hday : (((t.hour : ℤ) * 60 + t.minute - 0) % 1440).toNat = t.hour * 60 + t.minute := by omega
  rw [minusMinutes]
  simp only [if_neg hlow, if_neg hhigh, hday]
  have hhours : (t.hour * 60 + t.minute) / 60 = t.hour := by omega
  have hminutes : (t.hour * 60 + t.minute) % 60 = t.minute := by omega
  rw [hhours, hminutes]

/-- A moment is read back from its text. -/
theorem parse?_text {t : Instant} (hvalid : t.isValid) : parse? t.text = some t := by
  have hparts := hvalid
  simp only [isValid, Date.isValid, Bool.and_eq_true, decide_eq_true_eq] at hparts
  obtain ⟨⟨⟨-, hmonth⟩, hday⟩, hhour, hminute, hsecond, hnanosecond⟩ := hparts
  have hdays : Date.daysInMonth t.date.year t.date.month ≤ 31 := by
    rw [Date.daysInMonth.eq_def]
    split
    · split <;> decide
    all_goals decide
  have htext : t.text = yearText t.date.year ++ '-' :: (padded 2 t.date.month ++ '-' :: (padded 2 t.date.day ++
      'T' :: (padded 2 t.hour ++ ':' :: (padded 2 t.minute ++ ':' :: (padded 2 t.second ++
        (fractionText t.nanosecond ++ ['Z'])))))) := by
    rw [text]
    simp
  obtain ⟨c, s, hfraction, hc⟩ := exists_fractionText_cons t.nanosecond
  have hsecondPart : part? (padded 2 t.second ++ (fractionText t.nanosecond ++ ['Z'])) =
      some (t.second, fractionText t.nanosecond ++ ['Z']) := by
    rw [hfraction]
    exact part?_padded (by omega) hc s
  have hdash : CharClass.isSpace '-' = false := by decide
  have hcolon : CharClass.isSpace ':' = false := by decide
  rw [parse?, htext]
  refine Option.bind_eq_some_iff.mpr ⟨_, year?_yearText _ rfl _, ?_⟩
  refine Option.bind_eq_some_iff.mpr ⟨_, mark?_cons hdash _, ?_⟩
  refine Option.bind_eq_some_iff.mpr ⟨_, part?_padded (by omega) rfl _, ?_⟩
  refine Option.bind_eq_some_iff.mpr ⟨_, mark?_cons hdash _, ?_⟩
  refine Option.bind_eq_some_iff.mpr ⟨_, part?_padded (by omega) rfl _, ?_⟩
  refine Option.bind_eq_some_iff.mpr ⟨_, part?_padded (by omega) rfl _, ?_⟩
  refine Option.bind_eq_some_iff.mpr ⟨_, mark?_cons hcolon _, ?_⟩
  refine Option.bind_eq_some_iff.mpr ⟨_, part?_padded (by omega) rfl _, ?_⟩
  refine Option.bind_eq_some_iff.mpr ⟨_, mark?_cons hcolon _, ?_⟩
  refine Option.bind_eq_some_iff.mpr ⟨_, hsecondPart, ?_⟩
  refine Option.bind_eq_some_iff.mpr ⟨_, fraction?_text hnanosecond, ?_⟩
  refine Option.bind_eq_some_iff.mpr ⟨(0, []), by decide, ?_⟩
  dsimp only
  rw [minusMinutes_zero hhour hminute, if_pos ⟨rfl, hvalid, by decide⟩, if_pos hvalid]

end SyntheticRows.Instant
