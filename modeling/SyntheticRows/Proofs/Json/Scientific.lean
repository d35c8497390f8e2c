import Mathlib
import SyntheticRows.Proofs.Json.Numerals

/-!
Decimals as numbers. The text of a decimal with a point in every number is a number, which is read as the digits that
are printed and the place of the last of them (`printed`).
-/

namespace SyntheticRows.Json
open Number

/-- The digits that are printed for a decimal, as a number, and the place of the last of them: a zero is printed behind
    the point of a whole number that is written without an exponent. -/
def printed (d : Decimal) : ℕ × ℤ :=
  if 0 ≤ d.exponent ∧ (Decimal.numeral d.digits).length + d.exponent ≤ 16 then
    (d.digits * 10 ^ (d.exponent.toNat + 1), -1)
  else (d.digits, d.exponent)

/-- The text of a decimal is a number, which is read as its digits and their place. -/
structure Prints (negative : Bool) (d : Decimal) (t : NumberText) : Prop where
  text : t.text = (if negative then ['-'] else []) ++ d.scientific
  number : (printed d).1 ≤ maxSignificand → t.number = (ofParts negative (printed d).1 (printed d).2).map .real

theorem isDigit_of_mem_zeros {n : ℕ} {c : Char} (h : c ∈ List.replicate n '0') : c.isDigit := by
  rw [List.eq_of_mem_replicate h]
  decide

section
variable {d : Decimal} (negative : Bool)

/-- A number with a fraction and without an exponent. -/
theorem exists_prints_of_parts (c : Char) (whole fraction : List Char) (hc : c.isDigit)
    (hwhole : ∀ x ∈ whole, x.isDigit)
    (hzero : c = '0' → whole = []) (hfraction : ∀ x ∈ fraction, x.isDigit) (hne : fraction ≠ [])
    (htext : d.scientific = c :: (whole ++ '.' :: fraction))
    (hprinted : printed d = (Digits.value (c :: (whole ++ fraction)), -(fraction.length : ℤ))) :
    ∃ t, Prints negative d t := by
  refine ⟨⟨negative, c, whole, fraction, none, hc, hwhole, hzero, hfraction⟩, ?_, fun hmax => ?_⟩
  · rw [htext]
    cases negative <;> simp [NumberText.text, NumberText.unsignedText, NumberText.tailText, NumberText.exponentText,
      hne]
  · rw [hprinted] at hmax ⊢
    have hread := NumberText.number_of_fits
      (n := ⟨negative, c, whole, fraction, none, hc, hwhole, hzero, hfraction⟩) hmax
    rw [if_neg fun h => hne h.1] at hread
    exact hread

/-- A whole number that is written without an exponent. -/
theorem exists_prints_whole (hpos : 0 < d.digits) (hexponent : 0 ≤ d.exponent)
    (hpoint : (Decimal.numeral d.digits).length + d.exponent ≤ 16) : ∃ t, Prints negative d t := by
  obtain ⟨c, ds, hnumeral, hc, hds, hzero⟩ := Decimal.exists_numeral_cons d.digits
  refine exists_prints_of_parts negative c (ds ++ List.replicate d.exponent.toNat '0') ['0'] hc
    (fun x hx => (List.mem_append.mp hx).elim (hds x) isDigit_of_mem_zeros) (fun h => absurd (hzero h).2 hpos.ne')
    (List.forall_mem_singleton.mpr rfl) (List.cons_ne_nil _ _) ?_ ?_
  · rw [Decimal.scientific]
    simp only [if_pos (⟨hexponent, hpoint⟩ : 0 ≤ d.exponent ∧ _)]
    rw [Decimal.plain]
    simp only [if_pos hexponent, hnumeral]
    simp
  · have hlast : List.replicate d.exponent.toNat '0' ++ ['0'] = List.replicate (d.exponent.toNat + 1) '0' :=
      List.replicate_succ'.symm
    rw [printed, if_pos ⟨hexponent, hpoint⟩, List.append_assoc, hlast, ← List.cons_append, ← hnumeral,
      Digits.value_append, Decimal.value_numeral, Digits.value_zeros, List.length_replicate, Nat.add_zero]
    rfl

/-- A number whose point stands among its digits. -/
theorem exists_prints_inner (hpos : 0 < d.digits) (hexponent : d.exponent < 0) (hscientific : d.scientific = d.plain)
    (hplaces : (-d.exponent).toNat < (Decimal.numeral d.digits).length) : ∃ t, Prints negative d t := by
  obtain ⟨c, ds, hnumeral, hc, hds, hzero⟩ := Decimal.exists_numeral_cons d.digits
  have hprinted : printed d = (d.digits, d.exponent) := if_neg fun h => absurd h.1 (by omega)
  have hlength : (Decimal.numeral d.digits).length = ds.length + 1 := by rw [hnumeral, List.length_cons]
  obtain ⟨k, hk⟩ : ∃ k, (Decimal.numeral d.digits).length - (-d.exponent).toNat = k + 1 :=
    ⟨_, (Nat.succ_pred (by omega)).symm⟩
  refine exists_prints_of_parts negative c (ds.take k) (ds.drop k) hc
    (fun x hx => hds x (List.mem_of_mem_take hx)) (fun h => absurd (hzero h).2 hpos.ne')
    (fun x hx => hds x (List.mem_of_mem_drop hx)) ?_ ?_ ?_
  · rw [ne_eq, List.drop_eq_nil_iff]
    omega
  · rw [hscientific, Decimal.plain]
    simp only [if_neg (Int.not_le.mpr hexponent), if_pos hplaces, hk]
    rw [hnumeral]
    rfl
  · rw [hprinted, List.take_append_drop, ← hnumeral, Decimal.value_numeral, List.length_drop]
    congr 1
    omega

/-- A number below one, with zeros between the point and its digits. -/
theorem exists_prints_below_one (hexponent : d.exponent < 0) (hscientific : d.scientific = d.plain)
    (hplaces : ¬(-d.exponent).toNat < (Decimal.numeral d.digits).length) : ∃ t, Prints negative d t := by
  have hprinted : printed d = (d.digits, d.exponent) := if_neg fun h => absurd h.1 (by omega)
  have hzeros : ∀ x ∈ List.replicate ((-d.exponent).toNat - (Decimal.numeral d.digits).length) '0' ++
      Decimal.numeral d.digits,
      x.isDigit := fun x hx => (List.mem_append.mp hx).elim isDigit_of_mem_zeros Decimal.isDigit_of_mem_numeral
  have hne : List.replicate ((-d.exponent).toNat - (Decimal.numeral d.digits).length) '0' ++
      Decimal.numeral d.digits ≠ [] := by
    obtain ⟨c, ds, hnumeral, -⟩ := Decimal.exists_numeral_cons d.digits
    simp [hnumeral]
  refine exists_prints_of_parts negative '0' [] _ rfl (List.forall_mem_nil _) (fun _ => rfl) hzeros hne ?_ ?_
  · rw [hscientific, Decimal.plain]
    simp only [if_neg (Int.not_le.mpr hexponent), if_neg hplaces, List.nil_append]
  · rw [hprinted, List.nil_append, Digits.value_cons, Digits.value_append, Digits.value_zeros, Decimal.value_numeral,
      List.length_append, List.length_replicate]
    congr 1
    · simp [Digits.decimal]
    · omega

/-- A number with a fraction that is written without an exponent. -/
theorem exists_prints_fraction (hpos : 0 < d.digits) (hexponent : d.exponent < 0)
    (hpoint : -5 < (Decimal.numeral d.digits).length + d.exponent ∧
      (Decimal.numeral d.digits).length + d.exponent ≤ 16) :
    ∃ t, Prints negative d t := by
  have hscientific : d.scientific = d.plain := by
    have hnot : ¬(0 ≤ d.exponent ∧ (Decimal.numeral d.digits).length + d.exponent ≤ 16) :=
      fun h => absurd h.1 (by omega)
    rw [Decimal.scientific]
    simp only [if_neg hnot, if_pos hpoint]
  by_cases hplaces : (-d.exponent).toNat < (Decimal.numeral d.digits).length
  · exact exists_prints_inner negative hpos hexponent hscientific hplaces
  · exact exists_prints_below_one negative hexponent hscientific hplaces

/-- The exponent that is written for a value. -/
def writtenExponent (value : ℤ) : Exponent where
  letter := 'e'
  sign := if value < 0 then ['-'] else []
  digits := Decimal.numeral value.natAbs
  letter_mem := Or.inl rfl
  sign_mem := by split <;> simp
  digits_ne := Nat.toDigits_ne_nil
  isDigit _ := Decimal.isDigit_of_mem_numeral

theorem number_writtenExponent {value : ℤ} (h : value.natAbs ≤ maxExponent) (significand : ℕ) (exponent : ℤ) :
    (writtenExponent value).number negative significand exponent =
      (ofParts negative significand (exponent + value)).map .real := by
  have hdigit : ∀ c ∈ (writtenExponent value).digits, c.isDigit := (writtenExponent value).isDigit
  have htake := takeWhile_isDigit hdigit (t := []) nofun
  rw [List.append_nil] at htake
  have hvalue : Digits.value (writtenExponent value).digits = value.natAbs := Decimal.value_numeral _
  rw [Exponent.number, exponentDigits]
  simp only [htake, (writtenExponent value).digits_ne, if_false, hvalue, if_neg (Nat.not_lt.mpr h)]
  have hplace : (if ((writtenExponent value).sign == ['-']) = true then exponent - value.natAbs
      else exponent + value.natAbs) =
      exponent + value := by
    have hsign : (writtenExponent value).sign = if value < 0 then ['-'] else [] := rfl
    by_cases hneg : value < 0
    · rw [hsign, if_pos hneg, if_pos (by decide)]
      omega
    · rw [hsign, if_neg hneg, if_neg (by decide)]
      omega
  rw [hplace]
  cases ofParts negative significand (exponent + value) <;> rfl

/-- A number with an exponent. -/
theorem exists_prints_exponent (hlow : -1000000 ≤ d.exponent) (hhigh : d.exponent ≤ 1000000)
    (hlength : (Decimal.numeral d.digits).length ≤ 1000000)
    (hpoint : (Decimal.numeral d.digits).length + d.exponent ≤ -5 ∨
      16 < (Decimal.numeral d.digits).length + d.exponent) : ∃ t, Prints negative d t := by
  obtain ⟨c, ds, hnumeral, hc, hds, hzero⟩ := Decimal.exists_numeral_cons d.digits
  have hprinted : printed d = (d.digits, d.exponent) := if_neg fun h => by omega
  have hcount : (Decimal.numeral d.digits).length = ds.length + 1 := by rw [hnumeral, List.length_cons]
  generalize hvalue : (Decimal.numeral d.digits).length + d.exponent - 1 = value
  refine ⟨⟨negative, c, [], ds, some (writtenExponent value), hc, List.forall_mem_nil _, fun _ => rfl, hds⟩, ?_, fun hmax => ?_⟩
  · have hnot : ¬(0 ≤ d.exponent ∧ (Decimal.numeral d.digits).length + d.exponent ≤ 16) := fun h => by omega
    have hnot' : ¬(-5 < (Decimal.numeral d.digits).length + d.exponent ∧
        (Decimal.numeral d.digits).length + d.exponent ≤ 16) := fun h => by omega
    rw [Decimal.scientific]
    simp only [if_neg hnot, if_neg hnot', hvalue]
    rw [hnumeral]
    cases ds <;> cases negative <;>
      simp [NumberText.text, NumberText.unsignedText, NumberText.tailText, NumberText.exponentText, Exponent.text,
        writtenExponent]
  · rw [hprinted] at hmax ⊢
    have hdigits : Digits.value (c :: ([] ++ ds)) = d.digits := by
      rw [List.nil_append, ← hnumeral, Decimal.value_numeral]
    have hread := NumberText.number_of_fits
      (n := ⟨negative, c, [], ds, some (writtenExponent value), hc, List.forall_mem_nil _, fun _ => rfl, hds⟩)
      (by rw [NumberText.digits, hdigits]; exact hmax)
    rw [if_neg (by simp), NumberText.digits, hdigits] at hread
    rw [hread]
    change (writtenExponent value).number negative d.digits (-(ds.length : ℤ)) = _
    rw [number_writtenExponent negative (by rw [maxExponent]; omega)]
    congr 2
    omega

theorem exists_prints (hpos : 0 < d.digits) (hlow : -1000000 ≤ d.exponent) (hhigh : d.exponent ≤ 1000000)
    (hlength : (Decimal.numeral d.digits).length ≤ 1000000) : ∃ t, Prints negative d t := by
  by_cases hpoint : (Decimal.numeral d.digits).length + d.exponent ≤ -5 ∨
      16 < (Decimal.numeral d.digits).length + d.exponent
  · exact exists_prints_exponent negative hlow hhigh hlength hpoint
  · rw [not_or, not_le, not_lt] at hpoint
    rcases lt_or_ge d.exponent 0 with hexponent | hexponent
    · exact exists_prints_fraction negative hpos hexponent hpoint
    · exact exists_prints_whole negative hpos hexponent hpoint.2

end

end SyntheticRows.Json
