import Mathlib
import SyntheticRows.Decimal
import SyntheticRows.Digits

/-!
Numerals and positional texts read back. The number of a decimal can be read from its positional text
(`ofPlain`), and the text is not much longer than the digits and the places of the decimal.
-/

namespace SyntheticRows

/-! ### Runs of digits -/

namespace Digits

theorem value_eq_ofDigitChars (s : List Char) : value s = Nat.ofDigitChars 10 s 0 := by
  unfold value Nat.ofDigitChars
  simp only [Nat.mul_comm _ 10]
  rfl

theorem value_append (s t : List Char) : value (s ++ t) = value s * 10 ^ t.length + value t := by
  simp only [value_eq_ofDigitChars, Nat.ofDigitChars_append]
  rw [Nat.ofDigitChars_eq_ofDigitChars_zero, Nat.mul_comm]

theorem value_cons (c : Char) (ds : List Char) : value (c :: ds) = decimal c * 10 ^ ds.length + value ds := by
  rw [← List.singleton_append, value_append, value, List.foldl_cons, List.foldl_nil, Nat.zero_mul, Nat.zero_add]

theorem shift_add_value_cons (v : ℕ) (c : Char) (ds : List Char) :
    v * 10 ^ (c :: ds).length + value (c :: ds) = (v * 10 + decimal c) * 10 ^ ds.length + value ds := by
  rw [value_cons, List.length_cons, pow_succ]
  ring

theorem le_shift_add_value (v : ℕ) (ds : List Char) : v ≤ v * 10 ^ ds.length + value ds :=
  Nat.le_trans (Nat.le_mul_of_pos_right v (Nat.pow_pos (by decide))) (Nat.le_add_right _ _)

theorem value_zeros (n : ℕ) : value (List.replicate n '0') = 0 := by
  rw [value_eq_ofDigitChars, Nat.ofDigitChars_replicate_zero, Nat.mul_zero]

end Digits

namespace Decimal

/-! ### Numerals -/

theorem value_numeral (n : ℕ) : Digits.value (numeral n) = n := by
  rw [Digits.value_eq_ofDigitChars]
  exact Nat.ofDigitChars_ten_toDigits

theorem isDigit_of_mem_numeral {n : ℕ} {c : Char} (h : c ∈ numeral n) : c.isDigit :=
  Nat.isDigit_of_mem_toDigits (by decide) (by decide) h

theorem length_numeral_le {n k : ℕ} (hk : 0 < k) (h : n < 10 ^ k) : (numeral n).length ≤ k :=
  (Nat.length_toDigits_le_iff (by decide) hk).mpr h

/-- A numeral begins with a zero only if it is the numeral of zero. -/
theorem exists_numeral_cons (n : ℕ) :
    ∃ c ds, numeral n = c :: ds ∧ c.isDigit ∧ (∀ d ∈ ds, d.isDigit) ∧ (c = '0' → ds = [] ∧ n = 0) := by
  obtain ⟨c, ds, hds⟩ := List.exists_cons_of_ne_nil (Nat.toDigits_ne_nil (n := n) (b := 10))
  have hdigit : ∀ d ∈ c :: ds, d.isDigit := fun d hd => isDigit_of_mem_numeral (n := n) (by rwa [numeral, hds])
  obtain ⟨hc, hrest⟩ := List.forall_mem_cons.mp hdigit
  refine ⟨c, ds, hds, hc, hrest, ?_⟩
  induction n using Nat.strong_induction_on generalizing c ds with
  | h n ih =>
    rintro rfl
    rcases Nat.lt_or_ge n 10 with hlt | hge
    · rw [Nat.toDigits_of_lt_base hlt] at hds
      obtain ⟨hzero, hnil⟩ := List.cons.inj hds
      exact ⟨hnil.symm, Nat.digitChar_eq_zero.mp hzero⟩
    · obtain ⟨d, es, hes⟩ := List.exists_cons_of_ne_nil (Nat.toDigits_ne_nil (n := n / 10) (b := 10))
      rw [Nat.toDigits_of_base_le (by decide) hge, hes, List.cons_append] at hds
      obtain ⟨rfl, rfl⟩ := List.cons.inj hds
      have hall : ∀ c ∈ '0' :: es, c.isDigit := fun c hc => isDigit_of_mem_numeral (n := n / 10) (by rwa [numeral, hes])
      obtain ⟨-, hquotient⟩ :=
        ih (n / 10) (by omega) '0' es hes hall (by decide) (List.forall_mem_cons.mp hall).2 rfl
      omega

/-! ### Positional texts -/

def toRat (d : Decimal) : ℚ :=
  d.digits * 10 ^ d.exponent

/-- The decimal of a positional text: all of its digits, and as many places as follow the point. -/
def ofPlain (s : List Char) : Decimal :=
  let fraction := (s.dropWhile (· != '.')).tail
  ⟨Digits.value (s.takeWhile (· != '.') ++ fraction), -(fraction.length : ℤ)⟩

theorem ofPlain_whole {s : List Char} (h : ∀ c ∈ s, c != '.') : ofPlain s = ⟨Digits.value s, 0⟩ := by
  rw [ofPlain, List.takeWhile_eq_self_iff.mpr h, List.dropWhile_eq_nil_iff.mpr h]
  simp

theorem ofPlain_point {s t : List Char} (h : ∀ c ∈ s, c != '.') :
    ofPlain (s ++ '.' :: t) = ⟨Digits.value (s ++ t), -(t.length : ℤ)⟩ := by
  rw [ofPlain, List.takeWhile_append_of_pos h, List.dropWhile_append_of_pos h]
  simp

theorem ne_point_of_isDigit {c : Char} (h : c.isDigit) : (c != '.') = true := by
  rw [bne_iff_ne]
  rintro rfl
  exact absurd h (by decide)

/-- A positional text holds the digits with zeros behind them, or zeros, the digits and a point before as
    many places as the decimal has. -/
theorem plain_eq (d : Decimal) :
    (∃ e : ℕ, d.exponent = e ∧ d.plain = numeral d.digits ++ List.replicate e '0') ∨
    ∃ n s t, d.exponent = -((t : List Char).length : ℤ) ∧ d.plain = s ++ '.' :: t ∧
      s ++ t = List.replicate n '0' ++ numeral d.digits ∧ n ≤ t.length + 1 := by
  unfold plain
  dsimp only
  split
  · exact Or.inl ⟨d.exponent.toNat, by omega, rfl⟩
  · refine Or.inr ?_
    split
    · refine ⟨0, _, _, ?_, rfl, List.take_append_drop _ _, Nat.zero_le _⟩
      rw [List.length_drop]
      omega
    · refine ⟨(-d.exponent).toNat - (numeral d.digits).length + 1, ['0'], _, ?_, rfl, rfl, ?_⟩
      · rw [List.length_append, List.length_replicate]
        omega
      · rw [List.length_append, List.length_replicate]
        omega

theorem mem_plain {d : Decimal} {c : Char} (h : c ∈ d.plain) : c.isDigit ∨ c = '.' := by
  have hzero : ∀ n, c ∈ List.replicate n '0' ++ numeral d.digits → c.isDigit := fun n hc => by
    rcases List.mem_append.mp hc with hc | hc
    · rw [List.eq_of_mem_replicate hc]
      decide
    · exact isDigit_of_mem_numeral hc
  rcases plain_eq d with ⟨e, -, hp⟩ | ⟨n, s, t, -, hp, hst, -⟩
  · rw [hp, List.mem_append] at h
    exact Or.inl (hzero e (List.mem_append.mpr h.symm))
  · rw [hp, List.mem_append, List.mem_cons] at h
    rcases h with h | h | h
    · exact Or.inl (hzero n (hst ▸ List.mem_append_left t h))
    · exact Or.inr h
    · exact Or.inl (hzero n (hst ▸ List.mem_append_right s h))

/-- A positional text gives the number back for which it stands. -/
theorem toRat_ofPlain (d : Decimal) : (ofPlain d.plain).toRat = d.toRat := by
  have hdigit : ∀ n, ∀ c ∈ List.replicate n '0' ++ numeral d.digits, (c != '.') = true := fun n c hc => by
    rcases List.mem_append.mp hc with hc | hc
    · rw [List.eq_of_mem_replicate hc]
      decide
    · exact ne_point_of_isDigit (isDigit_of_mem_numeral hc)
  rcases plain_eq d with ⟨e, he, hp⟩ | ⟨n, s, t, he, hp, hst, -⟩
  · have hall : ∀ c ∈ numeral d.digits ++ List.replicate e '0', (c != '.') = true := fun c hc =>
      hdigit e c (List.mem_append.mpr (List.mem_append.mp hc).symm)
    rw [hp, ofPlain_whole hall, toRat, toRat, Digits.value_append, value_numeral, Digits.value_zeros,
      List.length_replicate, he]
    simp
  · have hs : ∀ c ∈ s, (c != '.') = true := fun c hc => hdigit n c (hst ▸ List.mem_append_left t hc)
    rw [hp, ofPlain_point hs, toRat, toRat, hst, Digits.value_append, value_numeral, Digits.value_zeros, he,
      Nat.zero_mul, Nat.zero_add]

theorem length_plain_le (d : Decimal) : d.plain.length ≤ (numeral d.digits).length + d.exponent.natAbs + 2 := by
  rcases plain_eq d with ⟨e, he, hp⟩ | ⟨n, s, t, he, hp, hst, hn⟩
  · rw [hp, List.length_append, List.length_replicate]
    omega
  · have hlen := congrArg List.length hst
    rw [List.length_append, List.length_append, List.length_replicate] at hlen
    rw [hp, List.length_append, List.length_cons]
    omega

end Decimal
end SyntheticRows
