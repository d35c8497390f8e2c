import SyntheticRows.Numeral
import SyntheticRows.Proofs.Decimal.Plain

/-!
Which texts are read as numbers. Reading succeeds just on digits that stand for a number of 64 bits, with or without a
plus sign before them (`parse_eq_ok_iff`). The shortest text of each number is among them.
-/

namespace SyntheticRows.Numeral

theorem digits_eq_ok_iff {ds : List Char} {v n : ℕ} (hv : v ≤ max) :
    digits v ds = .ok n ↔ (∀ c ∈ ds, c.isDigit) ∧ v * 10 ^ ds.length + Digits.value ds = n ∧ n ≤ max := by
  induction ds generalizing v with
  | nil =>
    have hvalue : v * 10 ^ ([] : List Char).length + Digits.value [] = v := by simp [Digits.value]
    rw [hvalue, digits, Except.ok.injEq]
    exact ⟨fun h => ⟨fun _ hc => absurd hc List.not_mem_nil, h, h ▸ hv⟩, fun h => h.2.1⟩
  | cons c ds ih =>
    rw [Digits.shift_add_value_cons, List.forall_mem_cons]
    simp only [digits]
    split
    · rename_i hc
      exact iff_of_false (fun h => by cases h) fun h => by simp [h.1.1] at hc
    · rename_i hc
      have hc : c.isDigit := by simpa using hc
      split
      · -- The digits to come only add to a number that is too much already.
        rename_i hmore
        refine iff_of_false (fun h => by cases h) ?_
        rintro ⟨-, hn, hmax⟩
        exact absurd (hn ▸ Digits.le_shift_add_value _ ds) (Nat.not_le.mpr (Nat.lt_of_le_of_lt hmax hmore))
      · rename_i hone
        rw [ih (Nat.not_lt.mp hone)]
        exact and_congr_left fun _ => (and_iff_right hc).symm

/-- A text that stands for a number: decimal digits, with or without a plus sign before them. -/
def Denotes (s : String) (n : UInt64) : Prop :=
  ∃ ds : List Char, (s.toList = ds ∨ s.toList = '+' :: ds) ∧ ds ≠ [] ∧ (∀ c ∈ ds, c.isDigit) ∧
    Digits.value ds = n.toNat

theorem ofChars_of_ne_plus {c : Char} (hc : c ≠ '+') (ds : List Char) : ofChars (c :: ds) = digits 0 (c :: ds) := by
  rw [ofChars]
  · exact List.cons_ne_nil c ds
  · exact fun h => hc (List.cons.inj h).1
  · exact fun rest h => hc (List.cons.inj h).1

theorem ofChars_eq_digits {s ds : List Char} (hs : s = ds ∨ s = '+' :: ds) (hne : ds ≠ [])
    (hds : ∀ c ∈ ds, c.isDigit) : ofChars s = digits 0 ds := by
  obtain ⟨c, rest, rfl⟩ := List.exists_cons_of_ne_nil hne
  rcases hs with rfl | rfl
  · refine ofChars_of_ne_plus ?_ rest
    rintro rfl
    exact absurd (hds '+' List.mem_cons_self) (by decide)
  · rfl

theorem exists_digits_of_ofChars {s : List Char} {n : ℕ} (h : ofChars s = .ok n) :
    ∃ ds, (s = ds ∨ s = '+' :: ds) ∧ ds ≠ [] ∧ digits 0 ds = .ok n := by
  cases s with
  | nil => cases h
  | cons c rest =>
    by_cases hc : c = '+'
    · subst hc
      cases rest with
      | nil => cases h
      | cons d rest => exact ⟨d :: rest, Or.inr rfl, List.cons_ne_nil d rest, h⟩
    · exact ⟨c :: rest, Or.inl rfl, List.cons_ne_nil c rest, ofChars_of_ne_plus hc rest ▸ h⟩

theorem parse_eq_ok_iff {s : String} {n : UInt64} : parse s = .ok n ↔ Denotes s n := by
  constructor
  · intro h
    cases hread : ofChars s.toList with
    | error fault => rw [parse, hread] at h; cases h
    | ok v =>
      obtain rfl : UInt64.ofNat v = n := by
        rw [parse, hread] at h
        exact Except.ok.inj h
      obtain ⟨ds, hs, hne, hdigits⟩ := exists_digits_of_ofChars hread
      obtain ⟨hds, hv, hmax⟩ := (digits_eq_ok_iff (Nat.zero_le max)).mp hdigits
      rw [Nat.zero_mul, Nat.zero_add] at hv
      refine ⟨ds, hs, hne, hds, hv.trans ?_⟩
      exact (UInt64.toNat_ofNat_of_lt' (Nat.lt_of_le_pred (by decide) hmax)).symm
  · rintro ⟨ds, hs, hne, hds, hvalue⟩
    have hread : digits 0 ds = .ok n.toNat := by
      refine (digits_eq_ok_iff (Nat.zero_le max)).mpr ⟨hds, ?_, Nat.le_sub_one_of_lt n.toNat_lt⟩
      rw [Nat.zero_mul, Nat.zero_add, hvalue]
    rw [parse, ofChars_eq_digits hs hne hds, hread]
    exact congrArg Except.ok (UInt64.ofNat_toNat)

theorem denotes_numeral (n : UInt64) : Denotes (String.ofList (Decimal.numeral n.toNat)) n := by
  obtain ⟨c, ds, hnumeral, -⟩ := Decimal.exists_numeral_cons n.toNat
  refine ⟨Decimal.numeral n.toNat, Or.inl String.toList_ofList, ?_, fun c => Decimal.isDigit_of_mem_numeral,
    Decimal.value_numeral n.toNat⟩
  rw [hnumeral]
  exact List.cons_ne_nil c ds

theorem parse_numeral (n : UInt64) : parse (String.ofList (Decimal.numeral n.toNat)) = .ok n :=
  parse_eq_ok_iff.mpr (denotes_numeral n)

end SyntheticRows.Numeral
