import Mathlib
import SyntheticRows.Proofs.Decimal.Shortest

/-!
The positional texts of floating-point numbers read back: the number nearest to the decimal of a text is the
number that was written, bit by bit.
-/

namespace SyntheticRows.Binary64

/-! ### Bit patterns -/

theorem toNat_bits (x : Binary64) : x.bits.toNat = if x.isNegative then signWeight + x.rank else x.rank := by
  have := x.bits.toNat_lt
  unfold isNegative rank signWeight
  split <;> rename_i h <;> rw [decide_eq_true_eq] at h <;> omega

theorem ofRank_rank (x : Binary64) : ofRank x.isNegative x.rank = x := by
  rw [ofRank, ← toNat_bits, UInt64.ofNat_toNat]

/-! ### Reading -/

/-- The number with a sign that is nearest to a decimal. -/
def ofDecimal (negative : Bool) (d : Decimal) : Binary64 :=
  ofRank negative
    (nearestRank (d.digits * 10 ^ d.exponent.toNat * unitsPerOne) (10 ^ (-d.exponent).toNat))

/-- The number nearest to the decimal of a positional text, which may have a sign. -/
def ofPlain : List Char → Binary64
  | '-' :: s => ofDecimal true (Decimal.ofPlain s)
  | s => ofDecimal false (Decimal.ofPlain s)

theorem ofPlain_of_ne {s : List Char} (h : s.head? ≠ some '-') : ofPlain s = ofDecimal false (Decimal.ofPlain s) := by
  unfold ofPlain
  split
  · exact absurd rfl h
  · rfl

theorem ofDecimal_eq {negative : Bool} {d : Decimal} {rank : ℕ} (hfinite : rank < infiniteRank)
    (h : RoundsTo rank (d.toRat * unitsPerOne)) : ofDecimal negative d = ofRank negative rank := by
  have hpos : 0 < 10 ^ (-d.exponent).toNat := Nat.pow_pos (by decide)
  rw [ofDecimal, nearestRank_eq hpos hfinite]
  rw [d.toRat_eq_div] at h
  convert h using 1
  push_cast
  ring

/-! ### Writing -/

theorem roundsTo_zero : RoundsTo 0 0 := by
  refine ⟨?_, ?_, fun h => absurd h (by decide)⟩
  · simp [magnitude, binade]
  · simp [magnitude, binade]

theorem exists_decimal {x : Binary64} (h : x.isFinite) : ∃ d : Decimal,
    x.plain = (if x.isNegative then ['-'] else []) ++ d.plain ∧ RoundsTo x.rank (d.toRat * unitsPerOne) ∧
      d.plain.length ≤ 2500 := by
  have hfinite : x.rank < infiniteRank := of_decide_eq_true h
  by_cases hzero : x.rank = 0
  · refine ⟨⟨0, 0⟩, ?_, ?_, by decide⟩
    · rw [plain, if_pos hzero]
      rfl
    · rw [hzero, Decimal.toRat, Nat.cast_zero, zero_mul, zero_mul]
      exact roundsTo_zero
  · have hpos := Nat.pos_of_ne_zero hzero
    refine ⟨shortest x.rank .upward, ?_, roundsTo_shortest hpos hfinite _, length_plain_shortest_le hpos hfinite _⟩
    rw [plain, if_neg hzero]

theorem plain_head_ne {d : Decimal} : d.plain.head? ≠ some '-' := by
  intro h
  rcases Decimal.mem_plain (List.mem_of_head? h) with h | h
  · exact absurd h (by decide)
  · exact absurd h (by decide)

/-- Reading the text of a finite number gives the number. -/
theorem ofPlain_plain {x : Binary64} (h : x.isFinite) : ofPlain x.plain = x := by
  obtain ⟨d, hplain, hrounds, -⟩ := exists_decimal h
  have hfinite : x.rank < infiniteRank := of_decide_eq_true h
  have hread : RoundsTo x.rank ((Decimal.ofPlain d.plain).toRat * unitsPerOne) := by
    rw [Decimal.toRat_ofPlain]
    exact hrounds
  rw [hplain]
  cases hsign : x.isNegative with
  | true =>
    calc ofDecimal true (Decimal.ofPlain d.plain) = ofRank true x.rank := ofDecimal_eq hfinite hread
      _ = x := hsign ▸ ofRank_rank x
  | false =>
    calc ofPlain d.plain = ofDecimal false (Decimal.ofPlain d.plain) := ofPlain_of_ne plain_head_ne
      _ = ofRank false x.rank := ofDecimal_eq hfinite hread
      _ = x := hsign ▸ ofRank_rank x

theorem length_plain_le {x : Binary64} (h : x.isFinite) : x.plain.length ≤ 2501 := by
  obtain ⟨d, hplain, -, hlength⟩ := exists_decimal h
  have hsign : (if x.isNegative then ['-'] else []).length ≤ 1 := by split <;> decide
  rw [hplain, List.length_append]
  omega

theorem mem_plain {x : Binary64} (h : x.isFinite) {c : Char} (hc : c ∈ x.plain) : c.isDigit ∨ c = '.' ∨ c = '-' := by
  obtain ⟨d, hplain, -, -⟩ := exists_decimal h
  rw [hplain, List.mem_append] at hc
  rcases hc with hc | hc
  · split at hc
    · exact Or.inr (Or.inr (List.mem_singleton.mp hc))
    · exact absurd hc List.not_mem_nil
  · rcases Decimal.mem_plain hc with hc | hc
    · exact Or.inl hc
    · exact Or.inr (Or.inl hc)

end SyntheticRows.Binary64
