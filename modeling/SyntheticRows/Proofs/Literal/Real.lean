import SyntheticRows.Proofs.Binary64.Nearest
import SyntheticRows.Proofs.Decimal.Positional
import SyntheticRows.Proofs.Literal.Reading

/-!
Written forms of floating-point numbers. A finite number is written with a sign and the positional text of the shortest
decimal that rounds to it, the nearest one of those with as many digits (`render_real_shortest`). The other values are
written as names between quotes. Different numbers have different texts.
-/

namespace SyntheticRows
open Binary64

namespace Binary64

/-- The decimal rounds to the number, up to the sign. Of the decimals that round to it, none has fewer digits, and none of
    those with as many is nearer to it. -/
structure IsShortest (x : Binary64) (d : Decimal) : Prop where
  rounds : RoundsTo x.rank (d.toRat * unitsPerOne)
  fewest : ∀ other : Decimal, RoundsTo x.rank (other.toRat * unitsPerOne) → d.significant ≤ other.significant
  nearest : ∀ other : Decimal, RoundsTo x.rank (other.toRat * unitsPerOne) → other.significant = d.significant →
    |d.toRat - (|x.toRat|)| ≤ |other.toRat - (|x.toRat|)|

variable {x : Binary64} {d d' : Decimal}

/-- The number alone counts, not its digits and their place. -/
theorem IsShortest.congr (h : x.IsShortest d) (heq : d'.toRat = d.toRat) : x.IsShortest d' := by
  obtain ⟨hrounds, hfewest, hnearest⟩ := h
  rw [← Decimal.significant_congr heq] at hfewest hnearest
  rw [← heq] at hrounds hnearest
  exact ⟨hrounds, hfewest, hnearest⟩

/-- Distances in units. -/
theorem distance_mul (x : Binary64) (d : Decimal) :
    |d.toRat - (|x.toRat|)| * unitsPerOne = |d.toRat * unitsPerOne - magnitude x.rank| := by
  rw [← abs_toRat_mul, ← sub_mul, abs_mul, abs_of_pos unitsPerOne_pos_rat]

theorem isShortest_zero (h : x.rank = 0) : x.IsShortest ⟨0, 0⟩ := by
  have hzero : (⟨0, 0⟩ : Decimal).toRat = 0 := by rw [Decimal.toRat, Nat.cast_zero, zero_mul]
  have hnone : (⟨0, 0⟩ : Decimal).significant = 0 := by decide
  have hvalue : |x.toRat| = 0 := by
    have hmagnitude := abs_toRat_mul x
    rw [h, show magnitude 0 = 0 from rfl, Nat.cast_zero] at hmagnitude
    exact (mul_eq_zero.mp hmagnitude).resolve_right unitsPerOne_pos_rat.ne'
  refine ⟨?_, fun other _ => ?_, fun other _ _ => ?_⟩
  · rw [h, hzero, zero_mul]
    exact roundsTo_zero
  · rw [hnone]
    exact Nat.zero_le _
  · rw [hzero, hvalue, sub_zero, abs_zero]
    exact abs_nonneg _

theorem isShortest_shortest (hpos : 0 < x.rank) (hfinite : x.rank < infiniteRank) (rule : MidpointRule) :
    x.IsShortest (shortest x.rank rule) := by
  refine ⟨roundsTo_shortest hpos hfinite rule, fun other hother => significant_shortest_le hpos hfinite rule hother,
    fun other hother hsame => ?_⟩
  rw [← mul_le_mul_iff_left₀ unitsPerOne_pos_rat, distance_mul, distance_mul]
  exact shortest_nearest hpos hfinite rule hother hsame

/-- The text of a finite number is a sign, exactly where the sign bit is set, and a positional text of its shortest
    decimal. -/
theorem exists_isShortest_plain (h : x.isFinite) : ∃ text,
    x.plain = (if x.isNegative then ['-'] else []) ++ text ∧ Decimal.IsPositional text ∧
      x.IsShortest (Decimal.ofPlain text) := by
  have hfinite : x.rank < infiniteRank := of_decide_eq_true h
  refine ⟨_, rfl, ?_⟩
  split
  · rename_i hzero
    exact ⟨.whole (.inl rfl), isShortest_zero hzero⟩
  · rename_i hzero
    have hpos := Nat.pos_of_ne_zero hzero
    exact ⟨Decimal.isPositional_plain (digits_shortest_pos hpos hfinite _) (shortest_mod_ten hpos hfinite _),
      (isShortest_shortest hpos hfinite _).congr (Decimal.toRat_ofPlain _)⟩

end Binary64

namespace Literal

variable {x y : Binary64}

/-! ### Finite numbers -/

theorem render_real_of_isFinite (h : x.isFinite) : render (.real x) = x.plain := by
  have hrank : x.rank < infiniteRank := of_decide_eq_true h
  have hnan : x.isNaN = false := decide_eq_false hrank.not_gt
  have hinfinite : x.isInfinite = false := beq_false_of_ne hrank.ne
  rw [render, hnan, hinfinite, if_neg Bool.false_ne_true, if_neg Bool.false_ne_true]

theorem quote_not_mem_real (h : x.isFinite) : '\'' ∉ render (.real x) := by
  rw [render_real_of_isFinite h]
  intro hquote
  rcases Binary64.mem_plain h hquote with hdigit | hpoint | hsign
  · exact absurd hdigit (by decide)
  · exact absurd hpoint (by decide)
  · exact absurd hsign (by decide)

theorem quote_mem_real (h : ¬x.isFinite) : '\'' ∈ render (.real x) := by
  have hquoted (text : List Char) : '\'' ∈ quoted text := List.mem_cons_self
  rw [render]
  split
  · exact hquoted _
  · split
    · exact hquoted _
    · rename_i hnan hinfinite
      exact absurd (isFinite_of_not hnan hinfinite) h

/-! ### Equal texts -/

theorem render_real_eq_iff : render (.real x) = render (.real y) ↔ x = y ∨ x.isNaN ∧ y.isNaN := by
  rw [← canonical_eq_iff]
  constructor
  · intro h
    rw [← readReal_render, h, readReal_render]
  · intro h
    rw [← render_canonical, h, render_canonical]

theorem render_real_eq_nan_iff : render (.real x) = quoted "NaN".toList ↔ x.isNaN := by
  have hnan : render (.real nan) = quoted "NaN".toList := by decide
  rw [← hnan, render_real_eq_iff, and_iff_left isNaN_nan]
  exact or_iff_right_of_imp fun h => h ▸ isNaN_nan

theorem render_real_eq_infinity_iff (negative : Bool) :
    render (.real x) = quoted (if negative then "-Infinity".toList else "Infinity".toList) ↔
      x = ofRank negative infiniteRank := by
  have hinfinity : render (.real (ofRank negative infiniteRank)) =
      quoted (if negative then "-Infinity".toList else "Infinity".toList) := by
    cases negative <;> decide
  have hnan : ¬(ofRank negative infiniteRank).isNaN := by
    cases negative <;> decide
  rw [← hinfinity, render_real_eq_iff]
  exact or_iff_left fun h => hnan h.2

/-- The names of the values that are not finite. -/
def names : List (List Char) :=
  ["'NaN'".toList, "'Infinity'".toList, "'-Infinity'".toList]

theorem render_real_mem_names_iff : render (.real x) ∈ names ↔ ¬x.isFinite := by
  constructor
  · intro hname hfinite
    have hquote : ∀ name ∈ names, '\'' ∈ name := by decide
    exact quote_not_mem_real hfinite (hquote _ hname)
  · intro hinfinite
    by_cases hnan : x.isNaN
    · rw [render_real_eq_nan_iff.mpr hnan]
      decide
    · have hsigned := eq_of_isInfinite (by_contra fun h => hinfinite (isFinite_of_not hnan h))
      rw [(render_real_eq_infinity_iff _).mpr hsigned]
      cases x.isNegative with
      | true => decide
      | false => decide

/-- A floating-point number is written as a name between quotes if it is no number or infinite. A finite number is
    written without an exponent, with a minus sign exactly where the sign bit is set, in a text whose value rounds to the
    number; no decimal that rounds to the number has fewer digits, and none that rounds to it and has as many is nearer
    to it. Equal texts mean equal numbers, bit by bit, unless both are none. -/
theorem render_real_shortest (x : Binary64) :
    (render (.real x) ∈ names ↔ ¬x.isFinite) ∧
    (render (.real x) = "'NaN'".toList ↔ x.isNaN) ∧
    (render (.real x) = "'Infinity'".toList ↔ x = ofRank false infiniteRank) ∧
    (render (.real x) = "'-Infinity'".toList ↔ x = ofRank true infiniteRank) ∧
    (x.isFinite ↔ ∃ text, render (.real x) = (if x.isNegative then ['-'] else []) ++ text ∧
      Decimal.IsPositional text ∧ x.IsShortest (Decimal.ofPlain text)) ∧
    ∀ y, render (.real x) = render (.real y) ↔ x = y ∨ x.isNaN ∧ y.isNaN := by
  refine ⟨render_real_mem_names_iff, render_real_eq_nan_iff, render_real_eq_infinity_iff false,
    render_real_eq_infinity_iff true, ?_, fun y => render_real_eq_iff⟩
  constructor
  · intro h
    rw [render_real_of_isFinite h]
    exact exists_isShortest_plain h
  · rintro ⟨text, htext, hpositional, -⟩
    by_contra hinfinite
    have hquote : '\'' ∈ (if x.isNegative then ['-'] else []) ++ text := htext ▸ quote_mem_real hinfinite
    rcases List.mem_append.mp hquote with hsign | htext
    · split at hsign
      · exact absurd hsign (by decide)
      · exact absurd hsign List.not_mem_nil
    · rcases hpositional.isDigit_or htext with hdigit | hpoint
      · exact absurd hdigit (by decide)
      · exact absurd hpoint (by decide)

/-- Of all decimals with as many digits, the one that 2^89 is written as is not the nearest: below a power of two the
    numbers are closer to each other than above it, and the nearest decimal of 16 digits rounds to the number before. -/
theorem render_real_not_nearest :
    let x : Binary64 := ⟨0x4580000000000000⟩
    let written := Decimal.ofPlain (render (.real x))
    let other : Decimal := ⟨6189700196426901, 11⟩
    x.isFinite ∧ render (.real x) = "618970019642690200000000000".toList ∧
      other.significant = written.significant ∧ |other.toRat - x.toRat| < |written.toRat - x.toRat| ∧
      ¬RoundsTo x.rank (other.toRat * unitsPerOne) := by
  intro x written other
  have htext : render (.real x) = "618970019642690200000000000".toList := by decide +kernel
  have hwritten : written = ⟨618970019642690200000000000, 0⟩ := by
    rw [show written = Decimal.ofPlain _ from rfl, htext]
    decide +kernel
  have hx : x.toRat = 2 ^ 89 := by
    have hunits : x.units = 2 ^ 89 * unitsPerOne := by decide +kernel
    rw [toRat, hunits]
    push_cast
    exact mul_div_cancel_right₀ _ unitsPerOne_pos_rat.ne'
  have hother : other.toRat = 618970019642690100000000000 := by
    rw [Decimal.toRat]
    norm_num [other]
  have hvalue : written.toRat = 618970019642690200000000000 := by
    rw [hwritten, Decimal.toRat]
    norm_num
  refine ⟨by decide, htext, ?_, ?_, ?_⟩
  · rw [hwritten]
    decide +kernel
  · rw [hx, hother, hvalue]
    norm_num [abs_lt, lt_abs]
  · rw [← RoundingInterval.contains_iff]
    decide +kernel

end Literal

end SyntheticRows
