import SyntheticRows.Proofs.Json.FarScaling
import SyntheticRows.Proofs.Json.Layout

/-!
Real numbers read back from their texts. The significand of a shortest decimal has up to 64 bits and its power of ten
is rounded, so what comes back need not be the number that was written. It is a finite number of the
same sign, at most two numbers away, and the number itself if its decimal is short enough for exact factors
(`exists_reread`).
-/

namespace SyntheticRows.Json
open Binary64 Number

/-! ### All exponents -/

/-- A whole number is not scaled up by more than 308 digits. -/
theorem le_of_roundsTo {n rank k : ℕ} (hn : 0 < n) (hrank : rank < infiniteRank)
    (h : RoundsTo rank (n * 10 ^ k * unitsPerOne)) : k ≤ 308 := by
  have hupper : 2 * (n * 10 ^ k * unitsPerOne) ≤ magnitude rank + magnitude (rank + 1) := by exact_mod_cast h.upper
  have hself : magnitude rank ≤ magnitude infiniteRank := magnitude_strictMono.monotone hrank.le
  have hnext : magnitude (rank + 1) ≤ magnitude infiniteRank := magnitude_strictMono.monotone hrank
  have htop : magnitude infiniteRank < 10 ^ 309 * unitsPerOne := by
    rw [← Nat.pow_eq]
    decide +kernel
  have hone : 10 ^ k * unitsPerOne ≤ n * 10 ^ k * unitsPerOne :=
    Nat.mul_le_mul_right _ (Nat.le_mul_of_pos_left _ hn)
  by_contra hlarge
  have hpower : 10 ^ 309 * unitsPerOne ≤ 10 ^ k * unitsPerOne :=
    Nat.mul_le_mul_right _ (Nat.pow_le_pow_right (by decide) (Nat.not_le.mp hlarge))
  generalize 10 ^ 309 * unitsPerOne = top at htop hpower
  omega

/-- The result of scaling a significand is near to the number that the decimal rounds to. -/
theorem scale_near {n rank : ℕ} {e : ℤ} (hn : 0 < n) (hmax : n < 2 ^ 64) (hlow : -330 ≤ e)
    (hrank : rank + 2 < infiniteRank)
    (h : RoundsTo rank (n * 10 ^ e * unitsPerOne)) : ScalesNear n e rank := by
  have hsmall : n ≤ 10 ^ 308 := le_ten_pow_308 hmax.le
  obtain ⟨k, rfl⟩ | ⟨k, hpos, rfl⟩ := natCast_or_neg_natCast e
  · rw [zpow_natCast] at h
    exact scale_up hn hsmall (le_of_roundsTo hn (by omega) h) hrank h
  · rw [zpow_neg, zpow_natCast, ← div_eq_mul_inv] at h
    rcases Nat.lt_or_ge 308 k with hfar | hnear
    · obtain ⟨j, rfl⟩ := Nat.exists_eq_add_of_lt hfar
      exact scale_far (j := j + 1) hn hmax (Nat.succ_pos j) (by omega) hrank h
    · exact scale_down hn hsmall hpos hnear hrank h

/-! ### Digits that are printed -/

theorem printed_value (d : Decimal) : ((printed d).1 : ℚ) * 10 ^ (printed d).2 = d.toRat := by
  rw [printed]
  split
  · rename_i h
    obtain ⟨k, hk⟩ := Int.eq_ofNat_of_zero_le h.1
    rw [Decimal.toRat, hk, Int.toNat_natCast, zpow_natCast, zpow_neg_one]
    push_cast
    rw [pow_succ]
    ring
  · rfl

theorem printed_pos {d : Decimal} (h : 0 < d.digits) : 0 < (printed d).1 := by
  rw [printed]
  split
  · exact Nat.mul_pos h (Nat.pow_pos (by decide))
  · exact h

theorem printed_le {d : Decimal} (h : d.digits ≤ maxSignificand) : (printed d).1 ≤ maxSignificand := by
  rw [printed]
  split
  · rename_i hpoint
    have hdigits : d.digits < 10 ^ (Decimal.numeral d.digits).length :=
      (Nat.length_toDigits_le_iff (by decide) Nat.length_toDigits_pos).mp le_rfl
    calc d.digits * 10 ^ (d.exponent.toNat + 1)
        ≤ 10 ^ (Decimal.numeral d.digits).length * 10 ^ (d.exponent.toNat + 1) := Nat.mul_le_mul_right _ hdigits.le
      _ = 10 ^ ((Decimal.numeral d.digits).length + (d.exponent.toNat + 1)) := (pow_add _ _ _).symm
      _ ≤ 10 ^ 17 := Nat.pow_le_pow_right (by decide) (by omega)
      _ ≤ maxSignificand := by decide
  · exact h

theorem le_printed_exponent {d : Decimal} {e : ℤ} (h : e ≤ d.exponent) (he : e ≤ -1) : e ≤ (printed d).2 := by
  rw [printed]
  split
  · exact he
  · exact h

/-! ### Numbers near to the written one -/

/-- The digits that are printed for a finite number and the place of the last of them. -/
def shown (x : Binary64) : ℕ × ℤ :=
  printed (shortest x.rank .even)

/-- What is read back for a number: a finite number of the same sign that is at most two numbers away. It is the number
    itself if it is a zero, or if the printed digits have 53 bits and are moved by 22 places at most. -/
structure Reread (x y : Binary64) : Prop where
  finite : y.isFinite
  sign : y.isNegative = x.isNegative
  above : y.rank ≤ x.rank + 2
  below : x.rank ≤ y.rank + 2
  exact : x.rank = 0 ∨ (shown x).1 ≤ 2 ^ 53 ∧ (shown x).2.natAbs ≤ 22 → y = x

theorem reread_ofRank {x : Binary64} {other : ℕ} (hother : other < infiniteRank) (habove : other ≤ x.rank + 2)
    (hbelow : x.rank ≤ other + 2)
    (hexact : x.rank = 0 ∨ (shown x).1 ≤ 2 ^ 53 ∧ (shown x).2.natAbs ≤ 22 → other = x.rank) :
    Reread x (ofRank x.isNegative other) where
  finite := by
    rw [isFinite, rank_ofRank (hother.trans infiniteRank_lt)]
    exact decide_eq_true hother
  sign := isNegative_ofRank (hother.trans infiniteRank_lt) _
  above := by rwa [rank_ofRank (hother.trans infiniteRank_lt)]
  below := by rwa [rank_ofRank (hother.trans infiniteRank_lt)]
  exact h := by rw [hexact h, ofRank_rank]

theorem signed_ofRank {other : ℕ} (h : other < infiniteRank) (negative : Bool) :
    signed negative (ofRank false other) = ofRank negative other := by
  cases negative with
  | false => rfl
  | true =>
    rw [signed, if_pos rfl, neg, isNegative_ofRank (h.trans infiniteRank_lt), rank_ofRank (h.trans infiniteRank_lt)]
    rfl

/-! ### The two largest numbers -/

theorem shortest_last : shortest (infiniteRank - 1) .even = ⟨17976931348623157, 292⟩ := by
  decide +kernel

theorem shortest_last_but_one : shortest (infiniteRank - 2) .even = ⟨17976931348623155, 292⟩ := by
  decide +kernel

/-- The largest number is read back without an error. -/
theorem scalesNear_last : ScalesNear 17976931348623157 292 (infiniteRank - 1) :=
  ⟨infiniteRank - 1, by decide, scale_natCast (by decide) (by decide +kernel) (by decide), by decide, by decide⟩

/-- The number before it is read back as the largest one. -/
theorem scalesNear_last_but_one : ScalesNear 17976931348623155 292 (infiniteRank - 2) :=
  ⟨infiniteRank - 1, by decide, scale_natCast (by decide) (by decide +kernel) (by decide), by decide, by decide⟩

/-! ### Numbers read back -/

theorem scalesNear_shown {x : Binary64} (hfinite : x.rank < infiniteRank) (hpos : 0 < x.rank) :
    ScalesNear (shown x).1 (shown x).2 x.rank := by
  have hdigits := digits_shortest_le hpos hfinite .even
  have hexponent := (exponent_shortest_mem hpos hfinite .even).1
  have hshown : (shown x).1 < 2 ^ 64 := Nat.lt_succ_of_le (printed_le (Nat.le_trans hdigits (by decide)))
  have hrounds : RoundsTo x.rank ((shown x).1 * 10 ^ (shown x).2 * unitsPerOne) := by
    rw [shown, printed_value]
    exact roundsTo_shortest hpos hfinite .even
  rcases Nat.lt_or_ge (x.rank + 2) infiniteRank with hinside | hlast
  · exact scale_near (printed_pos (digits_shortest_pos hpos hfinite .even)) hshown
      (le_printed_exponent (by omega) (by decide)) hinside hrounds
  · have hprinted (d : ℕ) (hd : 16 < (Decimal.numeral d).length) : printed ⟨d, 292⟩ = (d, 292) := by
      exact if_neg fun h => by have : (Decimal.numeral d).length + (292 : ℤ) ≤ 16 := h.2; omega
    obtain hrank | hrank : x.rank = infiniteRank - 1 ∨ x.rank = infiniteRank - 2 := by omega
    · rw [shown, hrank, shortest_last, hprinted _ (by decide)]
      exact scalesNear_last
    · rw [shown, hrank, shortest_last_but_one, hprinted _ (by decide)]
      exact scalesNear_last_but_one

theorem result_realText {x : Binary64} {t : NumberText} {n other : ℕ} {e : ℤ} (htext : t.text = realText x)
    (hnumber : t.number = (ofParts x.isNegative n e).map .real) (hfinite : other < infiniteRank)
    (hscale : scale (ofInt n) e = .ok (ofRank false other)) :
    result real64 (realText x) = some (ofRank x.isNegative other) := by
  have hparts : ofParts x.isNegative n e = .ok (ofRank x.isNegative other) := by
    rw [ofParts, hscale]
    exact congrArg Except.ok (signed_ofRank hfinite _)
  rw [hparts] at hnumber
  rw [← htext, real64_eq, result_converted (gives_number t), hnumber]
  rfl

theorem realText_of_isFinite {x : Binary64} (h : x.isFinite) : realText x =
    (if x.isNegative then ['-'] else []) ++
      if x.rank = 0 then "0.0".toList else (shortest x.rank .even).scientific := by
  rw [realText, h]
  rfl

theorem result_realText_zero {x : Binary64} (hzero : x.rank = 0) :
    result real64 (realText x) = some x := by
  let t : NumberText := ⟨x.isNegative, '0', [], ['0'], none, rfl, List.forall_mem_nil _, fun _ => rfl,
    List.forall_mem_singleton.mpr rfl⟩
  have htext : t.text = realText x := by
    have hfinite : x.isFinite := by rw [isFinite, hzero]; decide
    rw [realText_of_isFinite hfinite, if_pos hzero]
    simp only [t, NumberText.text]
    cases x.isNegative <;> rfl
  have hscale : scale (ofInt 0) (-1) = .ok (ofRank false 0) :=
    scale_exact (n := 0) (Nat.zero_le _) (by decide) (by decide)
      (by rw [Nat.cast_zero, zero_mul, zero_mul]; exact roundsTo_zero)
  have hnumber : t.number = (ofParts x.isNegative 0 (-1)).map .real :=
    NumberText.number_of_fits (n := t) (Nat.zero_le _)
  rw [result_realText htext hnumber (by decide) hscale, ← hzero, ofRank_rank]

/-- Every finite number is read back from its text, as a number near to it. -/
theorem exists_reread {x : Binary64} (h : x.isFinite) : ∃ y, result real64 (realText x) = some y ∧ Reread x y := by
  have hfinite : x.rank < infiniteRank := of_decide_eq_true h
  rcases Nat.eq_zero_or_pos x.rank with hzero | hpos
  · refine ⟨x, result_realText_zero hzero, ?_⟩
    have hself := reread_ofRank (x := x) hfinite (Nat.le_add_right _ _) (Nat.le_add_right _ _) fun _ => rfl
    rwa [ofRank_rank] at hself
  · obtain ⟨t, ht⟩ := exists_prints_shortest x.isNegative hpos hfinite
    have htext : t.text = realText x := by
      rw [ht.text, realText_of_isFinite h, if_neg hpos.ne']
    have hnumber := ht.number (printed_le (Nat.le_trans (digits_shortest_le hpos hfinite .even) (by decide)))
    obtain ⟨other, hother, hscale, habove, hbelow⟩ := scalesNear_shown hfinite hpos
    refine ⟨_, result_realText htext hnumber hother hscale, reread_ofRank hother habove hbelow fun hshort => ?_⟩
    obtain ⟨hbits, hplaces⟩ := hshort.resolve_left hpos.ne'
    have hrounds : RoundsTo x.rank ((shown x).1 * 10 ^ (shown x).2 * unitsPerOne) := by
      rw [shown, printed_value]
      exact roundsTo_shortest hpos hfinite .even
    have hsame := congrArg Except.toOption ((scale_exact hbits hplaces hfinite hrounds).symm.trans hscale)
    have hrank := congrArg Binary64.rank (Option.some.inj hsame)
    rwa [rank_ofRank (hfinite.trans infiniteRank_lt), rank_ofRank (hother.trans infiniteRank_lt), eq_comm] at hrank

end SyntheticRows.Json
