import SyntheticRows.Proofs.Literal.Real
import SyntheticRows.Proofs.Position.Draw
import SyntheticRows.Proofs.Position.RoundTrip
import SyntheticRows.Proofs.Vocabulary

/-!
Prices and valuations of drawn positions. Each of them lies in its half-open range after rounding, and none is drawn a
second time (`real_draws_in_range`). All of them are finite and none is the negative zero, so no value of a drawn
position is written as `-0` or as a number between quotes.
-/

namespace SyntheticRows
open Binary64

/-! ### Written forms -/

namespace Literal

def minusZero : List Char :=
  ['-', '0']

theorem render_real_ne_minusZero {x : Binary64} (h : x.isFinite) (hzero : x ≠ negativeZero) :
    render (.real x) ≠ minusZero := by
  have hplain : negativeZero.plain = minusZero := by decide
  rw [render_real_of_isFinite h, ← hplain]
  intro heq
  have hread := congrArg ofPlain heq
  rw [ofPlain_plain h, ofPlain_plain (by decide)] at hread
  exact hzero hread

theorem render_int_ne_minusZero (n : Int64) : render (.int n) ≠ minusZero := by
  rw [render, Decimal.signedNumeral]
  split
  · rename_i hneg
    intro heq
    have hvalue := Decimal.value_numeral n.toInt.natAbs
    rw [(List.cons.inj heq).2, show Digits.value ['0'] = 0 from rfl] at hvalue
    omega
  · intro heq
    have hdigit : '-' ∈ Decimal.numeral n.toInt.natAbs := by
      rw [heq]
      exact List.mem_cons_self
    exact absurd (Decimal.isDigit_of_mem_numeral hdigit) (by decide)

theorem render_minutesFromNow_ne_minusZero (n : UInt64) : render (minutesFromNow n) ≠ minusZero := by
  rw [render_minutesFromNow]
  intro heq
  have hletter : 'n' ∈ "now() + interval '".toList ++ Decimal.numeral n.toNat ++ " minute'".toList :=
    List.mem_append_left _ (List.mem_append_left _ (by decide))
  exact absurd (heq ▸ hletter) (by decide)

end Literal

/-! ### Drawn positions -/

namespace Position
open Draw (InRange)

/-- The valuations alone. -/
def valuations (p : Position) : List Binary64 :=
  [p.bankruptcyPrice, p.bankruptcyValue, p.maintenanceMargin, p.liquidationPrice, p.unrealizedProfit,
    p.settlementPrice]

theorem mem_reals_iff {p : Position} {x : Binary64} :
    x ∈ p.reals ↔ x = p.entryPrice ∨ x = p.executionPrice ∨ x ∈ p.valuations := by
  simp only [reals, valuations, List.mem_cons]

section
variable {σ : Type} [WordSource σ] {index : UInt32} {p : Position}

namespace Drawn

theorem inRange_entryPrice (h : Drawn (σ := σ) Draw.Yields index p) : InRange 0 5000 p.entryPrice :=
  h.entryPrice.inRange resolves_entryPrice

theorem inRange_valuations (h : Drawn (σ := σ) Draw.Yields index p) : ∀ x ∈ p.valuations, InRange 0 2000 x := by
  have hvaluation {x : Binary64} (hx : (drawValuation : Draw σ Binary64).Yields x) : InRange 0 2000 x :=
    hx.inRange resolves_valuation
  simp only [valuations, List.forall_mem_cons]
  exact ⟨hvaluation h.bankruptcyPrice, hvaluation h.bankruptcyValue, hvaluation h.maintenanceMargin,
    hvaluation h.liquidationPrice, hvaluation h.unrealizedProfit, hvaluation h.settlementPrice, List.forall_mem_nil _⟩

/-- The entry price stays a step of 2^-40 below its bound, and there are numbers in these steps up to the bound of the
    execution price. -/
theorem inRange_executionPrice (h : Drawn (σ := σ) Draw.Yields index p) :
    ∃ jitter, (Draw.real (-50) 50 : Draw σ Binary64).Yields jitter ∧ InRange (-50) 50 jitter ∧
      p.executionPrice.IsNearest (p.entryPrice.toRat + jitter.toRat) ∧ InRange (-50) 5050 p.executionPrice := by
  obtain ⟨jitter, hyields, hsum⟩ := h.executionPrice
  have hentry := h.inRange_entryPrice
  have hjitter : InRange (-50) 50 jitter := hyields.inRange resolves_jitter
  have hentryLast : p.entryPrice.toRat ≤ (5000 : ℤ) - 1 / 2 ^ 40 := h.entryPrice.le_last resolves_entryPrice
  obtain ⟨-, hentryLow, hentryHigh, -⟩ := hentry
  obtain ⟨-, hjitterLow, hjitterHigh, -⟩ := id hjitter
  push_cast at hentryLow hentryHigh hjitterLow hjitterHigh hentryLast
  have hbits : |p.entryPrice.toRat + jitter.toRat| ≤ 2 * binade := by
    have hbinade : (10000 : ℚ) ≤ 2 * binade := by
      rw [binade_eq]
      norm_num
    rw [abs_le]
    constructor <;> linarith
  have hnearest : p.executionPrice.IsNearest (p.entryPrice.toRat + jitter.toRat) := hsum ▸ isNearest_add hbits
  obtain ⟨first, -, hfirst⟩ := exists_toRat_eq (m := -50) (by decide) (Nat.zero_le 1074)
  obtain ⟨last, hlast⟩ := exists_toRat_eq_sub (n := 5050) (k := 40) (by decide) (by decide) (by decide)
  have hlow := hnearest.ge (y := first) (by rw [hfirst]; push_cast; linarith)
  have hhigh := hnearest.le (y := last) (by rw [hlast]; push_cast; linarith)
  rw [hfirst] at hlow
  rw [hlast] at hhigh
  push_cast at hlow hhigh
  refine ⟨jitter, hyields, hjitter, hnearest, hnearest.finite, ?_, ?_, hsum ▸ add_ne_negativeZero hbits⟩
  · push_cast
    linarith
  · push_cast
    linarith [show (0 : ℚ) < 1 / 2 ^ 40 by positivity]

/-- Every price and every valuation is a finite number other than the negative zero. -/
theorem forall_mem_reals (h : Drawn (σ := σ) Draw.Yields index p) : ∀ x ∈ p.reals, x.isFinite ∧ x ≠ negativeZero := by
  intro x hx
  obtain ⟨-, -, -, -, hexecution⟩ := h.inRange_executionPrice
  rcases mem_reals_iff.mp hx with rfl | rfl | hx
  · exact ⟨h.inRange_entryPrice.finite, h.inRange_entryPrice.ne_negativeZero⟩
  · exact ⟨hexecution.finite, hexecution.ne_negativeZero⟩
  · exact ⟨(h.inRange_valuations x hx).finite, (h.inRange_valuations x hx).ne_negativeZero⟩

end Drawn

theorem mem_reals_of_mem_literals {x : Binary64} (hx : .real x ∈ p.literals) : x ∈ p.reals := by
  simpa [literals, reals, Literal.randomUuid, Literal.minutesFromNow] using hx

theorem render_ne_minusZero {p : Position} (h : ∀ x ∈ p.reals, x.isFinite ∧ x ≠ negativeZero) :
    ∀ value ∈ p.literals, value.render ≠ Literal.minusZero := by
  intro value hvalue
  cases value with
  | int n => exact Literal.render_int_ne_minusZero n
  | real x =>
    obtain ⟨hfinite, hzero⟩ := h x (mem_reals_of_mem_literals hvalue)
    exact Literal.render_real_ne_minusZero hfinite hzero
  | text s => exact fun heq => absurd (List.cons.inj heq).1 (by decide)
  | expression s =>
    have hsource : Literal.expression s = .randomUuid ∨ Literal.expression s = .minutesFromNow p.minutes := by
      simpa [literals, Literal.randomUuid, Literal.minutesFromNow] using hvalue
    rcases hsource with hsource | hsource
    · rw [hsource]
      decide
    · rw [hsource]
      exact Literal.render_minutesFromNow_ne_minusZero p.minutes

end

end Position

/-- Whatever the words are that a position is drawn from, its prices and valuations lie in their half-open ranges and are
    finite numbers other than the negative zero, so no value is written as `-0` or as a number between quotes. A real
    number is drawn from two words: the fraction of their upper 52 bits times the width of the range, rounded, plus the
    lower end, rounded; the result is below the upper end, so nothing is drawn again. -/
theorem real_draws_in_range :
    (∀ (σ : Type) [WordSource σ] (index : UInt32) (words : σ),
      let p := (StateT.run (Position.draw index) words).1
      Draw.InRange 0 5000 p.entryPrice ∧
      (∃ jitter, (Draw.real (-50) 50 : Draw σ Binary64).Yields jitter ∧ Draw.InRange (-50) 50 jitter ∧
        p.executionPrice.IsNearest (p.entryPrice.toRat + jitter.toRat)) ∧
      Draw.InRange (-50) 5050 p.executionPrice ∧
      (∀ x ∈ p.valuations, Draw.InRange 0 2000 x) ∧
      (∀ x ∈ p.reals, x.isFinite ∧ x ≠ negativeZero) ∧
      (∀ value ∈ p.literals, value.render ≠ Literal.minusZero) ∧
      ∀ x ∈ p.reals, '\'' ∉ (Literal.real x).render) ∧
    ∀ range ∈ [(0, Position.entryPriceMax), (-Position.executionJitter, Position.executionJitter),
        (0, Position.valuationMax)],
      (∀ (σ : Type) [WordSource σ] (retries : ℕ), (Draw.realWithin range.1 range.2 retries : Draw σ Binary64) =
        (fun word => Draw.stretch range.1 range.2 (Draw.fractionOf word)) <$> Draw.word64) ∧
      (∀ (σ : Type) [WordSource σ], (Draw.real range.1 range.2 : Draw σ Binary64) =
        (fun word => Draw.stretch range.1 range.2 (Draw.fractionOf word)) <$> Draw.word64) ∧
      ∀ word : UInt64, (Draw.fractionOf word).toRat = (word >>> 12).toNat / 2 ^ 52 ∧
        (∃ product : Binary64, product.IsNearest ((Draw.fractionOf word).toRat * (range.2 - range.1)) ∧
          (Draw.stretch range.1 range.2 (Draw.fractionOf word)).IsNearest (product.toRat + range.1)) ∧
        Draw.InRange range.1 range.2 (Draw.stretch range.1 range.2 (Draw.fractionOf word)) := by
  constructor
  · intro σ _ index words p
    have h : Position.Drawn (σ := σ) Draw.Yields index p := Position.drawn_of_yields (Draw.yields_run _ words)
    clear_value p
    obtain ⟨jitter, hyields, hjitter, hnearest, hexecution⟩ := h.inRange_executionPrice
    exact ⟨h.inRange_entryPrice, ⟨jitter, hyields, hjitter, hnearest⟩, hexecution, h.inRange_valuations,
      h.forall_mem_reals, Position.render_ne_minusZero h.forall_mem_reals,
      fun x hx => Literal.quote_not_mem_real (h.forall_mem_reals x hx).1⟩
  · intro range hrange
    obtain ⟨k, hresolves⟩ : ∃ k, Draw.Resolves range.1 range.2 k := by
      simp only [List.mem_cons, List.not_mem_nil, or_false] at hrange
      rcases hrange with rfl | rfl | rfl
      · exact ⟨40, Position.resolves_entryPrice⟩
      · exact ⟨46, Position.resolves_jitter⟩
      · exact ⟨42, Position.resolves_valuation⟩
    have hword : ∀ (σ : Type) [WordSource σ] (retries : ℕ), (Draw.realWithin range.1 range.2 retries : Draw σ Binary64) =
        (fun word => Draw.stretch range.1 range.2 (Draw.fractionOf word)) <$> Draw.word64 :=
      fun _ _ => Draw.realWithin_eq hresolves
    refine ⟨hword, fun σ _ => hword σ Draw.maxRetries, fun word => ⟨Draw.toRat_fractionOf word, ?_, ?_⟩⟩
    · exact ⟨_, (hresolves.product_mem word).1, hresolves.isNearest_stretch word⟩
    · exact hresolves.inRange_stretch word

end SyntheticRows
