import SyntheticRows.Proofs.Position.Draw
import SyntheticRows.Proofs.Vocabulary

/-!
The labels and whole numbers of rows. They lie in their ranges whatever the words are, and each combination of values of
the ranges is drawn from some words (`draws_fill_ranges`).
-/

namespace SyntheticRows

namespace Draw
variable {α : Type} [Vocabulary α] [LawfulVocabulary α]

/-- Each value of a vocabulary can be drawn. -/
theorem reaches_drawLabel (a fallback : α) (hsize : (Vocabulary.all : List α).length ≤ UInt32.size) :
    (Position.drawLabel fallback : Draw WordSequence α).Reaches a :=
  Reaches.oneOf (List.mem_of_find?_eq_some (find?_label a)) hsize

end Draw

/-! ### Positions -/

namespace Position

/-- The labels and whole numbers of a position that are drawn. -/
structure Choices where
  account : Account
  direction : Direction
  stage : OrderStage
  pricing : OrderPricing
  size : ℤ
  leverage : ℤ
  initialMargin : ℤ
  availableMargin : ℤ
  /-- How far the exit nonce lies behind the entry nonce. -/
  gap : ℤ

def choices (p : Position) : Choices where
  account := p.account
  direction := p.direction
  stage := p.stage
  pricing := p.pricing
  size := p.size.toInt
  leverage := p.leverage.toInt
  initialMargin := p.initialMargin.toInt
  availableMargin := p.availableMargin.toInt
  gap := p.exitNonce.toInt - p.entryNonce.toInt

structure Choices.InRange (c : Choices) : Prop where
  size : c.size ∈ Set.Icc 200 5000
  leverage : c.leverage ∈ Set.Icc 1 10
  initialMargin : c.initialMargin ∈ Set.Icc 1 10
  availableMargin : c.availableMargin ∈ Set.Icc 1 10
  gap : c.gap ∈ Set.Icc 3 20

/-! ### Nonces -/

theorem toInt_index (index : UInt32) : index.toUInt64.toInt64.toInt = index.toNat := by
  have hlt := index.toNat_lt
  have hbits : 2 * index.toUInt64.toBitVec.toNat < 2 ^ 64 := by
    rw [UInt64.toNat_toBitVec, UInt32.toNat_toUInt64]
    omega
  calc index.toUInt64.toInt64.toInt = index.toUInt64.toBitVec.toInt := rfl
    _ = index.toUInt64.toBitVec.toNat := BitVec.toInt_eq_toNat_of_lt hbits
    _ = index.toNat := by rw [UInt64.toNat_toBitVec, UInt32.toNat_toUInt64]

theorem toInt_nonce (index : UInt32) : (index.toUInt64.toInt64 * nonceStride).toInt = 10 * index.toNat := by
  have hlt := index.toNat_lt
  rw [Int64.toInt_mul, toInt_index, show nonceStride.toInt = 10 from rfl, Int.bmod_eq_of_le (by omega) (by omega),
    Int.mul_comm]

theorem toInt_nonce_add {gap : Int64} (index : UInt32) (h : gap.toInt ∈ Set.Icc 3 20) :
    (index.toUInt64.toInt64 * nonceStride + gap).toInt = 10 * index.toNat + gap.toInt := by
  have hlt := index.toNat_lt
  obtain ⟨hlow, hhigh⟩ := h
  rw [Int64.toInt_add, toInt_nonce, Int.bmod_eq_of_le (by omega) (by omega)]

/-! ### Drawn positions -/

section
variable {σ : Type} [WordSource σ] {index : UInt32} {p : Position}

theorem Drawn.inRange_choices (h : Drawn (σ := σ) Draw.Yields index p) : p.choices.InRange where
  size := h.size.int64 (by decide)
  leverage := h.leverage.int64 (by decide)
  initialMargin := h.initialMargin.int64 (by decide)
  availableMargin := h.availableMargin.int64 (by decide)
  gap := by
    obtain ⟨gap, hgap, hexit⟩ := h.exitNonce
    have hrange : gap.toInt ∈ Set.Icc 3 20 := hgap.int64 (by decide)
    have hgap : p.choices.gap = gap.toInt := by
      rw [choices, hexit, h.entryNonce, toInt_nonce_add index hrange, toInt_nonce]
      exact add_sub_cancel_left _ _
    rwa [hgap]

end

/-- Each combination of choices is that of a position whose draws reach its fields one by one. -/
theorem Choices.InRange.exists_drawn {c : Choices} (hc : c.InRange) (index : UInt32) :
    ∃ p, Drawn Draw.Reaches index p ∧ p.choices = c := by
  obtain ⟨entryPrice, hentryPrice⟩ := resolves_entryPrice.exists_reaches
  obtain ⟨jitter, hjitter⟩ := resolves_jitter.exists_reaches
  obtain ⟨valuation, hvaluation⟩ := resolves_valuation.exists_reaches
  have hsize : c.size ∈ Set.Icc sizeMin.toInt sizeMax.toInt := hc.size
  have hleverage : c.leverage ∈ Set.Icc leverageMin.toInt leverageMax.toInt := hc.leverage
  have hinitialMargin : c.initialMargin ∈ Set.Icc marginMin.toInt marginMax.toInt := hc.initialMargin
  have havailableMargin : c.availableMargin ∈ Set.Icc marginMin.toInt marginMax.toInt := hc.availableMargin
  have hgap : c.gap ∈ Set.Icc exitNonceGapMin.toInt exitNonceGapMax.toInt := hc.gap
  have hgapWord := Draw.toInt_ofInt_of_mem hgap
  have hgapRange : (Int64.ofInt c.gap).toInt ∈ Set.Icc 3 20 := hgapWord.symm ▸ hc.gap
  have hexitNonce := toInt_nonce_add index hgapRange
  refine ⟨{
    account := c.account, direction := c.direction, stage := c.stage, pricing := c.pricing
    entryPrice, executionPrice := entryPrice.add jitter
    size := .ofInt c.size, leverage := .ofInt c.leverage
    initialMargin := .ofInt c.initialMargin, availableMargin := .ofInt c.availableMargin
    minutes := index.toUInt64
    bankruptcyPrice := valuation, bankruptcyValue := valuation, maintenanceMargin := valuation
    liquidationPrice := valuation, unrealizedProfit := valuation, settlementPrice := valuation
    entryNonce := index.toUInt64.toInt64 * nonceStride
    exitNonce := index.toUInt64.toInt64 * nonceStride + .ofInt c.gap
    entrySequence := index.toUInt64.toInt64 }, ?_, ?_⟩
  · exact {
      account := Draw.reaches_drawLabel _ _ (by decide), direction := Draw.reaches_drawLabel _ _ (by decide)
      stage := Draw.reaches_drawLabel _ _ (by decide), pricing := Draw.reaches_drawLabel _ _ (by decide)
      entryPrice := hentryPrice, executionPrice := ⟨jitter, hjitter, rfl⟩
      size := .int64 hsize, leverage := .int64 hleverage
      initialMargin := .int64 hinitialMargin, availableMargin := .int64 havailableMargin
      minutes := rfl
      bankruptcyPrice := hvaluation, bankruptcyValue := hvaluation, maintenanceMargin := hvaluation
      liquidationPrice := hvaluation, unrealizedProfit := hvaluation, settlementPrice := hvaluation
      entryNonce := rfl, exitNonce := ⟨_, .int64 hgap, rfl⟩, entrySequence := rfl }
  · unfold choices
    dsimp only
    rw [hexitNonce, toInt_nonce, hgapWord, add_sub_cancel_left, Draw.toInt_ofInt_of_mem hsize,
      Draw.toInt_ofInt_of_mem hleverage, Draw.toInt_ofInt_of_mem hinitialMargin, Draw.toInt_ofInt_of_mem havailableMargin]

/-- The choices drawn for an index are all those of the ranges and no others. -/
theorem range_choices (index : UInt32) :
    Set.range (fun words : WordSequence => (StateT.run (draw index) words).1.choices) = {c | c.InRange} := by
  ext c
  constructor
  · rintro ⟨words, rfl⟩
    exact (drawn_of_yields (Draw.yields_run _ words)).inRange_choices
  · intro hc
    obtain ⟨p, hdrawn, rfl⟩ := hc.exists_drawn index
    obtain ⟨words, hwords⟩ := (reaches_of_drawn hdrawn).yields
    exact ⟨words, congrArg choices hwords⟩

end Position

/-! ### Readings -/

namespace Reading
variable {σ : Type} [WordSource σ] {index : UInt32} {r : Reading}

theorem of_yields (h : (draw index : Draw σ Reading).Yields r) :
    r.value.toInt ∈ Set.Ico 0 30000 ∧ r.minutes = index.toUInt64 := by
  obtain ⟨value, hvalue, h⟩ := h.exists_of_bind
  rw [← h.eq_of_pure]
  obtain ⟨hlow, hhigh⟩ := hvalue.int64 (by decide)
  exact ⟨⟨hlow, Int.lt_of_le_sub_one hhigh⟩, rfl⟩

/-- The values drawn for an index are all those of the range and no others. -/
theorem range_value (index : UInt32) :
    Set.range (fun words : WordSequence => (StateT.run (draw index) words).1.value.toInt) = Set.Ico 0 30000 := by
  ext n
  constructor
  · rintro ⟨words, rfl⟩
    exact (of_yields (Draw.yields_run _ words)).1
  · rintro ⟨hlow, hhigh⟩
    have hn : n ∈ Set.Icc valueMin.toInt (valueMax - 1).toInt := ⟨hlow, Int.le_sub_one_of_lt hhigh⟩
    have hdraw : (draw index : Draw WordSequence Reading).Reaches ⟨.ofInt n, index.toUInt64⟩ :=
      (Draw.Reaches.int64 hn).bind (Draw.reaches_pure _)
    obtain ⟨words, hwords⟩ := hdraw.yields
    exact ⟨words, (congrArg (·.value.toInt) hwords).trans (Draw.toInt_ofInt_of_mem hn)⟩

end Reading

/-- Whatever the words are that a position is drawn from, its whole numbers lie in their ranges, its nonces, its sequence
    number and its minute follow from the index without overflow, and the values kept for empty vocabularies do not
    matter; the value of a reading lies in its range. And each combination of labels and of whole numbers of the ranges
    is drawn from some words, at every index. -/
theorem draws_fill_ranges :
    (∀ (σ : Type) [WordSource σ] (index : UInt32) (words : σ),
      let p := (StateT.run (Position.draw index) words).1
      p.choices.InRange ∧ p.entryNonce.toInt = 10 * index.toNat ∧ p.entrySequence.toInt = index.toNat ∧
      p.minutes.toNat = index.toNat) ∧
    (∀ (σ : Type) [WordSource σ],
      (∀ fallback, (Position.drawLabel fallback : Draw σ Account) = Position.drawLabel .one) ∧
      (∀ fallback, (Position.drawLabel fallback : Draw σ Direction) = Position.drawLabel .long) ∧
      (∀ fallback, (Position.drawLabel fallback : Draw σ OrderStage) = Position.drawLabel .pending) ∧
      ∀ fallback, (Position.drawLabel fallback : Draw σ OrderPricing) = Position.drawLabel .limit) ∧
    (∀ (σ : Type) [WordSource σ] (index : UInt32) (words : σ),
      let r := (StateT.run (Reading.draw index) words).1
      r.value.toInt ∈ Set.Ico 0 30000 ∧ r.minutes.toNat = index.toNat) ∧
    (∀ index, Set.range (fun words : WordSequence => (StateT.run (Position.draw index) words).1.choices) =
      {c | c.InRange}) ∧
    ∀ index, Set.range (fun words : WordSequence => (StateT.run (Reading.draw index) words).1.value.toInt) =
      Set.Ico 0 30000 := by
  refine ⟨fun σ _ index words => ?_, fun σ _ => ⟨?_, ?_, ?_, ?_⟩, fun σ _ index words => ?_, Position.range_choices,
    Reading.range_value⟩
  · intro p
    have h : Position.Drawn (σ := σ) Draw.Yields index p := Position.drawn_of_yields (Draw.yields_run _ words)
    clear_value p
    refine ⟨h.inRange_choices, ?_, ?_, ?_⟩
    · rw [h.entryNonce, Position.toInt_nonce]
    · rw [h.entrySequence, Position.toInt_index]
    · rw [h.minutes, UInt32.toNat_toUInt64]
  · exact fun fallback => Draw.oneOf_congr (by decide) _ _
  · exact fun fallback => Draw.oneOf_congr (by decide) _ _
  · exact fun fallback => Draw.oneOf_congr (by decide) _ _
  · exact fun fallback => Draw.oneOf_congr (by decide) _ _
  · intro r
    obtain ⟨hvalue, hminutes⟩ := Reading.of_yields (Draw.yields_run (Reading.draw index) words)
    exact ⟨hvalue, by rw [hminutes, UInt32.toNat_toUInt64]⟩

end SyntheticRows
