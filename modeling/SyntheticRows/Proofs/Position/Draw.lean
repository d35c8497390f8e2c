import SyntheticRows.Position.Draw
import SyntheticRows.Proofs.Random.Real

/-!
The draws of a position, field by field. Whatever the words are, each field is a result of its own draw or follows from
the index and other fields (`drawn_of_yields`), and fields that their draws can give one by one are also drawn together
(`reaches_of_drawn`).
-/

namespace SyntheticRows.Position

variable {σ : Type} [WordSource σ] {index : UInt32} {p : Position}

/-! ### Ranges -/

theorem resolves_entryPrice : Draw.Resolves 0 entryPriceMax 40 := by
  constructor <;> decide

theorem resolves_jitter : Draw.Resolves (-executionJitter) executionJitter 46 := by
  constructor <;> decide

theorem resolves_valuation : Draw.Resolves 0 valuationMax 42 := by
  constructor <;> decide

/-! ### Fields -/

/-- Each field that is drawn stands in a relation to its draw, and the others follow. The relation is one between draws
    and results: what a draw yields on some words, or what it reaches before any words. -/
structure Drawn (R : {α : Type} → Draw σ α → α → Prop) (index : UInt32) (p : Position) : Prop where
  account : R (drawLabel Account.one) p.account
  direction : R (drawLabel Direction.long) p.direction
  stage : R (drawLabel OrderStage.pending) p.stage
  pricing : R (drawLabel OrderPricing.limit) p.pricing
  entryPrice : R (Draw.real 0 entryPriceMax) p.entryPrice
  executionPrice : ∃ jitter, R (Draw.real (-executionJitter) executionJitter) jitter ∧
    p.executionPrice = p.entryPrice.add jitter
  size : R (Draw.int64 sizeMin sizeMax) p.size
  leverage : R (Draw.int64 leverageMin leverageMax) p.leverage
  initialMargin : R (Draw.int64 marginMin marginMax) p.initialMargin
  availableMargin : R (Draw.int64 marginMin marginMax) p.availableMargin
  minutes : p.minutes = index.toUInt64
  bankruptcyPrice : R drawValuation p.bankruptcyPrice
  bankruptcyValue : R drawValuation p.bankruptcyValue
  maintenanceMargin : R drawValuation p.maintenanceMargin
  liquidationPrice : R drawValuation p.liquidationPrice
  unrealizedProfit : R drawValuation p.unrealizedProfit
  settlementPrice : R drawValuation p.settlementPrice
  entryNonce : p.entryNonce = index.toUInt64.toInt64 * nonceStride
  exitNonce : ∃ gap, R (Draw.int64 exitNonceGapMin exitNonceGapMax) gap ∧ p.exitNonce = p.entryNonce + gap
  entrySequence : p.entrySequence = index.toUInt64.toInt64

theorem drawn_of_yields (h : (draw index : Draw σ Position).Yields p) : Drawn (σ := σ) Draw.Yields index p := by
  obtain ⟨account, haccount, h⟩ := h.exists_of_bind
  obtain ⟨direction, hdirection, h⟩ := h.exists_of_bind
  obtain ⟨stage, hstage, h⟩ := h.exists_of_bind
  obtain ⟨pricing, hpricing, h⟩ := h.exists_of_bind
  obtain ⟨entryPrice, hentryPrice, h⟩ := h.exists_of_bind
  obtain ⟨jitter, hjitter, h⟩ := h.exists_of_bind
  obtain ⟨size, hsize, h⟩ := h.exists_of_bind
  obtain ⟨leverage, hleverage, h⟩ := h.exists_of_bind
  obtain ⟨initialMargin, hinitialMargin, h⟩ := h.exists_of_bind
  obtain ⟨availableMargin, havailableMargin, h⟩ := h.exists_of_bind
  obtain ⟨bankruptcyPrice, hbankruptcyPrice, h⟩ := h.exists_of_bind
  obtain ⟨bankruptcyValue, hbankruptcyValue, h⟩ := h.exists_of_bind
  obtain ⟨maintenanceMargin, hmaintenanceMargin, h⟩ := h.exists_of_bind
  obtain ⟨liquidationPrice, hliquidationPrice, h⟩ := h.exists_of_bind
  obtain ⟨unrealizedProfit, hunrealizedProfit, h⟩ := h.exists_of_bind
  obtain ⟨settlementPrice, hsettlementPrice, h⟩ := h.exists_of_bind
  obtain ⟨gap, hgap, h⟩ := h.exists_of_bind
  rw [← h.eq_of_pure]
  exact {
    account := haccount, direction := hdirection, stage := hstage, pricing := hpricing
    entryPrice := hentryPrice, executionPrice := ⟨jitter, hjitter, rfl⟩
    size := hsize, leverage := hleverage, initialMargin := hinitialMargin, availableMargin := havailableMargin
    minutes := rfl
    bankruptcyPrice := hbankruptcyPrice, bankruptcyValue := hbankruptcyValue
    maintenanceMargin := hmaintenanceMargin, liquidationPrice := hliquidationPrice
    unrealizedProfit := hunrealizedProfit, settlementPrice := hsettlementPrice
    entryNonce := rfl, exitNonce := ⟨gap, hgap, rfl⟩, entrySequence := rfl }

theorem reaches_of_drawn (h : Drawn Draw.Reaches index p) : (draw index : Draw WordSequence Position).Reaches p := by
  obtain ⟨jitter, hjitter, hexecutionPrice⟩ := h.executionPrice
  obtain ⟨gap, hgap, hexitNonce⟩ := h.exitNonce
  have hfields : p = { p with
      executionPrice := p.entryPrice.add jitter
      minutes := index.toUInt64
      entryNonce := index.toUInt64.toInt64 * nonceStride
      exitNonce := index.toUInt64.toInt64 * nonceStride + gap
      entrySequence := index.toUInt64.toInt64 } := by
    rw [← hexecutionPrice, ← h.entryNonce, ← h.entrySequence, ← h.minutes, ← hexitNonce]
  rw [hfields]
  refine h.account.bind (h.direction.bind (h.stage.bind (h.pricing.bind ?_)))
  refine h.entryPrice.bind (hjitter.bind ?_)
  refine h.size.bind (h.leverage.bind (h.initialMargin.bind (h.availableMargin.bind ?_)))
  refine h.bankruptcyPrice.bind (h.bankruptcyValue.bind (h.maintenanceMargin.bind ?_))
  refine h.liquidationPrice.bind (h.unrealizedProfit.bind (h.settlementPrice.bind ?_))
  exact hgap.bind (Draw.reaches_pure _)

end SyntheticRows.Position
