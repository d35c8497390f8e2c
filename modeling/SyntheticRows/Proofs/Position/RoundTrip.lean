import SyntheticRows.Position.Json
import SyntheticRows.Proofs.Json.Reals
import SyntheticRows.Proofs.Json.RoundTrip
import SyntheticRows.Proofs.Json.Strictness

/-!
Positions read back from their JSON texts. Labels and integers come back as they were, and each price, margin and
valuation as a number near to the written one (`readAll_toJson_near`). It need not be the same number
(`readAll_toJson_ne`).
-/

namespace SyntheticRows.Position
open Json

/-- The prices, margins and valuations. -/
def reals (p : Position) : List Binary64 :=
  [p.entryPrice, p.executionPrice, p.bankruptcyPrice, p.bankruptcyValue, p.maintenanceMargin, p.liquidationPrice,
    p.unrealizedProfit, p.settlementPrice]

/-- The position with other prices, margins and valuations. -/
def mapReals (f : Binary64 → Binary64) (p : Position) : Position :=
  { p with
    entryPrice := f p.entryPrice
    executionPrice := f p.executionPrice
    bankruptcyPrice := f p.bankruptcyPrice
    bankruptcyValue := f p.bankruptcyValue
    maintenanceMargin := f p.maintenanceMargin
    liquidationPrice := f p.liquidationPrice
    unrealizedProfit := f p.unrealizedProfit
    settlementPrice := f p.settlementPrice }

theorem decodes_real {x y : Binary64} (h : result real64 (realText x) = some y) : Decodes real64 (.real x) y := by
  rintro v ⟨⟩
  exact h

/-- If each of the real numbers is read back as what `f` gives, then so is the position. -/
theorem decodes_toJson {p : Position} {f : Binary64 → Binary64}
    (h : ∀ x ∈ p.reals, result real64 (realText x) = some (f x)) : Decodes fromJson p.toJson (p.mapReals f) := by
  have hreal : ∀ x ∈ p.reals, Decodes real64 (.real x) (f x) := fun x hx => decodes_real (h x hx)
  simp only [reals, List.forall_mem_cons] at hreal
  obtain ⟨hentry, hexecution, hbankruptcy, hvalue, hmargin, hliquidation, hprofit, hsettlement, -⟩ := hreal
  exact decodes_record members_takeValues (by decide) rfl (p.mapReals f).values
    ⟨decodes_label p.account, decodes_label p.direction, decodes_label p.stage, decodes_label p.pricing, hentry,
      hexecution, decodes_int64 p.size, decodes_int64 p.leverage, decodes_int64 p.initialMargin,
      decodes_int64 p.availableMargin, decodes_uint64 p.minutes, hbankruptcy, hvalue, hmargin, hliquidation, hprofit,
      hsettlement, decodes_int64 p.entryNonce, decodes_int64 p.exitNonce, decodes_int64 p.entrySequence, trivial⟩

/-- A position of finite numbers is read back from the text on one line and from the indented text: with its labels and
    integers, and with real numbers near to its own. -/
theorem readAll_toJson_near (p : Position) (h : ∀ x ∈ p.reals, x.isFinite) : ∃ f : Binary64 → Binary64,
    readAll fromJson p.toJson.compact = .ok (p.mapReals f) ∧
    readAll fromJson (p.toJson.pretty 0) = .ok (p.mapReals f) ∧
    ∀ x ∈ p.reals, Reread x (f x) := by
  have hread : ∀ x : Binary64, ∃ y, x.isFinite → result real64 (realText x) = some y ∧ Reread x y := fun x => by
    by_cases hfinite : x.isFinite
    · obtain ⟨y, hy⟩ := exists_reread hfinite
      exact ⟨y, fun _ => hy⟩
    · exact ⟨x, fun hx => absurd hx hfinite⟩
  choose f hf using hread
  have hdecodes : Decodes fromJson p.toJson (p.mapReals f) := decodes_toJson fun x hx => (hf x (h x hx)).1
  exact ⟨f, hdecodes.readAll.1, hdecodes.readAll.2, fun x hx => (hf x (h x hx)).2⟩

/-- A position whose first two prices are not read back as they are. -/
def drifting : Position where
  account := .one
  direction := .long
  stage := .pending
  pricing := .limit
  entryPrice := ⟨4426961033101370792⟩
  executionPrice := ⟨4611686018427387955⟩
  size := 1
  leverage := 2
  initialMargin := 3
  availableMargin := 4
  minutes := 5
  bankruptcyPrice := ⟨4636772475726725120⟩
  bankruptcyValue := ⟨0⟩
  maintenanceMargin := ⟨9223372036854775808⟩
  liquidationPrice := ⟨4591870180066957722⟩
  unrealizedProfit := ⟨13832806255468478464⟩
  settlementPrice := ⟨4648488871632306176⟩
  entryNonce := 6
  exitNonce := 7
  entrySequence := 8

theorem readAll_toJson_near_drifting : (∀ x ∈ drifting.reals, x.isFinite) ∧ ∃ f : Binary64 → Binary64,
    readAll fromJson drifting.toJson.compact = .ok (drifting.mapReals f) ∧
    readAll fromJson (drifting.toJson.pretty 0) = .ok (drifting.mapReals f) ∧
    ∀ x ∈ drifting.reals, Reread x (f x) :=
  ⟨by decide, readAll_toJson_near drifting (by decide)⟩

/-- The entry price 9.016792380417995e-13 comes back two numbers higher, the execution price 2.0000000000000226 one
    number lower. -/
theorem readAll_toJson_ne : (∀ x ∈ drifting.reals, x.isFinite) ∧
    readAll fromJson drifting.toJson.compact =
      .ok { drifting with entryPrice := ⟨4426961033101370794⟩, executionPrice := ⟨4611686018427387954⟩ } ∧
    { drifting with entryPrice := ⟨4426961033101370794⟩, executionPrice := ⟨4611686018427387954⟩ } ≠ drifting :=
  ⟨by decide, result_eq_some_iff.mp (by decide +kernel), by decide⟩

end SyntheticRows.Position
