import Mathlib
import SyntheticRows.Proofs.Literal.Reading
import SyntheticRows.Reading

/-!
The tuples of records decoded. A tuple is split into the texts of its values, and these are read one after the
other, each by the reader of its kind. What comes back is the record that was written, with one pattern for
all the patterns that are no number.
-/

namespace SyntheticRows

/-! ### Reading in turn -/

/-- A reader of the texts of the values that are left. -/
abbrev Fields := StateT (List (List Char)) Option

namespace Fields
variable {α β : Type}

def next (read : List Char → Option α) : Fields α
  | [] => none
  | text :: rest => (read text).map (·, rest)

/-- Nothing may be left. -/
def done : Fields Unit
  | [] => some ((), [])
  | _ :: _ => none

def int : Fields Int64 :=
  next fun text => some (Literal.readInt text)

def real : Fields Binary64 :=
  next fun text => some (Literal.readReal text)

def minutes : Fields UInt64 :=
  next fun text => some (Literal.readMinutes text)

def label [Vocabulary α] : Fields α :=
  next Literal.readLabel?

/-- A fresh random identifier tells nothing about a record. -/
def randomUuid : Fields Unit :=
  next fun text => if text = Literal.randomUuid.render then some () else none

variable {f : α → Fields β} {rest : List (List Char)}

theorem run_next {read : List Char → Option α} {text : List Char} {a : α} (h : read text = some a) :
    (next read >>= f).run (text :: rest) = (f a).run rest := by
  change (Option.map _ _).bind _ = _
  rw [h]
  rfl

theorem run_int {f : Int64 → Fields β} (n : Int64) :
    (int >>= f).run ((Literal.int n).render :: rest) = (f n).run rest :=
  run_next (congrArg some (Literal.readInt_render n))

theorem run_real {f : Binary64 → Fields β} (x : Binary64) :
    (real >>= f).run ((Literal.real x).render :: rest) = (f x.canonical).run rest :=
  run_next (congrArg some (Literal.readReal_render x))

theorem run_minutes {f : UInt64 → Fields β} (n : UInt64) :
    (minutes >>= f).run ((Literal.minutesFromNow n).render :: rest) = (f n).run rest :=
  run_next (congrArg some (Literal.readMinutes_render n))

theorem run_label [Vocabulary α] [LawfulVocabulary α] (a : α) :
    (label >>= f).run ((Literal.text (Vocabulary.label a)).render :: rest) = (f a).run rest :=
  run_next (Literal.readLabel?_render a)

theorem run_randomUuid {f : Unit → Fields β} :
    (randomUuid >>= f).run (Literal.randomUuid.render :: rest) = (f ()).run rest :=
  run_next (if_pos rfl)

theorem run_done {f : Unit → Fields β} : (done >>= f).run [] = (f ()).run [] :=
  rfl

end Fields

/-! ### Records -/

/-- Decodes a tuple with a reader of all its values. -/
def decode? {α : Type} (record : Fields α) (tuple : List Char) : Option α :=
  (Literal.fields? tuple).bind fun texts => (record.run texts).map (·.1)

theorem decode?_tuple {α : Type} {record : Fields α} {values : List Literal} {a : α} (hne : values ≠ [])
    (hwhole : ∀ value ∈ values, Literal.Whole value.render)
    (h : record.run (values.map Literal.render) = some (a, [])) :
    decode? record (Literal.tuple values) = some a := by
  rw [decode?, Literal.fields?_tuple hne hwhole, Option.bind_some, h]
  rfl

namespace Reading

def ofFields : Fields Reading := do
  let value ← Fields.int
  let minutes ← Fields.minutes
  Fields.done
  return { value, minutes }

theorem whole_literals (r : Reading) : ∀ value ∈ r.literals, Literal.Whole value.render := by
  simp [literals, Literal.whole_int, Literal.whole_minutesFromNow]

theorem run_ofFields (r : Reading) : ofFields.run (r.literals.map Literal.render) = some (r, []) := by
  simp only [ofFields, literals, List.map_cons, List.map_nil, Fields.run_int, Fields.run_minutes, Fields.run_done]
  rfl

end Reading

namespace Position

def ofFields : Fields Position := do
  Fields.randomUuid
  let account ← Fields.label
  let direction ← Fields.label
  let stage ← Fields.label
  let pricing ← Fields.label
  let entryPrice ← Fields.real
  let executionPrice ← Fields.real
  let size ← Fields.int
  let leverage ← Fields.int
  let initialMargin ← Fields.int
  let availableMargin ← Fields.int
  let minutes ← Fields.minutes
  let bankruptcyPrice ← Fields.real
  let bankruptcyValue ← Fields.real
  let maintenanceMargin ← Fields.real
  let liquidationPrice ← Fields.real
  let unrealizedProfit ← Fields.real
  let settlementPrice ← Fields.real
  let entryNonce ← Fields.int
  let exitNonce ← Fields.int
  let entrySequence ← Fields.int
  Fields.done
  return {
    account, direction, stage, pricing, entryPrice, executionPrice, size, leverage, initialMargin
    availableMargin, minutes, bankruptcyPrice, bankruptcyValue, maintenanceMargin, liquidationPrice
    unrealizedProfit, settlementPrice, entryNonce, exitNonce, entrySequence }

/-- The position with one pattern for all that are no number. -/
def canonical (p : Position) : Position :=
  { p with
    entryPrice := p.entryPrice.canonical
    executionPrice := p.executionPrice.canonical
    bankruptcyPrice := p.bankruptcyPrice.canonical
    bankruptcyValue := p.bankruptcyValue.canonical
    maintenanceMargin := p.maintenanceMargin.canonical
    liquidationPrice := p.liquidationPrice.canonical
    unrealizedProfit := p.unrealizedProfit.canonical
    settlementPrice := p.settlementPrice.canonical }

theorem whole_literals (p : Position) : ∀ value ∈ p.literals, Literal.Whole value.render :=
  p.forall_mem_literals Literal.whole_int Literal.whole_real Literal.whole_minutesFromNow Literal.whole_randomUuid
    fun label _ => Literal.whole_text label

theorem run_ofFields (p : Position) : ofFields.run (p.literals.map Literal.render) = some (p.canonical, []) := by
  simp only [ofFields, literals, List.map_cons, List.map_nil, Fields.run_int, Fields.run_real, Fields.run_minutes,
    Fields.run_label, Fields.run_randomUuid, Fields.run_done]
  rfl

theorem tuple_canonical (p : Position) : p.canonical.tuple = p.tuple := by
  simp only [tuple, Literal.tuple, literals, canonical, List.map_cons, Literal.render_canonical]

end Position

/-- The tuple of a record tells every field of it: a position comes back with each field, its floating-point
    numbers bit by bit but for the patterns that are no number, and a reading as it was. -/
theorem tuples_lossless :
    (∀ p : Position, decode? Position.ofFields p.tuple = some p.canonical) ∧
      (∀ p q : Position, p.tuple = q.tuple ↔ p.canonical = q.canonical) ∧
      (∀ x y : Binary64, x.canonical = y.canonical ↔ x = y ∨ x.isNaN ∧ y.isNaN) ∧
      (∀ r : Reading, decode? Reading.ofFields r.tuple = some r) ∧
      Function.Injective Reading.tuple := by
  have hposition : ∀ p : Position, decode? Position.ofFields p.tuple = some p.canonical := fun p =>
    decode?_tuple (List.cons_ne_nil _ _) p.whole_literals p.run_ofFields
  have hreading : ∀ r : Reading, decode? Reading.ofFields r.tuple = some r := fun r =>
    decode?_tuple (List.cons_ne_nil _ _) r.whole_literals r.run_ofFields
  refine ⟨hposition, fun p q => ⟨fun h => ?_, fun h => ?_⟩, fun _ _ => Binary64.canonical_eq_iff, hreading, ?_⟩
  · have := hposition p
    rw [h, hposition q] at this
    exact (Option.some.inj this).symm
  · rw [← p.tuple_canonical, h, q.tuple_canonical]
  · intro r s h
    have := hreading r
    rw [h, hreading s] at this
    exact (Option.some.inj this).symm

end SyntheticRows
