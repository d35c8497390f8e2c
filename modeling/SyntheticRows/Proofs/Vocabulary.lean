import SyntheticRows.Pass

/-!
Vocabularies in which every value is found again by its label, and the labels that positions hold.
-/

namespace SyntheticRows

/-- A vocabulary that lists all its values, under different labels. -/
class LawfulVocabulary (α : Type) [Vocabulary α] : Prop where
  find?_label : ∀ a : α, Vocabulary.find? (Vocabulary.label a) = some a

export LawfulVocabulary (find?_label)

instance : LawfulVocabulary Account where
  find?_label a := by cases a <;> rfl

instance : LawfulVocabulary Direction where
  find?_label a := by cases a <;> rfl

instance : LawfulVocabulary OrderStage where
  find?_label a := by cases a <;> rfl

instance : LawfulVocabulary OrderPricing where
  find?_label a := by cases a <;> rfl

instance : LawfulVocabulary Pass where
  find?_label a := by cases a <;> rfl

/-! ### Labels of positions -/

def labelsOf (α : Type) [Vocabulary α] : List String :=
  (Vocabulary.all : List α).map Vocabulary.label

theorem label_mem_labelsOf {α : Type} [Vocabulary α] [LawfulVocabulary α] (a : α) :
    Vocabulary.label a ∈ labelsOf α :=
  List.mem_map_of_mem (List.mem_of_find?_eq_some (find?_label a))

namespace Position

def labels : List String :=
  labelsOf Account ++ labelsOf Direction ++ labelsOf OrderStage ++ labelsOf OrderPricing

/-- What holds of numbers, of the two expressions and of the labels holds of each value of a position. -/
theorem forall_mem_literals {P : Literal → Prop} (hint : ∀ n, P (.int n)) (hreal : ∀ x, P (.real x))
    (hminutes : ∀ n, P (.minutesFromNow n)) (huuid : P .randomUuid) (hlabel : ∀ label ∈ labels, P (.text label))
    (p : Position) : ∀ value ∈ p.literals, P value := by
  have haccount := hlabel (Vocabulary.label p.account) (by simp [labels, label_mem_labelsOf])
  have hdirection := hlabel (Vocabulary.label p.direction) (by simp [labels, label_mem_labelsOf])
  have hstage := hlabel (Vocabulary.label p.stage) (by simp [labels, label_mem_labelsOf])
  have hpricing := hlabel (Vocabulary.label p.pricing) (by simp [labels, label_mem_labelsOf])
  simp [literals, hint, hreal, hminutes, huuid, haccount, hdirection, hstage, hpricing]

end Position

end SyntheticRows
