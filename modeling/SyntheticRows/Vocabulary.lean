/-!
Closed vocabularies: types whose values are written as one label each and are read back from it.
-/

namespace SyntheticRows

/-- A type with finitely many values, each with a label of its own. -/
class Vocabulary (α : Type) where
  /-- What the labels name, as error messages say it. -/
  kind : String
  /-- Every value, in the order in which the vocabulary lists them. -/
  all : List α
  label : α → String

/-- A text that is no label of the vocabulary of a kind. -/
structure UnknownLabel where
  kind : String
  label : String
deriving DecidableEq, Repr

namespace UnknownLabel

def message (e : UnknownLabel) : String :=
  "unknown " ++ e.kind ++ " label: '" ++ e.label ++ "'"

end UnknownLabel

namespace Vocabulary

variable {α : Type} [Vocabulary α]

/-- The value with a label. -/
def find? (label : String) : Option α :=
  (all : List α).find? (Vocabulary.label · == label)

/-- The value with a label, or a refusal that names the label. -/
def parse (label : String) : Except UnknownLabel α :=
  match find? label with
  | some value => .ok value
  | none => .error ⟨kind α, label⟩

end Vocabulary

end SyntheticRows
