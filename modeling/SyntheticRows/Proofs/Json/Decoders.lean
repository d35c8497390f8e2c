import Mathlib
import SyntheticRows.Position.Json
import SyntheticRows.Proofs.Json.Record
import SyntheticRows.Reading.Json
import SyntheticRows.Report.Json

/-!
The readers of options, readings, positions and reports take values.
-/

namespace SyntheticRows

open Json

/-! ### Labels -/

namespace Json

section
variable {α : Type} [Vocabulary α]

/-- Reads what stands behind a label that is written as a name with null. -/
def labelContent (name : String) : Reader α :=
  converted nullWord fun _ => ((Vocabulary.find? name : Option α).map Except.ok).getD (.error .malformed)

theorem label_eq : (label : Reader α) =
    choice ((Vocabulary.all : List α).map Vocabulary.label) Vocabulary.find? labelContent := by
  rw [label]
  congr 1
  funext name s
  rw [labelContent, converted]
  congr 1
  funext r
  cases (Vocabulary.find? name : Option α) <;> rfl

theorem takesValues_label : TakesValues (label : Reader α) := by
  rw [label_eq]
  exact takesValues_choice fun _ => takesValues_nullWord.converted _

end

end Json

/-! ### Options -/

namespace Framing

theorem tableMembers_takeValues : tableMembers.TakeValues :=
  ⟨takesValues_string, takesValues_string, trivial⟩

def content (name : String) : Reader Framing :=
  if name = "row_literals" then converted nullWord fun _ => .ok .lines
  else record tableMembers fun (reading, position, _) => .statements reading position

theorem fromJson_eq : fromJson = choice ["row_literals", "insert_statement"]
    (fun name => if name = "row_literals" then some .lines else none) content := by
  rw [fromJson]
  congr 1
  funext name s
  rw [content]
  split
  · rfl
  · rfl

theorem takesValues_content (name : String) : TakesValues (content name) := by
  rw [content]
  split
  · exact takesValues_nullWord.converted _
  · exact takesValues_record tableMembers_takeValues (by decide)

theorem takesValues_fromJson : TakesValues fromJson :=
  fromJson_eq ▸ takesValues_choice takesValues_content

end Framing

theorem Options.members_takeValues : Options.members.TakeValues :=
  ⟨takesValues_optional takesValues_uint64, takesValues_uint64, takesValues_uint64,
    takesValues_array takesValues_label, Framing.takesValues_fromJson, trivial⟩

/-! ### Records -/

theorem Reading.members_takeValues : Reading.members.TakeValues :=
  ⟨takesValues_int64, takesValues_uint64, trivial⟩

theorem Position.members_takeValues : Position.members.TakeValues :=
  ⟨takesValues_label, takesValues_label, takesValues_label, takesValues_label, takesValues_real64, takesValues_real64,
    takesValues_int64, takesValues_int64, takesValues_int64, takesValues_int64, takesValues_uint64, takesValues_real64,
    takesValues_real64, takesValues_real64, takesValues_real64, takesValues_real64, takesValues_real64,
    takesValues_int64, takesValues_int64, takesValues_int64, trivial⟩

/-! ### Reports -/

theorem PassReport.members_takeValues : PassReport.members.TakeValues :=
  ⟨takesValues_label, takesValues_uint64, takesValues_uint64, takesValues_uint64, trivial⟩

theorem PassReport.takesValues_fromJson : TakesValues PassReport.fromJson :=
  takesValues_record members_takeValues (by decide)

namespace Instant

/-- The moment of a text. -/
def ofText (text : String) : Except Json.Fault Instant :=
  match parse? text.toList with
  | some t => .ok t
  | none => .error .malformed

theorem fromJson_eq : fromJson = converted string ofText := by
  funext s
  rw [fromJson, converted]
  congr 1
  funext r
  simp only [ofText]
  cases parse? r.1.toList <;> rfl

theorem takesValues_fromJson : TakesValues fromJson :=
  fromJson_eq ▸ takesValues_string.converted _

end Instant

theorem Report.members_takeValues : Report.members.TakeValues :=
  ⟨takesValues_string, takesValues_uint64, Instant.takesValues_fromJson,
    takesValues_array PassReport.takesValues_fromJson, takesValues_uint64, trivial⟩

end SyntheticRows
