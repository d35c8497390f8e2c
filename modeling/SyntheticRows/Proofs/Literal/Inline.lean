import Mathlib
import SyntheticRows.Pass
import SyntheticRows.Proofs.Literal.Reading

/-!
Texts that stay in their line and in their statement, since they hold neither a line break nor a semicolon. The
tuples of all passes are such texts, whatever is drawn for them.
-/

namespace SyntheticRows

/-- A character that ends neither a line nor a statement. -/
def isInline (c : Char) : Bool :=
  c != '\n' && c != ';'

def Inline (text : List Char) : Prop :=
  ∀ c ∈ text, isInline c

instance (text : List Char) : Decidable (Inline text) :=
  List.decidableBAll _ text

theorem isInline_iff {c : Char} : isInline c ↔ c ≠ '\n' ∧ c ≠ ';' := by
  simp [isInline]

theorem isInline_of_isDigit {c : Char} (h : c.isDigit) : isInline c := by
  rw [isInline_iff]
  constructor
  · rintro rfl
    exact absurd h (by decide)
  · rintro rfl
    exact absurd h (by decide)

namespace Inline
variable {s t : List Char}

theorem newline_not_mem (h : Inline s) : '\n' ∉ s := fun hmem =>
  absurd (h _ hmem) (by decide)

theorem semicolon_not_mem (h : Inline s) : ';' ∉ s := fun hmem =>
  absurd (h _ hmem) (by decide)

theorem append (hs : Inline s) (ht : Inline t) : Inline (s ++ t) :=
  List.forall_mem_append.mpr ⟨hs, ht⟩

theorem intercalate {texts : List (List Char)} (hs : Inline s) (h : ∀ text ∈ texts, Inline text) :
    Inline (s.intercalate texts) :=
  forall_mem_intercalate hs h

end Inline

/-! ### Values -/

namespace Literal

theorem inline_numeral (n : Nat) : Inline (Decimal.numeral n) := fun _ hc =>
  isInline_of_isDigit (Decimal.isDigit_of_mem_numeral hc)

theorem inline_int (n : Int64) : Inline (render (.int n)) := by
  have hsign : Inline ['-'] := by decide
  rw [render, Decimal.signedNumeral]
  split
  · exact hsign.append (inline_numeral _)
  · exact inline_numeral _

theorem inline_real (x : Binary64) : Inline (render (.real x)) := by
  rw [render]
  split
  · decide
  · rename_i hnan
    split
    · split <;> decide
    · rename_i hinf
      intro c hc
      rcases Binary64.mem_plain (Binary64.isFinite_of_not hnan hinf) hc with hc | rfl | rfl
      · exact isInline_of_isDigit hc
      · decide
      · decide

theorem inline_minutesFromNow (n : UInt64) : Inline (render (minutesFromNow n)) := by
  have hfirst : Inline "now() + interval '".toList := by decide
  have hlast : Inline " minute'".toList := by decide
  rw [render_minutesFromNow]
  exact (hfirst.append (inline_numeral _)).append hlast

theorem inline_randomUuid : Inline (render randomUuid) := by
  decide

theorem inline_tuple {values : List Literal} (h : ∀ value ∈ values, Inline value.render) : Inline (tuple values) := by
  have hopen : Inline ['('] := by decide
  have hclose : Inline [')'] := by decide
  have hseparator : Inline [',', ' '] := by decide
  exact (hopen.append (hseparator.intercalate (List.forall_mem_map.mpr h))).append hclose

end Literal

/-! ### Rows -/

theorem Reading.inline_tuple (r : Reading) : Inline r.tuple := by
  apply Literal.inline_tuple
  simp [literals, Literal.inline_int, Literal.inline_minutesFromNow]

theorem Position.inline_tuple (p : Position) : Inline p.tuple :=
  Literal.inline_tuple (p.forall_mem_literals Literal.inline_int Literal.inline_real Literal.inline_minutesFromNow
    Literal.inline_randomUuid (by decide))

theorem Pass.inline_tuple (pass : Pass) (passSeed : Seed) (index : UInt32) : Inline (pass.tuple passSeed index) := by
  cases pass with
  | readings => exact Reading.inline_tuple _
  | positions => exact Position.inline_tuple _

end SyntheticRows
