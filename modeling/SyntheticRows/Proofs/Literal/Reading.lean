import Mathlib
import SyntheticRows.Proofs.Binary64.Plain
import SyntheticRows.Proofs.Literal.Fields
import SyntheticRows.Proofs.Vocabulary

/-!
Written values read back. Each kind of value that rows hold has a reader that gives the value of its written
form, and each written form is whole, so a tuple can be taken apart into them.
-/

namespace SyntheticRows

/-! ### Numbers that are none -/

namespace Binary64

/-- The pattern that stands for all the patterns that are no number. -/
def nan : Binary64 :=
  ofRank false (infiniteRank + binade / 2)

/-- The number itself. All patterns that are no number become one. -/
def canonical (x : Binary64) : Binary64 :=
  if x.isNaN then nan else x

theorem isNaN_nan : nan.isNaN := by
  decide

theorem isNaN_canonical (x : Binary64) : x.canonical.isNaN = x.isNaN := by
  unfold canonical
  split
  · rename_i h
    rw [h, isNaN_nan]
  · rfl

theorem canonical_eq_iff {x y : Binary64} : x.canonical = y.canonical ↔ x = y ∨ x.isNaN ∧ y.isNaN := by
  constructor
  · intro h
    have hnan : x.isNaN = y.isNaN := by rw [← isNaN_canonical x, h, isNaN_canonical]
    by_cases hx : x.isNaN
    · exact Or.inr ⟨hx, hnan ▸ hx⟩
    · rw [canonical, canonical, if_neg hx, if_neg (hnan ▸ hx)] at h
      exact Or.inl h
  · rintro (rfl | ⟨hx, hy⟩)
    · rfl
    · rw [canonical, canonical, if_pos hx, if_pos hy]

theorem isFinite_of_not {x : Binary64} (hnan : ¬x.isNaN) (hinf : ¬x.isInfinite) : x.isFinite := by
  simp only [isNaN, isInfinite, isFinite, decide_eq_true_eq, beq_iff_eq] at *
  omega

theorem eq_of_isInfinite {x : Binary64} (h : x.isInfinite) : x = ofRank x.isNegative infiniteRank := by
  have hrank : x.rank = infiniteRank := beq_iff_eq.mp h
  rw [← hrank, ofRank_rank]

end Binary64

namespace Literal

/-! ### Quoted texts -/

/-- Takes one of any two quotes that follow each other. -/
def undouble : List Char → List Char
  | '\'' :: '\'' :: rest => '\'' :: undouble rest
  | c :: rest => c :: undouble rest
  | [] => []

def unquote? : List Char → Option (List Char)
  | '\'' :: rest => if rest.getLast? = some '\'' then some (undouble rest.dropLast) else none
  | _ => none

theorem undouble_doubled (text : List Char) :
    undouble (text.flatMap fun c => if c = '\'' then ['\'', '\''] else [c]) = text := by
  induction text with
  | nil => rfl
  | cons c text ih =>
    rw [List.flatMap_cons]
    split
    · rename_i hc
      subst hc
      exact congrArg _ ih
    · rename_i hc
      rw [List.singleton_append, undouble, ih]
      exact fun _ hr _ => hc hr

theorem unquote?_quoted (text : List Char) : unquote? (quoted text) = some text := by
  rw [quoted, List.cons_append, unquote?, List.getLast?_concat, if_pos rfl, List.dropLast_concat, undouble_doubled]

/-! ### Whole numbers -/

def signedValue : List Char → Int
  | '-' :: digits => -(Digits.value digits : Int)
  | digits => Digits.value digits

theorem signedValue_signedNumeral (n : Int) : signedValue (Decimal.signedNumeral n) = n := by
  unfold Decimal.signedNumeral
  split
  · rw [signedValue, Decimal.value_numeral]
    omega
  · have hne : ∀ rest, Decimal.numeral n.natAbs ≠ '-' :: rest := fun rest h => by
      have := Decimal.isDigit_of_mem_numeral (h ▸ List.mem_cons_self)
      exact absurd this (by decide)
    rw [signedValue, Decimal.value_numeral]
    · omega
    · exact fun rest => hne rest

theorem isQuiet_of_isDigit {c : Char} (h : c.isDigit) : Scan.isQuiet c := by
  simp only [Scan.isQuiet, decide_eq_true_eq, List.mem_cons, List.not_mem_nil, or_false]
  rintro (rfl | rfl | rfl | rfl) <;> exact absurd h (by decide)

/-! ### Readers -/

def readInt (text : List Char) : Int64 :=
  Int64.ofInt (signedValue text)

def readReal (text : List Char) : Binary64 :=
  if text = quoted ['N', 'a', 'N'] then Binary64.nan
  else if text = quoted "Infinity".toList then Binary64.ofRank false Binary64.infiniteRank
  else if text = quoted "-Infinity".toList then Binary64.ofRank true Binary64.infiniteRank
  else Binary64.ofPlain text

/-- Reads the value of a vocabulary from its quoted label. -/
def readLabel? {α : Type} [Vocabulary α] (text : List Char) : Option α :=
  (unquote? text).bind fun label => Vocabulary.find? (String.ofList label)

/-- Reads the number of minutes in the expression for a moment so many minutes later. -/
def readMinutes (text : List Char) : UInt64 :=
  UInt64.ofNat (Digits.value (text.filter (·.isDigit)))

theorem readInt_render (n : Int64) : readInt (render (.int n)) = n := by
  rw [readInt, render, signedValue_signedNumeral, Int64.ofInt_toInt]

theorem readReal_render (x : Binary64) : readReal (render (.real x)) = x.canonical := by
  rw [render]
  split
  · rename_i hnan
    rw [readReal, if_pos rfl, Binary64.canonical, if_pos hnan]
  · rename_i hnan
    rw [Binary64.canonical, if_neg hnan]
    split
    · rename_i hinf
      have hx := Binary64.eq_of_isInfinite hinf
      split
      · rename_i hneg
        rw [hneg] at hx
        rw [hx]
        rfl
      · rename_i hneg
        rw [Bool.not_eq_true] at hneg
        rw [hneg] at hx
        rw [hx]
        rfl
    · rename_i hinf
      have hfinite := Binary64.isFinite_of_not hnan hinf
      -- No positional text holds a quote.
      have hne : ∀ text, x.plain ≠ quoted text := fun text h => by
        have hquote : '\'' ∈ x.plain := by
          rw [h]
          exact List.mem_cons_self
        rcases Binary64.mem_plain hfinite hquote with hc | hc | hc <;> exact absurd hc (by decide)
      rw [readReal, if_neg (hne _), if_neg (hne _), if_neg (hne _), Binary64.ofPlain_plain hfinite]

theorem readLabel?_render {α : Type} [Vocabulary α] [LawfulVocabulary α] (a : α) :
    readLabel? (render (.text (Vocabulary.label a))) = some a := by
  rw [readLabel?, render, unquote?_quoted, Option.bind_some, String.ofList_toList, find?_label]

theorem render_minutesFromNow (n : UInt64) : render (minutesFromNow n) =
    "now() + interval '".toList ++ Decimal.numeral n.toNat ++ " minute'".toList := by
  rw [minutesFromNow, render, String.toList_append, String.toList_append, @String.toList_ofList (Decimal.numeral _)]

theorem readMinutes_render (n : UInt64) : readMinutes (render (minutesFromNow n)) = n := by
  have hdigits : (Decimal.numeral n.toNat).filter (·.isDigit) = Decimal.numeral n.toNat :=
    List.filter_eq_self.mpr fun c => Decimal.isDigit_of_mem_numeral
  have hfirst : "now() + interval '".toList.filter (·.isDigit) = [] := rfl
  have hlast : " minute'".toList.filter (·.isDigit) = [] := rfl
  rw [readMinutes, render_minutesFromNow, List.filter_append, List.filter_append, hfirst, hlast, hdigits,
    List.nil_append, List.append_nil, Decimal.value_numeral, UInt64.ofNat_toNat]

theorem render_canonical (x : Binary64) : render (.real x.canonical) = render (.real x) := by
  by_cases h : x.isNaN
  · rw [render, render, Binary64.isNaN_canonical, if_pos h, if_pos h]
  · rw [Binary64.canonical, if_neg h]

/-! ### Whole values -/

theorem whole_int (n : Int64) : Whole (render (.int n)) := by
  refine whole_of_quiet fun c hc => ?_
  rw [render, Decimal.signedNumeral] at hc
  split at hc
  · rcases List.mem_cons.mp hc with rfl | hc
    · decide
    · exact isQuiet_of_isDigit (Decimal.isDigit_of_mem_numeral hc)
  · exact isQuiet_of_isDigit (Decimal.isDigit_of_mem_numeral hc)

theorem whole_real (x : Binary64) : Whole (render (.real x)) := by
  rw [render]
  split
  · exact whole_quoted _
  · split
    · exact whole_quoted _
    · rename_i hnan hinf
      refine whole_of_quiet fun c hc => ?_
      rcases Binary64.mem_plain (Binary64.isFinite_of_not hnan hinf) hc with hc | rfl | rfl
      · exact isQuiet_of_isDigit hc
      · decide
      · decide

theorem whole_text (text : String) : Whole (render (.text text)) :=
  whole_quoted _

theorem whole_randomUuid : Whole (render randomUuid) := by
  decide

theorem whole_minutesFromNow (n : UInt64) : Whole (render (minutesFromNow n)) := by
  have hopen : Scan.top.run? "now() + interval '".toList = some ⟨true, 0⟩ := by decide
  have hclose : Scan.run? ⟨true, 0⟩ " minute'".toList = some Scan.top := by decide
  have hdigits : Scan.run? ⟨true, 0⟩ (Decimal.numeral n.toNat) = some ⟨true, 0⟩ :=
    Scan.run?_quiet _ fun _ hc => isQuiet_of_isDigit (Decimal.isDigit_of_mem_numeral hc)
  rw [render_minutesFromNow, List.append_assoc]
  exact (Scan.run?_append hopen _).trans ((Scan.run?_append hdigits _).trans hclose)

/-! ### Tuples -/

/-- The values of which rows are made: numbers, texts, and the two expressions that rows hold. -/
inductive Standard : Literal → Prop
  | int (n : Int64) : Standard (.int n)
  | real (x : Binary64) : Standard (.real x)
  | text (s : String) : Standard (.text s)
  | minutesFromNow (n : UInt64) : Standard (minutesFromNow n)
  | randomUuid : Standard randomUuid

theorem Standard.whole {value : Literal} (h : value.Standard) : Whole value.render := by
  cases h with
  | int n => exact whole_int n
  | real x => exact whole_real x
  | text s => exact whole_text s
  | minutesFromNow n => exact whole_minutesFromNow n
  | randomUuid => exact whole_randomUuid

/-- Nothing that a value holds breaks its tuple: between the outer parentheses, the commas outside of quotes and of
    parentheses part just the written forms of the values, and no other whole texts make the same tuple. A text
    comes back from between its quotes. -/
theorem tuple_unbreakable {values : List Literal} (hne : values ≠ []) (h : ∀ value ∈ values, value.Standard) :
    fields? (tuple values) = some (values.map render) ∧
      (∀ texts, texts ≠ [] → (∀ text ∈ texts, Whole text) →
        '(' :: ", ".toList.intercalate texts ++ [')'] = tuple values → texts = values.map render) ∧
      ∀ text, .text text ∈ values → unquote? (render (.text text)) = some text.toList := by
  have hfields := fields?_tuple hne fun value hvalue => (h value hvalue).whole
  refine ⟨hfields, fun texts htexts hwhole heq => ?_, fun text _ => unquote?_quoted text.toList⟩
  have hother := fields?_intercalate htexts hwhole
  rw [show [',', ' '] = ", ".toList from rfl, heq, hfields] at hother
  exact (Option.some.inj hother).symm

/-- Texts of quotes, commas and parentheses, alone and next to an expression that has its own. -/
theorem tuple_unbreakable_by_quotes :
    let values : List Literal := [.text "'", .text "", .text "', (b", minutesFromNow 15, .text ")''\n", randomUuid]
    (values ≠ [] ∧ ∀ value ∈ values, value.Standard) ∧
      tuple values = "('''', '', ''', (b', now() + interval '15 minute', ')''''\n', gen_random_uuid())".toList ∧
      fields? (tuple values) = some ["''''".toList, "''".toList, "''', (b'".toList,
        "now() + interval '15 minute'".toList, "')''''\n'".toList, "gen_random_uuid()".toList] ∧
      unquote? (render (.text "', (b")) = some "', (b".toList := by
  intro values
  have hne : values ≠ [] := List.cons_ne_nil _ _
  have hstandard : ∀ value ∈ values, value.Standard := by
    simp [values, Standard.text, Standard.minutesFromNow, Standard.randomUuid]
  obtain ⟨hfields, -, htexts⟩ := tuple_unbreakable hne hstandard
  exact ⟨⟨hne, hstandard⟩, by decide, hfields, htexts _ (by simp [values])⟩

end Literal

end SyntheticRows
