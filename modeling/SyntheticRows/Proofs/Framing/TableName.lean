import Mathlib
import SyntheticRows.Framing
import SyntheticRows.Proofs.Text

/-!
The names that can stand in a statement. A name is valid just if it consists of identifiers joined by single
dots; an identifier is made of letters, digits and underscores of the ASCII range and does not begin with a
digit. The identifiers of a valid name are what stands between its dots (`dotted_iff_splitOn`). So there is one way
only to take it apart, and names joined by a dot are valid just if each of them is.
-/

namespace SyntheticRows.TableName

/-! ### The grammar -/

def IsLetter (c : Char) : Prop :=
  'a' ≤ c ∧ c ≤ 'z' ∨ 'A' ≤ c ∧ c ≤ 'Z'

def IsDecimal (c : Char) : Prop :=
  '0' ≤ c ∧ c ≤ '9'

inductive Identifier : List Char → Prop
  | intro {c : Char} {rest : List Char} (head : IsLetter c ∨ c = '_')
      (tail : ∀ d ∈ rest, IsLetter d ∨ IsDecimal d ∨ d = '_') : Identifier (c :: rest)

/-- Identifiers joined by single dots, at least one. -/
def Dotted (name : List Char) : Prop :=
  ∃ parts, parts ≠ [] ∧ (∀ part ∈ parts, Identifier part) ∧ name = ['.'].intercalate parts

/-- A character that stands in no identifier and is no dot. -/
def Foreign (c : Char) : Prop :=
  ¬(IsLetter c ∨ IsDecimal c ∨ c = '_' ∨ c = '.')

/-! ### Characters -/

theorem isAlpha_iff {c : Char} : c.isAlpha ↔ IsLetter c := by
  simp only [Char.isAlpha, Char.isUpper, Char.isLower, IsLetter, Bool.or_eq_true, Bool.and_eq_true,
    decide_eq_true_eq, Char.le_def]
  exact Or.comm

theorem isHead_iff {c : Char} : isHead c ↔ IsLetter c ∨ c = '_' := by
  rw [isHead, Bool.or_eq_true, isAlpha_iff, beq_iff_eq]

theorem isTail_iff {c : Char} : isTail c ↔ IsLetter c ∨ IsDecimal c ∨ c = '_' := by
  have hdigit : c.isDigit ↔ IsDecimal c := by
    simp only [Char.isDigit, IsDecimal, Bool.and_eq_true, decide_eq_true_eq, Char.le_def]
  rw [isTail, Bool.or_eq_true, Char.isAlphanum, Bool.or_eq_true, isAlpha_iff, hdigit, beq_iff_eq, or_assoc]

theorem foreign_iff {c : Char} : Foreign c ↔ ¬isTail c ∧ c ≠ '.' := by
  rw [Foreign, isTail_iff, ← not_or, or_assoc, or_assoc]

instance : DecidablePred Foreign := fun _ =>
  decidable_of_iff' _ foreign_iff

/-- Foreign are the characters outside of the ASCII range, and in it the space and the controls before it. -/
theorem foreign_of_toNat {c : Char} (h : 128 ≤ c.toNat ∨ c.toNat ≤ 32) : Foreign c := by
  have hletter : IsLetter c → 65 ≤ c.toNat ∧ c.toNat ≤ 122 := by
    rintro (⟨ha, hz⟩ | ⟨ha, hz⟩)
    · exact ⟨Nat.le_trans (by decide) ha, hz⟩
    · exact ⟨ha, Nat.le_trans hz (by decide)⟩
  have hdecimal : IsDecimal c → 48 ≤ c.toNat ∧ c.toNat ≤ 57 := id
  rintro (hc | hc | rfl | rfl)
  · have := hletter hc
    omega
  · have := hdecimal hc
    omega
  · exact absurd h (by decide)
  · exact absurd h (by decide)

/-- Quotes, parentheses and the semicolon are foreign. -/
theorem foreign_of_mem_marks {c : Char} (h : c ∈ "'\"`();".toList) : Foreign c := by
  -- Decided for the marks alone: a statement about any `c` would be decided for every character there is.
  have hmarks : "'\"`();".toList.all fun c => decide (Foreign c) := by decide
  exact of_decide_eq_true (List.all_eq_true.mp hmarks c h)

theorem ne_dot_of_isTail {c : Char} (h : isTail c) : c ≠ '.' := by
  rintro rfl
  exact absurd h (by decide)

/-! ### Reading names -/

theorem continuesValid_append {tail : List Char} (h : ∀ c ∈ tail, isTail c) (rest : List Char) :
    continuesValid (tail ++ rest) = continuesValid rest := by
  induction tail with
  | nil => rfl
  | cons c tail ih =>
    obtain ⟨hc, htail⟩ := List.forall_mem_cons.mp h
    rw [List.cons_append, continuesValid, if_neg (ne_dot_of_isTail hc), hc, Bool.true_and, ih htail]

theorem beginsValid_append {part : List Char} (h : Identifier part) (rest : List Char) :
    beginsValid (part ++ rest) = continuesValid rest := by
  obtain ⟨head, tail⟩ := h
  rw [List.cons_append, beginsValid, isHead_iff.mpr head, Bool.true_and,
    continuesValid_append fun d hd => isTail_iff.mpr (tail d hd)]

theorem continuesValid_flatMap {parts : List (List Char)} (h : ∀ part ∈ parts, Identifier part) :
    continuesValid (parts.flatMap (['.'] ++ ·)) := by
  induction parts with
  | nil => rfl
  | cons part parts ih =>
    obtain ⟨hpart, hparts⟩ := List.forall_mem_cons.mp h
    rw [List.flatMap_cons, List.append_assoc, List.singleton_append, continuesValid, if_pos rfl,
      beginsValid_append hpart]
    exact ih hparts

/-- What is read as a name are identifiers behind dots; before them stands an identifier, or what may follow
    in one. The two readers call each other, so both are treated in one induction. -/
theorem parts_of_valid (s : List Char) :
    (beginsValid s → ∃ (part : List Char) (parts : List (List Char)), Identifier part ∧
      (∀ p ∈ parts, Identifier p) ∧ s = part ++ parts.flatMap (['.'] ++ ·)) ∧
    (continuesValid s → ∃ (tail : List Char) (parts : List (List Char)), (∀ c ∈ tail, isTail c) ∧
      (∀ p ∈ parts, Identifier p) ∧ s = tail ++ parts.flatMap (['.'] ++ ·)) := by
  induction s with
  | nil =>
    constructor
    · intro h
      cases h
    · intro _
      exact ⟨[], [], by simp, by simp, rfl⟩
  | cons c rest ih =>
    obtain ⟨ihBegins, ihContinues⟩ := ih
    constructor
    · intro h
      rw [beginsValid, Bool.and_eq_true] at h
      obtain ⟨tail, parts, htail, hparts, rfl⟩ := ihContinues h.2
      exact ⟨c :: tail, parts, ⟨isHead_iff.mp h.1, fun d hd => isTail_iff.mp (htail d hd)⟩, hparts, rfl⟩
    · intro h
      rw [continuesValid] at h
      split at h
      · rename_i hdot
        obtain ⟨part, parts, hpart, hparts, rfl⟩ := ihBegins h
        refine ⟨[], part :: parts, by simp, List.forall_mem_cons.mpr ⟨hpart, hparts⟩, ?_⟩
        rw [hdot, List.flatMap_cons]
        rfl
      · rw [Bool.and_eq_true] at h
        obtain ⟨tail, parts, htail, hparts, rfl⟩ := ihContinues h.2
        exact ⟨c :: tail, parts, List.forall_mem_cons.mpr ⟨h.1, htail⟩, hparts, rfl⟩

theorem beginsValid_iff {s : List Char} : beginsValid s ↔ Dotted s := by
  constructor
  · intro h
    obtain ⟨part, parts, hpart, hparts, rfl⟩ := (parts_of_valid s).1 h
    refine ⟨part :: parts, List.cons_ne_nil _ _, List.forall_mem_cons.mpr ⟨hpart, hparts⟩, ?_⟩
    rw [intercalate_cons]
  · rintro ⟨parts, hne, hparts, rfl⟩
    obtain ⟨part, parts, rfl⟩ := List.exists_cons_of_ne_nil hne
    obtain ⟨hpart, hparts⟩ := List.forall_mem_cons.mp hparts
    rw [intercalate_cons, beginsValid_append hpart]
    exact continuesValid_flatMap hparts

theorem isTail_of_mem_identifier {part : List Char} (h : Identifier part) : ∀ c ∈ part, isTail c := by
  obtain ⟨head, tail⟩ := h
  refine List.forall_mem_cons.mpr ⟨isTail_iff.mpr ?_, fun d hd => isTail_iff.mpr (tail d hd)⟩
  rcases head with hletter | hunderscore
  · exact Or.inl hletter
  · exact Or.inr (Or.inr hunderscore)

/-- A valid name holds no character but those of its identifiers and the dots between them. -/
theorem isTail_or_dot_of_mem {name : List Char} (h : Dotted name) : ∀ c ∈ name, isTail c ∨ c = '.' := by
  obtain ⟨parts, -, hparts, rfl⟩ := h
  refine forall_mem_intercalate (fun c hc => Or.inr (List.mem_singleton.mp hc)) fun part hpart c hc => ?_
  exact Or.inl (isTail_of_mem_identifier (hparts part hpart) c hc)

theorem isValid_iff {name : String} : isValid name ↔ Dotted name.toList :=
  beginsValid_iff

theorem not_mem_of_foreign {name : List Char} {c : Char} (h : Dotted name) (hc : Foreign c) : c ∉ name := fun hmem => by
  obtain ⟨htail, hdot⟩ := foreign_iff.mp hc
  exact (isTail_or_dot_of_mem h c hmem).elim htail hdot

theorem not_isValid_of_foreign {c : Char} (hc : Foreign c) (before after : String) :
    ¬isValid (before ++ String.singleton c ++ after) := fun h =>
  not_mem_of_foreign (isValid_iff.mp h) hc (by simp)

/-! ### What stands between the dots -/

theorem splitOn_parts {parts : List (List Char)} (hne : parts ≠ []) (h : ∀ part ∈ parts, Identifier part) :
    (['.'].intercalate parts).splitOn '.' = parts := by
  refine List.splitOn_intercalate '.' (fun part hpart hdot => ?_) hne
  exact ne_dot_of_isTail (isTail_of_mem_identifier (h part hpart) _ hdot) rfl

/-- The grammar asks that each piece between dots is an identifier, the pieces at the ends included. -/
theorem dotted_iff_splitOn {name : List Char} : Dotted name ↔ ∀ part ∈ name.splitOn '.', Identifier part := by
  constructor
  · rintro ⟨parts, hne, hparts, rfl⟩
    rwa [splitOn_parts hne hparts]
  · intro h
    exact ⟨name.splitOn '.', List.splitOn_ne_nil _ _, h, (List.intercalate_splitOn '.').symm⟩

theorem existsUnique_of_dotted {name : List Char} (h : Dotted name) :
    ∃! parts : List (List Char), parts ≠ [] ∧ (∀ part ∈ parts, Identifier part) ∧
      name = ['.'].intercalate parts := by
  obtain ⟨parts, hne, hparts, hname⟩ := h
  refine ⟨parts, ⟨hne, hparts, hname⟩, ?_⟩
  rintro others ⟨hne', hothers, hname'⟩
  calc
    others = (['.'].intercalate others).splitOn '.' := (splitOn_parts hne' hothers).symm
    _ = (['.'].intercalate parts).splitOn '.' := by rw [← hname', hname]
    _ = parts := splitOn_parts hne hparts

theorem dotted_append_dot {name other : List Char} : Dotted (name ++ '.' :: other) ↔ Dotted name ∧ Dotted other := by
  rw [dotted_iff_splitOn, dotted_iff_splitOn, dotted_iff_splitOn, List.splitOn_append_cons_self,
    List.forall_mem_append]

theorem isValid_append_dot {name other : String} : isValid (name ++ "." ++ other) ↔ isValid name ∧ isValid other := by
  rw [isValid_iff, isValid_iff, isValid_iff, String.toList_append, String.toList_append, List.append_assoc]
  exact dotted_append_dot

theorem not_isValid_leading_dot (name : String) : ¬isValid ("." ++ name) := fun h => by
  have hparts : isValid ("" ++ "." ++ name) := by rwa [String.empty_append]
  exact absurd (isValid_append_dot.mp hparts).1 (by decide)

theorem not_isValid_trailing_dot (name : String) : ¬isValid (name ++ ".") := fun h => by
  have hparts : isValid (name ++ "." ++ "") := by rwa [String.append_empty]
  exact absurd (isValid_append_dot.mp hparts).2 (by decide)

/-- Of two dots in a row, the second one leads what stands behind the first. -/
theorem not_isValid_double_dot (before after : String) : ¬isValid (before ++ ".." ++ after) := fun h => by
  have hdots : before ++ ".." ++ after = before ++ "." ++ ("." ++ after) := by
    rw [show ".." = "." ++ "." from rfl, String.append_assoc, String.append_assoc, String.append_assoc]
  rw [hdots] at h
  exact not_isValid_leading_dot after (isValid_append_dot.mp h).2

/-- A name is accepted just if it consists of identifiers joined by single dots, and then there is one way only to
    take it apart. A foreign character is refused wherever it stands; such are all characters outside of the ASCII
    range, white space, quotes, parentheses and the semicolon. So are a dot at either end and two dots in a row.
    Two names joined by a dot are accepted just if both of them are. -/
theorem accepts_dotted_names :
    (∀ name : String, (isValid name ↔ Dotted name.toList) ∧
      (isValid name ↔ ∃! parts : List (List Char), parts ≠ [] ∧ (∀ part ∈ parts, Identifier part) ∧
        name.toList = ['.'].intercalate parts)) ∧
    (∀ (before after : String) (c : Char), Foreign c → ¬isValid (before ++ String.singleton c ++ after)) ∧
    (∀ c : Char, 128 ≤ c.toNat ∨ c.toNat ≤ 32 ∨ c ∈ "'\"`();".toList → Foreign c) ∧
    (∀ name : String, ¬isValid ("." ++ name) ∧ ¬isValid (name ++ ".")) ∧
    (∀ before after : String, ¬isValid (before ++ ".." ++ after)) ∧
    ∀ name other : String, isValid (name ++ "." ++ other) ↔ isValid name ∧ isValid other := by
  refine ⟨fun name => ⟨isValid_iff, ?_⟩, fun before after c hc => not_isValid_of_foreign hc before after, ?_,
    fun name => ⟨not_isValid_leading_dot name, not_isValid_trailing_dot name⟩, not_isValid_double_dot,
    fun name other => isValid_append_dot⟩
  · rw [isValid_iff]
    exact ⟨existsUnique_of_dotted, ExistsUnique.exists⟩
  · rintro c (hfar | hblank | hmark)
    · exact foreign_of_toNat (Or.inl hfar)
    · exact foreign_of_toNat (Or.inr hblank)
    · exact foreign_of_mem_marks hmark

/-- A digit of another script is refused where a digit of the ASCII range may stand. -/
theorem accepts_dotted_names_without_foreign_digit : Foreign '٣' ∧ ¬isValid "t٣.u" ∧ isValid "t3.u" := by
  have hforeign : Foreign '٣' := accepts_dotted_names.2.2.1 '٣' (Or.inl (by decide))
  have hrefused : ¬isValid "t٣.u" := accepts_dotted_names.2.1 "t" ".u" '٣' hforeign
  have haccepted : isValid "t3.u" := (accepts_dotted_names.2.2.2.2.2 "t3" "u").mpr ⟨by decide, by decide⟩
  exact ⟨hforeign, hrefused, haccepted⟩

end SyntheticRows.TableName
