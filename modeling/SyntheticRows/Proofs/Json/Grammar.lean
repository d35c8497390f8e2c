import SyntheticRows.Json.Record

/-!
The texts of JSON values: which texts are values, whatever blanks and escapes they are written with. The
members of an object are entries, each with a name as it is written and the text of its value.
-/

namespace SyntheticRows.Json

/-! ### Outcomes -/

/-- Whether something is read, and what, without the fault if it is not. -/
theorem toOption_bind {ε α β : Type} (x : Except ε α) (f : α → Except ε β) :
    (x >>= f).toOption = x.toOption.bind fun a => (f a).toOption := by
  cases x <;> rfl

/-! ### Blanks -/

/-- White space between the parts of a text. -/
structure Blanks where
  chars : List Char
  blank : ∀ c ∈ chars, isBlank c

namespace Blanks

def none : Blanks :=
  ⟨[], nofun⟩

end Blanks

theorem skipBlanks_append (b : Blanks) (s : List Char) : skipBlanks (b.chars ++ s) = skipBlanks s :=
  List.dropWhile_append_of_pos b.blank

theorem skipBlanks_cons {c : Char} (h : isBlank c = false) (s : List Char) : skipBlanks (c :: s) = c :: s :=
  List.dropWhile_cons_of_neg (by simp [h])

theorem skipBlanks_skipBlanks (s : List Char) : skipBlanks (skipBlanks s) = skipBlanks s := by
  induction s with
  | nil => rfl
  | cons c s ih =>
    cases h : isBlank c with
    | true =>
      have hskip : skipBlanks (c :: s) = skipBlanks s := List.dropWhile_cons_of_pos h
      rw [hskip, ih]
    | false => rw [skipBlanks_cons h, skipBlanks_cons h]

theorem skipBlanks_blanks (b : Blanks) : skipBlanks b.chars = [] := by
  have := skipBlanks_append b []
  rwa [List.append_nil] at this

/-- The first character that is no blank is found behind the blanks before it. -/
theorem skipBlanks_to (b : Blanks) {c : Char} (h : isBlank c = false) (s : List Char) :
    skipBlanks (b.chars ++ c :: s) = c :: s := by
  rw [skipBlanks_append, skipBlanks_cons h]

theorem expect_to (b : Blanks) {c : Char} (h : isBlank c = false) (s : List Char) :
    expect c (b.chars ++ c :: s) = .ok s := by
  simp only [expect, skipBlanks_to b h, if_true]

theorem expect_ne (b : Blanks) {c d : Char} (h : isBlank d = false) (hne : c ≠ d) (s : List Char) :
    expect c (b.chars ++ d :: s) = .error .malformed := by
  simp only [expect, skipBlanks_to b h, if_neg hne]

/-! ### Strings -/

/-- A part of a string as it is written. -/
inductive Piece
  /-- A character that stands for itself. -/
  | plain (c : Char) (allowed : c ≠ '"' ∧ c ≠ '\\' ∧ ¬c.toNat < 32)
  /-- A letter behind a backslash, and the character for which it stands. -/
  | short (letter c : Char) (stands : shortEscape? letter = some c)
  /-- Four hexadecimal digits behind a backslash and a letter, and their number of 16 bits. -/
  | code (h₁ h₂ h₃ h₄ : Char) (unit : Nat) (stands : hex4? h₁ h₂ h₃ h₄ = some unit)

namespace Piece

def text : Piece → List Char
  | plain c _ => [c]
  | short letter _ _ => ['\\', letter]
  | code h₁ h₂ h₃ h₄ _ _ => ['\\', 'u', h₁, h₂, h₃, h₄]

/-- The characters of a string. A pair of surrogates is one character, and a surrogate alone is none, so a
    string that holds one stands for no text. -/
def meaning? : List Piece → Option (List Char)
  | [] => some []
  | plain c _ :: rest => (meaning? rest).map (c :: ·)
  | short _ c _ :: rest => (meaning? rest).map (c :: ·)
  | code _ _ _ _ unit _ :: rest =>
    if isLowSurrogate unit then none
    else if isHighSurrogate unit then
      match rest with
      | code _ _ _ _ low _ :: rest =>
        if isLowSurrogate low then
          (meaning? rest).map (Char.ofNat (0x10000 + (unit - 0xD800) * 0x400 + (low - 0xDC00)) :: ·)
        else none
      | _ => none
    else (meaning? rest).map (Char.ofNat unit :: ·)

end Piece

/-- A string between its quotes. -/
def literal (pieces : List Piece) : List Char :=
  '"' :: (pieces.flatMap Piece.text ++ ['"'])

/-! ### Numbers -/

structure Exponent where
  letter : Char
  sign : List Char
  digits : List Char
  letter_mem : letter = 'e' ∨ letter = 'E'
  sign_mem : sign = [] ∨ sign = ['+'] ∨ sign = ['-']
  digits_ne : digits ≠ []
  isDigit : ∀ c ∈ digits, c.isDigit

def Exponent.text (e : Exponent) : List Char :=
  e.letter :: (e.sign ++ e.digits)

/-- A number as it is written. No digit stands behind a leading zero; a fraction without digits is none. -/
structure NumberText where
  negative : Bool
  first : Char
  whole : List Char
  fraction : List Char
  exponent : Option Exponent
  first_isDigit : first.isDigit
  whole_isDigit : ∀ c ∈ whole, c.isDigit
  whole_eq : first = '0' → whole = []
  fraction_isDigit : ∀ c ∈ fraction, c.isDigit

namespace NumberText

def exponentText (n : NumberText) : List Char :=
  n.exponent.elim [] Exponent.text

/-- The fraction with its point, and the exponent. -/
def tailText (n : NumberText) : List Char :=
  if n.fraction = [] then n.exponentText else '.' :: (n.fraction ++ n.exponentText)

def unsignedText (n : NumberText) : List Char :=
  n.first :: (n.whole ++ n.tailText)

def text (n : NumberText) : List Char :=
  if n.negative then '-' :: n.unsignedText else n.unsignedText

end NumberText

/-- A text with which no number before it would go on. -/
def Ends (t : List Char) : Prop :=
  ∀ c ∈ t.head?, c.isDigit = false ∧ c ≠ '.' ∧ c ≠ 'e' ∧ c ≠ 'E'

theorem Ends.blanks {t : List Char} (ht : Ends t) (b : Blanks) : Ends (b.chars ++ t) := by
  intro c hc
  cases hchars : b.chars with
  | nil =>
    rw [hchars] at hc
    exact ht c hc
  | cons d rest =>
    have hblank : isBlank c := by
      rw [hchars] at hc
      cases hc
      exact b.blank c (hchars ▸ List.mem_cons_self)
    simp only [isBlank, Bool.or_eq_true, beq_iff_eq] at hblank
    rcases hblank with ((rfl | rfl) | rfl) | rfl <;> decide

/-- The marks behind a value inside brackets. -/
theorem ends_mark {c : Char} (h : c = ',' ∨ c = ']' ∨ c = '\x7d') (t : List Char) : Ends (c :: t) := by
  rintro d hd
  cases hd
  rcases h with rfl | rfl | rfl <;> decide

/-! ### Values -/

/-- A text between blanks. -/
structure Padded where
  before : Blanks
  core : List Char
  after : Blanks

def Padded.text (p : Padded) : List Char :=
  p.before.chars ++ (p.core ++ p.after.chars)

/-- A member of an object as it is written. -/
structure Entry where
  beforeName : Blanks
  name : List Piece
  afterName : Blanks
  value : Padded

namespace Entry

def text (e : Entry) : List Char :=
  e.beforeName.chars ++ (literal e.name ++ (e.afterName.chars ++ ':' :: e.value.text))

/-- The name for which the text stands, if it stands for one. -/
def name? (e : Entry) : Option String :=
  (Piece.meaning? e.name).map String.ofList

end Entry

/-- Parts between brackets, with commas between them; blanks if there is no part. -/
def enclose (opening closing : Char) (inner : Blanks) (parts : List (List Char)) : List Char :=
  opening :: ((if parts = [] then inner.chars else [','].intercalate parts) ++ [closing])

def listText (inner : Blanks) (items : List Padded) : List Char :=
  enclose '[' ']' inner (items.map Padded.text)

def objectText (inner : Blanks) (entries : List Entry) : List Char :=
  enclose '\x7b' '\x7d' inner (entries.map Entry.text)

/-- The texts of values, without blanks around them. -/
inductive IsValue : List Char → Prop
  | nullWord : IsValue ['n', 'u', 'l', 'l']
  | trueWord : IsValue ['t', 'r', 'u', 'e']
  | falseWord : IsValue ['f', 'a', 'l', 's', 'e']
  | number (n : NumberText) : IsValue n.text
  | string (pieces : List Piece) : IsValue (literal pieces)
  | list (inner : Blanks) (items : List Padded) (values : ∀ item ∈ items, IsValue item.core) :
    IsValue (listText inner items)
  | object (inner : Blanks) (entries : List Entry) (values : ∀ entry ∈ entries, IsValue entry.value.core) :
    IsValue (objectText inner entries)

end SyntheticRows.Json
