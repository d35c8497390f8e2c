import Mathlib.Data.List.Basic
import SyntheticRows.Toml.Document

/-!
The texts of TOML documents: blanks, comments and line breaks, strings in their four notations, keys, values, and
the clauses of a document. A document is related to its clauses (`IsDocument`): the assignments and headers in their
order, with strings and keys as they are meant. Numbers, dates and times stay as they are written, and a clause need
not keep the rules for tables.
-/

namespace SyntheticRows.Toml

/-! ### Blanks and lines -/

def IsBlanks (s : List Char) : Prop :=
  ∀ c ∈ s, isBlank c

inductive IsLineBreak : List Char → Prop
  | newline : IsLineBreak ['\n']
  | returned : IsLineBreak ['\r', '\n']

/-- What may stand behind a clause in its line: blanks, and a comment. -/
inductive IsMargin : List Char → Prop
  | blanks {b : List Char} (blanks : IsBlanks b) : IsMargin b
  | comment {b s : List Char} (blanks : IsBlanks b) (printable : ∀ c ∈ s, isPrintable c) : IsMargin (b ++ '#' :: s)

/-- Blanks, comments and line breaks, with a line break behind each comment. -/
inductive IsGap : List Char → Prop
  | blanks {b : List Char} (blanks : IsBlanks b) : IsGap b
  | line {m n g : List Char} (margin : IsMargin m) (lineBreak : IsLineBreak n) (rest : IsGap g) : IsGap (m ++ (n ++ g))

/-! ### Strings -/

def IsQuote (c : Char) : Prop :=
  c = '"' ∨ c = '\''

/-- What stands behind a backslash, and the character for which it stands. -/
inductive IsEscape : List Char → Char → Prop
  | short {letter c : Char} (stands : shortEscape? letter = some c) : IsEscape [letter] c
  | four {h₁ h₂ h₃ h₄ c : Char} (stands : charOfHex? [h₁, h₂, h₃, h₄] = some c) : IsEscape ['u', h₁, h₂, h₃, h₄] c
  | eight {h₁ h₂ h₃ h₄ h₅ h₆ h₇ h₈ c : Char} (stands : charOfHex? [h₁, h₂, h₃, h₄, h₅, h₆, h₇, h₈] = some c) :
    IsEscape ['U', h₁, h₂, h₃, h₄, h₅, h₆, h₇, h₈] c

/-- A character that stands for itself between quotes. A backslash does not between double quotes. -/
structure IsPlain (quote c : Char) : Prop where
  printable : isPrintable c
  ne_quote : c ≠ quote
  ne_backslash : quote = '"' → c ≠ '\\'

/-- What stands between the quotes of a string in one line, and its characters. -/
inductive IsLineBody (quote : Char) : List Char → List Char → Prop
  | nil : IsLineBody quote [] []
  | plain {c : Char} {s v : List Char} (plain : IsPlain quote c) (rest : IsLineBody quote s v) :
    IsLineBody quote (c :: s) (c :: v)
  | escape {e s v : List Char} {c : Char} (double : quote = '"') (escape : IsEscape e c)
    (rest : IsLineBody quote s v) : IsLineBody quote ('\\' :: (e ++ s)) (c :: v)

/-- Blanks and line breaks. -/
inductive IsWhite : List Char → Prop
  | nil : IsWhite []
  | blank {c : Char} {s : List Char} (blank : isBlank c) (rest : IsWhite s) : IsWhite (c :: s)
  | lineBreak {n s : List Char} (lineBreak : IsLineBreak n) (rest : IsWhite s) : IsWhite (n ++ s)

/-- A text that begins with no blank and no line break. -/
def StartsDark (s : List Char) : Prop :=
  ∀ c ∈ s.head?, isBlank c = false ∧ c ≠ '\n' ∧ c ≠ '\r'

/-- What stands between the quotes of a string of several lines behind so many quotes, and its characters. No three
    quotes stand in a row. A backslash at the end of a line takes the blanks and line breaks behind it away. -/
inductive IsBlockBody (quote : Char) : (quotes : ℕ) → List Char → List Char → Prop
  | nil {k : ℕ} : IsBlockBody quote k [] []
  | quote {k : ℕ} {s v : List Char} (few : k < 2) (rest : IsBlockBody quote (k + 1) s v) :
    IsBlockBody quote k (quote :: s) (quote :: v)
  | plain {k : ℕ} {c : Char} {s v : List Char} (plain : IsPlain quote c) (rest : IsBlockBody quote 0 s v) :
    IsBlockBody quote k (c :: s) (c :: v)
  | lineBreak {k : ℕ} {n s v : List Char} (lineBreak : IsLineBreak n) (rest : IsBlockBody quote 0 s v) :
    IsBlockBody quote k (n ++ s) ('\n' :: v)
  | escape {k : ℕ} {e s v : List Char} {c : Char} (double : quote = '"') (escape : IsEscape e c)
    (rest : IsBlockBody quote 0 s v) : IsBlockBody quote k ('\\' :: (e ++ s)) (c :: v)
  | continued {k : ℕ} {b n w s v : List Char} (double : quote = '"') (blanks : IsBlanks b) (lineBreak : IsLineBreak n)
    (white : IsWhite w) (dark : StartsDark s) (rest : IsBlockBody quote 0 s v) :
    IsBlockBody quote k ('\\' :: (b ++ (n ++ (w ++ s)))) v

/-- What may stand before the characters of a string of several lines: a line break, which does not belong to it. -/
def IsOpening (n body : List Char) : Prop :=
  IsLineBreak n ∨ n = [] ∧ ∀ c ∈ body.head?, c ≠ '\n' ∧ c ≠ '\r'

inductive IsString : List Char → String → Prop
  | line {q : Char} {s v : List Char} (quote : IsQuote q) (body : IsLineBody q s v) :
    IsString (q :: (s ++ [q])) (String.ofList v)
  | block {q : Char} {n s v : List Char} (quote : IsQuote q) (body : IsBlockBody q 0 s v) (opening : IsOpening n s) :
    IsString (q :: q :: q :: (n ++ (s ++ [q, q, q]))) (String.ofList v)

/-! ### Keys -/

/-- A key that needs no quotes. -/
structure IsBare (key : List Char) : Prop where
  ne_nil : key ≠ []
  isBareKeyChar : ∀ c ∈ key, isBareKeyChar c

inductive IsSimpleKey : List Char → String → Prop
  | bare {s : List Char} (bare : IsBare s) : IsSimpleKey s (String.ofList s)
  | quoted {q : Char} {s v : List Char} (quote : IsQuote q) (body : IsLineBody q s v) :
    IsSimpleKey (q :: (s ++ [q])) (String.ofList v)

/-- A key with the dotted keys before it. -/
inductive IsKey : List Char → Key → Prop
  | last {s : List Char} {name : String} (simple : IsSimpleKey s name) : IsKey s ⟨[], name⟩
  | dot {s b b' t : List Char} {name : String} {key : Key} (simple : IsSimpleKey s name) (before : IsBlanks b)
    (after : IsBlanks b') (rest : IsKey t key) : IsKey (s ++ (b ++ '.' :: (b' ++ t))) ⟨name :: key.path, key.last⟩

/-! ### Values -/

/-- A value as a document gives it. -/
inductive Expr
  | text (value : String)
  /-- A number, a date, a time or a truth value as it is written. -/
  | token (written : List Char)
  /-- A date and the time behind it, with a blank between them. -/
  | moment (date time : List Char)
  | list (items : List Expr)
  /-- A table between braces. -/
  | inline (members : List (Key × Expr))

/-- A text of characters of values without quotes. -/
structure IsToken (s : List Char) : Prop where
  ne_nil : s ≠ []
  chars : ∀ c ∈ s, isTokenChar c

section
variable (IsItem : List Char → Expr → Prop)

/-- What stands behind the opening bracket of a list. A comma may stand behind the last item. -/
inductive IsItems : List Char → List Expr → Prop
  | close {g : List Char} (gap : IsGap g) : IsItems (g ++ [']']) []
  | last {g s g' : List Char} {item : Expr} (before : IsGap g) (isItem : IsItem s item) (after : IsGap g') :
    IsItems (g ++ (s ++ (g' ++ [']']))) [item]
  | comma {g s g' t : List Char} {item : Expr} {items : List Expr} (before : IsGap g) (isItem : IsItem s item)
    (after : IsGap g') (rest : IsItems t items) : IsItems (g ++ (s ++ (g' ++ ',' :: t))) (item :: items)

/-- A key, an equals sign and a value. -/
inductive IsAssignment : List Char → Key → Expr → Prop
  | intro {k b b' s : List Char} {key : Key} {value : Expr} (isKey : IsKey k key) (before : IsBlanks b)
    (after : IsBlanks b') (isValue : IsItem s value) : IsAssignment (k ++ (b ++ '=' :: (b' ++ s))) key value

/-- What stands behind the opening brace of a table that is not empty. -/
inductive IsMembers : List Char → List (Key × Expr) → Prop
  | last {b s b' : List Char} {key : Key} {value : Expr} (before : IsBlanks b)
    (assignment : IsAssignment IsItem s key value) (after : IsBlanks b') :
    IsMembers (b ++ (s ++ (b' ++ ['\x7d']))) [(key, value)]
  | comma {b s b' t : List Char} {key : Key} {value : Expr} {members : List (Key × Expr)} (before : IsBlanks b)
    (assignment : IsAssignment IsItem s key value) (after : IsBlanks b') (rest : IsMembers t members) :
    IsMembers (b ++ (s ++ (b' ++ ',' :: t))) ((key, value) :: members)

end

inductive IsExpr : List Char → Expr → Prop
  | text {s : List Char} {value : String} (isString : IsString s value) : IsExpr s (.text value)
  | token {s : List Char} (isToken : IsToken s) : IsExpr s (.token s)
  | moment {d t : List Char} (date : IsToken d) (time : IsToken t) (isDate : date? d = some [])
    (isTime : isTimeWithOffset t) : IsExpr (d ++ ' ' :: t) (.moment d t)
  | list {s : List Char} {items : List Expr} (isItems : IsItems IsExpr s items) : IsExpr ('[' :: s) (.list items)
  | empty {b : List Char} (blanks : IsBlanks b) : IsExpr ('\x7b' :: (b ++ ['\x7d'])) (.inline [])
  | inline {s : List Char} {members : List (Key × Expr)} (isMembers : IsMembers IsExpr s members) :
    IsExpr ('\x7b' :: s) (.inline members)

/-! ### Documents -/

/-- A clause of a document: an assignment or a header. -/
inductive Clause
  | assign (key : Key) (value : Expr)
  | opens (opening : Entries.Opening) (name : Key)

inductive IsClause : List Char → Clause → Prop
  | assign {s : List Char} {key : Key} {value : Expr} (assignment : IsAssignment IsExpr s key value) :
    IsClause s (.assign key value)
  | single {b k b' : List Char} {key : Key} (before : IsBlanks b) (isKey : IsKey k key) (after : IsBlanks b') :
    IsClause ('[' :: (b ++ (k ++ (b' ++ [']'])))) (.opens .single key)
  | repeated {b k b' : List Char} {key : Key} (before : IsBlanks b) (isKey : IsKey k key) (after : IsBlanks b') :
    IsClause ('[' :: '[' :: (b ++ (k ++ (b' ++ [']', ']'])))) (.opens .repeated key)

/-- The texts of documents, with the clauses that stand in them. Each clause ends with its line. -/
inductive IsDocument : List Char → List Clause → Prop
  | empty {g m : List Char} (gap : IsGap g) (margin : IsMargin m) : IsDocument (g ++ m) []
  | last {g s m : List Char} {clause : Clause} (gap : IsGap g) (isClause : IsClause s clause) (margin : IsMargin m) :
    IsDocument (g ++ (s ++ m)) [clause]
  | line {g s m n t : List Char} {clause : Clause} {clauses : List Clause} (gap : IsGap g)
    (isClause : IsClause s clause) (margin : IsMargin m) (lineBreak : IsLineBreak n) (rest : IsDocument t clauses) :
    IsDocument (g ++ (s ++ (m ++ (n ++ t)))) (clause :: clauses)

end SyntheticRows.Toml
