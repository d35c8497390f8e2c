import SyntheticRows.Proofs.Toml.Document
import SyntheticRows.Proofs.Toml.Notations
import SyntheticRows.Proofs.Toml.Reading

/-!
A line in front of a document. A line that assigns a number to a key that the document lacks adds this one entry, if
63 bits hold the number (`parse?_line_of_lt`); else it makes the document malformed (`parse?_line_of_ge`).
-/

namespace SyntheticRows.Toml

open Decimal (numeral)

/-- A line that assigns a numeral to a bare key. -/
def line (key : List Char) (n : ℕ) : List Char :=
  key ++ ' ' :: '=' :: ' ' :: (numeral n ++ ['\n'])

section
variable {key : List Char}

/-! ### Reading a line -/

theorem isClause_assign (h : IsBare key) {s : List Char} {value : Expr} (hs : IsExpr s value) :
    IsClause (key ++ ([' '] ++ '=' :: ([' '] ++ s))) (.assign ⟨[], String.ofList key⟩ value) := by
  have hspace : IsBlanks [' '] := by simp [IsBlanks, isBlank]
  exact .assign (.intro (.last (.bare h)) hspace hspace hs)

theorem isToken_numeral (n : ℕ) : IsToken (numeral n) where
  ne_nil := by
    obtain ⟨c, ds, hnumeral, -⟩ := Decimal.exists_numeral_cons n
    exact hnumeral ▸ List.cons_ne_nil c ds
  chars := fun c hc => by
    have hdigit := Decimal.isDigit_of_mem_numeral hc
    simp [isTokenChar, Char.isAlphanum, hdigit]

theorem statements?_mono {fuel more : ℕ} {reversed result : List Statement} {s : List Char} (hle : fuel ≤ more)
    (h : statements? fuel reversed s = some result) : statements? more reversed s = some result := by
  induction fuel generalizing more reversed s with
  | zero => cases h
  | succ fuel ih =>
    obtain ⟨more, rfl⟩ : ∃ m, more = m + 1 := ⟨more - 1, by omega⟩
    rw [statements?] at h ⊢
    split at h
    · exact h
    · obtain ⟨found, hfound, hrest⟩ := Option.bind_eq_some_iff.mp h
      simp only [hfound, Option.bind_eq_bind, Option.bind_some]
      exact ih (Nat.le_of_succ_le_succ hle) hrest

theorem statements?_line (h : IsBare key) (fuel n : ℕ) (s : List Char) :
    statements? (fuel + 1) [] (line key n ++ s) = (inRange? n).bind fun m =>
      (statements? fuel [] s).map (.assign (⟨[], String.ofList key⟩, .int m) :: ·) := by
  have hclause := isClause_assign h (.token (isToken_numeral n))
  have hsplit : line key n ++ s = [] ++ ((key ++ ([' '] ++ '=' :: ([' '] ++ numeral n))) ++ '\n' :: s) := by
    simp [line]
  have hend : lineEnd? ('\n' :: s) = some s := (IsMargin.blanks isBlanks_nil).lineEnd?_append .newline s
  have hmargin : EndsValue ('\n' :: s) :=
    (IsMargin.blanks isBlanks_nil).endsValue (IsLineBreak.newline.endsLine s)
  rw [hsplit, statements?_clause (.blanks isBlanks_nil) hclause hmargin, hend, Clause.statement?, assignmentOf?,
    Expr.value?, ofToken?_of_isInteger (isInteger_numeral n)]
  cases inRange? n <;> rfl

theorem parse?_line (h : IsBare key) (n : ℕ) (s : List Char) : parse? (line key n ++ s) =
    (inRange? n).bind fun m => (statements? (line key n ++ s).length [] s).bind fun statements =>
      (Document.ofStatements (.assign (⟨[], String.ofList key⟩, .int m) :: statements)).table? := by
  have hunmarked : unmarked (line key n ++ s) = line key n ++ s := by
    unfold unmarked
    split
    · rename_i hmark
      rw [line, List.append_assoc] at hmark
      exact absurd hmark (h.cons_ne (by decide) _ _)
    · rfl
  rw [parse?_eq, hunmarked, statements?_line h]
  cases inRange? n with
  | none => rfl
  | some m =>
    simp only [Option.bind_some]
    cases statements? (line key n ++ s).length [] s <;> rfl

/-! ### A line in front -/

/-- A line that assigns a number of 63 bits to a key that a document lacks can be put in front of it. -/
theorem parse?_line_of_lt {s : List Char} {entries : Entries} (h : IsBare key) {n : ℕ} (hlt : n < 2 ^ 63)
    (hs : parse? s = some entries) (hkey : String.ofList key ∉ Entries.keys entries) :
    parse? (line key n ++ unmarked s) = some ((String.ofList key, .int n) :: entries) := by
  rw [parse?_eq] at hs
  obtain ⟨statements, hstatements, htable⟩ := Option.bind_eq_some_iff.mp hs
  have hlength : (unmarked s).length + 1 ≤ (line key n ++ unmarked s).length := by
    rw [line, List.length_append, List.length_append, List.length_cons]
    omega
  rw [parse?_line h, inRange?_natCast, if_pos hlt, Option.bind_some, statements?_mono hlength hstatements,
    Option.bind_some]
  exact Document.table?_cons htable hkey (.int n)

/-- A line that assigns a larger number makes a document malformed. -/
theorem parse?_line_of_ge (h : IsBare key) {n : ℕ} (hge : 2 ^ 63 ≤ n) (s : List Char) :
    parse? (line key n ++ s) = none := by
  rw [parse?_line h, inRange?_natCast, if_neg (Nat.not_lt.mpr hge)]
  rfl

end

end SyntheticRows.Toml
