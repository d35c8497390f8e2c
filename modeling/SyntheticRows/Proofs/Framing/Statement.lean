import Mathlib
import SyntheticRows.Proofs.Framing.TableName
import SyntheticRows.Proofs.Literal.Inline

/-!
Statements read back. A text of statements is cut behind each semicolon that ends a line, and a statement into
lines: the first one opens it and tells the table and the columns, each other one holds a tuple.
-/

namespace SyntheticRows.Framing

/-! ### Pieces of a text -/

/-- Cuts a text behind each semicolon that ends a line. Gives the pieces, and what is left behind the last one. -/
def cut : List Char → List (List Char) × List Char
  | ';' :: '\n' :: rest => ([';', '\n'] :: (cut rest).1, (cut rest).2)
  | c :: rest =>
    match cut rest with
    | ([], left) => ([], c :: left)
    | (piece :: pieces, left) => ((c :: piece) :: pieces, left)
  | [] => ([], [])

theorem cut_piece {body : List Char} (h : ';' ∉ body) (rest : List Char) :
    cut (body ++ [';', '\n'] ++ rest) = ((body ++ [';', '\n']) :: (cut rest).1, (cut rest).2) := by
  induction body with
  | nil => rfl
  | cons c body ih =>
    obtain ⟨hc, hbody⟩ := not_or.mp (mt List.mem_cons.mpr h)
    -- The equation of `cut` for any character asks that this one does not begin an end, as only a semicolon does.
    rw [List.cons_append, List.cons_append, cut, ih hbody]
    exact fun _ hsemicolon _ => hc hsemicolon.symm

theorem cut_flatMap {α : Type} {xs : List α} {body : α → List Char} (h : ∀ x ∈ xs, ';' ∉ body x) :
    cut (xs.flatMap (body · ++ [';', '\n'])) = (xs.map (body · ++ [';', '\n']), []) := by
  induction xs with
  | nil => rfl
  | cons x xs ih =>
    obtain ⟨hx, hxs⟩ := List.forall_mem_cons.mp h
    rw [List.flatMap_cons, cut_piece hx, ih hxs]
    rfl

/-! ### The line that opens a statement -/

/-- What stands before the table. -/
def insertInto : List Char :=
  "INSERT INTO ".toList

/-- What stands behind the columns. -/
def valuesFollow : List Char :=
  " VALUES".toList

def opening (table : List Char) (columns : List (List Char)) : List Char :=
  insertInto ++ (table ++ ' ' :: ('(' :: [',', ' '].intercalate columns ++ [')'] ++ valuesFollow))

theorem header_eq (table : String) (columns : List String) :
    header table columns = opening table.toList (columns.map String.toList) ++ ['\n'] := by
  have hassoc : ∀ a t j v : List Char, a ++ t ++ [' ', '('] ++ j ++ (')' :: (v ++ ['\n'])) =
      a ++ (t ++ ' ' :: ('(' :: j ++ [')'] ++ v)) ++ ['\n'] := by simp
  exact hassoc insertInto table.toList _ valuesFollow

/-- Reads the table and the columns from the line that opens a statement. -/
def readOpening? (line : List Char) : Option (List Char × List (List Char)) := do
  let target ← line.dropPrefix? insertInto
  let list ← (target.dropWhile (· != ' ')).tail.dropSuffix? valuesFollow
  let columns ← Literal.fields? list
  return (target.takeWhile (· != ' '), columns)

theorem readOpening?_opening {table : List Char} {columns : List (List Char)} (htable : ' ' ∉ table)
    (hne : columns ≠ []) (hcolumns : ∀ column ∈ columns, Literal.Whole column) :
    readOpening? (opening table columns) = some (table, columns) := by
  have hword : ∀ c ∈ table, (c != ' ') = true := fun c hc => bne_iff_ne.mpr fun heq => htable (heq ▸ hc)
  have hinsert : ∀ target, (insertInto ++ target).dropPrefix? insertInto = some target :=
    fun target => List.dropPrefix?_append_of_beq target (beq_self_eq_true _)
  have hvalues : ∀ list, (list ++ valuesFollow).dropSuffix? valuesFollow = some list :=
    fun list => List.dropSuffix?_eq_some_iff.mpr ⟨_, rfl, beq_self_eq_true _⟩
  have hstop : ∀ rest : List Char, (' ' :: rest).dropWhile (· != ' ') = ' ' :: rest ∧
      (' ' :: rest).takeWhile (· != ' ') = [] := fun rest => ⟨rfl, rfl⟩
  simp only [readOpening?, opening, hinsert, Option.bind_eq_bind, Option.bind_some, List.dropWhile_append_of_pos hword,
    List.takeWhile_append_of_pos hword, hstop, List.tail_cons, hvalues, Literal.fields?_intercalate hne hcolumns,
    List.append_nil]
  rfl

theorem inline_opening {table : List Char} {columns : List (List Char)} (htable : Inline table)
    (hcolumns : ∀ column ∈ columns, Inline column) : Inline (opening table columns) := by
  have hinsert : Inline insertInto := by decide
  have hvalues : Inline valuesFollow := by decide
  have hspace : Inline [' ', '('] := by decide
  have hseparator : Inline [',', ' '] := by decide
  have hclose : Inline [')'] := by decide
  have hlist := hseparator.intercalate hcolumns
  exact hinsert.append (htable.append (((hspace.append hlist).append hclose).append hvalues))

/-! ### The lines of tuples -/

/-- Tuples with what ends their lines: a comma, and behind the last one the semicolon of the statement. -/
def tupleLines (before : List (List Char)) (last : List Char) : List (List Char) :=
  before.map (· ++ [',']) ++ [last ++ [';']]

theorem flatMap_tupleLines (before : List (List Char)) (last : List Char) :
    (tupleLines before last).flatMap (· ++ ['\n']) = [',', '\n'].intercalate (before ++ [last]) ++ [';', '\n'] := by
  rw [intercalate_concat, tupleLines, List.flatMap_append, List.flatMap_map]
  simp

theorem forall_mem_tupleLines {p : List Char → Prop} {before : List (List Char)} {last : List Char}
    (h : ∀ tuple ∈ before ++ [last], p (tuple ++ [',']) ∧ p (tuple ++ [';'])) :
    ∀ line ∈ tupleLines before last, p line := by
  obtain ⟨hbefore, hlast⟩ := List.forall_mem_append.mp h
  refine List.forall_mem_append.mpr ⟨List.forall_mem_map.mpr fun tuple htuple => (hbefore tuple htuple).1, ?_⟩
  exact List.forall_mem_singleton.mpr (List.forall_mem_singleton.mp hlast).2

/-- A tuple that fits in a line of a statement with so many columns. -/
def Fits (columns : Nat) (tuple : List Char) : Prop :=
  Inline tuple ∧ ∃ fields, Literal.fields? tuple = some fields ∧ fields.length = columns

theorem Fits.suffix {columns : Nat} {tuple : List Char} (h : Fits columns tuple) (c : Char) :
    [')', c] <:+ tuple ++ [c] := by
  obtain ⟨-, fields, hfields, -⟩ := h
  obtain ⟨body, rfl⟩ := Literal.exists_eq_of_fields? hfields
  exact ⟨'(' :: body, by simp⟩

/-! ### Statements -/

/-- A text is one statement for a table with columns: a first line that tells these, and below it so many lines, each
    with a tuple of as many values as there are columns. All of them end in commas but the last one, which has the
    only semicolon. -/
structure IsStatement (table : List Char) (columns : List (List Char)) (rows : Nat) (text : List Char) : Prop where
  opening : ∃ line, (linesOf '\n' text).head? = some line ∧ readOpening? line = some (table, columns)
  length : (linesOf '\n' text).tail.length = rows
  commas : ∀ line ∈ (linesOf '\n' text).tail.dropLast, "),".toList <:+ line
  semicolon : ∃ line, (linesOf '\n' text).tail.getLast? = some line ∧ ");".toList <:+ line
  fields : ∀ line ∈ (linesOf '\n' text).tail, ∃ fields, Literal.fields? line.dropLast = some fields ∧
    fields.length = columns.length
  newlines : text.count '\n' = rows + 1
  semicolons : text.count ';' = 1

/-- The text of a statement without the semicolon at its end and the line break behind that. -/
def statementBody (table : List Char) (columns tuples : List (List Char)) : List Char :=
  opening table columns ++ ['\n'] ++ [',', '\n'].intercalate tuples

section
variable {table : List Char} {columns tuples : List (List Char)}

theorem semicolon_not_mem_statementBody (hopening : Inline (opening table columns))
    (h : ∀ tuple ∈ tuples, Inline tuple) : ';' ∉ statementBody table columns tuples := by
  have htuples : ∀ c ∈ [',', '\n'].intercalate tuples, c ≠ ';' :=
    forall_mem_intercalate (by simp) fun tuple htuple c hc heq => (h tuple htuple).semicolon_not_mem (heq ▸ hc)
  intro hmem
  rcases List.mem_append.mp hmem with hmem | hmem
  · simp [hopening.semicolon_not_mem] at hmem
  · exact htuples _ hmem rfl

theorem isStatement (hopening : Inline (opening table columns))
    (hread : readOpening? (opening table columns) = some (table, columns)) (hne : tuples ≠ [])
    (h : ∀ tuple ∈ tuples, Fits columns.length tuple) :
    IsStatement table columns tuples.length (statementBody table columns tuples ++ [';', '\n']) := by
  -- The last tuple has its own end, so the text is taken as lines with it apart from those before.
  obtain ⟨before, last, rfl⟩ := (List.eq_nil_or_concat' tuples).resolve_left hne
  have htext : statementBody table columns (before ++ [last]) ++ [';', '\n'] =
      (opening table columns :: tupleLines before last).flatMap (· ++ ['\n']) := by
    rw [statementBody, List.flatMap_cons, flatMap_tupleLines, List.append_assoc (_ ++ _)]
  have hnewline : ∀ line ∈ opening table columns :: tupleLines before last, '\n' ∉ line := by
    refine List.forall_mem_cons.mpr ⟨hopening.newline_not_mem, forall_mem_tupleLines fun tuple htuple => ?_⟩
    simp [(h tuple htuple).1.newline_not_mem]
  have hlines : linesOf '\n' (statementBody table columns (before ++ [last]) ++ [';', '\n']) =
      opening table columns :: tupleLines before last := by
    rw [htext, linesOf_flatMap hnewline]
  have htail := congrArg List.tail hlines
  rw [List.tail_cons] at htail
  obtain ⟨hbefore, hlast⟩ := List.forall_mem_append.mp h
  exact {
    opening := ⟨_, by rw [hlines, List.head?_cons], hread⟩
    length := by
      rw [htail, tupleLines, List.length_append, List.length_append, List.length_map]
      rfl
    commas := by
      rw [htail, tupleLines, List.dropLast_concat]
      exact List.forall_mem_map.mpr fun tuple htuple => (hbefore tuple htuple).suffix ','
    semicolon := ⟨_, by rw [htail, tupleLines, List.getLast?_concat], (List.forall_mem_singleton.mp hlast).suffix ';'⟩
    fields := by
      rw [htail]
      refine forall_mem_tupleLines fun tuple htuple => ?_
      rw [List.dropLast_concat, List.dropLast_concat]
      exact ⟨(h tuple htuple).2, (h tuple htuple).2⟩
    newlines := by
      rw [htext, count_flatMap_newline hnewline, tupleLines, List.length_cons, List.length_append, List.length_append,
        List.length_map]
      rfl
    semicolons := by
      have := semicolon_not_mem_statementBody hopening fun tuple htuple => (h tuple htuple).1
      rw [List.count_append, List.count_eq_zero_of_not_mem this]
      rfl }

end

end SyntheticRows.Framing
