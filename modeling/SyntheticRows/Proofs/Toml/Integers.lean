import Mathlib.Data.Int.Notation
import SyntheticRows.Proofs.Toml.Document
import SyntheticRows.Proofs.Toml.Reading

/-!
The integers of a document. However they are written, 64 bits with sign hold them (`forall_parse?`).
-/

namespace SyntheticRows.Toml

/-- A value that is no integer beyond 64 bits with sign. -/
def Fits : Value → Prop
  | .int n => Int64.minValue.toInt ≤ n ∧ n ≤ Int64.maxValue.toInt
  | _ => True

theorem fits_of_isTable {value : Value} (h : Entries.IsTable value) : Fits value := by
  cases value with
  | int n => cases h
  | _ => trivial

theorem fits_of_inRange? {m n : ℤ} (h : inRange? m = some n) : Fits (.int n) := by
  rw [inRange?] at h
  split at h
  · rename_i hfits
    cases h
    exact hfits
  · cases h

theorem fits_of_integer? {s : List Char} {n : ℤ} (h : integer? s = some n) : Fits (.int n) := by
  unfold integer? at h
  split at h <;>
  · obtain ⟨digits, -, h⟩ := Option.bind_eq_some_iff.mp h
    exact fits_of_inRange? h

theorem fits_of_ofToken? {token : List Char} {value : Value} (h : ofToken? token = some value) : Fits value := by
  simp only [ofToken?] at h
  split at h
  · cases h
    trivial
  split at h
  · cases h
    trivial
  split at h
  · cases h
    trivial
  split at h
  · cases h
    trivial
  obtain ⟨n, hn, rfl⟩ := Option.map_eq_some_iff.mp h
  exact fits_of_integer? hn

theorem fits_of_scalar? {s rest : List Char} {value : Value} (h : scalar? s = some (value, rest)) : Fits value := by
  obtain ⟨found, hfound, h⟩ := Option.bind_eq_some_iff.mp h
  have hfits := fits_of_ofToken? hfound
  split at h
  · dsimp only at h
    split at h
    · cases h
      trivial
    · cases h
      exact hfits
  · cases h
    exact hfits

theorem fits_of_listItems? {item : Reader Value} {fuel : ℕ} {reversed : List Value} {s rest : List Char}
    {value : Value} (h : listItems? item fuel reversed s = some (value, rest)) : Fits value := by
  induction fuel generalizing reversed s with
  | zero => cases h
  | succ fuel ih =>
    rw [listItems?] at h
    split at h
    · cases h
      trivial
    · obtain ⟨found, -, h⟩ := Option.bind_eq_some_iff.mp h
      dsimp only at h
      split at h
      · exact ih h
      · cases h
        trivial
      · cases h

theorem fits_of_inlineTable? {item : Reader Value} {s rest : List Char} {value : Value}
    (h : inlineTable? item s = some (value, rest)) : Fits value := by
  rw [inlineTable?] at h
  split at h
  · cases h
    trivial
  · obtain ⟨assignments, -, h⟩ := Option.bind_eq_some_iff.mp h
    obtain ⟨entries, -, h⟩ := Option.bind_eq_some_iff.mp h
    cases h
    trivial

theorem fits_of_value? {depth : ℕ} {s rest : List Char} {value : Value} (h : value? depth s = some (value, rest)) :
    Fits value := by
  have htext {r : Option (String × List Char)}
      (h : r.map (fun read => (Value.text read.1, read.2)) = some (value, rest)) : Fits value := by
    obtain ⟨found, -, hfound⟩ := Option.map_eq_some_iff.mp h
    cases hfound
    trivial
  cases depth with
  | zero =>
    rw [value?.eq_def] at h
    dsimp only at h
    split at h
    · exact htext h
    · exact htext h
    · exact fits_of_scalar? h
  | succ depth =>
    rw [value?.eq_def] at h
    dsimp only at h
    split at h
    · exact htext h
    · exact htext h
    · exact fits_of_listItems? h
    · exact fits_of_inlineTable? h
    · exact fits_of_scalar? h

theorem fits_of_statement? {s rest : List Char} {assignment : Assignment}
    (h : statement? s = some (.assign assignment, rest)) : Fits assignment.2 := by
  unfold statement? at h
  split at h
  · obtain ⟨name, -, h⟩ := Option.bind_eq_some_iff.mp h
    dsimp only at h
    split at h
    · obtain ⟨ending, -, h⟩ := Option.bind_eq_some_iff.mp h
      cases h
    · cases h
  · obtain ⟨name, -, h⟩ := Option.bind_eq_some_iff.mp h
    dsimp only at h
    split at h
    · obtain ⟨ending, -, h⟩ := Option.bind_eq_some_iff.mp h
      cases h
    · cases h
  · obtain ⟨found, hfound, h⟩ := Option.bind_eq_some_iff.mp h
    obtain ⟨ending, -, h⟩ := Option.bind_eq_some_iff.mp h
    cases h
    obtain ⟨key, -, hfound⟩ := Option.bind_eq_some_iff.mp hfound
    dsimp only at hfound
    split at hfound
    · obtain ⟨value, hvalue, hfound⟩ := Option.bind_eq_some_iff.mp hfound
      cases hfound
      exact fits_of_value? hvalue
    · cases hfound

theorem fits_of_statements? {fuel : ℕ} {s : List Char} {statements : List Statement}
    (h : statements? fuel [] s = some statements) (assignment : Assignment) (hmem : .assign assignment ∈ statements) :
    Fits assignment.2 := by
  induction fuel generalizing s statements with
  | zero => cases h
  | succ fuel ih =>
    rw [statements?] at h
    split at h
    · cases h
      cases hmem
    · obtain ⟨⟨statement, rest⟩, hstatement, h⟩ := Option.bind_eq_some_iff.mp h
      dsimp only at h
      rw [statements?_eq] at h
      obtain ⟨others, hothers, rfl⟩ := Option.map_eq_some_iff.mp h
      rcases List.mem_cons.mp hmem with rfl | hmem
      · exact fits_of_statement? hstatement
      · exact ih hothers hmem

theorem assign_mem_of_mem_assignments {statements : List Statement} {assignment : Assignment}
    (h : assignment ∈ (Document.ofStatements statements).assignments) : .assign assignment ∈ statements := by
  induction statements with
  | nil => cases h
  | cons statement rest ih =>
    cases statement with
    | assign first =>
      rcases List.mem_cons.mp h with rfl | h
      · exact List.mem_cons_self
      · exact List.mem_cons_of_mem _ (ih h)
    | opens opening name => cases h

/-- No integer of a document goes beyond 64 bits with sign. -/
theorem forall_parse? {s : List Char} {entries : Entries} (h : parse? s = some entries) :
    ∀ entry ∈ entries, Fits entry.2 := by
  rw [parse?_eq] at h
  obtain ⟨statements, hstatements, htable⟩ := Option.bind_eq_some_iff.mp h
  refine Document.forall_table? htable (fun _ => fits_of_isTable) fun assignment hmem => ?_
  exact fits_of_statements? hstatements assignment (assign_mem_of_mem_assignments hmem)

end SyntheticRows.Toml
