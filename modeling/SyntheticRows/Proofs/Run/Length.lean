import Mathlib
import SyntheticRows.Proofs.Literal.Reading
import SyntheticRows.Proofs.Run.Text

/-!
The lengths of rows and of the texts of passes. No record has a long tuple, whatever its values are, and a run
has at most 2^32 rows, so the bytes of a pass can be counted in 64 bits unless its table has a name that is
longer than any text in memory.
-/

namespace SyntheticRows

/-! ### Values -/

namespace Literal

theorem length_int_le (n : Int64) : (render (.int n)).length ≤ 20 := by
  have hdigits : (Decimal.numeral n.toInt.natAbs).length ≤ 19 := by
    refine Decimal.length_numeral_le (by decide) ?_
    have := n.toInt_lt
    have := n.le_toInt
    omega
  rw [render, Decimal.signedNumeral]
  split
  · rw [List.length_cons]
    omega
  · omega

theorem length_real_le (x : Binary64) : (render (.real x)).length ≤ 2501 := by
  rw [render]
  split
  · decide
  · rename_i hnan
    split
    · split <;> decide
    · rename_i hinf
      exact Binary64.length_plain_le (Binary64.isFinite_of_not hnan hinf)

theorem length_minutesFromNow_le (n : UInt64) : (render (minutesFromNow n)).length ≤ 46 := by
  have hdigits : (Decimal.numeral n.toNat).length ≤ 20 :=
    Decimal.length_numeral_le (by decide) (Nat.lt_trans n.toNat_lt (by decide))
  rw [render_minutesFromNow, List.length_append, List.length_append]
  have hfirst : "now() + interval '".toList.length = 18 := rfl
  have hlast : " minute'".toList.length = 8 := rfl
  omega

theorem length_tuple_le {b : Nat} {values : List Literal} (h : ∀ value ∈ values, value.render.length ≤ b) :
    (tuple values).length ≤ values.length * (b + 2) + 2 := by
  have hjoined : ([',', ' '].intercalate (values.map render)).length ≤ (values.map render).length * (2 + b) :=
    length_intercalate_le (List.forall_mem_map.mpr h)
  rw [List.length_map, Nat.add_comm 2 b] at hjoined
  rw [tuple, List.length_append, List.length_cons, List.length_singleton]
  omega

end Literal

/-! ### Rows -/

theorem Reading.length_tuple_le (r : Reading) : r.tuple.length ≤ 52565 := by
  have hvalue := Literal.length_int_le r.value
  have hminutes := Literal.length_minutesFromNow_le r.minutes
  have hall : ∀ value ∈ r.literals, value.render.length ≤ 46 := by
    simp [literals]
    omega
  have hlength : r.literals.length = 2 := rfl
  have htuple := Literal.length_tuple_le hall
  rw [hlength] at htuple
  exact Nat.le_trans htuple (by decide)

theorem Position.length_tuple_le (p : Position) : p.tuple.length ≤ 52565 := by
  have hint : ∀ n, (Literal.int n).render.length ≤ 2501 := fun n =>
    Nat.le_trans (Literal.length_int_le n) (by decide)
  have hminutes : ∀ n, (Literal.minutesFromNow n).render.length ≤ 2501 := fun n =>
    Nat.le_trans (Literal.length_minutesFromNow_le n) (by decide)
  have hall : ∀ value ∈ p.literals, value.render.length ≤ 2501 :=
    p.forall_mem_literals hint Literal.length_real_le hminutes (by decide) (by decide)
  have hlength : p.literals.length = 21 := rfl
  have htuple := Literal.length_tuple_le hall
  rw [hlength] at htuple
  exact Nat.le_trans htuple (by decide)

/-- No row has more characters than this. -/
theorem Pass.length_tuple_le (pass : Pass) (passSeed : Seed) (index : UInt32) :
    (pass.tuple passSeed index).length ≤ 52565 := by
  cases pass with
  | readings => exact Reading.length_tuple_le _
  | positions => exact Position.length_tuple_le _

/-! ### Texts of passes -/

theorem utf8_header (table : String) (columns : List String) :
    utf8 (Framing.header table columns) = utf8 "INSERT INTO ".toList ++ utf8 table.toList ++ utf8 " (".toList ++
      utf8 ([',', ' '].intercalate (columns.map String.toList)) ++ utf8 ") VALUES\n".toList := by
  unfold Framing.header utf8
  simp only [List.flatMap_append]

theorem length_columns_le (pass : Pass) :
    (utf8 ([',', ' '].intercalate (pass.columns.map String.toList))).length ≤ 900 := by
  cases pass <;> decide +kernel

theorem length_header_le (table : String) (pass : Pass) :
    (utf8 (Framing.header table pass.columns)).length ≤ (utf8 table.toList).length + 1000 := by
  have hcolumns := length_columns_le pass
  have hinsert : (utf8 "INSERT INTO ".toList).length = 12 := rfl
  have hopen : (utf8 " (".toList).length = 2 := rfl
  have hclose : (utf8 ") VALUES\n".toList).length = 9 := rfl
  rw [utf8_header]
  simp only [List.length_append, hinsert, hopen, hclose]
  omega

namespace Options
variable {o : Options} {pass : Pass}

theorem length_tuples (h : o.fault? = none) (seed : Seed) (pass : Pass) :
    (o.tuples seed pass).length = o.rowsPerPass.toNat := by
  rw [tuples, List.length_map, length_indexes (step_ne_zero h)]

/-- Apart from the name of its table, the text of a pass has fewer than 2^52 bytes. -/
theorem length_passText_lt (h : o.fault? = none) (seed : Seed) (pass : Pass) :
    (utf8 (o.passText seed pass)).length <
      ((o.framing.table? pass).elim 0 fun table => (utf8 table.toList).length) + 2 ^ 52 := by
  have hrows := rowsPerPass_le h
  rw [← length_tuples h seed pass] at hrows
  have hshort : ∀ tuple ∈ o.tuples seed pass, tuple.length ≤ 52565 := by
    intro tuple htuple
    obtain ⟨i, -, rfl⟩ := List.mem_map.mp htuple
    exact Pass.length_tuple_le pass _ _
  have hsize : UInt32.size = 4294967296 := rfl
  rw [passText]
  cases o.framing.table? pass with
  | none =>
    have hlines : ((o.tuples seed pass).flatMap (· ++ [',', '\n'])).length ≤ (o.tuples seed pass).length * 52567 :=
      length_flatMap_le fun tuple htuple => by
        have := hshort tuple htuple
        simpa using this
    have := length_utf8_le ((o.tuples seed pass).flatMap (· ++ [',', '\n']))
    simp only [Option.elim_none]
    omega
  | some table =>
    have hjoined : ([',', '\n'].intercalate (o.tuples seed pass)).length ≤ (o.tuples seed pass).length * (2 + 52565) :=
      length_intercalate_le hshort
    have := length_utf8_le ([',', '\n'].intercalate (o.tuples seed pass))
    have hheader := length_header_le table pass
    simp only [Option.elim_some]
    split
    · simp [utf8]
    · rw [utf8_append, utf8_append, List.length_append, List.length_append]
      have hend : (utf8 [';', '\n']).length = 2 := rfl
      omega

/-- The count of the bytes of a pass is the length of its text, unless the name of the table alone has more
    bytes than can be in memory. -/
theorem bytes_passText (h : o.fault? = none) (seed : Seed) (pass : Pass)
    (hname : ∀ table, o.framing.table? pass = some table → (utf8 table.toList).length < 2 ^ 63) :
    min Framing.Writer.maxBytes (utf8 (o.passText seed pass)).length = (utf8 (o.passText seed pass)).length := by
  have hlength := length_passText_lt h seed pass
  have hmax : Framing.Writer.maxBytes = 2 ^ 64 - 1 := rfl
  refine Nat.min_eq_right ?_
  cases htable : o.framing.table? pass with
  | none =>
    rw [htable, Option.elim_none] at hlength
    omega
  | some table =>
    have := hname table htable
    rw [htable, Option.elim_some] at hlength
    omega

end Options
end SyntheticRows
