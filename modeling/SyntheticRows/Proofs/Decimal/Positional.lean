import SyntheticRows.Proofs.Decimal.Fewest

/-!
The form of positional texts. A text has a whole part without zeros before it, and a fraction only if it does not end in
a zero (`isPositional_plain`): the shortest decimal of a number does not, since a coarser grid would have given it too.
-/

namespace SyntheticRows

namespace Decimal

/-- A zero, or digits of which the first is not zero. -/
def IsWholePart (s : List Char) : Prop :=
  s = ['0'] ∨ ∃ c ds, s = c :: ds ∧ c ≠ '0' ∧ ∀ d ∈ s, d.isDigit

/-- Digits of which the last is not zero. -/
def IsFraction (s : List Char) : Prop :=
  ∃ ds c, s = ds ++ [c] ∧ c ≠ '0' ∧ ∀ d ∈ s, d.isDigit

/-- The texts of numbers without an exponent, without zeros before the whole part and behind the fraction. -/
inductive IsPositional : List Char → Prop
  | whole {s : List Char} (hs : IsWholePart s) : IsPositional s
  | point {s t : List Char} (hs : IsWholePart s) (ht : IsFraction t) : IsPositional (s ++ '.' :: t)

variable {d : Decimal}

/-- The first digits of a numeral, with zeros behind them or not. -/
theorem isWholePart_of_numeral {n : ℕ} (hpos : 0 < n) {s t zeros : List Char} (hne : s ≠ [])
    (h : s ++ t = numeral n ++ zeros) (hzeros : ∀ c ∈ zeros, c = '0') : IsWholePart s := by
  obtain ⟨first, digits, hnumeral, -, -, hfirst⟩ := exists_numeral_cons n
  obtain ⟨c, ds, rfl⟩ := List.exists_cons_of_ne_nil hne
  have hhead : c = first := by
    rw [hnumeral] at h
    exact (List.cons.inj h).1
  refine .inr ⟨c, ds, rfl, ?_, fun d hd => ?_⟩
  · rw [hhead]
    exact fun hzero => hpos.ne' (hfirst hzero).2
  · rcases List.mem_append.mp (h ▸ List.mem_append_left t hd) with hd | hd
    · exact isDigit_of_mem_numeral hd
    · rw [hzeros d hd]
      decide

/-- The last digits of a numeral, with zeros before them or not. -/
theorem isFraction_of_numeral {n : ℕ} (hlast : n % 10 ≠ 0) {s t zeros : List Char} (hne : t ≠ [])
    (h : s ++ t = zeros ++ numeral n) (hzeros : ∀ c ∈ zeros, c = '0') : IsFraction t := by
  obtain ⟨digits, hnumeral⟩ := exists_numeral_concat n
  obtain ⟨ds, c, rfl⟩ := (List.eq_nil_or_concat' t).resolve_left hne
  have hend : c = Nat.digitChar (n % 10) := by
    rw [hnumeral, ← List.append_assoc, ← List.append_assoc] at h
    exact List.singleton_inj.mp (List.append_inj' h rfl).2
  refine ⟨ds, c, rfl, ?_, fun d hd => ?_⟩
  · rw [hend]
    exact fun hzero => hlast (digitChar_eq_zero_iff.mp hzero)
  · rcases List.mem_append.mp (h ▸ List.mem_append_right s hd) with hd | hd
    · rw [hzeros d hd]
      decide
    · exact isDigit_of_mem_numeral hd

theorem isPositional_plain (hpos : 0 < d.digits) (hlast : d.digits % 10 ≠ 0) : IsPositional d.plain := by
  have hzeros (n : ℕ) : ∀ c ∈ List.replicate n '0', c = '0' := fun c => List.eq_of_mem_replicate
  have hlength : 0 < (numeral d.digits).length := Nat.length_toDigits_pos
  unfold plain
  dsimp only
  split
  · refine .whole (isWholePart_of_numeral hpos ?_ (List.append_nil _) (hzeros _))
    exact List.append_ne_nil_of_left_ne_nil (List.ne_nil_of_length_pos hlength) _
  · split
    · -- The point is in the numeral, which has digits on both sides of it.
      have hwhole (n : ℕ) : (numeral d.digits).take n ++ (numeral d.digits).drop n = numeral d.digits ++ [] := by
        rw [List.take_append_drop, List.append_nil]
      have hfraction (n : ℕ) : (numeral d.digits).take n ++ (numeral d.digits).drop n = [] ++ numeral d.digits :=
        List.take_append_drop n _
      refine .point (isWholePart_of_numeral hpos ?_ (hwhole _) nofun) (isFraction_of_numeral hlast ?_ (hfraction _) nofun)
      · refine List.ne_nil_of_length_pos ?_
        rw [List.length_take]
        omega
      · refine List.ne_nil_of_length_pos ?_
        rw [List.length_drop]
        omega
    · refine .point (s := ['0']) (.inl rfl) (isFraction_of_numeral hlast ?_ (List.nil_append _) (hzeros _))
      exact List.append_ne_nil_of_right_ne_nil _ (List.ne_nil_of_length_pos hlength)

theorem IsWholePart.isDigit {s : List Char} (h : IsWholePart s) : ∀ c ∈ s, c.isDigit := by
  rcases h with rfl | ⟨-, -, -, -, h⟩
  · exact List.forall_mem_singleton.mpr (by decide)
  · exact h

theorem IsPositional.isDigit_or {s : List Char} (h : IsPositional s) {c : Char} (hc : c ∈ s) : c.isDigit ∨ c = '.' := by
  cases h with
  | whole hs => exact .inl (hs.isDigit c hc)
  | point hs ht =>
    obtain ⟨-, -, -, -, ht⟩ := ht
    rcases List.mem_append.mp hc with hc | hc
    · exact .inl (hs.isDigit c hc)
    · exact (List.mem_cons.mp hc).symm.imp_left (ht c)

end Decimal

namespace Binary64
open RoundingInterval

/-- A shortest decimal does not end in a zero: the next coarser grid would have given something. -/
theorem shortest_mod_ten {rank : ℕ} (hpos : 0 < rank) (hfinite : rank < infiniteRank) (rule : MidpointRule) :
    (shortest rank rule).digits % 10 ≠ 0 := by
  intro hzero
  obtain ⟨n, hn⟩ := Nat.dvd_of_mod_eq_zero hzero
  have hrounds := roundsTo_shortest hpos hfinite rule
  rw [toRat_mul_units, hn, Nat.mul_comm, mul_ten_step] at hrounds
  rcases (shortest_cases hpos hfinite rule).2 with hone | hnone
  · omega
  · exact not_roundsTo_of_decimalAt?_eq_none hnone n hrounds

end Binary64

end SyntheticRows
