import Mathlib
import SyntheticRows.Random.Draw

/-!
What draws can give. Whatever the words are, a whole number that is drawn lies in its range, since the carry never
takes it past the last one (`Yields.int64`); and each number of the range is drawn from some words, whatever words
follow these (`Reaches.int64`), so draws that follow each other can give every combination of their results.
-/

namespace SyntheticRows

/-- A word before a sequence of words. -/
def WordSequence.cons (w : UInt32) (rest : WordSequence) : WordSequence :=
  ⟨fun i => i.casesOn w rest.word⟩

namespace Draw

variable {σ α β : Type}

/-! ### Results of draws -/

/-- A result that a draw gives in some state of the source. -/
def Yields (d : Draw σ α) (a : α) : Prop :=
  ∃ words, (StateT.run d words).1 = a

/-- A result that a draw gives on words that end where any others begin. -/
def Reaches (d : Draw WordSequence α) (a : α) : Prop :=
  ∀ rest, ∃ words, StateT.run d words = (a, rest)

theorem yields_run (d : Draw σ α) (words : σ) : d.Yields (StateT.run d words).1 :=
  ⟨words, rfl⟩

theorem Yields.eq_of_pure {a b : α} (h : (pure a : Draw σ α).Yields b) : a = b := by
  obtain ⟨words, h⟩ := h
  exact h

theorem Yields.exists_of_bind {d : Draw σ α} {f : α → Draw σ β} {b : β} (h : (d >>= f).Yields b) :
    ∃ a, d.Yields a ∧ (f a).Yields b := by
  obtain ⟨words, h⟩ := h
  exact ⟨(StateT.run d words).1, yields_run d words, (StateT.run d words).2, h⟩

/-- Draws that go on alike from each result of the first one are the same. -/
theorem bind_congr_of_yields {d : Draw σ α} {f g : α → Draw σ β} (h : ∀ a, d.Yields a → f a = g a) :
    d >>= f = d >>= g := by
  refine StateT.ext fun words => ?_
  show StateT.run (f (StateT.run d words).1) (StateT.run d words).2 = _
  rw [h _ (yields_run d words)]
  rfl

theorem reaches_pure (a : α) : (pure a : Draw WordSequence α).Reaches a := fun rest =>
  ⟨rest, rfl⟩

theorem Reaches.bind {d : Draw WordSequence α} {f : α → Draw WordSequence β} {a : α} {b : β} (hd : d.Reaches a)
    (hf : (f a).Reaches b) : (d >>= f).Reaches b := fun rest => by
  obtain ⟨between, hbetween⟩ := hf rest
  obtain ⟨words, hwords⟩ := hd between
  refine ⟨words, ?_⟩
  rw [StateT.run_bind, hwords]
  exact hbetween

theorem Reaches.map {d : Draw WordSequence α} {a : α} (hd : d.Reaches a) (f : α → β) : (f <$> d).Reaches (f a) := by
  rw [map_eq_pure_bind]
  exact hd.bind (reaches_pure (f a))

theorem Reaches.yields {d : Draw WordSequence α} {a : α} (h : d.Reaches a) : d.Yields a := by
  obtain ⟨words, hwords⟩ := h ⟨fun _ => 0⟩
  exact ⟨words, congrArg Prod.fst hwords⟩

/-! ### Words -/

theorem reaches_word32 (w : UInt32) : (word32 : Draw WordSequence UInt32).Reaches w := fun rest =>
  ⟨.cons w rest, rfl⟩

/-- The two halves of a word of 64 bits, put together. -/
theorem join_halves (w : UInt64) : (w >>> 32).toUInt32.toUInt64 <<< 32 ||| w.toUInt32.toUInt64 = w := by
  have hlow : w.toNat % 2 ^ 32 < 2 ^ 32 := Nat.mod_lt _ (by decide)
  have hhigh : w.toNat / 2 ^ 32 < 2 ^ 32 := Nat.div_lt_of_lt_mul w.toNat_lt
  apply UInt64.toNat_inj.mp
  rw [UInt64.toNat_or, UInt64.toNat_shiftLeft, UInt32.toNat_toUInt64, UInt32.toNat_toUInt64, UInt64.toNat_toUInt32,
    UInt64.toNat_toUInt32, UInt64.toNat_shiftRight, show (32 : UInt64).toNat % 64 = 32 from rfl,
    Nat.shiftRight_eq_div_pow, Nat.mod_eq_of_lt hhigh, Nat.shiftLeft_eq, Nat.mod_eq_of_lt (by omega), ← Nat.shiftLeft_eq,
    ← Nat.shiftLeft_add_eq_or_of_lt hlow, Nat.shiftLeft_eq]
  omega

theorem reaches_word64 (w : UInt64) : (word64 : Draw WordSequence UInt64).Reaches w := by
  rw [← join_halves w]
  exact (reaches_word32 w.toUInt32).bind ((reaches_word32 (w >>> 32).toUInt32).bind (reaches_pure _))

theorem yields_word32_lt [WordSource σ] {n : ℕ} (h : (UInt32.toNat <$> word32 : Draw σ ℕ).Yields n) :
    n < UInt32.size := by
  rw [map_eq_pure_bind] at h
  obtain ⟨w, -, h⟩ := h.exists_of_bind
  rw [← h.eq_of_pure]
  exact w.toNat_lt

theorem yields_word64_lt [WordSource σ] {n : ℕ} (h : (UInt64.toNat <$> word64 : Draw σ ℕ).Yields n) :
    n < UInt64.size := by
  rw [map_eq_pure_bind] at h
  obtain ⟨w, -, h⟩ := h.exists_of_bind
  rw [← h.eq_of_pure]
  exact w.toNat_lt

theorem reaches_toNat_word32 {n : ℕ} (h : n < UInt32.size) : (UInt32.toNat <$> word32 : Draw WordSequence ℕ).Reaches n := by
  have hword := (reaches_word32 (UInt32.ofNat n)).map UInt32.toNat
  rwa [UInt32.toNat_ofNat_of_lt' h] at hword

theorem reaches_toNat_word64 {n : ℕ} (h : n < UInt64.size) : (UInt64.toNat <$> word64 : Draw WordSequence ℕ).Reaches n := by
  have hword := (reaches_word64 (UInt64.ofNat n)).map UInt64.toNat
  rwa [UInt64.toNat_ofNat_of_lt' h] at hword

/-! ### Numbers below a bound -/

section
variable {size bound w k : ℕ}

theorem high_lt (hbound : 0 < bound) (hw : w < size) : w * bound / size < bound :=
  Nat.div_lt_of_lt_mul (Nat.mul_lt_mul_of_pos_right hw hbound)

/-- Where a carry is possible, the high half is not the last number yet: with the last one, the low half is at most
    that of the largest word, which leaves no room for a carry. -/
theorem high_succ_lt (hbound : 0 < bound) (hw : w < size) (hlow : size - bound < w * bound % size) :
    w * bound / size + 1 < bound := by
  have hhigh := high_lt hbound hw
  have hsplit := Nat.div_add_mod' (w * bound) size
  have hword := Nat.mul_le_mul_right bound (Nat.succ_le_of_lt hw)
  by_contra hlast
  have hbound : bound = w * bound / size + 1 := by omega
  generalize w * bound / size = high at *
  generalize w * bound % size = low at *
  have hproduct : size * bound = high * size + size := by rw [hbound, Nat.mul_comm, Nat.succ_mul]
  rw [Nat.succ_mul] at hword
  omega

/-- The words whose product with the bound has a given high half begin at a quotient. -/
theorem exists_high_eq (hk : k < bound) (hsize : bound ≤ size) : ∃ w < size, w * bound / size = k := by
  have hpos : 0 < bound := Nat.zero_lt_of_lt hk
  have hlast := Nat.mul_le_mul_right size (Nat.succ_le_of_lt hk)
  have hbelow := Nat.div_mul_le_self (k * size + (bound - 1)) bound
  have habove := (Nat.div_lt_iff_lt_mul hpos).mp (Nat.lt_succ_self ((k * size + (bound - 1)) / bound))
  generalize (k * size + (bound - 1)) / bound = w at hbelow habove
  rw [Nat.succ_mul] at hlast habove
  refine ⟨w, Nat.lt_of_mul_lt_mul_right (a := bound) ?_, ?_⟩
  · rw [Nat.mul_comm size]
    omega
  · refine Nat.div_eq_of_lt_le (by omega) ?_
    rw [Nat.succ_mul]
    omega

theorem Yields.below {word : Draw σ ℕ} (hword : ∀ w, word.Yields w → w < size) (hbound : 0 < bound)
    (h : (below size bound word).Yields k) : k < bound := by
  obtain ⟨w, hw, h⟩ := h.exists_of_bind
  have hw := hword w hw
  dsimp only at h
  split at h
  · rename_i hlow
    obtain ⟨extra, -, h⟩ := h.exists_of_bind
    rw [← h.eq_of_pure]
    split
    · exact high_succ_lt hbound hw hlow
    · exact high_lt hbound hw
  · rw [← h.eq_of_pure]
    exact high_lt hbound hw

/-- If another word is asked for, a zero leaves the number as it is. -/
theorem Reaches.below {word : Draw WordSequence ℕ} (hword : ∀ w < size, word.Reaches w) (hk : k < bound)
    (hsize : bound ≤ size) : (below size bound word).Reaches k := by
  obtain ⟨w, hw, hhigh⟩ := exists_high_eq hk hsize
  have hpos : 0 < size := Nat.zero_lt_of_lt hw
  refine (hword w hw).bind ?_
  dsimp only
  split
  · have hcarry : ¬size ≤ w * bound % size + 0 * bound / size := by
      rw [Nat.zero_mul, Nat.zero_div]
      exact Nat.not_le.mpr (Nat.mod_lt _ hpos)
    refine (hword 0 hpos).bind ?_
    rw [if_neg hcarry, hhigh]
    exact reaches_pure k
  · rw [hhigh]
    exact reaches_pure k

end

/-! ### Integers of a range -/

section
variable {low high v : Int64}

theorem toInt_ofInt_add {offset : ℕ} (h : offset < (high.toInt - low.toInt + 1).toNat) :
    (Int64.ofInt (low.toInt + offset)).toInt = low.toInt + offset := by
  have hlow := low.le_toInt
  have hhigh := high.toInt_lt
  exact Int64.toInt_ofInt_of_le (by omega) (by omega)

theorem Yields.int64 [WordSource σ] (hrange : low.toInt ≤ high.toInt) (h : (int64 low high : Draw σ Int64).Yields v) :
    low.toInt ≤ v.toInt ∧ v.toInt ≤ high.toInt := by
  obtain ⟨offset, hoffset, h⟩ := h.exists_of_bind
  have hlt := hoffset.below (fun w => yields_word64_lt) (by omega)
  rw [← h.eq_of_pure, toInt_ofInt_add hlt]
  omega

theorem toInt_ofInt_of_mem {n : ℤ} (h : n ∈ Set.Icc low.toInt high.toInt) : (Int64.ofInt n).toInt = n :=
  Int64.toInt_ofInt_of_le (low.le_toInt.trans h.1) (h.2.trans_lt high.toInt_lt)

/-- Each integer of a range can be drawn. -/
theorem Reaches.int64 {n : ℤ} (h : n ∈ Set.Icc low.toInt high.toInt) :
    (int64 low high : Draw WordSequence Int64).Reaches (.ofInt n) := by
  have hfirst := low.le_toInt
  have hlast := high.toInt_lt
  have hsize : UInt64.size = 2 ^ 64 := rfl
  obtain ⟨hlow, hhigh⟩ := h
  obtain ⟨offset, hoffset⟩ := Int.le.dest hlow
  rw [← hoffset]
  exact (Reaches.below (fun w => reaches_toNat_word64) (by omega) (by omega)).bind (reaches_pure _)

end

/-! ### Listed values -/

section
variable {values : List α}

/-- A place is always drawn within the list, so the value kept for an empty list is never used. -/
theorem oneOf_congr [WordSource σ] (hvalues : values ≠ []) (fallback other : α) :
    (oneOf values fallback : Draw σ α) = oneOf values other := by
  refine bind_congr_of_yields fun place hplace => ?_
  have hlt := hplace.below (fun w => yields_word32_lt) (List.length_pos_of_ne_nil hvalues)
  rw [List.getD_eq_getElem _ _ hlt, List.getD_eq_getElem _ _ hlt]

theorem Reaches.oneOf {a fallback : α} (ha : a ∈ values) (hsize : values.length ≤ UInt32.size) :
    (oneOf values fallback : Draw WordSequence α).Reaches a := by
  obtain ⟨place, hplace, rfl⟩ := List.getElem_of_mem ha
  refine (Reaches.below (fun w => reaches_toNat_word32) hplace hsize).bind ?_
  rw [← List.getElem_eq_getD fallback]
  exact reaches_pure _

end

end Draw

end SyntheticRows
