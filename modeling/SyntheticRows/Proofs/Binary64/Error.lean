import Mathlib
import SyntheticRows.Proofs.Binary64.Rounding

/-!
Errors of rounding. Every value has a number that it rounds to (`exists_roundsTo`); the number is off by half the
distance of its neighbours at most, which is one part in 2^53 + 1 where numbers have 53 bits (`RoundsTo.relative`). Two
values that differ by two parts in 2^53 round to numbers that are at most two apart (`RoundsTo.near`).
-/

namespace SyntheticRows.Binary64

/-! ### Distances of neighbours -/

/-- The distance of the numbers of a rank and the next one, in units. -/
def spacing (rank : ℕ) : ℕ :=
  2 ^ (rank / binade - 1)

theorem spacing_pos (rank : ℕ) : 0 < spacing rank :=
  Nat.two_pow_pos _

theorem spacing_mono : Monotone spacing := fun _ _ h =>
  Nat.pow_le_pow_right (by decide) (Nat.sub_le_sub_right (Nat.div_le_div_right h) 1)

theorem spacing_eq {k m : ℕ} (hm : m < 2 * binade) (hk : k = 0 ∨ binade ≤ m) : spacing (k * binade + m) = 2 ^ k := by
  rw [spacing]
  congr 1
  rw [binade_eq] at *
  omega

theorem magnitude_succ (rank : ℕ) : magnitude (rank + 1) = magnitude rank + spacing rank := by
  obtain ⟨k, m, rfl, hm, hk⟩ := exists_significand rank
  rw [spacing_eq hm hk, Nat.add_assoc, magnitude_add (hk.imp_right Nat.le_succ_of_le) hm, magnitude_add hk hm.le,
    Nat.succ_mul]

/-- A number and the one after it have 53 bits. -/
theorem magnitude_succ_le (rank : ℕ) : magnitude (rank + 1) ≤ 2 * binade * spacing rank := by
  obtain ⟨k, m, rfl, hm, hk⟩ := exists_significand rank
  rw [spacing_eq hm hk, Nat.add_assoc, magnitude_add (hk.imp_right Nat.le_succ_of_le) hm]
  exact Nat.mul_le_mul_right _ hm

theorem spacing_le_magnitude {rank : ℕ} (h : binade ≤ rank) : binade * spacing rank ≤ magnitude rank := by
  obtain ⟨k, m, rfl, hm, hk⟩ := exists_significand rank
  rw [spacing_eq hm hk, magnitude_add hk hm.le]
  refine Nat.mul_le_mul_right _ (hk.elim ?_ id)
  rintro rfl
  rwa [Nat.zero_mul, Nat.zero_add] at h

/-- The distance below a number is the one above it, or half of it below the first number of an exponent. -/
theorem spacing_succ (rank : ℕ) : spacing (rank + 1) = spacing rank ∨
    spacing (rank + 1) = 2 * spacing rank ∧ magnitude (rank + 1) = binade * spacing (rank + 1) := by
  obtain ⟨k, m, rfl, hm, hk⟩ := exists_significand rank
  rcases Nat.lt_or_ge (m + 1) (2 * binade) with hlt | hge
  · exact .inl (by rw [Nat.add_assoc, spacing_eq hlt (hk.imp_right Nat.le_succ_of_le), spacing_eq hm hk])
  · have hnext : k * binade + m + 1 = (k + 1) * binade + binade := by
      rw [binade_eq] at *
      omega
    have hfirst : binade < 2 * binade := by decide
    refine .inr ⟨?_, ?_⟩
    · rw [hnext, spacing_eq hfirst (.inr le_rfl), spacing_eq hm hk, pow_succ, Nat.mul_comm]
    · rw [hnext, spacing_eq hfirst (.inr le_rfl), magnitude_add (.inr le_rfl) hfirst.le]

/-- Below a number the distances of four neighbours are not much shorter than the distance above it: one of them at most
    is the first that is half as long. -/
theorem width_below (rank : ℕ) : 2 * magnitude (rank + 2) + spacing (rank + 2) <
    2 ^ 52 * (spacing rank + 2 * spacing (rank + 1) + spacing (rank + 2)) := by
  have hpos := spacing_pos rank
  have hsecond : magnitude (rank + 2) = magnitude (rank + 1) + spacing (rank + 1) := magnitude_succ (rank + 1)
  have hbits : magnitude (rank + 2) + spacing (rank + 2) ≤ 2 * binade * spacing (rank + 2) := by
    rw [← magnitude_succ]
    exact magnitude_succ_le (rank + 2)
  have hspace : spacing (rank + 2) = spacing (rank + 1) ∨
    spacing (rank + 2) = 2 * spacing (rank + 1) ∧ magnitude (rank + 2) = binade * spacing (rank + 2) :=
    spacing_succ (rank + 1)
  rw [binade_eq] at *
  rcases spacing_succ rank with hsame | ⟨hdouble, hpower⟩
  · rcases hspace with hsame' | ⟨hdouble', hpower'⟩ <;> omega
  · rw [binade_eq] at hpower
    rcases hspace with hsame' | ⟨hdouble', hpower'⟩ <;> omega

theorem spacing_le_of_magnitude_lt {rank e : ℕ} (h : magnitude rank < 2 ^ (53 + e)) : spacing rank ≤ 2 ^ e := by
  rcases Nat.lt_or_ge rank binade with hlt | hge
  · rw [spacing, Nat.div_eq_of_lt hlt]
    exact Nat.one_le_two_pow
  · have hlow := spacing_le_magnitude hge
    rw [spacing, binade_eq_pow, ← pow_add] at hlow
    have hexponent := (Nat.pow_lt_pow_iff_right (by decide)).mp (Nat.lt_of_le_of_lt hlow h)
    exact Nat.pow_le_pow_right (by decide) (by rw [binade_eq_pow]; omega)

theorem le_magnitude (rank : ℕ) : rank ≤ magnitude rank :=
  magnitude_strictMono.le_apply

/-! ### Rounding -/

theorem roundsTo_magnitude (rank : ℕ) : RoundsTo rank (magnitude rank) := by
  have hbelow : magnitude (rank - 1) ≤ magnitude rank := magnitude_strictMono.monotone (Nat.sub_le rank 1)
  have habove := magnitude_lt_succ rank
  refine ⟨?_, ?_, fun hodd => ⟨?_, ?_⟩⟩
  · exact_mod_cast (by omega : magnitude (rank - 1) + magnitude rank ≤ 2 * magnitude rank)
  · exact_mod_cast (by omega : 2 * magnitude rank ≤ magnitude rank + magnitude (rank + 1))
  · have hstrict : magnitude (rank - 1) < magnitude rank := magnitude_pred_lt (by omega)
    exact_mod_cast (by omega : magnitude (rank - 1) + magnitude rank < 2 * magnitude rank)
  · exact_mod_cast (by omega : 2 * magnitude rank < magnitude rank + magnitude (rank + 1))

theorem exists_roundsTo {z : ℚ} (hz : 0 ≤ z) : ∃ rank, RoundsTo rank z := by
  have hexists : ∃ rank : ℕ, z < magnitude (rank + 1) := by
    obtain ⟨n, hn⟩ := exists_nat_gt z
    exact ⟨n, hn.trans_le (by exact_mod_cast (Nat.le_succ n).trans (le_magnitude (n + 1)))⟩
  obtain ⟨rank, hlt, hge⟩ : ∃ rank : ℕ, z < magnitude (rank + 1) ∧ (magnitude rank : ℚ) ≤ z := by
    refine ⟨Nat.find hexists, Nat.find_spec hexists, ?_⟩
    rcases Nat.eq_zero_or_pos (Nat.find hexists) with hzero | hpos
    · rwa [hzero, magnitude_zero, Nat.cast_zero]
    · have hmin := Nat.find_min hexists (Nat.sub_lt hpos Nat.one_pos)
      rwa [Nat.sub_add_cancel hpos, not_lt] at hmin
  have hbelow : (magnitude (rank - 1) : ℚ) ≤ magnitude rank :=
    Nat.cast_le.mpr (magnitude_strictMono.monotone (Nat.sub_le rank 1))
  have hstep : (magnitude rank : ℚ) < magnitude (rank + 1) := Nat.cast_lt.mpr (magnitude_lt_succ rank)
  have habove : (magnitude (rank + 1) : ℚ) < magnitude (rank + 1 + 1) := Nat.cast_lt.mpr (magnitude_lt_succ (rank + 1))
  have hstrict (hodd : rank % 2 = 1) : (magnitude (rank - 1) : ℚ) < magnitude rank :=
    Nat.cast_lt.mpr (magnitude_pred_lt (by omega))
  -- The midpoint decides, and at the midpoint the even rank.
  rcases lt_trichotomy (2 * z) (magnitude rank + magnitude (rank + 1)) with hlow | hmid | hhigh
  · exact ⟨rank, by linarith, hlow.le, fun hodd => ⟨by linarith [hstrict hodd], hlow⟩⟩
  · rcases Nat.mod_two_eq_zero_or_one rank with heven | hodd
    · exact ⟨rank, by linarith, hmid.le, fun h => by omega⟩
    · refine ⟨rank + 1, ?_, by linarith, fun h => by omega⟩
      rw [Nat.add_sub_cancel]
      exact hmid.ge
  · refine ⟨rank + 1, ?_, by linarith, fun _ => ⟨?_, by linarith⟩⟩
    · rw [Nat.add_sub_cancel]
      exact hhigh.le
    · rw [Nat.add_sub_cancel]
      exact hhigh

namespace RoundsTo
variable {rank other : ℕ} {z w : ℚ}

theorem le_of_lt_magnitude (h : RoundsTo rank z) (hlt : z < magnitude other) : rank ≤ other := by
  by_contra hnot
  have hfirst : (magnitude other : ℚ) ≤ magnitude (rank - 1) :=
    Nat.cast_le.mpr (magnitude_strictMono.monotone (by omega))
  have hsecond : (magnitude other : ℚ) ≤ magnitude rank :=
    Nat.cast_le.mpr (magnitude_strictMono.monotone (by omega))
  linarith [h.lower]

theorem eq_of_magnitude (h : RoundsTo rank (magnitude other)) : rank = other := by
  rcases lt_trichotomy rank other with hlt | heq | hgt
  · have hstrict : (magnitude rank : ℚ) < magnitude other := Nat.cast_lt.mpr (magnitude_strictMono hlt)
    have hnext : (magnitude (rank + 1) : ℚ) ≤ magnitude other := Nat.cast_le.mpr (magnitude_strictMono.monotone hlt)
    linarith [h.upper]
  · exact heq
  · have hstrict : (magnitude other : ℚ) < magnitude rank := Nat.cast_lt.mpr (magnitude_strictMono hgt)
    have hlast : (magnitude other : ℚ) ≤ magnitude (rank - 1) :=
      Nat.cast_le.mpr (magnitude_strictMono.monotone (Nat.le_pred_of_lt hgt))
    linarith [h.lower]

theorem convex (hz : RoundsTo rank z) (hw : RoundsTo rank w) {v : ℚ} (hzv : z ≤ v) (hvw : v ≤ w) : RoundsTo rank v where
  lower := by linarith [hz.lower]
  upper := by linarith [hw.upper]
  odd h := ⟨by linarith [(hz.odd h).1], by linarith [(hw.odd h).2]⟩

/-- The error is at most half the distance of neighbours on the side of the value. -/
theorem error (h : RoundsTo rank z) : z - magnitude rank ≤ spacing rank / 2 ∧
    (0 < rank → magnitude rank - z ≤ spacing (rank - 1) / 2) := by
  have hupper := h.upper
  have hlower := h.lower
  rw [magnitude_succ] at hupper
  push_cast at hupper
  refine ⟨by linarith, fun hpos => ?_⟩
  obtain ⟨below, rfl⟩ : ∃ n, rank = n + 1 := ⟨rank - 1, by omega⟩
  rw [Nat.add_sub_cancel] at hlower ⊢
  rw [magnitude_succ] at hlower ⊢
  push_cast at hlower ⊢
  linarith

/-- The error below a power of two is at most half the distance of the numbers there. -/
theorem error_of_lt (h : RoundsTo rank z) (hz : 0 ≤ z) {e : ℕ} (hlt : z < 2 ^ (53 + e)) :
    |magnitude rank - z| ≤ 2 ^ e / 2 := by
  obtain ⟨habove, hbelow⟩ := h.error
  have hspacing {n : ℕ} (hn : (magnitude n : ℚ) < 2 ^ (53 + e)) : (spacing n : ℚ) ≤ 2 ^ e := by
    have hn' : magnitude n < 2 ^ (53 + e) := by exact_mod_cast hn
    exact_mod_cast spacing_le_of_magnitude_lt hn'
  rw [abs_le]
  rcases le_total (magnitude rank : ℚ) z with hle | hle
  · have := hspacing (hle.trans_lt hlt)
    constructor <;> linarith
  · rcases Nat.eq_zero_or_pos rank with rfl | hpos
    · have hone : (0 : ℚ) ≤ 2 ^ e := by positivity
      rw [magnitude_zero, Nat.cast_zero] at hle ⊢
      constructor <;> linarith
    · have hstrict : (magnitude (rank - 1) : ℚ) < magnitude rank := Nat.cast_lt.mpr (magnitude_pred_lt hpos)
      have := hspacing (n := rank - 1) (by linarith [h.lower])
      have := hbelow hpos
      constructor <;> linarith

/-- Where numbers have 53 bits, the error is at most one part in 2^53 + 1. -/
theorem relative (h : RoundsTo rank z) (hz : 2 ^ 52 ≤ z) : |magnitude rank - z| * (2 ^ 53 + 1) ≤ z := by
  obtain ⟨habove, hbelow⟩ := h.error
  have hbinade : (binade : ℚ) = 2 ^ 52 := by
    rw [binade_eq_pow]
    push_cast
    rfl
  have hsmall {n : ℕ} (hn : n ≤ binade) : (magnitude n : ℚ) ≤ 2 ^ 52 := by
    rw [← hbinade]
    exact_mod_cast magnitude_strictMono.monotone hn
  rcases le_or_gt (magnitude rank : ℚ) z with hle | hlt
  · have hrank : binade ≤ rank := by
      by_contra hnot
      have hstrict : (magnitude rank : ℚ) < magnitude (rank + 1) := Nat.cast_lt.mpr (magnitude_lt_succ rank)
      linarith [h.upper, hsmall (n := rank + 1) (by omega)]
    have hbits : (2 : ℚ) ^ 52 * spacing rank ≤ magnitude rank := by
      rw [← hbinade]
      exact_mod_cast spacing_le_magnitude hrank
    rw [abs_of_nonpos (by linarith)]
    linarith
  · have hrank : binade < rank := by
      by_contra hnot
      linarith [hsmall (n := rank) (by omega)]
    obtain ⟨below, rfl⟩ : ∃ n, rank = n + 1 := ⟨rank - 1, by omega⟩
    have hbits : (2 : ℚ) ^ 52 * spacing below ≤ magnitude below := by
      rw [← hbinade]
      exact_mod_cast spacing_le_magnitude (Nat.le_of_lt_succ hrank)
    have := hbelow (Nat.succ_pos _)
    rw [abs_of_nonneg (by linarith)]
    rw [Nat.add_sub_cancel] at this
    rw [magnitude_succ] at *
    push_cast at *
    linarith

/-- A value that exceeds another one by at most two parts in 2^53 rounds to a number at most two ranks above that of the
    other. -/
theorem le_add_two (h : RoundsTo rank z) (hw : RoundsTo other w) (hhigh : w ≤ (1 + 1 / 2 ^ 52) * z) :
    other ≤ rank + 2 := by
  by_contra hnot
  have h1 : (magnitude (rank + 2) : ℚ) ≤ magnitude (other - 1) :=
    Nat.cast_le.mpr (magnitude_strictMono.monotone (by omega))
  have h2 : (magnitude (rank + 3) : ℚ) ≤ magnitude other :=
    Nat.cast_le.mpr (magnitude_strictMono.monotone (by omega))
  have hspace1 : (spacing rank : ℚ) ≤ spacing (rank + 1) := Nat.cast_le.mpr (spacing_mono (Nat.le_succ _))
  have hspace2 : (spacing rank : ℚ) ≤ spacing (rank + 2) := Nat.cast_le.mpr (spacing_mono (by omega))
  have hmax : (magnitude rank : ℚ) + spacing rank ≤ 2 ^ 53 * spacing rank := by
    have hbits := magnitude_succ_le rank
    rw [magnitude_succ, show 2 * binade = 2 ^ 53 from rfl] at hbits
    exact_mod_cast hbits
  have hpos : (0 : ℚ) < spacing rank := Nat.cast_pos.mpr (spacing_pos rank)
  have hupper := h.upper
  have hlower := hw.lower
  rw [magnitude_succ] at h1 h2 hupper
  rw [magnitude_succ] at h1 h2
  rw [magnitude_succ] at h2
  push_cast at h1 h2 hupper
  linarith

/-- A value that falls short of another one by at most two parts in 2^53 rounds to a number at most two ranks below that
    of the other. -/
theorem sub_two_le (h : RoundsTo rank z) (hw : RoundsTo other w) (hlow : (1 - 1 / 2 ^ 52) * z ≤ w) :
    rank ≤ other + 2 := by
  by_contra hnot
  obtain ⟨r, rfl⟩ : ∃ r, rank = r + 3 := ⟨rank - 3, by omega⟩
  have h1 : (magnitude other : ℚ) ≤ magnitude r :=
    Nat.cast_le.mpr (magnitude_strictMono.monotone (by omega))
  have h2 : (magnitude (other + 1) : ℚ) ≤ magnitude (r + 1) :=
    Nat.cast_le.mpr (magnitude_strictMono.monotone (by omega))
  have hwidth := width_below r
  have hlower := h.lower
  have hupper := hw.upper
  rw [show r + 3 - 1 = r + 2 from rfl, magnitude_succ (r + 2)] at hlower
  rw [magnitude_succ r] at h2
  have hfirst := magnitude_succ r
  have hsecond : magnitude (r + 2) = magnitude (r + 1) + spacing (r + 1) := magnitude_succ (r + 1)
  qify at hwidth hfirst hsecond
  push_cast at *
  linarith

/-- A value that differs from another one by at most two parts in 2^53 rounds to a number at most two ranks away from
    that of the other. -/
theorem near (h : RoundsTo rank z) (hw : RoundsTo other w) (hlow : (1 - 1 / 2 ^ 52) * z ≤ w)
    (hhigh : w ≤ (1 + 1 / 2 ^ 52) * z) : other ≤ rank + 2 ∧ rank ≤ other + 2 :=
  ⟨h.le_add_two hw hhigh, h.sub_two_le hw hlow⟩

/-- So does a value that differs by one unit at most. -/
theorem near_of_unit (h : RoundsTo rank z) (hw : RoundsTo other w) (hlow : z - 1 ≤ w) (hhigh : w ≤ z + 1) :
    other ≤ rank + 2 ∧ rank ≤ other + 2 := by
  have hstep {m n : ℕ} (hmn : m + 2 ≤ n) : (magnitude m : ℚ) + 2 ≤ magnitude n := by
    have hfirst := magnitude_lt_succ m
    have hsecond : magnitude (m + 1) < magnitude n := magnitude_strictMono (by omega)
    exact_mod_cast (by omega : magnitude m + 2 ≤ magnitude n)
  constructor
  · by_contra hnot
    linarith [h.upper, hw.lower, hstep (m := rank) (n := other - 1) (by omega),
      hstep (m := rank + 1) (n := other) (by omega)]
  · by_contra hnot
    linarith [h.lower, hw.upper, hstep (m := other) (n := rank - 1) (by omega),
      hstep (m := other + 1) (n := rank) (by omega)]

end RoundsTo

/-! ### Numbers without an error -/

/-- Each multiple of a power of two with 53 bits is a number. -/
theorem exists_magnitude_eq {m : ℕ} (hm : m ≤ 2 * binade) (e : ℕ) : ∃ rank, magnitude rank = m * 2 ^ e := by
  induction e generalizing m with
  | zero => exact ⟨0 * binade + m, magnitude_add (.inl rfl) hm⟩
  | succ e ih =>
    rcases Nat.lt_or_ge m binade with hlt | hge
    · obtain ⟨rank, hrank⟩ := ih (m := 2 * m) (by omega)
      exact ⟨rank, by rw [hrank, pow_succ]; ring⟩
    · exact ⟨(e + 1) * binade + m, magnitude_add (.inr hge) hm⟩

end SyntheticRows.Binary64
