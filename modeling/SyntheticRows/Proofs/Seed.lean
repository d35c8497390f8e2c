import Mathlib
import SyntheticRows.Proofs.Options.Indexes
import SyntheticRows.Sink

/-!
Seeds of rows. Each step of a derivation can be undone, so no derivation maps two seeds to one (`seeds_lossless`), and
two rows of one pass never have one seed (`forRow_inj`). Rows of different passes can have one, but only if one of their
indexes is even and the other odd: the seeds of the two passes differ in their last bit (`Pass.mod_two_seed_ne`).
-/

namespace SyntheticRows

namespace Seed

/-! ### Seeds of rows -/

theorem mul_multiplier_inj {a b : Seed} : a * multiplier = b * multiplier ↔ a = b := by
  refine ⟨fun h => ?_, congrArg (· * multiplier)⟩
  have hinverse : multiplier * 14886173955864302971 = 1 := by decide
  have h := congrArg (· * (14886173955864302971 : UInt64)) h
  simpa only [UInt64.mul_assoc, hinverse, UInt64.mul_one] using h

/-- What an index adds to the seed of its pass. -/
def stride (index : UInt64) : UInt64 :=
  index * 0x9e3779b97f4a7c15

theorem stride_inj {i j : UInt64} : stride i = stride j ↔ i = j := by
  refine ⟨fun h => ?_, congrArg stride⟩
  have hinverse : (0x9e3779b97f4a7c15 : UInt64) * 17428512612931826493 = 1 := by decide
  have h := congrArg (· * (17428512612931826493 : UInt64)) h
  simpa only [stride, UInt64.mul_assoc, hinverse, UInt64.mul_one] using h

theorem forRow_eq_forRow_iff {a b : Seed} {i j : UInt64} :
    forRow a i = forRow b j ↔ a ^^^ stride i = b ^^^ stride j :=
  mul_multiplier_inj

theorem xor_eq_xor_iff {a b c d : UInt64} : a ^^^ c = b ^^^ d ↔ c ^^^ d = a ^^^ b := by
  have hboth : a ^^^ c ^^^ (b ^^^ d) = c ^^^ d ^^^ (a ^^^ b) := by ac_rfl
  rw [← UInt64.xor_eq_zero_iff, hboth, UInt64.xor_eq_zero_iff]

theorem forRow_inj {passSeed : Seed} {i j : UInt64} : forRow passSeed i = forRow passSeed j ↔ i = j := by
  rw [forRow_eq_forRow_iff, UInt64.xor_right_inj, stride_inj]

theorem forRow_injective (passSeed : Seed) : Function.Injective passSeed.forRow := fun _ _ =>
  forRow_inj.mp

theorem forRow_left_injective (index : UInt64) : Function.Injective fun passSeed : Seed => passSeed.forRow index :=
  fun _ _ h => (UInt64.xor_left_inj _).mp (forRow_eq_forRow_iff.mp h)

/-! ### Seeds of keys -/

theorem mix_inj {a b : Seed} {byte : UInt8} : mix a byte = mix b byte ↔ a = b :=
  mul_multiplier_inj.trans (UInt64.xor_left_inj _)

theorem foldl_mix_inj {bytes : Bytes} {a b : Seed} : bytes.foldl mix a = bytes.foldl mix b ↔ a = b := by
  induction bytes generalizing a b with
  | nil => exact Iff.rfl
  | cons byte bytes ih => rw [List.foldl_cons, List.foldl_cons, ih, mix_inj]

theorem forKey_injective (key : String) : Function.Injective fun seed : Seed => seed.forKey key := fun _ _ h =>
  (UInt64.xor_left_inj _).mp (foldl_mix_inj.mp h)

/-! ### The last bit -/

theorem mod_two_xor (a b : UInt64) : (a ^^^ b).toNat % 2 = (a.toNat + b.toNat) % 2 := by
  rw [UInt64.toNat_xor, Nat.xor_mod_two_eq]

theorem mod_two_mul_of_odd (a : UInt64) {b : UInt64} (hb : b.toNat % 2 = 1) : (a * b).toNat % 2 = a.toNat % 2 := by
  rw [UInt64.toNat_mul, Nat.mod_mod_of_dvd _ (by decide : 2 ∣ 2 ^ 64), Nat.mul_mod, hb, Nat.mul_one, Nat.mod_mod]

theorem mod_two_stride (index : UInt64) : (stride index).toNat % 2 = index.toNat % 2 :=
  mod_two_mul_of_odd index (by decide)

theorem mod_two_mix (seed : Seed) (byte : UInt8) : (mix seed byte).toNat % 2 = (seed.toNat + byte.toNat) % 2 := by
  rw [mix, mod_two_mul_of_odd _ (by decide), mod_two_xor, UInt8.toNat_toUInt64]

theorem mod_two_foldl_mix (bytes : Bytes) (seed : Seed) :
    (bytes.foldl mix seed).toNat % 2 = (seed.toNat + (bytes.map (·.toNat)).sum) % 2 := by
  induction bytes generalizing seed with
  | nil => rfl
  | cons byte bytes ih =>
    have hmix := mod_two_mix seed byte
    rw [List.foldl_cons, ih, List.map_cons, List.sum_cons]
    omega

/-- The last bit of the seed of a key is that of the seed that it is derived from, turned over by the odd bytes. -/
theorem mod_two_forKey (seed : Seed) (key : String) : (forKey seed key).toNat % 2 =
    (seed.toNat + 1 + ((utf8 key.toList).map (·.toNat)).sum) % 2 := by
  have hbasis : (0xcbf29ce484222325 : UInt64).toNat % 2 = 1 := by decide
  have hstart := mod_two_xor seed 0xcbf29ce484222325
  rw [forKey, mod_two_foldl_mix, utf8]
  omega

end Seed

/-! ### Rows of a run -/

namespace Pass

/-- The seed of the row at an index in a run with a seed. -/
def rowSeed (pass : Pass) (runSeed : Seed) (index : UInt32) : Seed :=
  (pass.seed runSeed).forRow index.toUInt64

theorem rowSeed_inj {pass : Pass} {runSeed : Seed} {i j : UInt32} :
    pass.rowSeed runSeed i = pass.rowSeed runSeed j ↔ i = j :=
  Seed.forRow_inj.trans UInt32.toUInt64_inj

theorem mod_two_seed_ne (runSeed : Seed) : (readings.seed runSeed).toNat % 2 ≠ (positions.seed runSeed).toNat % 2 := by
  have hreadings : ((utf8 readings.key.toList).map (·.toNat)).sum % 2 = 1 := by decide
  have hpositions : ((utf8 positions.key.toList).map (·.toNat)).sum % 2 = 0 := by decide
  rw [seed, seed, Seed.mod_two_forKey, Seed.mod_two_forKey]
  omega

theorem mod_two_ne_of_rowSeed_eq {runSeed : Seed} {i j : UInt32}
    (h : readings.rowSeed runSeed i = positions.rowSeed runSeed j) : i.toNat % 2 ≠ j.toNat % 2 := by
  have hseeds := mod_two_seed_ne runSeed
  have hbits := congrArg (·.toNat % 2) (Seed.forRow_eq_forRow_iff.mp h)
  have hi := Seed.mod_two_stride i.toUInt64
  have hj := Seed.mod_two_stride j.toUInt64
  simp only [Seed.mod_two_xor, UInt32.toNat_toUInt64] at hbits hi hj
  omega

end Pass

/-- Deriving a seed loses nothing: each key maps the seeds of runs one to one to seeds of passes, and a pass maps indexes
    and an index maps seeds of passes one to one to seeds of rows. The two passes of a run never have one seed. So in a
    pass each index has a seed of its own, at an index of a pass so has each run, and at an index of a run each pass. -/
theorem seeds_lossless :
    (∀ key : String, Function.Bijective fun seed : Seed => seed.forKey key) ∧
    (∀ passSeed : Seed, Function.Bijective passSeed.forRow) ∧
    (∀ index : UInt64, Function.Bijective fun passSeed : Seed => passSeed.forRow index) ∧
    (∀ runSeed : Seed, Pass.readings.seed runSeed ≠ Pass.positions.seed runSeed) ∧
    (∀ (pass : Pass) (runSeed : Seed) (i j : UInt64),
      (pass.seed runSeed).forRow i = (pass.seed runSeed).forRow j ↔ i = j) ∧
    (∀ (pass : Pass) (index : UInt64) (a b : Seed), (pass.seed a).forRow index = (pass.seed b).forRow index ↔ a = b) ∧
    ∀ (runSeed : Seed) (index : UInt64),
      (Pass.readings.seed runSeed).forRow index ≠ (Pass.positions.seed runSeed).forRow index := by
  have hpasses (runSeed : Seed) : Pass.readings.seed runSeed ≠ Pass.positions.seed runSeed := fun h =>
    Pass.mod_two_seed_ne runSeed (congrArg (·.toNat % 2) h)
  refine ⟨fun key => ?_, fun passSeed => ?_, fun index => ?_, hpasses, fun pass runSeed i j => Seed.forRow_inj,
    fun pass index a b => ?_, fun runSeed index h => ?_⟩
  · exact Finite.injective_iff_bijective.mp (Seed.forKey_injective key)
  · exact Finite.injective_iff_bijective.mp (Seed.forRow_injective passSeed)
  · exact Finite.injective_iff_bijective.mp (Seed.forRow_left_injective index)
  · exact ((Seed.forRow_left_injective index).eq_iff).trans (Seed.forKey_injective pass.key).eq_iff
  · exact hpasses runSeed (Seed.forRow_left_injective index h)

/-! ### Seeds of a run -/

namespace Options

/-- The seeds of all rows of a run with a seed, in the order in which the rows are written. -/
def rowSeeds (o : Options) (runSeed : Seed) : List Seed :=
  o.selectedPasses.flatMap fun pass => o.indexes.map fun i => pass.rowSeed runSeed (UInt32.ofNat i)

variable {o : Options}

theorem ofNat_injOn_indexes (accepted : o.fault? = none) :
    Set.InjOn UInt32.ofNat {i | i ∈ o.indexes} := fun i hi j hj h => by
  have h := congrArg UInt32.toNat h
  rwa [UInt32.toNat_ofNat_of_lt' (lt_of_mem_indexes accepted hi),
    UInt32.toNat_ofNat_of_lt' (lt_of_mem_indexes accepted hj)] at h

theorem nodup_rowSeeds_pass (accepted : o.fault? = none) (runSeed : Seed) (pass : Pass) :
    (o.indexes.map fun i => pass.rowSeed runSeed (UInt32.ofNat i)).Nodup := by
  refine List.Nodup.map_on (fun i hi j hj h => ?_) (o.indexes_pairwise.imp Nat.ne_of_lt)
  exact ofNat_injOn_indexes accepted hi hj (Pass.rowSeed_inj.mp h)

/-- With an even step all indexes are even, so no row of the one pass has the seed of a row of the other. -/
theorem disjoint_rowSeeds (accepted : o.fault? = none) (heven : 2 ∣ o.step.toNat) (runSeed : Seed) :
    List.Disjoint (o.indexes.map fun i => Pass.readings.rowSeed runSeed (UInt32.ofNat i))
      (o.indexes.map fun i => Pass.positions.rowSeed runSeed (UInt32.ofNat i)) := by
  intro seed hreading hposition
  obtain ⟨i, hi, rfl⟩ := List.mem_map.mp hreading
  obtain ⟨j, hj, hseed⟩ := List.mem_map.mp hposition
  have hbits := Pass.mod_two_ne_of_rowSeed_eq hseed.symm
  rw [UInt32.toNat_ofNat_of_lt' (lt_of_mem_indexes accepted hi),
    UInt32.toNat_ofNat_of_lt' (lt_of_mem_indexes accepted hj)] at hbits
  have hieven := heven.trans (mem_indexes.mp hi).2
  have hjeven := heven.trans (mem_indexes.mp hj).2
  omega

/-- The rows of a run have seeds of their own if the step is even or if one of the passes is not run. -/
theorem nodup_rowSeeds (accepted : o.fault? = none) (runSeed : Seed)
    (h : 2 ∣ o.step.toNat ∨ ∃ pass, pass ∉ o.passes) : (o.rowSeeds runSeed).Nodup := by
  refine List.nodup_flatMap.mpr ⟨fun pass _ => nodup_rowSeeds_pass accepted runSeed pass, ?_⟩
  refine List.pairwise_filter.mpr (List.pairwise_pair.mpr fun hreadings hpositions => ?_)
  rcases h with heven | ⟨pass, hpass⟩
  · exact disjoint_rowSeeds accepted heven runSeed
  · refine absurd ?_ hpass
    cases pass with
    | readings => exact of_decide_eq_true hreadings
    | positions => exact of_decide_eq_true hpositions

end Options

/-- Rows of one pass have seeds of their own, whatever the seed of the run is. A row of readings and a row of positions
    have the same seed just if their strides differ in the same bits as the seeds of the passes, which is only possible
    if one of their indexes is even and the other odd. So all rows of a run have seeds of their own if its step is even
    or if it runs one pass alone. -/
theorem row_seeds_apart (runSeed : Seed) :
    (∀ (pass : Pass) (i j : UInt32), pass.rowSeed runSeed i = pass.rowSeed runSeed j ↔ i = j) ∧
    (∀ i j : UInt32, Pass.readings.rowSeed runSeed i = Pass.positions.rowSeed runSeed j ↔
      Seed.stride i.toUInt64 ^^^ Seed.stride j.toUInt64 =
        Pass.readings.seed runSeed ^^^ Pass.positions.seed runSeed) ∧
    (∀ i j : UInt32, Pass.readings.rowSeed runSeed i = Pass.positions.rowSeed runSeed j →
      i.toNat % 2 ≠ j.toNat % 2) ∧
    ∀ o : Options, o.fault? = none → (2 ∣ o.step.toNat ∨ ∃ pass, pass ∉ o.passes) → (o.rowSeeds runSeed).Nodup := by
  refine ⟨fun pass i j => Pass.rowSeed_inj, fun i j => ?_, fun i j => Pass.mod_two_ne_of_rowSeed_eq,
    fun o accepted h => Options.nodup_rowSeeds accepted runSeed h⟩
  exact Seed.forRow_eq_forRow_iff.trans Seed.xor_eq_xor_iff

/-- The largest runs with an even step. -/
theorem row_seeds_apart_of_even_step :
    let o : Options := { upperBound := 4294967296, step := 2 }
    (o.fault? = none ∧ 2 ∣ o.step.toNat) ∧ ∀ runSeed, (o.rowSeeds runSeed).Nodup := by
  intro o
  have accepted : o.fault? = none := by decide
  have heven : 2 ∣ o.step.toNat := by decide
  exact ⟨⟨accepted, heven⟩, fun runSeed => (row_seeds_apart runSeed).2.2.2 o accepted (.inl heven)⟩

/-- A run with the default options in which a row of readings and a row of positions draw the same words. -/
theorem rows_share_seed :
    let o : Options := { seed := some 92443090730150073 }
    let runSeed : Seed := 92443090730150073
    o.fault? = none ∧ 30 ∈ o.indexes ∧ 55 ∈ o.indexes ∧
      Pass.readings.rowSeed runSeed 30 = Pass.positions.rowSeed runSeed 55 ∧
      (Pass.readings.seed runSeed).rowWords 30 = (Pass.positions.seed runSeed).rowWords 55 ∧
      ¬(o.rowSeeds runSeed).Nodup := by
  intro o runSeed
  have hseed : Pass.readings.rowSeed runSeed 30 = Pass.positions.rowSeed runSeed 55 := by decide
  have hreading : 30 ∈ o.indexes := Options.mem_indexes.mpr (by decide)
  have hposition : 55 ∈ o.indexes := Options.mem_indexes.mpr (by decide)
  refine ⟨by decide, hreading, hposition, hseed, congrArg Keystream.ofSeed hseed, fun hnodup => ?_⟩
  have hboth : o.selectedPasses = [.readings, .positions] := rfl
  rw [Options.rowSeeds, hboth] at hnodup
  have hdisjoint := List.pairwise_pair.mp (List.nodup_flatMap.mp hnodup).2
  exact hdisjoint (List.mem_map.mpr ⟨30, hreading, rfl⟩) (List.mem_map.mpr ⟨55, hposition, hseed.symm⟩)

end SyntheticRows
