import SyntheticRows.Config.Toml
import SyntheticRows.Proofs.Arguments
import SyntheticRows.Proofs.Toml.Integers
import SyntheticRows.Proofs.Toml.Lines

/-!
Configurations with a seed. A file that leaves the seed open can be given a line with it if 63 bits hold the seed
(`parse_withSeedLine`). With a larger seed it becomes malformed, and no file at all gives such a seed
(`seed_lt_of_parse`).
-/

namespace SyntheticRows.Config

open Toml (Value Entries Fits)
open Toml.Entries (keys)

def withSeed (c : Config) (seed : Seed) : Config :=
  { c with seed := some seed }

/-! ### Entries -/

/-- An entry is the seed, or it leaves the seed as it is and does the same whatever the seed is. -/
theorem entry_cases {c d : Config} {e : String × Value} (h : entry c e = .ok d) :
    (∃ n, word e.2 = .ok n ∧ d = c.withSeed n) ∨
    (e.1 ≠ "seed" ∧ d.seed = c.seed ∧ ∀ seed, entry (c.withSeed seed) e = .ok (d.withSeed seed)) := by
  unfold entry at h
  split at h
  · obtain ⟨n, hn, ⟨⟩⟩ := exists_of_bind_eq_ok h
    exact .inl ⟨n, hn, rfl⟩
  · obtain ⟨bound, hbound, ⟨⟩⟩ := exists_of_bind_eq_ok h
    refine .inr ⟨show "upper_bound" ≠ "seed" by decide, rfl, fun seed => ?_⟩
    simp only [entry, hbound]
    rfl
  · obtain ⟨step, hstep, ⟨⟩⟩ := exists_of_bind_eq_ok h
    refine .inr ⟨show "step" ≠ "seed" by decide, rfl, fun seed => ?_⟩
    simp only [entry, hstep]
    rfl
  · obtain ⟨listed, hlisted, h⟩ := exists_of_bind_eq_ok h
    obtain ⟨passes, hpasses, ⟨⟩⟩ := exists_of_bind_eq_ok h
    refine .inr ⟨show "passes" ≠ "seed" by decide, rfl, fun seed => ?_⟩
    simp only [entry, hlisted, hpasses, bind, Except.bind]
    rfl
  · obtain ⟨output, houtput, ⟨⟩⟩ := exists_of_bind_eq_ok h
    refine .inr ⟨show "output" ≠ "seed" by decide, rfl, fun seed => ?_⟩
    simp only [entry, houtput]
    rfl
  · cases h

theorem foldlM_entry_withSeed {entries : Entries} {c d : Config} (h : entries.foldlM entry c = .ok d)
    (hopen : d.seed = none) :
    "seed" ∉ keys entries ∧ c.seed = none ∧
      ∀ seed, entries.foldlM entry (c.withSeed seed) = .ok (d.withSeed seed) := by
  induction entries generalizing c with
  | nil =>
    cases h
    exact ⟨List.not_mem_nil, hopen, fun _ => rfl⟩
  | cons e rest ih =>
    obtain ⟨next, hnext, hrest⟩ := exists_of_bind_eq_ok h
    obtain ⟨hkeys, hnextOpen, hrest⟩ := ih hrest
    obtain ⟨n, -, rfl⟩ | ⟨hkey, hseed, hentry⟩ := entry_cases hnext
    · cases hnextOpen
    refine ⟨fun hmem => ?_, hseed.symm.trans hnextOpen, fun seed => ?_⟩
    · rcases List.mem_cons.mp hmem with heq | hmem
      · exact hkey heq.symm
      · exact hkeys hmem
    · simp only [List.foldlM_cons, hentry seed]
      exact hrest seed

theorem toNat_lt_of_word {value : Value} {n : UInt64} (h : word value = .ok n) (hfits : Fits value) :
    n.toNat < 2 ^ 63 := by
  match value, h with
  | .int m, h =>
    have hmax : m ≤ 2 ^ 63 - 1 := hfits.2
    rw [word] at h
    split at h
    · cases h
      have hlt : m.toNat < 2 ^ 63 := by omega
      rwa [UInt64.toNat_ofNat_of_lt' (Nat.lt_trans hlt (by decide))]
    · cases h

theorem seed_lt_of_foldlM {entries : Entries} {c d : Config} (h : entries.foldlM entry c = .ok d)
    (hfits : ∀ e ∈ entries, Fits e.2) (hc : ∀ seed, c.seed = some seed → seed.toNat < 2 ^ 63) :
    ∀ seed, d.seed = some seed → seed.toNat < 2 ^ 63 := by
  induction entries generalizing c with
  | nil =>
    cases h
    exact hc
  | cons e rest ih =>
    obtain ⟨he, hrest⟩ := List.forall_mem_cons.mp hfits
    obtain ⟨next, hnext, h⟩ := exists_of_bind_eq_ok h
    refine ih h hrest fun seed hseed => ?_
    obtain ⟨n, hn, rfl⟩ | ⟨-, hkept, -⟩ := entry_cases hnext
    · cases hseed
      exact toNat_lt_of_word hn he
    · exact hc seed (hkept ▸ hseed)

/-! ### Texts -/

theorem ofEntries_of_parse {text : String} {c : Config} (h : parse text = .ok c) :
    ∃ entries, Toml.parse? text.toList = some entries ∧ ofEntries entries = .ok c := by
  rw [parse] at h
  split at h
  · exact ⟨_, ‹_›, h⟩
  · cases h

/-- The file with a line before all others that assigns a seed. -/
def seedLine (seed : Seed) : List Char :=
  Toml.line "seed".toList seed.toNat

theorem isBare_seed : Toml.IsBare "seed".toList where
  ne_nil := by simp
  isBareKeyChar := by simp [Toml.isBareKeyChar]

/-- A text with a line for the seed before all others. A mark of the byte order, which would not be in front any more,
    is left out. -/
def withSeedLine (text : String) (seed : Seed) : String :=
  String.ofList (seedLine seed ++ Toml.unmarked text.toList)

theorem parse_withSeedLine {text : String} {file : Config} (h : parse text = .ok file) (hopen : file.seed = none)
    {seed : Seed} (hlt : seed.toNat < 2 ^ 63) : parse (withSeedLine text seed) = .ok (file.withSeed seed) := by
  obtain ⟨entries, hentries, hfile⟩ := ofEntries_of_parse h
  obtain ⟨hkeys, -, hrest⟩ := foldlM_entry_withSeed hfile hopen
  have hline := Toml.parse?_line_of_lt isBare_seed hlt hentries (by simpa using hkeys)
  have hword : word (.int seed.toNat) = .ok seed := by
    simp [word]
  have hfirst : entry {} ("seed", .int seed.toNat) = .ok (({} : Config).withSeed seed) := by
    rw [entry, hword]
    rfl
  rw [parse, withSeedLine, seedLine, String.toList_ofList, hline]
  simp only [ofEntries, String.ofList_toList, List.foldlM_cons, hfirst]
  exact hrest seed

theorem parse_withSeedLine_of_ge {seed : Seed} (hge : 2 ^ 63 ≤ seed.toNat) (text : String) :
    parse (withSeedLine text seed) = .error .malformed := by
  rw [parse, withSeedLine, seedLine, String.toList_ofList, Toml.parse?_line_of_ge isBare_seed hge]

/-- No file gives a seed that 63 bits do not hold. -/
theorem seed_lt_of_parse {text : String} {file : Config} (h : parse text = .ok file) {seed : Seed}
    (hseed : file.seed = some seed) : seed.toNat < 2 ^ 63 := by
  obtain ⟨entries, hentries, hfile⟩ := ofEntries_of_parse h
  refine seed_lt_of_foldlM hfile (Toml.forall_parse? hentries) ?_ seed hseed
  rintro _ ⟨⟩

end SyntheticRows.Config
