import Mathlib
import SyntheticRows.Proofs.Config
import SyntheticRows.Proofs.Run.Independence
import SyntheticRows.Proofs.Run.Refusal

/-!
Replays. A run without a seed reports the one that it drew, and with this seed among its options it writes the same
bytes again. The command line takes any such seed; a configuration file takes those that 63 bits hold.
-/

namespace SyntheticRows

/-! ### Runs that succeed -/

section
variable {σ : Type} {device : Device σ} {state : σ} {o : Options} {occasion : Occasion} {report : Report}

theorem accepted_of_runInto (h : (runInto device state o occasion).1 = .ok report) : o.fault? = none := by
  cases hfault : o.fault? with
  | none => rfl
  | some fault =>
    rw [runInto_of_fault hfault] at h
    cases h

/-- A run that succeeds has written its whole text, whatever the device did. -/
theorem runInto_ok (h : (runInto device state o occasion).1 = .ok report) :
    report.seed = o.seed.getD occasion.randomSeed ∧
      (runInto device state o occasion).2.stored = utf8 (o.text report.seed) := by
  have hresult := runInto_of_accepted (accepted_of_runInto h) device state occasion
  rw [h] at hresult
  obtain ⟨hattempt, rfl⟩ := hresult
  refine ⟨rfl, ?_⟩
  rw [stored_eq_taken, taken_eq_filterMap, hattempt.1, Options.filterMap_passEffects]
  rfl

end

/-! ### Options with a seed -/

namespace Options

def withSeed (o : Options) (seed : Seed) : Options :=
  { o with seed := some seed }

theorem fault?_withSeed (o : Options) (seed : Seed) : (o.withSeed seed).fault? = o.fault? :=
  rfl

theorem text_withSeed (o : Options) (seed : Seed) : (o.withSeed seed).text = o.text :=
  rfl

end Options

theorem resolve_withSeed_arguments (file : Config) (a : Arguments) (seed : Seed) :
    Config.resolve file (a.withSeed seed).overrides = (Config.resolve file a.overrides).withSeed seed :=
  rfl

theorem resolve_withSeed_file {a : Arguments} (hopen : a.seed = none) (file : Config) (seed : Seed) :
    Config.resolve (file.withSeed seed) a.overrides = (Config.resolve file a.overrides).withSeed seed := by
  have hseed : a.overrides.seed = none := hopen
  rw [Config.resolve, hseed]
  rfl

/-- A run without a seed, by the options of a command line and a file, reports the seed that it drew. With this seed
    the same bytes are written anywhere. The command line takes the seed in front of the other arguments. The file
    takes it on a line of its own if 63 bits hold it; else that line makes it malformed, and no other file gives the
    seed either. -/
theorem reported_seed_replays {σ : Type} (device : Device σ) (state : σ) (occasion : Occasion) (w : Venue)
    {args : List String} {text : String} {a : Arguments} {file : Config} {report : Report}
    (hargs : Arguments.parse args = .ok a) (hfile : Config.parse text = .ok file)
    (hopen : (Config.resolve file a.overrides).seed = none)
    (hrun : (runInto device state (Config.resolve file a.overrides) occasion).1 = .ok report) :
    let o := Config.resolve file a.overrides
    let replay := o.withSeed report.seed
    report.seed = occasion.randomSeed ∧ w.output? replay = some (runInto device state o occasion).2.stored ∧
    (∃ b, Arguments.parse ("--seed" :: String.ofList (Decimal.numeral report.seed.toNat) :: args) = .ok b ∧
      Config.resolve file b.overrides = replay) ∧
    (report.seed.toNat < 2 ^ 63 → ∃ seeded, Config.parse (Config.withSeedLine text report.seed) = .ok seeded ∧
      Config.resolve seeded a.overrides = replay) ∧
    (2 ^ 63 ≤ report.seed.toNat → Config.parse (Config.withSeedLine text report.seed) = .error .malformed ∧
      ∀ other seeded, Config.parse other = .ok seeded → Config.resolve seeded a.overrides ≠ replay) := by
  intro o replay
  obtain ⟨haopen, hfopen⟩ : a.seed = none ∧ file.seed = none := Option.or_eq_none_iff.mp hopen
  obtain ⟨hseed, hstored⟩ := runInto_ok hrun
  have haccepted : replay.fault? = none := (o.fault?_withSeed report.seed).trans (accepted_of_runInto hrun)
  refine ⟨?_, ?_, ?_, fun hlt => ?_, fun hge => ⟨?_, fun other seeded hother heq => ?_⟩⟩
  · rw [hseed, hopen]
    rfl
  · rw [w.output?_eq haccepted rfl, hstored, Options.text_withSeed]
  · exact ⟨_, Arguments.parse_seed_cons report.seed hargs haopen, resolve_withSeed_arguments file a report.seed⟩
  · exact ⟨_, Config.parse_withSeedLine hfile hfopen hlt, resolve_withSeed_file haopen file report.seed⟩
  · exact Config.parse_withSeedLine_of_ge hge text
  · -- The seed of the replay would be that of the file.
    have hseeded : seeded.seed = some report.seed := by
      have h := congrArg Options.seed heq
      rwa [Config.resolve, show a.overrides.seed = none from haopen, Option.none_or] at h
    exact absurd (Config.seed_lt_of_parse hother hseeded) (Nat.not_lt.mpr hge)

/-- A run that drew the largest seed that a file takes, with options from both sides. -/
theorem reported_seed_replays_of_largest :
    let v : Venue := ⟨Unit, Device.byteByByte, Device.faultFree_byteByByte, (), .epoch⟩
    let occasion : Occasion := { Occasion.epoch with randomSeed := 9223372036854775807 }
    let args := ["--step", "7", "-v"]
    let text := "upper_bound = 15\npasses = [\"positions\"]\n"
    ∃ a file report, (Arguments.parse args = .ok a ∧ Config.parse text = .ok file ∧
      (Config.resolve file a.overrides).seed = none ∧
      (runInto Device.byteByByte () (Config.resolve file a.overrides) occasion).1 = .ok report) ∧
      report.seed = 9223372036854775807 ∧
      ∃ b seeded, Arguments.parse ("--seed" :: "9223372036854775807" :: args) = .ok b ∧
        Config.parse ("seed = 9223372036854775807\n" ++ text) = .ok seeded ∧
        Config.resolve file b.overrides = Config.resolve seeded a.overrides ∧
        v.output? (Config.resolve seeded a.overrides) =
          some (runInto Device.byteByByte () (Config.resolve file a.overrides) occasion).2.stored := by
  intro v occasion args text
  let a : Arguments := { step := some 7, verbose := true }
  let file : Config := { upperBound := some 15, passes := some [.positions] }
  have hargs : Arguments.parse args = .ok a := by decide
  have hfile : Config.parse text = .ok file := by decide
  have hopen : (Config.resolve file a.overrides).seed = none := rfl
  have hrun := (runInto_of_faultFree (o := Config.resolve file a.overrides) (by decide) v.faultFree () occasion).1
  obtain ⟨hseed, houtput, ⟨b, hb, hflag⟩, hline, -⟩ :=
    reported_seed_replays Device.byteByByte () occasion v hargs hfile hopen hrun
  have hdrawn : occasion.randomSeed = 9223372036854775807 := rfl
  rw [hseed, hdrawn] at houtput hb hflag hline
  obtain ⟨seeded, hseeded, hresolve⟩ := hline (by decide)
  have hnumeral : String.ofList (Decimal.numeral (9223372036854775807 : UInt64).toNat) = "9223372036854775807" := by
    decide
  have htext : Config.withSeedLine text 9223372036854775807 = "seed = 9223372036854775807\n" ++ text := by decide
  rw [hnumeral] at hb
  rw [htext] at hseeded
  exact ⟨a, file, _, ⟨hargs, hfile, hopen, hrun⟩, hseed, b, seeded, hb, hseeded, hflag.trans hresolve.symm,
    hresolve ▸ houtput⟩

/-- A run with the default options reports a seed that the command line takes and no file does. -/
theorem reported_seed_refused_by_file :
    let occasion : Occasion := { Occasion.epoch with randomSeed := 9223372036854775808 }
    (∃ report, (runInto Device.byteByByte () {} occasion).1 = .ok report ∧ report.seed = 9223372036854775808) ∧
      (∃ b, Arguments.parse ["--seed", "9223372036854775808"] = .ok b ∧ b.seed = some 9223372036854775808) ∧
      Config.parse "seed = 9223372036854775808\n" = .error .malformed := by
  intro occasion
  have hrun := (runInto_of_faultFree (o := {}) (by decide) Device.faultFree_byteByByte () occasion).1
  exact ⟨⟨_, hrun, rfl⟩, ⟨{ seed := some 9223372036854775808 }, by decide, rfl⟩, by decide⟩

end SyntheticRows
