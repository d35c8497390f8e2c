import SyntheticRows.Preview
import SyntheticRows.Proofs.Numeral
import SyntheticRows.Proofs.Run.Independence

/-!
The arguments of the preview as settings. Arguments that are understood spell some settings one after the other
(`Spells`), or they spell settings and end with an option for the seed that has no value (`options_ok_iff`). Only there
a seed that was asked for is lost.
-/

namespace SyntheticRows.Preview

/-! ### Settings -/

/-- What an argument asks for, together with its value. -/
inductive Setting
  | statement
  | seed (value : Seed)
deriving DecidableEq, Repr

namespace Setting

def apply (o : Options) : Setting → Options
  | statement => { o with framing := .defaultStatements }
  | seed value => { o with seed := some value }

def seed? : Setting → Option Seed
  | statement => none
  | seed value => some value

end Setting

/-- The options after some settings: the seed of the last one that has a seed, and statements if any asks for them. -/
def asked (settings : List Setting) : Options :=
  { defaults with
    seed := (settings.filterMap (·.seed?)).getLast?
    framing := if .statement ∈ settings then .defaultStatements else .lines }

/-- The arguments that spell settings. A seed is spelled by an option and a numeral behind it. -/
inductive Spells : List Setting → List String → Prop
  | nil : Spells [] []
  | statement {settings : List Setting} {args : List String} (later : Spells settings args) :
    Spells (.statement :: settings) ("--statement" :: args)
  | seed {settings : List Setting} {args : List String} {numeral : String} {value : Seed}
    (denotes : Numeral.Denotes numeral value) (later : Spells settings args) :
    Spells (.seed value :: settings) ("--seed" :: numeral :: args)

theorem foldl_apply (o : Options) (settings : List Setting) :
    settings.foldl Setting.apply o =
      { o with
        seed := (settings.filterMap (·.seed?)).getLast?.or o.seed
        framing := if .statement ∈ settings then .defaultStatements else o.framing } := by
  induction settings generalizing o with
  | nil => rfl
  | cons setting settings ih =>
    rw [List.foldl_cons, ih]
    cases setting with
    | statement => simp [Setting.apply, Setting.seed?]
    | seed value => simp [Setting.apply, Setting.seed?, List.getLast?_cons]

theorem foldl_apply_defaults (settings : List Setting) : settings.foldl Setting.apply defaults = asked settings := by
  rw [foldl_apply]
  simp [asked, defaults]

/-! ### Reading -/

section
variable {o p : Options} {settings : List Setting} {args : List String}

/-- Settings are read off the arguments that spell them, whatever stands behind these. -/
theorem Spells.read_append (h : Spells settings args) (o : Options) (rest : List String) :
    read o (args ++ rest) = read (settings.foldl Setting.apply o) rest := by
  induction h generalizing o with
  | nil => rfl
  | statement _ ih => exact ih _
  | seed denotes _ ih =>
    simp only [List.cons_append, read, Numeral.parse_eq_ok_iff.mpr denotes]
    exact ih _

theorem spells_of_read (h : read o args = .ok p) :
    (∃ settings, Spells settings args) ∨ ∃ settings front, args = front ++ ["--seed"] ∧ Spells settings front := by
  fun_induction read o args with
  | case1 o => exact Or.inl ⟨[], .nil⟩
  | case2 o => exact Or.inr ⟨[], [], rfl, .nil⟩
  | case3 o value rest seed hseed ih =>
    have denotes := Numeral.parse_eq_ok_iff.mp hseed
    obtain ⟨settings, hspells⟩ | ⟨settings, front, rfl, hspells⟩ := ih h
    · exact Or.inl ⟨_, .seed denotes hspells⟩
    · exact Or.inr ⟨_, _, rfl, .seed denotes hspells⟩
  | case4 => cases h
  | case5 o rest ih =>
    obtain ⟨settings, hspells⟩ | ⟨settings, front, rfl, hspells⟩ := ih h
    · exact Or.inl ⟨_, .statement hspells⟩
    · exact Or.inr ⟨_, _, rfl, .statement hspells⟩
  | case6 => cases h

theorem options_of_spells (h : Spells settings args) : options args = .ok (asked settings) := by
  have hread := h.read_append defaults []
  rwa [List.append_nil, foldl_apply_defaults] at hread

/-- The last seed counts, and its numeral may have a sign and zeros in front. -/
example : options ["--seed", "7", "--statement", "--seed", "+08"] =
    .ok { defaults with seed := some 8, framing := .defaultStatements } := by
  decide

theorem options_of_spells_seed (h : Spells settings args) :
    options (args ++ ["--seed"]) = .ok { asked settings with seed := none } := by
  rw [options, h.read_append, foldl_apply_defaults]
  rfl

theorem options_ok_iff : (∃ o, options args = .ok o) ↔
    (∃ settings, Spells settings args) ∨ ∃ settings front, args = front ++ ["--seed"] ∧ Spells settings front := by
  constructor
  · rintro ⟨o, h⟩
    exact spells_of_read h
  · rintro (⟨settings, h⟩ | ⟨settings, front, rfl, h⟩)
    · exact ⟨_, options_of_spells h⟩
    · exact ⟨_, options_of_spells_seed h⟩

end

/-! ### Runs of the preview -/

/-- The preview into a device, with its recording. -/
def executeInto {σ : Type} (device : Device σ) (state : σ) (args : List String) (occasion : Occasion) :
    Except Fault Report × Recording σ :=
  StateT.run (m := Id) (execute args occasion) { device, state }

section
variable {σ : Type} {device : Device σ} {state : σ} {args : List String} {occasion : Occasion} {o : Options}

theorem executeInto_of_fault {fault : Fault} (h : options args = .error fault) :
    executeInto device state args occasion = (.error fault, { device, state }) := by
  simp only [executeInto, execute, h]
  rfl

theorem executeInto_of_options (h : options args = .ok o) :
    executeInto device state args occasion =
      ((runInto device state o occasion).1.mapError .run, (runInto device state o occasion).2) := by
  have hrun : StateT.run (m := Id) (run o occasion) { device, state } = runInto device state o occasion := rfl
  simp only [executeInto, execute, h, StateT.run_bind, hrun]
  generalize runInto device state o occasion = a
  obtain ⟨result, r⟩ := a
  cases result <;> rfl

/-- On a device without faults the preview writes the text of its options with one seed, and reports this seed. -/
theorem executeInto_of_faultFree (h : options args = .ok o) (accepted : o.fault? = none) (hfree : device.FaultFree)
    (state : σ) (occasion : Occasion) :
    (executeInto device state args occasion).2.stored = utf8 (o.text (o.seed.getD occasion.randomSeed)) ∧
      ∃ report, (executeInto device state args occasion).1 = .ok report ∧
        report.seed = o.seed.getD occasion.randomSeed := by
  rw [executeInto_of_options h, (runInto_of_faultFree accepted hfree state occasion).1]
  exact ⟨stored_of_faultFree accepted hfree state occasion, _, rfl, rfl⟩

theorem accepted_asked (settings : List Setting) : (asked settings).fault? = none := by
  unfold asked
  split <;> rfl

theorem accepted_unseeded (settings : List Setting) : { asked settings with seed := none }.fault? = none :=
  accepted_asked settings

end

/-- Arguments are understood just if they spell settings, with or without an option for the seed behind them that has no
    value. Arguments that spell settings ask for the seed of the last of them that has one, and with such a seed the
    output and the reported seed are the same in all places. An option for the seed without a value drops every seed
    before it, and the seed is the one of the occasion. Arguments that are not understood leave the device alone. -/
theorem seed_kept_unless_value_missing (args : List String) :
    ((∃ o, options args = .ok o) ↔ (∃ settings, Spells settings args) ∨
        ∃ settings front, args = front ++ ["--seed"] ∧ Spells settings front) ∧
      (∀ settings, Spells settings args → options args = .ok (asked settings) ∧
        ∀ seed, (settings.filterMap (·.seed?)).getLast? = some seed → ∀ v : Venue,
          (executeInto v.device v.state args v.occasion).2.stored = utf8 ((asked settings).text seed) ∧
            ∃ report, (executeInto v.device v.state args v.occasion).1 = .ok report ∧ report.seed = seed) ∧
      (∀ settings front, args = front ++ ["--seed"] → Spells settings front →
        options args = .ok { asked settings with seed := none } ∧ ∀ v : Venue,
          ∃ report, (executeInto v.device v.state args v.occasion).1 = .ok report ∧
            report.seed = v.occasion.randomSeed) ∧
      ∀ fault, options args = .error fault → ∀ {σ : Type} (device : Device σ) (state : σ) (occasion : Occasion),
        executeInto device state args occasion = (.error fault, { device, state }) := by
  refine ⟨options_ok_iff, fun settings h => ?_, fun settings front hargs h => ?_, fun fault h _ _ _ _ => ?_⟩
  · have hoptions := options_of_spells h
    refine ⟨hoptions, fun seed hseed v => ?_⟩
    have hrun := executeInto_of_faultFree hoptions (accepted_asked settings) v.faultFree v.state v.occasion
    have hseed : (asked settings).seed = some seed := hseed
    rwa [hseed, Option.getD_some] at hrun
  · subst hargs
    have hoptions := options_of_spells_seed h
    refine ⟨hoptions, fun v => ?_⟩
    exact (executeInto_of_faultFree hoptions (accepted_unseeded settings) v.faultFree v.state v.occasion).2
  · exact executeInto_of_fault h

/-- The option for the seed is understood without a value and drops the seed before it. The program then succeeds with
    all of its 24 rows, but two occasions give two seeds. -/
theorem seed_dropped_without_value :
    (options ["--seed"] = .ok defaults ∧ ¬∃ settings, Spells settings ["--seed"]) ∧
      let args := ["--seed", "7", "--seed"]
      let reported (occasion : Occasion) :=
        (executeInto Device.byteByByte () args occasion).1.toOption.map fun report => (report.seed, report.rowsTotal)
      options args = .ok defaults ∧ reported { Occasion.epoch with randomSeed := 1 } = some (1, 24) ∧
        reported { Occasion.epoch with randomSeed := 2 } = some (2, 24) := by
  have hoptions : options ["--seed", "7", "--seed"] = .ok defaults := by decide
  have hreported (occasion : Occasion) :
      ((executeInto Device.byteByByte () ["--seed", "7", "--seed"] occasion).1.toOption.map fun report =>
        (report.seed, report.rowsTotal)) = some (occasion.randomSeed, 24) := by
    have hrun := (runInto_of_faultFree (o := defaults) (by decide) Device.faultFree_byteByByte () occasion).1
    rw [executeInto_of_options hoptions, hrun]
    rfl
  refine ⟨⟨by decide, ?_⟩, hoptions, hreported _, hreported _⟩
  rintro ⟨settings, h⟩
  generalize hargs : ["--seed"] = args at h
  cases h <;> simp at hargs

end SyntheticRows.Preview
