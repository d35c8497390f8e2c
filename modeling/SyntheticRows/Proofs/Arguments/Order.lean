import Mathlib
import SyntheticRows.Proofs.Arguments.Settings
import SyntheticRows.Proofs.Run.Independence
import SyntheticRows.Proofs.Run.Refusal

/-!
The order of options. Each option has a slot of its own among the arguments, which it alone fills (`foldlM_apply_iff`):
so only the order of passes can matter, and it does not matter to a run. A slot that holds one value is filled
once.
-/

namespace SyntheticRows

theorem exists_of_map_eq_ok {ε α β : Type} {x : Except ε α} {f : α → β} {b : β} (h : x.map f = .ok b) :
    ∃ a, x = .ok a ∧ f a = b := by
  cases x with
  | error e => cases h
  | ok a => exact ⟨a, rfl, Except.ok.inj h⟩

namespace Arguments

/-! ### Slots -/

/-- The options, each with a place of its own in what a command line asks for. -/
inductive Slot
  | option (option : ValueOption)
  | switch (switch : Switch)
deriving DecidableEq

namespace Slot

/-- What is kept for an option. Nothing is kept for the switches that ask for a notice. -/
abbrev Content : Slot → Type
  | option .seed | option .upperBound | option .step => Option UInt64
  | option .pass => List Pass
  | option .readingTable | option .positionTable | option .config | option .report | option .logFile => Option String
  | switch .insertStatement | switch .verbose => Bool
  | switch .help | switch .version => Unit

end Slot

def get (a : Arguments) : (slot : Slot) → slot.Content
  | .option .seed => a.seed
  | .option .upperBound => a.upperBound
  | .option .step => a.step
  | .option .pass => a.passes
  | .option .readingTable => a.readingTable
  | .option .positionTable => a.positionTable
  | .option .config => a.config
  | .option .report => a.report
  | .option .logFile => a.logFile
  | .switch .insertStatement => a.insertStatement
  | .switch .verbose => a.verbose
  | .switch .help | .switch .version => ()

def set (a : Arguments) : (slot : Slot) → slot.Content → Arguments
  | .option .seed, seed => { a with seed }
  | .option .upperBound, upperBound => { a with upperBound }
  | .option .step, step => { a with step }
  | .option .pass, passes => { a with passes }
  | .option .readingTable, readingTable => { a with readingTable }
  | .option .positionTable, positionTable => { a with positionTable }
  | .option .config, config => { a with config }
  | .option .report, report => { a with report }
  | .option .logFile, logFile => { a with logFile }
  | .switch .insertStatement, insertStatement => { a with insertStatement }
  | .switch .verbose, verbose => { a with verbose }
  | .switch .help, _ | .switch .version, _ => a

/-- What an option with a value, or a switch, makes of what is kept for it. -/
def fill : (slot : Slot) → String → slot.Content → Except UsageFault slot.Content
  | .option .seed, value, before | .option .upperBound, value, before | .option .step, value, before =>
    once before (number value)
  | .option .pass, value, before =>
    match Vocabulary.find? value with
    | some pass => .ok (before ++ [pass])
    | none => .error .invalidValue
  | .option .readingTable, value, before | .option .positionTable, value, before => once before (.ok value)
  | .option .config, value, before | .option .report, value, before | .option .logFile, value, before =>
    once before (path value)
  | .switch .insertStatement, _, before | .switch .verbose, _, before =>
    if before then .error .repeatedOption else .ok true
  | .switch .help, _, _ => .error .helpRequested
  | .switch .version, _, _ => .error .versionRequested

section
variable {a b : Arguments} {slot other : Slot}

theorem get_set_self (a : Arguments) (slot : Slot) (c : slot.Content) : (a.set slot c).get slot = c := by
  rcases slot with option | switch
  · cases option <;> rfl
  · cases switch <;> rfl

theorem get_set_of_ne (h : other ≠ slot) (c : slot.Content) : (a.set slot c).get other = a.get other := by
  rcases slot with option | switch <;> rcases other with option' | switch'
  · cases option <;> cases option' <;> first | rfl | exact absurd rfl h
  · cases option <;> cases switch' <;> rfl
  · cases switch <;> cases option' <;> rfl
  · cases switch <;> cases switch' <;> first | rfl | exact absurd rfl h

theorem ext_slots (h : ∀ slot, a.get slot = b.get slot) : a = b := by
  cases a
  cases b
  simp only [mk.injEq]
  exact ⟨h (.option .seed), h (.option .upperBound), h (.option .step), h (.option .pass), h (.switch .insertStatement),
    h (.option .readingTable), h (.option .positionTable), h (.option .config), h (.option .report),
    h (.option .logFile), h (.switch .verbose)⟩

end

namespace Setting

def slot : Setting → Slot
  | .value option _ => .option option
  | .switch turned => .switch turned

/-- The value of a setting, which is empty for a switch. -/
def given : Setting → String
  | .value _ given => given
  | .switch _ => ""

theorem apply_eq (setting : Setting) (a : Arguments) :
    setting.apply a = (fill setting.slot setting.given (a.get setting.slot)).map (a.set setting.slot) := by
  cases setting with
  | value option value =>
    cases option with
    | pass =>
      simp only [apply, put, slot, given, fill]
      cases (Vocabulary.find? value : Option Pass) <;> rfl
    | _ => rfl
  | switch turned =>
    cases turned with
    | help | version => rfl
    | _ =>
      simp only [apply, turnOn, slot, fill, get]
      split <;> rfl

end Setting

/-- The values of the settings of an option, in their order. -/
def givenTo (slot : Slot) (settings : List Setting) : List String :=
  (settings.filter (·.slot = slot)).map (·.given)

def fillAll (slot : Slot) (values : List String) (before : slot.Content) : Except UsageFault slot.Content :=
  values.foldlM (fun content value => fill slot value content) before

section
variable {a b : Arguments} {settings others : List Setting} {slot : Slot}

theorem givenTo_cons_self (setting : Setting) (rest : List Setting) :
    givenTo setting.slot (setting :: rest) = setting.given :: givenTo setting.slot rest := by
  simp [givenTo]

theorem givenTo_cons_of_ne {setting : Setting} (h : slot ≠ setting.slot) (rest : List Setting) :
    givenTo slot (setting :: rest) = givenTo slot rest := by
  simp [givenTo, h.symm]

theorem fillAll_cons (value : String) (values : List String) (before : slot.Content) :
    fillAll slot (value :: values) before = fill slot value before >>= fillAll slot values :=
  List.foldlM_cons

/-- What settings ask for is what the values of each option make of its slot. -/
theorem foldlM_apply_iff : settings.foldlM Setting.apply a = .ok b ↔
    ∀ slot, fillAll slot (givenTo slot settings) (a.get slot) = .ok (b.get slot) := by
  induction settings generalizing a with
  | nil =>
    constructor
    · rintro ⟨⟩ slot
      rfl
    · intro h
      exact congrArg Except.ok (ext_slots fun slot => Except.ok.inj (h slot))
  | cons setting rest ih =>
    -- The first setting fills its own slot, and the others are as they were.
    rw [List.foldlM_cons, Setting.apply_eq]
    constructor
    · intro h slot
      obtain ⟨c, hc, h⟩ := exists_of_bind_eq_ok h
      obtain ⟨content, hcontent, rfl⟩ := exists_of_map_eq_ok hc
      have hrest := ih.mp h slot
      by_cases hne : slot = setting.slot
      · subst hne
        rw [get_set_self] at hrest
        rw [givenTo_cons_self, fillAll_cons, hcontent]
        exact hrest
      · rw [get_set_of_ne hne] at hrest
        rw [givenTo_cons_of_ne hne]
        exact hrest
    · intro h
      have hfirst := h setting.slot
      rw [givenTo_cons_self, fillAll_cons] at hfirst
      obtain ⟨content, hcontent, hrest⟩ := exists_of_bind_eq_ok hfirst
      rw [hcontent]
      refine ih.mpr fun slot => ?_
      by_cases hne : slot = setting.slot
      · subst hne
        rw [get_set_self]
        exact hrest
      · rw [get_set_of_ne hne, ← givenTo_cons_of_ne hne]
        exact h slot

/-! ### Options that are given once -/

theorem once_twice {α : Type} {before content after : Option α} {value again : Except UsageFault α}
    (h : once before value = .ok content) : once content again ≠ .ok after := by
  cases before with
  | some _ => cases h
  | none =>
    obtain ⟨v, -, rfl⟩ := exists_of_map_eq_ok h
    exact nofun

/-- What is filled once is not filled again, passes apart. -/
theorem fill_twice (hslot : slot ≠ .option .pass) {value again : String} {before content after : slot.Content}
    (h : fill slot value before = .ok content) : fill slot again content ≠ .ok after := by
  rcases slot with option | switch
  · cases option with
    | pass => exact absurd rfl hslot
    | _ => exact once_twice h
  · cases switch with
    | help | version => cases h
    | _ =>
      simp only [fill] at h ⊢
      split at h
      · cases h
      · cases h
        exact nofun

theorem length_le_one (hslot : slot ≠ .option .pass) {values : List String} {before after : slot.Content}
    (h : fillAll slot values before = .ok after) : values.length ≤ 1 := by
  match values with
  | [] => exact Nat.zero_le 1
  | [_] => exact Nat.le_refl 1
  | first :: second :: rest =>
    obtain ⟨content, hcontent, h⟩ := exists_of_bind_eq_ok h
    obtain ⟨after, hafter, -⟩ := exists_of_bind_eq_ok h
    exact absurd hafter (fill_twice hslot hcontent)

/-! ### Other orders -/

theorem parse_iff_fillAll {args : List String} (h : Spells settings args) :
    parse args = .ok b ↔ ∀ slot, fillAll slot (givenTo slot settings) (get {} slot) = .ok (b.get slot) :=
  (parse_iff_of_spells h).trans foldlM_apply_iff

theorem perm_givenTo (h : others.Perm settings) (slot : Slot) : (givenTo slot others).Perm (givenTo slot settings) :=
  (h.filter _).map _

/-- Settings of other options can be left out. -/
theorem givenTo_filter {other : Slot} (hslot : slot ≠ other) (settings : List Setting) :
    givenTo slot (settings.filter (·.slot ≠ other)) = givenTo slot settings := by
  rw [givenTo, List.filter_filter]
  refine congrArg (List.map _) (List.filter_congr fun setting _ => ?_)
  by_cases heq : setting.slot = slot
  · simp [heq, hslot]
  · simp [heq]

theorem eq_of_perm_of_length_le_one {α : Type} {xs ys : List α} (h : ys.Perm xs) (hlength : xs.length ≤ 1) :
    ys = xs := by
  match xs with
  | [] => exact h.eq_nil
  | [x] => exact List.perm_singleton.mp h

/-- Options that are given once are given the same in any order. -/
theorem givenTo_eq_of_perm {args : List String} (h : Spells settings args) (hparse : parse args = .ok a)
    (hslot : slot ≠ .option .pass) (hperm : (givenTo slot others).Perm (givenTo slot settings)) :
    givenTo slot others = givenTo slot settings :=
  eq_of_perm_of_length_le_one hperm (length_le_one hslot ((parse_iff_fillAll h).mp hparse slot))

/-! ### Passes -/

theorem fillAll_pass {values : List String} {before after : List Pass} :
    fillAll (.option .pass) values before = .ok after ↔
      (∀ value ∈ values, (Vocabulary.find? value : Option Pass).isSome) ∧
        after = before ++ values.filterMap Vocabulary.find? := by
  induction values generalizing before with
  | nil =>
    rw [List.filterMap_nil, List.append_nil]
    exact ⟨fun h => ⟨nofun, (Except.ok.inj h).symm⟩, fun h => congrArg Except.ok h.2.symm⟩
  | cons value rest ih =>
    rw [List.forall_mem_cons]
    cases hfind : (Vocabulary.find? value : Option Pass) with
    | none =>
      have hfill : fill (.option .pass) value before = .error .invalidValue := by simp only [fill, hfind]
      rw [fillAll_cons, hfill]
      exact ⟨nofun, fun h => absurd h.1.1 Bool.false_ne_true⟩
    | some pass =>
      have hfill : fill (.option .pass) value before = .ok (before ++ [pass]) := by simp only [fill, hfind]
      rw [fillAll_cons, hfill, List.filterMap_cons_some hfind,
        List.append_cons before pass (rest.filterMap _)]
      exact ih.trans ⟨fun h => ⟨⟨rfl, h.1⟩, h.2⟩, fun h => ⟨h.1.2, h.2⟩⟩

end

/-- Passes that are given in another order or more than once are the same passes. -/
theorem exists_fillAll_pass {values others : List String} {after : List Pass}
    (h : fillAll (.option .pass) values [] = .ok after) (hmem : ∀ value, value ∈ others ↔ value ∈ values) :
    ∃ passes, fillAll (.option .pass) others [] = .ok passes ∧ ∀ pass, pass ∈ passes ↔ pass ∈ after := by
  obtain ⟨hknown, rfl⟩ := fillAll_pass.mp h
  refine ⟨_, fillAll_pass.mpr ⟨fun value hvalue => hknown value ((hmem value).mp hvalue), rfl⟩, fun pass => ?_⟩
  simp only [List.nil_append, List.mem_filterMap, hmem]

end Arguments

/-! ### Options -/

section
variable {o : Options} {passes : List Pass}

/-- The options that a command line can set, apart from where the files are and what is logged. -/
def Arguments.optionSlots : List Arguments.Slot :=
  [.option .seed, .option .upperBound, .option .step, .option .pass, .switch .insertStatement, .option .readingTable,
    .option .positionTable]

theorem nil_iff_of_mem_iff {α : Type} {xs ys : List α} (h : ∀ x, x ∈ xs ↔ x ∈ ys) : xs = [] ↔ ys = [] := by
  simp only [List.eq_nil_iff_forall_not_mem, h]

theorem fault?_congr_passes (hpasses : ∀ pass, pass ∈ passes ↔ pass ∈ o.passes) :
    { o with passes }.fault? = o.fault? := by
  simp only [Options.fault?, nil_iff_of_mem_iff hpasses]

theorem text_congr_passes (hpasses : ∀ pass, pass ∈ passes ↔ pass ∈ o.passes) (seed : Seed) :
    { o with passes }.text seed = o.text seed := by
  simp only [Options.text_eq_append, hpasses]
  rfl

/-- The order and the repetitions of passes do not matter to a run. -/
theorem Venue.output?_congr_passes (w : Venue) (hpasses : ∀ pass, pass ∈ passes ↔ pass ∈ o.passes) :
    w.output? { o with passes } = w.output? o := by
  have hfault := fault?_congr_passes hpasses
  cases h : o.fault? with
  | some fault => rw [Venue.output?, Venue.output?, runInto_of_fault h, runInto_of_fault (hfault.trans h)]
  | none =>
    have houtput {o : Options} (accepted : o.fault? = none) :
        w.output? o = some (utf8 (o.text (o.seed.getD w.occasion.randomSeed))) := by
      rw [Venue.output?, (runInto_of_faultFree accepted w.faultFree w.state w.occasion).1,
        stored_of_faultFree accepted w.faultFree w.state w.occasion]
      rfl
    rw [houtput h, houtput (hfault.trans h), text_congr_passes hpasses]

end

namespace Arguments

/-! ### Command lines compared -/

section
variable {a b : Arguments} {settings others : List Setting} {args : List String}

theorem parse_eq_of_perm (h : Spells settings args) (hparse : parse args = .ok a) {otherArgs : List String}
    (hother : Spells others otherArgs) (hperm : others.Perm settings)
    (hpasses : givenTo (.option .pass) others = givenTo (.option .pass) settings) : parse otherArgs = .ok a := by
  refine (parse_iff_fillAll hother).mpr fun slot => ?_
  have heq : givenTo slot others = givenTo slot settings := by
    by_cases hslot : slot = .option .pass
    · rw [hslot, hpasses]
    · exact givenTo_eq_of_perm h hparse hslot (perm_givenTo hperm slot)
  rw [heq]
  exact (parse_iff_fillAll h).mp hparse slot

theorem exists_parse_of_passes (h : Spells settings args) (hparse : parse args = .ok a) {otherArgs : List String}
    (hother : Spells others otherArgs)
    (hperm : ∀ slot, slot ≠ .option .pass → (givenTo slot others).Perm (givenTo slot settings))
    (hpasses : ∀ value, value ∈ givenTo (.option .pass) others ↔ value ∈ givenTo (.option .pass) settings) :
    ∃ passes, parse otherArgs = .ok { a with passes } ∧ ∀ pass, pass ∈ passes ↔ pass ∈ a.passes := by
  have hslots := (parse_iff_fillAll h).mp hparse
  obtain ⟨passes, hfill, hmem⟩ := exists_fillAll_pass (hslots (.option .pass)) hpasses
  refine ⟨passes, (parse_iff_fillAll hother).mpr fun slot => ?_, hmem⟩
  by_cases hslot : slot = .option .pass
  · rw [hslot]
    exact hfill
  · have hset : get { a with passes } slot = a.get slot := get_set_of_ne (a := a) hslot passes
    rw [hset, givenTo_eq_of_perm h hparse hslot (hperm slot hslot)]
    exact hslots slot

theorem output?_resolve_congr {passes : List Pass} (hmem : ∀ pass, pass ∈ passes ↔ pass ∈ a.passes) (file : Config)
    (w : Venue) : w.output? (Config.resolve file { a with passes }.overrides) =
      w.output? (Config.resolve file a.overrides) := by
  refine w.output?_congr_passes (o := Config.resolve file a.overrides) fun pass => ?_
  have hnil := nil_iff_of_mem_iff hmem
  by_cases hempty : a.passes = []
  · have hempty' := hnil.mpr hempty
    simp [Config.resolve, overrides, hempty, hempty']
  · have hsome : passes ≠ [] := mt hnil.mp hempty
    simp [Config.resolve, overrides, Option.filter, hempty, hsome, hmem]

theorem resolve_of_unset (h : Spells settings args) (hparse : parse args = .ok a)
    (hunset : ∀ setting ∈ settings, setting.slot ∉ optionSlots) (file : Config) :
    Config.resolve file a.overrides = Config.resolve file {} := by
  have hslot (slot : Slot) (hmem : slot ∈ optionSlots) : a.get slot = get {} slot := by
    have hnone : givenTo slot settings = [] := by
      rw [givenTo, List.map_eq_nil_iff, List.filter_eq_nil_iff]
      intro setting hsetting heq
      exact hunset setting hsetting (of_decide_eq_true heq ▸ hmem)
    have hfill := (parse_iff_fillAll h).mp hparse slot
    rw [hnone] at hfill
    exact (Except.ok.inj hfill).symm
  have hoverrides : a.overrides = overrides {} := by
    have hseed : a.seed = none := hslot (.option .seed) (by decide)
    have hbound : a.upperBound = none := hslot (.option .upperBound) (by decide)
    have hstep : a.step = none := hslot (.option .step) (by decide)
    have hpasses : a.passes = [] := hslot (.option .pass) (by decide)
    have hstatements : a.insertStatement = false := hslot (.switch .insertStatement) (by decide)
    have hreading : a.readingTable = none := hslot (.option .readingTable) (by decide)
    have hposition : a.positionTable = none := hslot (.option .positionTable) (by decide)
    simp only [overrides, hseed, hbound, hstep, hpasses, hstatements, hreading, hposition]
  rw [hoverrides]
  rfl

end

/-- A command line that is accepted spells settings. However these are spelled, an option that is not for passes is
    refused if it is given twice. In another order, with the passes among themselves in the old one, they are accepted
    too and ask for the same. If the passes change places as well, or come again, the output of a run stays the same
    with any file. Settings that are not about options leave those of the file as they are. -/
theorem options_in_any_order :
    (∀ args a, parse args = .ok a → ∃ settings, Spells settings args) ∧
    ∀ settings args, Spells settings args →
      (∀ slot, slot ≠ .option .pass → 2 ≤ (givenTo slot settings).length →
        ∃ fault, parse args = .error fault) ∧
      ∀ a, parse args = .ok a →
        (∀ others otherArgs, Spells others otherArgs → others.Perm settings →
          givenTo (.option .pass) others = givenTo (.option .pass) settings →
          ∃ b, parse otherArgs = .ok b ∧ ∀ file, Config.resolve file b.overrides = Config.resolve file a.overrides) ∧
        (∀ others otherArgs, Spells others otherArgs →
          (others.filter (·.slot ≠ .option .pass)).Perm (settings.filter (·.slot ≠ .option .pass)) →
          (∀ value, value ∈ givenTo (.option .pass) others ↔ value ∈ givenTo (.option .pass) settings) →
          ∃ b, parse otherArgs = .ok b ∧ ∀ (file : Config) (w : Venue),
            w.output? (Config.resolve file b.overrides) = w.output? (Config.resolve file a.overrides)) ∧
        ((∀ setting ∈ settings, setting.slot ∉ optionSlots) →
          ∀ file, Config.resolve file a.overrides = Config.resolve file {}) := by
  refine ⟨fun args a => exists_spells_of_parse, fun settings args hspells => ⟨fun slot hslot htwice => ?_, ?_⟩⟩
  · cases hparse : parse args with
    | error fault => exact ⟨fault, rfl⟩
    | ok a =>
      have hlength := length_le_one hslot ((parse_iff_fillAll hspells).mp hparse slot)
      omega
  · refine fun a hparse => ⟨fun others otherArgs hothers hperm hpasses => ?_,
      fun others otherArgs hothers hperm hpasses => ?_, resolve_of_unset hspells hparse⟩
    · exact ⟨a, parse_eq_of_perm hspells hparse hothers hperm hpasses, fun _ => rfl⟩
    · have hslots (slot : Slot) (hslot : slot ≠ .option .pass) :
          (givenTo slot others).Perm (givenTo slot settings) := by
        rw [← givenTo_filter hslot others, ← givenTo_filter hslot settings]
        exact perm_givenTo hperm slot
      obtain ⟨passes, hparsed, hmem⟩ := exists_parse_of_passes hspells hparse hothers hslots hpasses
      exact ⟨_, hparsed, fun file w => output?_resolve_congr hmem file w⟩

/-- Options in two orders, with other spellings and with passes that change places in the second and come again. -/
theorem options_in_any_order_with_passes :
    let settings : List Setting :=
      [.value .pass "positions", .value .seed "7", .switch .verbose, .value .pass "readings", .value .readingTable "-"]
    let others : List Setting :=
      [.switch .verbose, .value .pass "readings", .value .readingTable "-", .value .pass "positions",
        .value .pass "readings", .value .seed "7"]
    let args := ["--pass", "positions", "--seed=7", "-v", "--pass=readings", "--reading-table", "-"]
    let otherArgs :=
      ["--verbose", "--pass", "readings", "--reading-table=-", "--pass", "positions", "--pass=readings", "--seed",
        "7", "--"]
    ∃ a, (Spells settings args ∧ parse args = .ok a) ∧
      Spells others otherArgs ∧ ∃ b, parse otherArgs = .ok b ∧ ∀ (file : Config) (w : Venue),
        w.output? (Config.resolve file b.overrides) = w.output? (Config.resolve file a.overrides) := by
  intro settings others args otherArgs
  have hspells : Spells settings args :=
    .cons (.separate .pass "positions" (by decide)) <| .cons (.attached .seed "7") <|
    .cons (.letters ['v'] [.verbose] rfl (by decide)) <| .cons (.attached .pass "readings") <|
    .cons (.separate .readingTable "-" (by decide)) .nil
  have hothers : Spells others otherArgs :=
    .cons (.long .verbose) <| .cons (.separate .pass "readings" (by decide)) <|
    .cons (.attached .readingTable "-") <| .cons (.separate .pass "positions" (by decide)) <|
    .cons (.attached .pass "readings") <| .cons (.separate .seed "7" (by decide)) .stop
  have hparse : parse args = .ok { seed := some 7, passes := [.positions, .readings], readingTable := some "-",
                                   verbose := true } := by decide
  have hgiven : givenTo (.option .pass) settings = ["positions", "readings"] := by decide
  have hagain : givenTo (.option .pass) others = ["readings", "positions", "readings"] := by decide
  have hpasses (value : String) :
      value ∈ givenTo (.option .pass) others ↔ value ∈ givenTo (.option .pass) settings := by
    rw [hgiven, hagain]
    simp only [List.mem_cons, List.not_mem_nil]
    tauto
  have h := (options_in_any_order.2 settings args hspells).2 _ hparse
  exact ⟨_, ⟨hspells, hparse⟩, hothers, h.2.1 others otherArgs hothers (by decide) hpasses⟩

end Arguments

end SyntheticRows
