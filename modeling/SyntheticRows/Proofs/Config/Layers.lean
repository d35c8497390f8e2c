import SyntheticRows.Arguments

/-!
Layers of configurations. Each part of a configuration has a slot of its own, and options are taken slot by slot: from
the overrides, else from the file, else from the defaults (`get?_resolve`). So what a layer says in one slot does not
matter in another one, only that table names stand in statements alone.
-/

namespace SyntheticRows

namespace Config

/-! ### Slots -/

/-- The parts of a configuration. A layer may leave each of them open. -/
inductive Slot
  | seed
  | upperBound
  | step
  | passes
  | statements
  | readingTable
  | positionTable
deriving DecidableEq

namespace Slot

abbrev Content : Slot → Type
  | seed => Seed
  | upperBound | step => UInt64
  | passes => List Pass
  | statements => Bool
  | readingTable | positionTable => String

def isTable : Slot → Bool
  | readingTable | positionTable => true
  | _ => false

/-- What is in a slot that no layer fills. The seed stays open. -/
def default? : (slot : Slot) → Option slot.Content
  | seed => none
  | upperBound => some 2880
  | step => some 5
  | passes => some [.readings, .positions]
  | statements => some false
  | readingTable => some "btc_usd_price"
  | positionTable => some "trader_order"

end Slot

def get (c : Config) : (slot : Slot) → Option slot.Content
  | .seed => c.seed
  | .upperBound => c.upperBound
  | .step => c.step
  | .passes => c.passes
  | .statements => c.output.statements
  | .readingTable => c.output.readingTable
  | .positionTable => c.output.positionTable

def set (c : Config) : (slot : Slot) → Option slot.Content → Config
  | .seed, seed => { c with seed }
  | .upperBound, upperBound => { c with upperBound }
  | .step, step => { c with step }
  | .passes, passes => { c with passes }
  | .statements, statements => { c with output := { c.output with statements } }
  | .readingTable, readingTable => { c with output := { c.output with readingTable } }
  | .positionTable, positionTable => { c with output := { c.output with positionTable } }

theorem get_set_self (c : Config) (slot : Slot) (content : Option slot.Content) :
    (c.set slot content).get slot = content := by
  cases slot <;> rfl

theorem get_set_of_ne (c : Config) {slot other : Slot} (h : other ≠ slot) (content : Option slot.Content) :
    (c.set slot content).get other = c.get other := by
  cases slot <;> cases other <;> first | rfl | exact absurd rfl h

/-- What a layer puts into a slot as overrides. A list of no passes leaves the passes open. -/
def override? (c : Config) : (slot : Slot) → Option slot.Content
  | .passes => c.passes.filter (· ≠ [])
  | slot => c.get slot

theorem override?_congr {c d : Config} {slot : Slot} (h : c.get slot = d.get slot) :
    c.override? slot = d.override? slot := by
  cases slot with
  | passes => exact congrArg (Option.filter _) h
  | _ => exact h

/-! ### Layers -/

/-- What is in a slot by two layers: the overrides come before the file, and the file before the default. -/
def layered (file overrides : Config) (slot : Slot) : Option slot.Content :=
  match overrides.override? slot, file.get slot with
  | some content, _ => some content
  | none, some content => some content
  | none, none => slot.default?

section
variable {file file' overrides overrides' : Config} {slot : Slot}

theorem layered_eq (file overrides : Config) (slot : Slot) :
    layered file overrides slot = ((overrides.override? slot).or (file.get slot)).or slot.default? := by
  unfold layered
  cases overrides.override? slot <;> cases file.get slot <;> rfl

theorem layered_congr (hfile : file.get slot = file'.get slot) (hoverrides : overrides.get slot = overrides'.get slot) :
    layered file overrides slot = layered file' overrides' slot := by
  rw [layered_eq, layered_eq, hfile, override?_congr hoverrides]

end

end Config

namespace Options

/-- What options have in a slot. Without statements no table name is among them. -/
def get? (o : Options) : (slot : Config.Slot) → Option slot.Content
  | .seed => o.seed
  | .upperBound => some o.upperBound
  | .step => some o.step
  | .passes => some o.passes
  | .statements => some (o.framing != .lines)
  | .readingTable => o.framing.table? .readings
  | .positionTable => o.framing.table? .positions

theorem get?_statements_iff {o : Options} : o.get? .statements = some false ↔ o.framing = .lines := by
  simp [get?]

theorem get?_table_of_lines {o : Options} {slot : Config.Slot} (h : slot.isTable) (hlines : o.framing = .lines) :
    o.get? slot = none := by
  cases slot with
  | readingTable | positionTable => simp only [get?, hlines, Framing.table?]
  | _ => cases h

theorem ext_slots {o p : Options} (h : ∀ slot, o.get? slot = p.get? slot) : o = p := by
  have hframing : o.framing = p.framing := by
    have hreading := h .readingTable
    have hposition := h .positionTable
    simp only [get?] at hreading hposition
    cases ho : o.framing <;> cases hp : p.framing <;> simp_all [Framing.table?]
  cases o
  cases p
  simp only [mk.injEq]
  exact ⟨h .seed, Option.some.inj (h .upperBound), Option.some.inj (h .step), Option.some.inj (h .passes), hframing⟩

/-- The options as a configuration that leaves nothing open, as far as they tell. -/
def toConfig (o : Options) : Config where
  seed := o.seed
  upperBound := some o.upperBound
  step := some o.step
  passes := some o.passes
  output :=
    { statements := some (o.framing != .lines)
      readingTable := o.framing.table? .readings
      positionTable := o.framing.table? .positions }

theorem get_toConfig (o : Options) (slot : Config.Slot) : o.toConfig.get slot = o.get? slot := by
  cases slot <;> rfl

end Options

namespace Config

/-! ### Options of two layers -/

theorem layered_statements (file overrides : Config) :
    layered file overrides .statements = some (OutputConfig.usesStatements file.output overrides.output) := by
  rw [layered_eq]
  exact Option.or_some

theorem get?_statements_resolve (file overrides : Config) :
    (resolve file overrides).get? .statements = layered file overrides .statements := by
  rw [layered_statements]
  simp only [Options.get?, resolve, OutputConfig.framing]
  split <;> simp_all

theorem get?_resolve_of_plain (file overrides : Config) {slot : Slot} (h : slot.isTable = false) :
    (resolve file overrides).get? slot = layered file overrides slot := by
  cases slot with
  | seed => rw [layered_eq]; exact Option.or_none.symm
  | upperBound | step | passes => rw [layered_eq]; exact Option.or_some.symm
  | statements => exact get?_statements_resolve file overrides
  | readingTable | positionTable => cases h

theorem get?_resolve_of_table (file overrides : Config) {slot : Slot} (h : slot.isTable) :
    (resolve file overrides).get? slot =
      if layered file overrides .statements = some true then layered file overrides slot else none := by
  rw [layered_statements, layered_eq]
  cases slot with
  | readingTable | positionTable =>
    simp only [Options.get?, resolve, OutputConfig.framing]
    cases OutputConfig.usesStatements file.output overrides.output with
    | false => rfl
    | true => exact Option.or_some.symm
  | _ => cases h

/-- The options of two layers have in each slot what the layers put there. Only table names are left out unless the
    layers ask for statements. -/
theorem get?_resolve (file overrides : Config) (slot : Slot) :
    (resolve file overrides).get? slot =
      if slot.isTable → layered file overrides .statements = some true then layered file overrides slot else none := by
  cases h : slot.isTable with
  | false => simpa using get?_resolve_of_plain file overrides h
  | true => simpa using get?_resolve_of_table file overrides h

section
variable {file file' overrides overrides' : Config} {slot : Slot}

/-- Only its own slot in the layers matters to a slot of the options, and to a table name whether there are
    statements. -/
theorem get?_resolve_congr (hfile : file.get slot = file'.get slot)
    (hoverrides : overrides.get slot = overrides'.get slot)
    (hstatements : slot.isTable → file.get .statements = file'.get .statements ∧
      overrides.get .statements = overrides'.get .statements) :
    (resolve file overrides).get? slot = (resolve file' overrides').get? slot := by
  rw [get?_resolve, get?_resolve, layered_congr hfile hoverrides]
  by_cases htable : slot.isTable
  · obtain ⟨hf, ho⟩ := hstatements htable
    rw [layered_congr hf ho]
  · simp [htable]

end

/-! ### Resolved options as a file -/

/-- The overrides put nothing into any slot. -/
def IsOpen (c : Config) : Prop :=
  ∀ slot, c.override? slot = none

theorem isOpen_empty : ({} : Config).IsOpen := by
  intro slot
  cases slot <;> rfl

/-- A command line without options leaves everything open, although it gives a list of passes. -/
theorem isOpen_overrides : ({} : Arguments).overrides.IsOpen := by
  intro slot
  cases slot <;> rfl

/-- The configuration has in each slot what the options have there. It may name any tables if they name none. -/
def Specifies (c : Config) (o : Options) : Prop :=
  ∀ slot, (slot.isTable → o.framing ≠ .lines) → c.get slot = o.get? slot

theorem specifies_toConfig (o : Options) : o.toConfig.Specifies o :=
  fun slot _ => o.get_toConfig slot

theorem get?_or_default? {o : Options} {slot : Slot} (h : slot.isTable → o.framing ≠ .lines) :
    (o.get? slot).or slot.default? = o.get? slot := by
  cases slot with
  | seed => exact Option.or_none
  | upperBound | step | passes | statements => rfl
  | readingTable | positionTable =>
    cases hframing : o.framing with
    | lines => exact absurd hframing (h rfl)
    | statements => simp [Options.get?, hframing, Framing.table?]

/-- A file that specifies options gives them back. -/
theorem resolve_of_specifies {c e : Config} {o : Options} (h : c.Specifies o) (hopen : e.IsOpen) : resolve c e = o := by
  have hlayered : ∀ slot, (slot.isTable → o.framing ≠ .lines) → layered c e slot = o.get? slot := fun slot hslot => by
    rw [layered_eq, hopen slot, Option.none_or, h slot hslot, get?_or_default? hslot]
  refine Options.ext_slots fun slot => ?_
  rw [get?_resolve, hlayered .statements (fun htable => by cases htable)]
  cases hframing : o.framing with
  | statements =>
    have hstatements : o.get? .statements = some true := by simp [Options.get?, hframing]
    rw [if_pos fun _ => hstatements, hlayered slot fun _ => by simp [hframing]]
  | lines =>
    have hstatements : o.get? .statements = some false := Options.get?_statements_iff.mpr hframing
    by_cases htable : slot.isTable
    · -- What the file names as tables does not matter, since the options name none.
      rw [if_neg fun h => absurd (hstatements.symm.trans (h htable)) (by decide), Options.get?_table_of_lines htable hframing]
    · rw [if_pos fun h => absurd h htable, hlayered slot fun h => absurd h htable]

/-- Options are taken from two layers slot by slot: from the overrides, else from the file, else from the default; only
    table names are left out unless there are statements. To change one slot of a layer changes no other slot of the
    options; statements alone bring the table names in, which are then those of the layers. A file that specifies the
    options gives them back under overrides that leave everything open. -/
theorem resolve_slot_by_slot (file overrides : Config) :
    (∀ slot, (resolve file overrides).get? slot =
      if slot.isTable → layered file overrides .statements = some true then layered file overrides slot else none) ∧
    (∀ slot content other, other ≠ slot → (slot = .statements → ¬other.isTable) →
      (resolve (file.set slot content) overrides).get? other = (resolve file overrides).get? other ∧
      (resolve file (overrides.set slot content)).get? other = (resolve file overrides).get? other) ∧
    (∀ content table, table.isTable →
      ∀ o ∈ [resolve (file.set .statements content) overrides, resolve file (overrides.set .statements content)],
        o.get? table = if o.get? .statements = some true then layered file overrides table else none) ∧
    (resolve file overrides).toConfig.Specifies (resolve file overrides) ∧
    ∀ c e, c.Specifies (resolve file overrides) → e.IsOpen → resolve c e = resolve file overrides := by
  refine ⟨get?_resolve file overrides, fun slot content other hne hgate => ?_, fun content table htable => ?_,
    specifies_toConfig _, fun c e hc he => resolve_of_specifies hc he⟩
  · have hstatements : other.isTable → Slot.statements ≠ slot := fun htable heq => hgate heq.symm htable
    constructor
    · exact get?_resolve_congr (get_set_of_ne file hne content) rfl
        fun htable => ⟨get_set_of_ne file (hstatements htable) content, rfl⟩
    · exact get?_resolve_congr rfl (get_set_of_ne overrides hne content)
        fun htable => ⟨rfl, get_set_of_ne overrides (hstatements htable) content⟩
  · have hne : table ≠ .statements := by
      rintro rfl
      cases htable
    refine List.forall_mem_cons.mpr ⟨?_, List.forall_mem_singleton.mpr ?_⟩
    · rw [get?_resolve_of_table _ _ htable, get?_statements_resolve,
        layered_congr (get_set_of_ne file hne content) rfl]
    · rw [get?_resolve_of_table _ _ htable, get?_statements_resolve,
        layered_congr rfl (get_set_of_ne overrides hne content)]

/-- What a file and overrides come to is specified by the file that they are written out as, with no overrides and with
    those of a command line without options. -/
theorem resolve_slot_by_slot_of_written_out :
    let file : Config := { seed := some 3, step := some 7, output := { statements := some true } }
    let overrides : Config := { step := some 9, passes := some [], output := { readingTable := some "r" } }
    let o := resolve file overrides
    (o.toConfig.Specifies o ∧ ({} : Config).IsOpen ∧ ({} : Arguments).overrides.IsOpen) ∧
      o = { seed := some 3, step := 9, framing := .statements "r" "trader_order" } ∧
      resolve o.toConfig {} = o ∧ resolve o.toConfig ({} : Arguments).overrides = o := by
  intro file overrides o
  have hback := (resolve_slot_by_slot file overrides).2.2.2.2
  exact ⟨⟨specifies_toConfig o, isOpen_empty, isOpen_overrides⟩, by decide,
    hback _ _ (specifies_toConfig o) isOpen_empty, hback _ _ (specifies_toConfig o) isOpen_overrides⟩

/-- The overrides name one table and ask for statements; the file names the other, and its list of no passes counts. -/
example :
    resolve { passes := some [], output := { positionTable := some "p" } }
        { passes := some [], output := { statements := some true, readingTable := some "r" } } =
      { passes := [], framing := .statements "r" "p" } := by
  decide

end Config
end SyntheticRows
