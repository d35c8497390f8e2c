import SyntheticRows.Proofs.Toml.Document

/-!
What the tables of a document hold. A table holds a value at a path of keys, through tables and through those that
repeated headers opened. Assignments and headers keep what is held (`assign_keeps`, `openTable_keeps`) and add what they
say, and they fail where something is held already (`assign_fresh`, `openTable_fresh`).
-/

namespace SyntheticRows.Toml

/-- Which tables count of those that repeated headers opened: all of them, or the last one, to which a document still
    adds. -/
inductive Scope
  | all
  | last

/-- The tables in which a path goes on at a value. -/
def Value.tablesIn (scope : Scope) : Value → List Entries
  | .table _ entries => [entries]
  | .tables rows =>
    match scope with
    | .all => rows
    | .last => rows.getLast?.toList
  | _ => []

/-- A value with a property stands at a path. -/
def Entries.Holds (scope : Scope) (P : Value → Prop) : List String → Entries → Prop
  | [], _ => False
  | key :: path, entries => ∃ value, entries.lookup key = some value ∧
      (path = [] ∧ P value ∨ ∃ inner ∈ value.tablesIn scope, Holds scope P path inner)

/-- A value with a property is this value, or stands at a path below it. -/
def Value.Holds (scope : Scope) (P : Value → Prop) (path : List String) (value : Value) : Prop :=
  path = [] ∧ P value ∨ ∃ inner ∈ value.tablesIn scope, Entries.Holds scope P path inner

/-- A property that a value keeps when its tables are added to. -/
structure Stable (P : Value → Prop) : Prop where
  table : ∀ {origin a b}, P (.table origin a) → P (.table origin b)
  opened : ∀ {a b}, P (.table .implied a) → P (.table .header b)
  rows : ∀ {a b}, P (.tables a) → P (.tables b)

theorem stable_true : Stable fun _ => True where
  table := id
  opened := id
  rows := id

/-- A value to which no header and no assignment adds: no table that was only implied, and none of several. -/
def Value.Complete : Value → Prop
  | .table .implied _ | .tables _ => False
  | _ => True

theorem stable_complete : Stable Value.Complete where
  table {origin} := by cases origin <;> exact id
  opened := False.elim
  rows := id

/-- Values that are no tables are not added to. -/
theorem stable_of_not_isTable {P : Value → Prop} (h : ∀ value, P value → ¬Entries.IsTable value) : Stable P where
  table hvalue := absurd trivial (h _ hvalue)
  opened hvalue := absurd trivial (h _ hvalue)
  rows hvalue := absurd trivial (h _ hvalue)

namespace Entries

variable {scope : Scope} {P : Value → Prop} {key : String} {value : Value} {a b : Entries} {path : List String}

/-! ### Entries that are set -/

/-- The entry of a key is set, and all others stay. -/
def Sets (key : String) (value : Value) (a b : Entries) : Prop :=
  ∀ k, b.lookup k = if k = key then some value else a.lookup k

theorem lookup_cons_entry (name k : String) (value : Value) (entries : Entries) :
    List.lookup k ((name, value) :: entries) = if k = name then some value else entries.lookup k := by
  by_cases h : k = name
  · simp [h]
  · simp [List.lookup_cons, beq_false_of_ne h, h]

theorem lookup_replace (key : String) (value : Value) (entries : Entries) (k : String) :
    (replace entries key value).lookup k =
      if k = key then (entries.lookup k).map fun _ => value else entries.lookup k := by
  induction entries with
  | nil => simp [replace]
  | cons entry entries ih =>
    obtain ⟨name, old⟩ := entry
    have hcons : replace ((name, old) :: entries) key value =
        (if name = key then (key, value) else (name, old)) :: replace entries key value := by
      by_cases h : name = key <;> simp [replace, h]
    rw [hcons, lookup_cons_entry]
    by_cases hname : name = key
    · subst hname
      rw [if_pos rfl, lookup_cons_entry, ih]
      by_cases hk : k = name <;> simp [hk]
    · rw [if_neg hname, lookup_cons_entry, ih]
      by_cases hk : k = name
      · simp [hk, hname]
      · simp [hk]

theorem lookup_erase (key : String) (entries : Entries) (k : String) :
    (erase entries key).lookup k = if k = key then none else entries.lookup k := by
  induction entries with
  | nil => simp [erase]
  | cons entry entries ih =>
    obtain ⟨name, old⟩ := entry
    by_cases hname : name = key
    · subst hname
      have hdrop : erase ((name, old) :: entries) name = erase entries name := by simp [erase]
      rw [hdrop, ih, lookup_cons_entry]
      by_cases hk : k = name <;> simp [hk]
    · have hkeep : erase ((name, old) :: entries) key = (name, old) :: erase entries key := by simp [erase, hname]
      rw [hkeep, lookup_cons_entry, lookup_cons_entry, ih]
      by_cases hk : k = name
      · simp [hk, hname]
      · simp [hk]

theorem sets_append (h : a.lookup key = none) (value : Value) : Sets key value a (a ++ [(key, value)]) := by
  intro k
  rw [List.lookup_append, lookup_cons_entry, List.lookup_nil]
  by_cases hk : k = key
  · simp [hk, h]
  · simp [hk]

theorem sets_replace {old : Value} (h : a.lookup key = some old) (value : Value) :
    Sets key value a (replace a key value) := by
  intro k
  rw [lookup_replace]
  by_cases hk : k = key
  · simp [hk, h]
  · simp [hk]

theorem sets_move (key : String) (value : Value) (a : Entries) : Sets key value a (erase a key ++ [(key, value)]) := by
  intro k
  rw [List.lookup_append, lookup_erase, lookup_cons_entry, List.lookup_nil]
  by_cases hk : k = key <;> simp [hk]

theorem Sets.lookup_self (h : Sets key value a b) : b.lookup key = some value := by
  rw [h key, if_pos rfl]

theorem holds_cons :
    Holds scope P (key :: path) a ↔ ∃ value, a.lookup key = some value ∧ value.Holds scope P path :=
  Iff.rfl

theorem Sets.holds_below (h : Sets key value a b) (hvalue : value.Holds scope P path) :
    b.Holds scope P (key :: path) :=
  holds_cons.mpr ⟨value, h.lookup_self, hvalue⟩

/-- What is held stays, if the old value of the key holds nothing that the new one does not. -/
theorem Sets.keeps (h : Sets key value a b) {held : List String} (hheld : a.Holds scope P held)
    (hkeep : ∀ below old, held = key :: below → a.lookup key = some old → old.Holds scope P below →
      value.Holds scope P below) : b.Holds scope P held := by
  cases held with
  | nil => exact hheld
  | cons k below =>
    obtain ⟨old, hold, hbelow⟩ := hheld
    by_cases hk : k = key
    · subst hk
      exact h.holds_below (hkeep below old rfl hold hbelow)
    · exact ⟨old, by rw [h k, if_neg hk, hold], hbelow⟩

/-! ### Paths that lead through a key -/

/-- A path that leads through a key goes on in a table, and the key's value is built again from that table. A key
    without a value gets a new table. -/
inductive Enters (fresh : Origin) (key : String) (entries : Entries) : Entries → (Entries → Value) → Prop
  | fresh (open_ : entries.lookup key = none) : Enters fresh key entries [] (.table fresh)
  | table {origin : Origin} {inner : Entries} (found : entries.lookup key = some (.table origin inner)) :
    Enters fresh key entries inner (.table origin)
  | rows {before : List Entries} {last : Entries} (found : entries.lookup key = some (.tables (before ++ [last]))) :
    Enters fresh key entries last fun table => .tables (before ++ [table])

section
variable {fresh : Origin} {inner table : Entries} {rebuild : Entries → Value}

theorem Enters.below (h : Enters fresh key a inner rebuild) (htable : table.Holds scope P path) :
    (rebuild table).Holds scope P path := by
  cases h with
  | fresh _ => exact .inr ⟨table, List.mem_singleton_self _, htable⟩
  | table _ => exact .inr ⟨table, List.mem_singleton_self _, htable⟩
  | rows _ =>
    refine .inr ⟨table, ?_, htable⟩
    cases scope with
    | all => simp [Value.tablesIn]
    | last => simp [Value.tablesIn]

theorem Enters.keeps (h : Enters fresh key a inner rebuild) (hP : Stable P) {old : Value}
    (hold : a.lookup key = some old) (hheld : old.Holds scope P path)
    (hinner : inner.Holds scope P path → table.Holds scope P path) : (rebuild table).Holds scope P path := by
  cases h with
  | fresh hopen =>
    rw [hopen] at hold
    cases hold
  | table hfound =>
    rw [hfound] at hold
    cases hold
    rcases hheld with ⟨rfl, hold⟩ | ⟨t, ht, hheld⟩
    · exact .inl ⟨rfl, hP.table hold⟩
    · cases List.mem_singleton.mp ht
      exact .inr ⟨table, List.mem_singleton_self _, hinner hheld⟩
  | rows hfound =>
    rw [hfound] at hold
    cases hold
    rcases hheld with ⟨rfl, hold⟩ | ⟨t, ht, hheld⟩
    · exact .inl ⟨rfl, hP.rows hold⟩
    · cases scope with
      | all =>
        rcases List.mem_append.mp ht with ht | ht
        · exact .inr ⟨t, List.mem_append_left _ ht, hheld⟩
        · cases List.mem_singleton.mp ht
          exact .inr ⟨table, by simp [Value.tablesIn], hinner hheld⟩
      | last =>
        have hlast : t = inner := by simpa [Value.tablesIn, eq_comm] using ht
        exact .inr ⟨table, by simp [Value.tablesIn], hinner (hlast ▸ hheld)⟩

/-- A document adds to the table in which it found what it holds. -/
theorem Enters.within (h : Enters fresh key a inner rebuild) (hheld : a.Holds .last P (key :: path)) (hne : path ≠ []) :
    inner.Holds .last P path := by
  obtain ⟨old, hold, ⟨rfl, -⟩ | ⟨t, ht, hheld⟩⟩ := hheld
  · exact absurd rfl hne
  cases h with
  | fresh hopen =>
    rw [hopen] at hold
    cases hold
  | table hfound =>
    rw [hfound] at hold
    cases hold
    cases List.mem_singleton.mp ht
    exact hheld
  | rows hfound =>
    rw [hfound] at hold
    cases hold
    have hlast : t = inner := by simpa [Value.tablesIn, eq_comm] using ht
    exact hlast ▸ hheld

end

/-! ### Assignments -/

theorem assign_nil (h : assign [] key value a = some b) : a.lookup key = none ∧ Sets key value a b := by
  rw [assign] at h
  split at h
  · cases h
  · rename_i hopen
    cases h
    exact ⟨hopen, sets_append hopen value⟩

theorem assign_cons {step : String} (h : assign (step :: path) key value a = some b) :
    ∃ inner rebuild table, Enters .dotted step a inner rebuild ∧ assign path key value inner = some table ∧
      Sets step (rebuild table) a b := by
  rw [assign] at h
  split at h
  · rename_i hopen
    obtain ⟨table, htable, h⟩ := Option.bind_eq_some_iff.mp h
    cases h
    exact ⟨_, _, table, .fresh hopen, htable, sets_append hopen _⟩
  · rename_i origin inner hfound
    split at h
    · obtain ⟨table, htable, h⟩ := Option.bind_eq_some_iff.mp h
      cases h
      exact ⟨_, _, table, .table hfound, htable, sets_replace hfound _⟩
    · cases h
  · rename_i rows hfound
    split at h
    · rename_i last before hrows
      obtain ⟨table, htable, h⟩ := Option.bind_eq_some_iff.mp h
      cases h
      rw [List.reverse_eq_cons_iff.mp hrows] at hfound
      rw [List.reverse_cons]
      exact ⟨_, _, table, .rows hfound, htable, sets_replace hfound _⟩
    · cases h
  · cases h

theorem assign_keeps (hP : Stable P) (h : assign path key value a = some b) {held : List String}
    (hheld : a.Holds scope P held) : b.Holds scope P held := by
  induction path generalizing a b held with
  | nil =>
    obtain ⟨hopen, hset⟩ := assign_nil h
    refine hset.keeps hheld fun _ old _ hold => ?_
    rw [hopen] at hold
    cases hold
  | cons step path ih =>
    obtain ⟨inner, rebuild, table, henter, htable, hset⟩ := assign_cons h
    exact hset.keeps hheld fun _ _ _ hold hbelow => henter.keeps hP hold hbelow (ih htable)

theorem assign_adds (h : assign path key value a = some b) {below : List String} (hvalue : value.Holds scope P below) :
    b.Holds scope P (path ++ key :: below) := by
  induction path generalizing a b with
  | nil => exact (assign_nil h).2.holds_below hvalue
  | cons step path ih =>
    obtain ⟨inner, rebuild, table, henter, htable, hset⟩ := assign_cons h
    exact hset.holds_below (henter.below (ih htable))

/-- Where something is held at a key or below it, nothing is assigned to the key. -/
theorem assign_fresh (h : assign path key value a = some b) (below : List String) :
    ¬a.Holds .last P (path ++ key :: below) := by
  induction path generalizing a b with
  | nil =>
    rintro ⟨old, hold, -⟩
    rw [(assign_nil h).1] at hold
    cases hold
  | cons step path ih =>
    obtain ⟨inner, rebuild, table, henter, htable, -⟩ := assign_cons h
    exact fun hheld => ih htable (henter.within hheld (by simp))

/-! ### Headers -/

section
variable {opening : Opening} {fill : Entries → Option Entries}

theorem openTable_single (h : openTable .single fill [key] a = some b) :
    ∃ inner table, (a.lookup key = none ∧ inner = [] ∨ a.lookup key = some (.table .implied inner)) ∧
      fill inner = some table ∧ Sets key (.table .header table) a b := by
  rw [openTable.eq_def] at h
  dsimp only at h
  split at h
  · rename_i hopen
    obtain ⟨table, htable, h⟩ := Option.bind_eq_some_iff.mp h
    cases h
    exact ⟨[], table, .inl ⟨hopen, rfl⟩, htable, sets_append hopen _⟩
  · rename_i inner _ hfound
    obtain ⟨table, htable, h⟩ := Option.bind_eq_some_iff.mp h
    cases h
    exact ⟨inner, table, .inr hfound, htable, sets_move key _ a⟩
  · contradiction
  · contradiction
  · cases h

theorem openTable_repeated (h : openTable .repeated fill [key] a = some b) :
    ∃ rows table, (a.lookup key = none ∧ rows = [] ∨ a.lookup key = some (.tables rows)) ∧
      fill [] = some table ∧ Sets key (.tables (rows ++ [table])) a b := by
  rw [openTable.eq_def] at h
  dsimp only at h
  split at h
  · contradiction
  · contradiction
  · rename_i hopen
    obtain ⟨table, htable, h⟩ := Option.bind_eq_some_iff.mp h
    cases h
    exact ⟨[], table, .inl ⟨hopen, rfl⟩, htable, sets_append hopen _⟩
  · rename_i rows _ hfound
    obtain ⟨table, htable, h⟩ := Option.bind_eq_some_iff.mp h
    cases h
    exact ⟨rows, table, .inr hfound, htable, sets_replace hfound _⟩
  · cases h

theorem openTable_cons {step next : String} (h : openTable opening fill (step :: next :: path) a = some b) :
    ∃ inner rebuild table, Enters .implied step a inner rebuild ∧
      openTable opening fill (next :: path) inner = some table ∧ Sets step (rebuild table) a b := by
  rw [openTable] at h
  · split at h
    · rename_i hopen
      obtain ⟨table, htable, h⟩ := Option.bind_eq_some_iff.mp h
      cases h
      exact ⟨_, _, table, .fresh hopen, htable, sets_append hopen _⟩
    · rename_i origin inner hfound
      split at h
      · cases h
      · obtain ⟨table, htable, h⟩ := Option.bind_eq_some_iff.mp h
        cases h
        exact ⟨_, _, table, .table hfound, htable, sets_replace hfound _⟩
    · rename_i rows hfound
      split at h
      · rename_i last before hrows
        obtain ⟨table, htable, h⟩ := Option.bind_eq_some_iff.mp h
        cases h
        rw [List.reverse_eq_cons_iff.mp hrows] at hfound
        rw [List.reverse_cons]
        exact ⟨_, _, table, .rows hfound, htable, sets_replace hfound _⟩
      · cases h
    · cases h
  · simp

/-- A key that had a value before its table was opened had the one that the table goes on with. -/
theorem eq_of_lookup {α : Type} {found : Option α} {p : Prop} {v old : α} (h : found = none ∧ p ∨ found = some v)
    (hold : found = some old) : v = old := by
  rcases h with ⟨hnone, -⟩ | hsome
  · cases hnone.symm.trans hold
  · exact Option.some.inj (hsome.symm.trans hold)

/-- A header keeps what is held, if its assignments do. Where only the last tables count, a repeated header starts a new
    one at its name. -/
theorem openTable_keeps (hP : Stable P)
    (hfill : ∀ a b, fill a = some b → ∀ held, a.Holds scope P held → b.Holds scope P held) {name : List String}
    {a b : Entries} (h : openTable opening fill name a = some b) {held : List String} (hheld : a.Holds scope P held)
    (hrenew : scope = .last → opening = .repeated → ¬name <+: held) : b.Holds scope P held := by
  match name with
  | [] => cases h
  | [key] =>
    cases opening with
    | single =>
      obtain ⟨inner, table, hinner, htable, hset⟩ := openTable_single h
      refine hset.keeps hheld fun below old _ hold hbelow => ?_
      obtain rfl := eq_of_lookup hinner hold
      rcases hbelow with ⟨rfl, hold⟩ | ⟨t, ht, hbelow⟩
      · exact .inl ⟨rfl, hP.opened hold⟩
      · cases List.mem_singleton.mp ht
        exact .inr ⟨table, List.mem_singleton_self _, hfill _ _ htable _ hbelow⟩
    | repeated =>
      obtain ⟨rows, table, hrows, -, hset⟩ := openTable_repeated h
      refine hset.keeps hheld fun below old hkey hold hbelow => ?_
      obtain rfl := eq_of_lookup hrows hold
      rcases hbelow with ⟨rfl, hold⟩ | ⟨t, ht, hbelow⟩
      · exact .inl ⟨rfl, hP.rows hold⟩
      · cases scope with
        | all => exact .inr ⟨t, List.mem_append_left _ ht, hbelow⟩
        | last => exact absurd (hkey ▸ ⟨below, rfl⟩) (hrenew rfl rfl)
  | step :: next :: name =>
    obtain ⟨inner, rebuild, table, henter, htable, hset⟩ := openTable_cons h
    refine hset.keeps hheld fun below old hkey hold hbelow => henter.keeps hP hold hbelow fun hinner => ?_
    refine openTable_keeps hP hfill htable hinner fun hscope hopening hprefix => hrenew hscope hopening ?_
    rw [hkey]
    exact List.cons_prefix_cons.mpr ⟨rfl, hprefix⟩

/-- The assignments of a header are made in a table whose contents stand below the name of the header then. A header
    that is not repeated goes on with what was below its name before. -/
theorem openTable_fills {name : List String} {a b : Entries}
    (h : openTable opening fill name a = some b) :
    ∃ inner table, fill inner = some table ∧
      (∀ scope P path, table.Holds scope P path → b.Holds scope P (name ++ path)) ∧
      (opening = .single → ∀ P path, path ≠ [] → a.Holds .last P (name ++ path) → inner.Holds .last P path) := by
  match name with
  | [] => cases h
  | [key] =>
    cases opening with
    | single =>
      obtain ⟨inner, table, hinner, htable, hset⟩ := openTable_single h
      refine ⟨inner, table, htable, fun scope P path hpath => ?_, fun _ P path hne hheld => ?_⟩
      · exact hset.holds_below (.inr ⟨table, List.mem_singleton_self _, hpath⟩)
      · obtain ⟨old, hold, ⟨rfl, -⟩ | ⟨t, ht, hheld⟩⟩ := hheld
        · exact absurd rfl hne
        obtain rfl := eq_of_lookup hinner hold
        cases List.mem_singleton.mp ht
        exact hheld
    | repeated =>
      obtain ⟨rows, table, -, htable, hset⟩ := openTable_repeated h
      refine ⟨[], table, htable, fun scope P path hpath => ?_, nofun⟩
      refine hset.holds_below (.inr ⟨table, ?_, hpath⟩)
      cases scope <;> simp [Value.tablesIn]
  | step :: next :: name =>
    obtain ⟨outer, rebuild, opened, henter, hopened, hset⟩ := openTable_cons h
    obtain ⟨inner, table, htable, hbelow, hwithin⟩ := openTable_fills hopened
    refine ⟨inner, table, htable, fun scope P path hpath => ?_, fun hopening P path hne hheld => ?_⟩
    · exact hset.holds_below (henter.below (hbelow scope P path hpath))
    · exact hwithin hopening P path hne (henter.within hheld (by simp))

theorem openTable_adds {name : List String} {a b : Entries}
    (h : openTable opening fill name a = some b)
    (hsingle : ∀ table, P (.table .header table)) (hrepeated : opening = .repeated → ∀ rows, P (.tables rows)) :
    b.Holds scope P name := by
  match name with
  | [] => cases h
  | [key] =>
    cases opening with
    | single =>
      obtain ⟨-, table, -, -, hset⟩ := openTable_single h
      exact hset.holds_below (.inl ⟨rfl, hsingle table⟩)
    | repeated =>
      obtain ⟨rows, table, -, -, hset⟩ := openTable_repeated h
      exact hset.holds_below (.inl ⟨rfl, hrepeated rfl _⟩)
  | step :: next :: name =>
    obtain ⟨inner, rebuild, table, henter, htable, hset⟩ := openTable_cons h
    exact hset.holds_below (henter.below (openTable_adds htable hsingle hrepeated))

/-- No header opens a table where a complete value is. -/
theorem openTable_fresh {name : List String} {a b : Entries}
    (h : openTable .single fill name a = some b) :
    ¬a.Holds .last Value.Complete name := by
  match name with
  | [] => exact id
  | [key] =>
    rintro ⟨old, hold, hcomplete⟩
    obtain ⟨inner, table, hinner, -⟩ := openTable_single h
    obtain rfl := eq_of_lookup hinner hold
    rcases hcomplete with ⟨-, hcomplete⟩ | ⟨t, -, hheld⟩
    · exact hcomplete
    · exact hheld
  | step :: next :: name =>
    obtain ⟨inner, rebuild, table, henter, htable, -⟩ := openTable_cons h
    exact fun hheld => openTable_fresh htable (henter.within hheld (List.cons_ne_nil _ _))

end

end Entries

end SyntheticRows.Toml
