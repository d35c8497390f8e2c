import SyntheticRows.Proofs.Config
import SyntheticRows.Proofs.Toml.Clauses
import SyntheticRows.Proofs.Toml.Gathering
import SyntheticRows.Proofs.Toml.Notations
import SyntheticRows.Proofs.Vocabulary

/-!
Configurations as they may be laid out in a document: their keys in any order, each with its value in any notation, and
the keys of the output under a header, dotted, or between braces (`Arranged`). Such a document is read as the
configuration (`parse_of_arranged`).
-/

namespace SyntheticRows

open Toml (Key Expr Clause Value Entries Fits Assignment IsInteger IsDocument under)
open Toml.Entries (keys)

/-! ### Settings -/

namespace OutputConfig

/-- The keys that are given, with their values. -/
def settings (c : OutputConfig) : Entries :=
  (c.statements.map fun b => ("insert_statement", Value.bool b)).toList ++
    (c.readingTable.map fun s => ("reading_table", Value.text s)).toList ++
    (c.positionTable.map fun s => ("position_table", Value.text s)).toList

end OutputConfig

namespace Config

def passList (passes : List Pass) : List String :=
  passes.map Vocabulary.label

/-- The keys that are given, with their values, without those of the output. -/
def settings (c : Config) : Entries :=
  (c.seed.map fun n => ("seed", Value.int n.toNat)).toList ++
    (c.upperBound.map fun n => ("upper_bound", Value.int n.toNat)).toList ++
    (c.step.map fun n => ("step", Value.int n.toNat)).toList ++
    (c.passes.map fun passes => ("passes", Value.list ((passList passes).map .text))).toList

/-- No number of a configuration goes beyond 64 bits with sign. -/
def IsSigned (c : Config) : Prop :=
  ∀ n, c.seed = some n ∨ c.upperBound = some n ∨ c.step = some n → n.toNat < 2 ^ 63

/-! ### Layouts -/

/-- An expression stands for a value, in any notation of the value. -/
inductive Writes : Expr → Value → Prop
  | text (s : String) : Writes (.text s) (.text s)
  | int {s : List Char} {n : ℤ} (isInteger : IsInteger s n) : Writes (.token s) (.int n)
  | yes : Writes (.token "true".toList) (.bool true)
  | no : Writes (.token "false".toList) (.bool false)
  | texts (names : List String) : Writes (.list (names.map .text)) (.list (names.map .text))

/-- Members give settings, each once and in any order. -/
def Gives (members : List (Key × Expr)) (settings : List Assignment) : Prop :=
  ∃ order : List Assignment, order.Perm settings ∧
    List.Forall₂ (fun member setting => member.1 = setting.1 ∧ Writes member.2 setting.2) members order

def clausesOf (members : List (Key × Expr)) : List Clause :=
  members.map fun member => .assign member.1 member.2

def outputKey : Key := ⟨[], "output"⟩

/-- Clauses lay a configuration out: its own keys before all headers, and those of the output in one of three ways. If
    the output gives no key, nothing of it need be there. -/
inductive Arranged (c : Config) : List Clause → Prop
  | dotted {members : List (Key × Expr)}
    (gives : Gives members (under [] c.settings ++ under ["output"] c.output.settings)) : Arranged c (clausesOf members)
  | header {members output : List (Key × Expr)} (gives : Gives members (under [] c.settings))
    (givesOutput : Gives output (under [] c.output.settings)) :
    Arranged c (clausesOf members ++ .opens .single outputKey :: clausesOf output)
  | inline {before after output : List (Key × Expr)} (gives : Gives (before ++ after) (under [] c.settings))
    (givesOutput : Gives output (under [] c.output.settings)) :
    Arranged c (clausesOf (before ++ (outputKey, .inline output) :: after))

/-! ### Reading settings -/

theorem value?_of_writes {e : Expr} {value : Value} (h : Writes e value) (hfits : Fits value) (depth : ℕ) :
    e.value? (depth + 1) = some value := by
  cases h with
  | text s => rw [Expr.value?]
  | @int s n isInteger =>
    have hrange : Int64.minValue.toInt ≤ n ∧ n ≤ Int64.maxValue.toInt := hfits
    rw [Expr.value?, Toml.ofToken?_of_isInteger isInteger, Toml.inRange?, if_pos hrange, Option.map_some]
  | yes => rfl
  | no => rfl
  | texts names =>
    have hnames : (names.map Expr.text).mapM (Expr.value? depth) = some (names.map Value.text) := by
      clear hfits
      induction names with
      | nil => rfl
      | cons name names ih => rw [List.map_cons, List.mapM_cons, ih, Expr.value?]; rfl
    rw [Expr.value?, hnames, Option.map_some]

theorem mapM_of_gives {members : List (Key × Expr)} {settings : List Assignment} (h : Gives members settings)
    (hsettings : ∀ setting ∈ settings, setting.1.names.length < Toml.depthLimit ∧ Fits setting.2) (depth : ℕ) :
    ∃ order : List Assignment, order.Perm settings ∧
      members.mapM (Toml.assignmentOf? (Expr.value? (depth + 1))) = some order := by
  obtain ⟨order, hperm, hmembers⟩ := h
  refine ⟨order, hperm, ?_⟩
  have horder := fun setting hmem => hsettings setting (hperm.mem_iff.mp hmem)
  clear hperm
  induction hmembers with
  | nil => rfl
  | @cons member setting members order hmember _ ih =>
    obtain ⟨⟨hshort, hfits⟩, hrest⟩ := List.forall_mem_cons.mp horder
    have hfirst : Toml.assignmentOf? (Expr.value? (depth + 1)) member = some setting := by
      rw [Toml.assignmentOf?, hmember.1, if_pos hshort, value?_of_writes hmember.2 hfits, Option.map_some]
    rw [List.mapM_cons, hfirst, ih hrest]
    rfl

theorem mapM_clausesOf (members : List (Key × Expr)) :
    (clausesOf members).mapM Clause.statement? =
      (members.mapM (Toml.assignmentOf? (Expr.value? (Toml.depthLimit - 1)))).map (·.map .assign) := by
  induction members with
  | nil => rfl
  | cons member members ih =>
    have hfirst : (Clause.assign member.1 member.2).statement? =
        (Toml.assignmentOf? (Expr.value? (Toml.depthLimit - 1)) member).map .assign := rfl
    rw [clausesOf, List.map_cons, List.mapM_cons, hfirst, List.mapM_cons]
    rw [clausesOf] at ih
    rw [ih]
    cases Toml.assignmentOf? (Expr.value? (Toml.depthLimit - 1)) member with
    | none => rfl
    | some assignment => cases members.mapM (Toml.assignmentOf? (Expr.value? (Toml.depthLimit - 1))) <;> rfl

end Config

/-! ### Options of the output -/

/-- What is taken over if it is asked for, and only given if it is asked for, is taken over. -/
theorem adopted_eq {α : Type} {o : Option α} {p : Prop} [Decidable p] (h : ∀ a, o = some a → p) :
    (if p then o else none) = o := by
  cases o with
  | none => exact ite_self none
  | some a => exact if_pos (h a rfl)

theorem adopted_cons {α : Type} (key name : String) (names : List String) (a b : α) :
    (if key ∈ names then a else if key ∈ [name] then a else b) = if key ∈ name :: names then a else b := by
  simp only [List.mem_cons, List.not_mem_nil, or_false, ← ite_or]
  simp only [or_comm]

/-- Reading entries takes the options over that they name, if reading one entry does. -/
theorem foldlM_adopt {γ : Type} {step : γ → String × Value → Except Config.Fault γ} {adopt : γ → List String → γ}
    (hnil : ∀ d, adopt d [] = d)
    (hcons : ∀ d name names, adopt (adopt d [name]) names = adopt d (name :: names)) {entries : Entries}
    (h : ∀ e ∈ entries, ∀ d, step d e = .ok (adopt d [e.1])) (d : γ) :
    entries.foldlM step d = .ok (adopt d (keys entries)) := by
  induction entries generalizing d with
  | nil => exact congrArg Except.ok (hnil d).symm
  | cons e entries ih =>
    obtain ⟨he, hrest⟩ := List.forall_mem_cons.mp h
    rw [List.foldlM_cons, he]
    exact (ih hrest _).trans (congrArg Except.ok (hcons ..))

namespace OutputConfig

variable {c d : OutputConfig} {setting : String × Value}

theorem exists_of_mem_settings (h : setting ∈ c.settings) :
    (∃ b, c.statements = some b ∧ setting = ("insert_statement", .bool b)) ∨
    (∃ s, c.readingTable = some s ∧ setting = ("reading_table", .text s)) ∨
    (∃ s, c.positionTable = some s ∧ setting = ("position_table", .text s)) := by
  simp only [settings, List.mem_append, Option.mem_toList, Option.map_eq_some_iff] at h
  rcases h with (⟨b, hb, rfl⟩ | ⟨s, hs, rfl⟩) | ⟨s, hs, rfl⟩
  · exact .inl ⟨b, hb, rfl⟩
  · exact .inr (.inl ⟨s, hs, rfl⟩)
  · exact .inr (.inr ⟨s, hs, rfl⟩)

theorem nodup_keys_settings (c : OutputConfig) : (keys c.settings).Nodup := by
  obtain ⟨statements, readingTable, positionTable⟩ := c
  cases statements <;> cases readingTable <;> cases positionTable <;> simp [settings, keys]

theorem fits_of_mem_settings (h : setting ∈ c.settings) : Fits setting.2 := by
  rcases exists_of_mem_settings h with ⟨b, -, rfl⟩ | ⟨s, -, rfl⟩ | ⟨s, -, rfl⟩ <;> trivial

/-- An output with some of its options taken from another one. -/
def adopt (c d : OutputConfig) (names : List String) : OutputConfig where
  statements := if "insert_statement" ∈ names then c.statements else d.statements
  readingTable := if "reading_table" ∈ names then c.readingTable else d.readingTable
  positionTable := if "position_table" ∈ names then c.positionTable else d.positionTable

theorem adopt_cons (c d : OutputConfig) (name : String) (names : List String) :
    c.adopt (c.adopt d [name]) names = c.adopt d (name :: names) := by
  simp only [adopt, adopted_cons]

/-- An output is all that it gives. -/
theorem adopt_eq {names : List String} (h : ∀ setting ∈ c.settings, setting.1 ∈ names) : c.adopt {} names = c := by
  have hstatements : (if "insert_statement" ∈ names then c.statements else none) = c.statements :=
    adopted_eq fun b hb => h ("insert_statement", .bool b) (by simp [settings, hb])
  have hreading : (if "reading_table" ∈ names then c.readingTable else none) = c.readingTable :=
    adopted_eq fun s hs => h ("reading_table", .text s) (by simp [settings, hs])
  have hposition : (if "position_table" ∈ names then c.positionTable else none) = c.positionTable :=
    adopted_eq fun s hs => h ("position_table", .text s) (by simp [settings, hs])
  simp only [adopt, hstatements, hreading, hposition]

theorem eq_of_settings (h : c.settings = []) : c = {} := by
  have hadopt : c.adopt {} [] = c := adopt_eq (by simp [h])
  exact hadopt.symm

theorem outputEntry_setting (h : setting ∈ c.settings) :
    Config.outputEntry d setting = .ok (c.adopt d [setting.1]) := by
  rcases exists_of_mem_settings h with ⟨b, hb, rfl⟩ | ⟨s, hs, rfl⟩ | ⟨s, hs, rfl⟩
  · simp [Config.outputEntry, Config.bool, adopt, hb]
  · simp [Config.outputEntry, Config.text, adopt, hs]
  · simp [Config.outputEntry, Config.text, adopt, hs]

theorem foldlM_outputEntry {entries : Entries} (h : ∀ e ∈ entries, e ∈ c.settings) :
    entries.foldlM Config.outputEntry d = .ok (c.adopt d (keys entries)) :=
  foldlM_adopt (fun d => by simp [adopt]) c.adopt_cons (fun e he _ => outputEntry_setting (h e he)) d

/-- A table with the settings of an output, in any order, is read as the output. -/
theorem outputPart_of_perm {entries : Entries} (h : entries.Perm c.settings) (origin : Toml.Origin) :
    Config.outputPart (.table origin entries) = .ok c := by
  have hentries : entries.foldlM Config.outputEntry {} = .ok (c.adopt {} (keys entries)) :=
    foldlM_outputEntry fun e he => h.mem_iff.mp he
  have hall : c.adopt {} (keys entries) = c :=
    adopt_eq fun setting hmem => List.mem_map_of_mem (h.mem_iff.mpr hmem)
  rw [hall] at hentries
  exact hentries

end OutputConfig

namespace Config

/-! ### Options -/

section
variable {c d : Config} {setting : String × Value}

theorem exists_of_mem_settings (h : setting ∈ c.settings) :
    (∃ n, c.seed = some n ∧ setting = ("seed", .int n.toNat)) ∨
    (∃ n, c.upperBound = some n ∧ setting = ("upper_bound", .int n.toNat)) ∨
    (∃ n, c.step = some n ∧ setting = ("step", .int n.toNat)) ∨
    (∃ passes, c.passes = some passes ∧ setting = ("passes", .list ((passList passes).map .text))) := by
  simp only [settings, List.mem_append, Option.mem_toList, Option.map_eq_some_iff] at h
  rcases h with ((⟨n, hn, rfl⟩ | ⟨n, hn, rfl⟩) | ⟨n, hn, rfl⟩) | ⟨passes, hpasses, rfl⟩
  · exact .inl ⟨n, hn, rfl⟩
  · exact .inr (.inl ⟨n, hn, rfl⟩)
  · exact .inr (.inr (.inl ⟨n, hn, rfl⟩))
  · exact .inr (.inr (.inr ⟨passes, hpasses, rfl⟩))

theorem nodup_keys_settings (c : Config) : (keys c.settings).Nodup := by
  obtain ⟨seed, upperBound, step, passes, output⟩ := c
  cases seed <;> cases upperBound <;> cases step <;> cases passes <;> simp [settings, keys]

theorem fits_natCast {n : ℕ} (h : n < 2 ^ 63) : Fits (.int n) := by
  have hmin : Int64.minValue.toInt = -2 ^ 63 := rfl
  have hmax : Int64.maxValue.toInt = 2 ^ 63 - 1 := rfl
  rw [Fits, hmin, hmax]
  omega

theorem ne_output_of_mem_settings (h : setting ∈ c.settings) : setting.1 ≠ "output" := by
  rcases exists_of_mem_settings h with ⟨n, -, rfl⟩ | ⟨n, -, rfl⟩ | ⟨n, -, rfl⟩ | ⟨passes, -, rfl⟩ <;> simp

theorem IsSigned.fits (hsigned : c.IsSigned) (h : setting ∈ c.settings) : Fits setting.2 := by
  rcases exists_of_mem_settings h with ⟨n, hn, rfl⟩ | ⟨n, hn, rfl⟩ | ⟨n, hn, rfl⟩ | ⟨passes, -, rfl⟩
  · exact fits_natCast (hsigned n (.inl hn))
  · exact fits_natCast (hsigned n (.inr (.inl hn)))
  · exact fits_natCast (hsigned n (.inr (.inr hn)))
  · trivial

/-- A configuration with some of its options taken from another one. -/
def adopt (c d : Config) (names : List String) : Config where
  seed := if "seed" ∈ names then c.seed else d.seed
  upperBound := if "upper_bound" ∈ names then c.upperBound else d.upperBound
  step := if "step" ∈ names then c.step else d.step
  passes := if "passes" ∈ names then c.passes else d.passes
  output := if "output" ∈ names then c.output else d.output

theorem adopt_cons (c d : Config) (name : String) (names : List String) :
    c.adopt (c.adopt d [name]) names = c.adopt d (name :: names) := by
  simp only [adopt, adopted_cons]

/-- A configuration is all that it gives. -/
theorem adopt_eq {names : List String} (h : ∀ setting ∈ c.settings, setting.1 ∈ names)
    (houtput : c.output.settings ≠ [] → "output" ∈ names) : c.adopt {} names = c := by
  have hout : (if "output" ∈ names then c.output else {}) = c.output := by
    by_cases hmem : "output" ∈ names
    · rw [if_pos hmem]
    · rw [if_neg hmem]
      exact (OutputConfig.eq_of_settings (not_imp_comm.mp houtput hmem)).symm
  have hseed : (if "seed" ∈ names then c.seed else none) = c.seed :=
    adopted_eq fun n hn => h ("seed", .int n.toNat) (by simp [settings, hn])
  have hbound : (if "upper_bound" ∈ names then c.upperBound else none) = c.upperBound :=
    adopted_eq fun n hn => h ("upper_bound", .int n.toNat) (by simp [settings, hn])
  have hstep : (if "step" ∈ names then c.step else none) = c.step :=
    adopted_eq fun n hn => h ("step", .int n.toNat) (by simp [settings, hn])
  have hpasses : (if "passes" ∈ names then c.passes else none) = c.passes :=
    adopted_eq fun passes hpasses => h ("passes", .list ((passList passes).map .text)) (by simp [settings, hpasses])
  simp only [adopt, hseed, hbound, hstep, hpasses, hout]

theorem word_natCast (n : UInt64) : word (.int n.toNat) = .ok n := by
  simp [word]

theorem mapM_pass (passes : List Pass) :
    (((passList passes).map Value.text).mapM pass : Except Fault (List Pass)) = .ok passes := by
  induction passes with
  | nil => rfl
  | cons p passes ih =>
    have hp : pass (.text (Vocabulary.label p)) = .ok p := by
      rw [pass, passOfName, find?_label]
    rw [passList, List.map_cons, List.map_cons, List.mapM_cons, hp]
    rw [passList] at ih
    rw [ih]
    rfl

theorem entry_setting (h : setting ∈ c.settings) : entry d setting = .ok (c.adopt d [setting.1]) := by
  rcases exists_of_mem_settings h with ⟨n, hn, rfl⟩ | ⟨n, hn, rfl⟩ | ⟨n, hn, rfl⟩ | ⟨passes, hpasses, rfl⟩
  · simp [entry, word_natCast, adopt, hn]
  · simp [entry, word_natCast, adopt, hn]
  · simp [entry, word_natCast, adopt, hn]
  · simp only [entry, items, mapM_pass, bind, Except.bind]
    simp [adopt, hpasses, pure, Except.pure]

/-- Entries that hold just what a configuration gives, with the output in one table. -/
structure Tabulates (c : Config) (entries : Entries) : Prop where
  entry : ∀ e ∈ entries, e ∈ c.settings ∨
    ∃ origin inner, e = ("output", .table origin inner) ∧ List.Perm inner c.output.settings
  plain : ∀ setting ∈ c.settings, setting.1 ∈ keys entries
  output : c.output.settings ≠ [] → "output" ∈ keys entries

theorem foldlM_entry {entries : Entries} (h : ∀ e ∈ entries, e ∈ c.settings ∨
    ∃ origin inner, e = ("output", .table origin inner) ∧ List.Perm inner c.output.settings) :
    entries.foldlM entry d = .ok (c.adopt d (keys entries)) := by
  refine foldlM_adopt (fun d => by simp [adopt]) c.adopt_cons (fun e he d => ?_) d
  rcases h e he with hmem | ⟨origin, inner, rfl, hinner⟩
  · exact entry_setting hmem
  · simp only [entry, OutputConfig.outputPart_of_perm hinner, bind, Except.bind]
    simp [adopt, pure, Except.pure]

theorem Tabulates.ofEntries_eq {entries : Entries} (h : c.Tabulates entries) : ofEntries entries = .ok c := by
  rw [ofEntries, foldlM_entry h.entry, adopt_eq h.plain h.output]

end

/-! ### Tables of layouts -/

section
variable {c : Config}

theorem ofStatements_assign (order : List Assignment) (rest : List Toml.Statement) :
    Toml.Document.ofStatements (order.map .assign ++ rest) =
      ⟨order ++ (Toml.Document.ofStatements rest).assignments, (Toml.Document.ofStatements rest).sections⟩ := by
  induction order with
  | nil => rfl
  | cons assignment order ih =>
    have hcons : Toml.Document.ofStatements (.assign assignment :: (order.map .assign ++ rest)) =
        Toml.Document.cons (.assign assignment) (Toml.Document.ofStatements (order.map .assign ++ rest)) := rfl
    rw [List.map_cons, List.cons_append, hcons, ih]
    rfl

theorem exists_entries_of_perm {order : List Assignment} {settings : Entries} (h : order.Perm (under [] settings)) :
    ∃ entries, order = under [] entries ∧ List.Perm entries settings := by
  refine ⟨order.map fun assignment => (assignment.1.last, assignment.2), ?_, ?_⟩
  · rw [under, List.map_map]
    refine (List.map_congr_left fun assignment hmem => ?_).trans (List.map_id order) |>.symm
    obtain ⟨setting, -, rfl⟩ := List.mem_map.mp (h.mem_iff.mp hmem)
    rfl
  · have hmap := h.map fun assignment => (assignment.1.last, assignment.2)
    rw [under, List.map_map] at hmap
    simpa [Function.comp_def] using hmap

theorem assignAll_of_perm {entries settings : Entries} (h : List.Perm entries settings)
    (hnodup : (keys settings).Nodup) :
    Toml.assignAll (under [] entries) [] = some entries :=
  Toml.assignAll_plain (((h.map Prod.fst).nodup_iff).mpr hnodup)

theorem tabulates_of_mem (origin : Toml.Origin) {entries inner plain : Entries}
    (hplain : List.Perm plain c.settings) (hinner : List.Perm inner c.output.settings)
    (hentries : ∀ e, e ∈ entries ↔ e ∈ plain ∨ e = ("output", .table origin inner)) : c.Tabulates entries where
  entry e he := by
    rcases (hentries e).mp he with hmem | rfl
    · exact .inl (hplain.mem_iff.mp hmem)
    · exact .inr ⟨origin, inner, rfl, hinner⟩
  plain setting hmem := List.mem_map_of_mem ((hentries setting).mpr (.inl (hplain.mem_iff.mpr hmem)))
  output _ := List.mem_map_of_mem ((hentries _).mpr (.inr rfl))

/-- The assignments of a configuration whose output is given by dotted keys. -/
def dottedSettings (c : Config) : List Assignment :=
  under [] c.settings ++ under ["output"] c.output.settings

theorem mem_dottedSettings {assignment : Assignment} : assignment ∈ c.dottedSettings ↔
    (∃ setting ∈ c.settings, (⟨[], setting.1⟩, setting.2) = assignment) ∨
      ∃ setting ∈ c.output.settings, (⟨["output"], setting.1⟩, setting.2) = assignment := by
  rw [dottedSettings, List.mem_append, Toml.mem_under, Toml.mem_under]

theorem nodup_dottedSettings (c : Config) : (c.dottedSettings.map Prod.fst).Nodup := by
  rw [dottedSettings, List.map_append, List.nodup_append]
  refine ⟨Toml.nodup_under (nodup_keys_settings c) [], Toml.nodup_under c.output.nodup_keys_settings _, ?_⟩
  rintro _ hplain _ hdotted rfl
  obtain ⟨assignment, hmem, heq⟩ := List.mem_map.mp hplain
  obtain ⟨setting, -, rfl⟩ := Toml.mem_under.mp hmem
  obtain ⟨assignment, hmem, heq'⟩ := List.mem_map.mp hdotted
  obtain ⟨setting', -, rfl⟩ := Toml.mem_under.mp hmem
  rw [← heq'] at heq
  cases heq

theorem shallow_of_perm {order : List Assignment} (h : order.Perm c.dottedSettings) : Toml.Shallow "output" order := by
  intro assignment hmem
  rcases mem_dottedSettings.mp (h.mem_iff.mp hmem) with ⟨setting, hsetting, rfl⟩ | ⟨setting, -, rfl⟩
  · exact .inl ⟨rfl, ne_output_of_mem_settings hsetting⟩
  · exact .inr rfl

theorem below_perm {order : List Assignment} (h : order.Perm c.dottedSettings) :
    List.Perm (Toml.below "output" order) c.output.settings := by
  have hperm : List.Perm (Toml.below "output" order) (Toml.below "output" c.dottedSettings) := h.filterMap _
  rwa [dottedSettings, Toml.below_append, Toml.below_under_nil, Toml.below_under, List.nil_append] at hperm

theorem exists_table_dotted {order : List Assignment} (h : order.Perm c.dottedSettings) :
    ∃ entries, (Toml.Document.ofStatements (order.map .assign)).table? = some entries ∧ c.Tabulates entries := by
  have hkeys : (order.map Prod.fst).Nodup := (h.map Prod.fst).nodup_iff.mpr (nodup_dottedSettings c)
  obtain ⟨entries, hentries, hgathers⟩ := Toml.exists_gathers hkeys (shallow_of_perm h)
  refine ⟨entries, ?_, fun (name, value) he => ?_, fun setting hmem => ?_, fun hne => ?_⟩
  · have hstatements := ofStatements_assign order []
    rw [List.append_nil] at hstatements
    rw [hstatements]
    have hmade := (congrArg (Toml.assignAll · []) (List.append_nil order)).trans hentries
    exact Option.bind_eq_some_iff.mpr ⟨entries, hmade, rfl⟩
  · refine (hgathers.entry _ he).imp (fun hmem => ?_) fun heq => ⟨_, _, heq, below_perm h⟩
    rcases mem_dottedSettings.mp (h.mem_iff.mp hmem) with ⟨setting, hsetting, heq⟩ | ⟨setting, -, heq⟩
    · cases heq
      exact hsetting
    · cases heq
  · have hmem := h.mem_iff.mpr (mem_dottedSettings.mpr (.inl ⟨setting, hmem, rfl⟩))
    exact hgathers.plain _ hmem rfl
  · obtain ⟨setting, hsetting⟩ := List.exists_mem_of_ne_nil _ hne
    have hmem := h.mem_iff.mpr (mem_dottedSettings.mpr (.inr ⟨setting, hsetting, rfl⟩))
    exact hgathers.dotted _ hmem rfl

theorem not_mem_keys_of_perm {plain : Entries} (h : List.Perm plain c.settings) : "output" ∉ keys plain := by
  intro hmem
  obtain ⟨setting, hsetting, heq⟩ := List.mem_map.mp hmem
  exact ne_output_of_mem_settings (h.mem_iff.mp hsetting) heq

theorem exists_table_header {plain inner : Entries} (hplain : List.Perm plain c.settings)
    (hinner : List.Perm inner c.output.settings) :
    ∃ entries, (Toml.Document.ofStatements ((under [] plain).map .assign ++
      .opens .single outputKey :: (under [] inner).map .assign)).table? = some entries ∧ c.Tabulates entries := by
  have hsection : Toml.Document.ofStatements (.opens .single outputKey :: (under [] inner).map .assign) =
      ⟨[], [⟨.single, outputKey, under [] inner⟩]⟩ := by
    have hstatements := ofStatements_assign (under [] inner) []
    rw [List.append_nil] at hstatements
    have hcons : Toml.Document.ofStatements (.opens .single outputKey :: (under [] inner).map .assign) =
        Toml.Document.cons (.opens .single outputKey) (Toml.Document.ofStatements ((under [] inner).map .assign)) := rfl
    rw [hcons, hstatements]
    simp [Toml.Document.cons, Toml.Document.ofStatements]
  have hopens : Entries.openTable .single (Toml.assignAll (under [] inner)) ["output"] plain =
      some (plain ++ [("output", .table .header inner)]) := by
    simp [Entries.openTable, Toml.lookup_eq_none_of_not_mem (not_mem_keys_of_perm hplain),
      assignAll_of_perm hinner c.output.nodup_keys_settings]
  refine ⟨plain ++ [("output", .table .header inner)], ?_, tabulates_of_mem .header hplain hinner fun e => ?_⟩
  · rw [ofStatements_assign, hsection, List.append_nil]
    refine Option.bind_eq_some_iff.mpr ⟨plain, assignAll_of_perm hplain (nodup_keys_settings c), ?_⟩
    exact Option.bind_eq_some_iff.mpr ⟨_, hopens, rfl⟩
  · rw [List.mem_append, List.mem_singleton]

theorem exists_table_inline {before after inner : Entries} (hplain : List.Perm (before ++ after) c.settings)
    (hinner : List.Perm inner c.output.settings) :
    ∃ entries, (Toml.Document.ofStatements
      ((under [] (before ++ ("output", .table .inline inner) :: after)).map .assign)).table? = some entries ∧
      c.Tabulates entries := by
  have hnodup : (keys (("output", Value.table .inline inner) :: (before ++ after))).Nodup :=
    List.nodup_cons.mpr ⟨not_mem_keys_of_perm hplain, (hplain.map Prod.fst).nodup_iff.mpr (nodup_keys_settings c)⟩
  refine ⟨before ++ ("output", .table .inline inner) :: after, ?_,
    tabulates_of_mem .inline hplain hinner fun e => ?_⟩
  · have hstatements := ofStatements_assign (under [] (before ++ ("output", .table .inline inner) :: after)) []
    rw [List.append_nil] at hstatements
    rw [hstatements]
    refine Option.bind_eq_some_iff.mpr ⟨before ++ ("output", .table .inline inner) :: after, ?_, rfl⟩
    exact (congrArg (Toml.assignAll · []) (List.append_nil _)).trans (assignAll_of_perm List.perm_middle hnodup)
  · simp only [List.mem_append, List.mem_cons]
    tauto

end

/-! ### Documents -/

section
variable {c : Config}

/-- An assignment stays within the depth of a document, and its value fits there. -/
def Assignable (assignment : Assignment) : Prop :=
  assignment.1.names.length < Toml.depthLimit ∧ Fits assignment.2

theorem assignable_under {entries : Entries} (h : ∀ setting ∈ entries, Fits setting.2) {path : List String}
    (hpath : path.length ≤ 1) : ∀ assignment ∈ under path entries, Assignable assignment := by
  intro _ hmem
  obtain ⟨setting, hsetting, rfl⟩ := Toml.mem_under.mp hmem
  exact ⟨by simp [Key.names, Toml.depthLimit]; omega, h setting hsetting⟩

theorem IsSigned.assignable (hsigned : c.IsSigned) : ∀ assignment ∈ under [] c.settings, Assignable assignment :=
  assignable_under (fun _ => hsigned.fits) (Nat.zero_le _)

theorem assignable_output {path : List String} (hpath : path.length ≤ 1) :
    ∀ assignment ∈ under path c.output.settings, Assignable assignment :=
  assignable_under (fun _ => OutputConfig.fits_of_mem_settings) hpath

/-- Clauses can be read, and the table of their statements holds just what a configuration gives. -/
def Tabulated (c : Config) (clauses : List Clause) : Prop :=
  ∃ statements, clauses.mapM Clause.statement? = some statements ∧
    ∃ entries, (Toml.Document.ofStatements statements).table? = some entries ∧ c.Tabulates entries

theorem tabulated_dotted {members : List (Key × Expr)} (hsigned : c.IsSigned) (gives : Gives members c.dottedSettings) :
    c.Tabulated (clausesOf members) := by
  have hassignable : ∀ assignment ∈ c.dottedSettings, Assignable assignment :=
    List.forall_mem_append.mpr ⟨hsigned.assignable, assignable_output le_rfl⟩
  obtain ⟨order, hperm, horder⟩ := mapM_of_gives gives hassignable (Toml.depthLimit - 2)
  refine ⟨order.map .assign, ?_, exists_table_dotted hperm⟩
  rw [mapM_clausesOf]
  exact congrArg (Option.map _) horder

theorem tabulated_header {members output : List (Key × Expr)} (hsigned : c.IsSigned)
    (gives : Gives members (under [] c.settings)) (givesOutput : Gives output (under [] c.output.settings)) :
    c.Tabulated (clausesOf members ++ .opens .single outputKey :: clausesOf output) := by
  obtain ⟨order, hperm, horder⟩ := mapM_of_gives gives hsigned.assignable (Toml.depthLimit - 2)
  obtain ⟨others, hothers, houtput⟩ :=
    mapM_of_gives givesOutput (assignable_output (Nat.zero_le _)) (Toml.depthLimit - 2)
  obtain ⟨plain, rfl, hplain⟩ := exists_entries_of_perm hperm
  obtain ⟨inner, rfl, hinner⟩ := exists_entries_of_perm hothers
  refine ⟨_, ?_, exists_table_header hplain hinner⟩
  have hdepth : Toml.depthLimit - 1 = Toml.depthLimit - 2 + 1 := rfl
  have hopens : (Clause.opens .single outputKey).statement? = some (.opens .single outputKey) := rfl
  rw [List.mapM_append, mapM_clausesOf, hdepth, horder, List.mapM_cons, hopens, mapM_clausesOf, hdepth, houtput]
  rfl

theorem tabulated_inline {before after output : List (Key × Expr)} (hsigned : c.IsSigned)
    (gives : Gives (before ++ after) (under [] c.settings)) (givesOutput : Gives output (under [] c.output.settings)) :
    c.Tabulated (clausesOf (before ++ (outputKey, .inline output) :: after)) := by
  obtain ⟨order, hperm, horder⟩ := mapM_of_gives gives hsigned.assignable (Toml.depthLimit - 2)
  -- What stands between braces lies one level deeper.
  obtain ⟨others, hothers, houtput⟩ :=
    mapM_of_gives givesOutput (assignable_output (Nat.zero_le _)) (Toml.depthLimit - 3)
  obtain ⟨inner, rfl, hinner⟩ := exists_entries_of_perm hothers
  obtain ⟨xs, ys, hxs, hys, rfl⟩ := Toml.mapM_append_eq_some horder
  obtain ⟨plain, hunder, hplain⟩ := exists_entries_of_perm hperm
  obtain ⟨first, last, rfl, rfl, rfl⟩ := List.map_eq_append_iff.mp hunder.symm
  have hdepth : Toml.depthLimit - 1 = Toml.depthLimit - 2 + 1 := rfl
  have hbraces : Toml.depthLimit - 2 = Toml.depthLimit - 3 + 1 := rfl
  have hinline : (Expr.inline output).value? (Toml.depthLimit - 2 + 1) = some (.table .inline inner) := by
    rw [Expr.value?, hbraces, houtput, Option.bind_some, assignAll_of_perm hinner c.output.nodup_keys_settings,
      Option.map_some]
  have hvalue : Toml.assignmentOf? (Expr.value? (Toml.depthLimit - 2 + 1)) (outputKey, .inline output) =
      some (outputKey, .table .inline inner) := by
    rw [Toml.assignmentOf?, hinline]
    rfl
  refine ⟨_, ?_, exists_table_inline hplain hinner⟩
  rw [mapM_clausesOf, hdepth, List.mapM_append, hxs, List.mapM_cons, hvalue, hys, under, List.map_append,
    List.map_cons]
  rfl

theorem Arranged.tabulated {clauses : List Clause} (h : c.Arranged clauses) (hsigned : c.IsSigned) :
    c.Tabulated clauses := by
  cases h with
  | dotted gives => exact tabulated_dotted hsigned gives
  | header gives givesOutput => exact tabulated_header hsigned gives givesOutput
  | inline gives givesOutput => exact tabulated_inline hsigned gives givesOutput

/-- A document that lays a configuration out is read as the configuration. -/
theorem parse_of_arranged {text : String} {clauses : List Clause} (hsigned : c.IsSigned)
    (hdocument : IsDocument text.toList clauses) (h : c.Arranged clauses) : parse text = .ok c := by
  obtain ⟨statements, hstatements, entries, hentries, htabulates⟩ := h.tabulated hsigned
  rw [parse, Toml.parse?_of_isDocument hdocument, hstatements, Option.bind_some, hentries]
  exact htabulates.ofEntries_eq

end

end Config

end SyntheticRows
