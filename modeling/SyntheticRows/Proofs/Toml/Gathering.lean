import Mathlib.Data.List.Induction
import Mathlib.Data.List.Nodup
import SyntheticRows.Proofs.Toml.Tables

/-!
Assignments to different keys in any order. Without dotted keys they become the entries of the table one by one
(`assignAll_plain`). Those with one dotted key before their key are gathered in one table, wherever they stand
(`exists_gathers`).
-/

namespace SyntheticRows.Toml

open Entries (keys)

/-- Settings as assignments below a path of dotted keys. -/
def under (path : List String) (settings : Entries) : List Assignment :=
  settings.map fun setting => (⟨path, setting.1⟩, setting.2)

theorem mem_under {path : List String} {settings : Entries} {assignment : Assignment} :
    assignment ∈ under path settings ↔ ∃ setting ∈ settings, (⟨path, setting.1⟩, setting.2) = assignment :=
  List.mem_map

theorem nodup_under {settings : Entries} (h : (keys settings).Nodup) (path : List String) :
    ((under path settings).map Prod.fst).Nodup := by
  have hmap : (under path settings).map Prod.fst = (keys settings).map (⟨path, ·⟩) := by
    rw [under, keys, List.map_map, List.map_map]
    rfl
  rw [hmap]
  exact List.Nodup.map (fun _ _ heq => (Key.mk.inj heq).2) h

theorem lookup_eq_none_of_not_mem {entries : Entries} {key : String} (h : key ∉ keys entries) :
    entries.lookup key = none := by
  cases hlookup : entries.lookup key with
  | none => rfl
  | some value => exact absurd (Entries.mem_keys_of_lookup hlookup) h

theorem assign_plain {entries : Entries} {key : String} (h : key ∉ keys entries) (value : Value) :
    entries.assign [] key value = some (entries ++ [(key, value)]) := by
  rw [Entries.assign, lookup_eq_none_of_not_mem h]

theorem assignAll_plain {settings entries : Entries} (h : (keys (entries ++ settings)).Nodup) :
    assignAll (under [] settings) entries = some (entries ++ settings) := by
  induction settings generalizing entries with
  | nil => simp [under, assignAll]
  | cons setting settings ih =>
    have hfresh : setting.1 ∉ keys entries := by
      intro hmem
      rw [keys, List.map_append, List.nodup_append] at h
      exact h.2.2 _ hmem _ (by simp) rfl
    rw [List.append_cons] at h
    have hrest := ih h
    rw [List.append_assoc, List.singleton_append] at hrest
    exact Option.bind_eq_some_iff.mpr ⟨entries ++ [setting], assign_plain hfresh setting.2, hrest⟩

/-! ### Dotted keys -/

section
variable {name : String} {order : List Assignment} {entries : Entries}

/-- The assignments below one dotted key, without it. -/
def below (name : String) (order : List Assignment) : Entries :=
  order.filterMap fun assignment =>
    if assignment.1.path = [name] then some (assignment.1.last, assignment.2) else none

/-- Assignments that have one dotted key or none. -/
def Shallow (name : String) (order : List Assignment) : Prop :=
  ∀ assignment ∈ order, assignment.1.path = [] ∧ assignment.1.last ≠ name ∨ assignment.1.path = [name]

/-- Entries that assignments with one dotted key or none lead to. -/
structure Gathers (name : String) (order : List Assignment) (entries : Entries) : Prop where
  entry : ∀ e ∈ entries, (⟨[], e.1⟩, e.2) ∈ order ∨ e = (name, .table .dotted (below name order))
  plain : ∀ assignment ∈ order, assignment.1.path = [] → assignment.1.last ∈ keys entries
  dotted : ∀ assignment ∈ order, assignment.1.path = [name] → name ∈ keys entries

theorem below_append (order others : List Assignment) :
    below name (order ++ others) = below name order ++ below name others :=
  List.filterMap_append

theorem below_under_nil (settings : Entries) : below name (under [] settings) = [] := by
  simp [below, under]

theorem below_under (settings : Entries) : below name (under [name] settings) = settings := by
  simp [below, under, List.filterMap_map]

theorem mem_of_mem_below {entry : String × Value} (h : entry ∈ below name order) :
    (⟨[name], entry.1⟩, entry.2) ∈ order := by
  obtain ⟨assignment, hmem, heq⟩ := List.mem_filterMap.mp h
  split at heq
  · rename_i hpath
    cases heq
    rwa [← hpath]
  · cases heq

theorem keys_replace (entries : Entries) (key : String) (value : Value) :
    keys (Entries.replace entries key value) = keys entries := by
  rw [keys, Entries.replace, List.map_map]
  refine List.map_congr_left fun entry _ => ?_
  by_cases h : entry.1 = key <;> simp [h]

/-- Entries go on being gathered by one more assignment if they keep their keys and get the one that is new. -/
theorem Gathers.extend {key : Key} {value : Value} {next : Entries} (h : Gathers name order entries)
    (hentry : ∀ e ∈ next, (⟨[], e.1⟩, e.2) ∈ order ++ [(key, value)] ∨
      e = (name, .table .dotted (below name (order ++ [(key, value)]))))
    (hkept : keys entries ⊆ keys next) (hplain : key.path = [] → key.last ∈ keys next)
    (hdotted : key.path = [name] → name ∈ keys next) : Gathers name (order ++ [(key, value)]) next where
  entry := hentry
  plain assignment hmem hpath := by
    rcases List.mem_append.mp hmem with hold | hnew
    · exact hkept (h.plain assignment hold hpath)
    · cases List.mem_singleton.mp hnew
      exact hplain hpath
  dotted assignment hmem hpath := by
    rcases List.mem_append.mp hmem with hold | hnew
    · exact hkept (h.dotted assignment hold hpath)
    · cases List.mem_singleton.mp hnew
      exact hdotted hpath

theorem Gathers.assign_plain {key : String} (value : Value) (h : Gathers name order entries) (hne : key ≠ name)
    (hfresh : (⟨[], key⟩ : Key) ∉ order.map Prod.fst) :
    ∃ next, entries.assign [] key value = some next ∧ Gathers name (order ++ [(⟨[], key⟩, value)]) next := by
  have hkey : key ∉ keys entries := by
    intro hmem
    obtain ⟨entry, hentry, rfl⟩ := List.mem_map.mp hmem
    rcases h.entry entry hentry with hold | rfl
    · exact hfresh (List.mem_map_of_mem hold)
    · exact hne rfl
  have hbelow : below name (order ++ [(⟨[], key⟩, value)]) = below name order := by
    rw [below_append]
    exact List.append_nil _
  have hkeys : keys (entries ++ [(key, value)]) = keys entries ++ [key] := List.map_append
  refine ⟨_, Toml.assign_plain hkey value, h.extend (fun entry hentry => ?_) ?_ (fun _ => ?_) fun hpath => ?_⟩
  · rw [hbelow]
    rcases List.mem_append.mp hentry with hold | hnew
    · exact (h.entry entry hold).imp_left (List.mem_append_left _)
    · cases List.mem_singleton.mp hnew
      exact .inl (List.mem_append_right _ (List.mem_singleton_self _))
  · rw [hkeys]
    exact List.subset_append_left _ _
  · rw [hkeys]
    exact List.mem_append_right _ (List.mem_singleton_self _)
  · cases hpath

theorem below_append_dotted (order : List Assignment) (name key : String) (value : Value) :
    below name (order ++ [(⟨[name], key⟩, value)]) = below name order ++ [(key, value)] := by
  rw [below_append]
  simp [below]

/-- The first assignment below the dotted key makes its table. -/
theorem Gathers.assign_dotted_first {key : String} (value : Value) (h : Gathers name order entries)
    (hlookup : entries.lookup name = none) :
    ∃ next, entries.assign [name] key value = some next ∧
      Gathers name (order ++ [(⟨[name], key⟩, value)]) next := by
  have habsent : name ∉ keys entries := fun hmem => by
    obtain ⟨found, hfound, heq⟩ := List.mem_map.mp hmem
    have := List.lookup_eq_none_iff.mp hlookup found hfound
    simp [heq] at this
  have hnone : below name order = [] :=
    List.eq_nil_iff_forall_not_mem.mpr fun entry hentry => habsent (h.dotted _ (mem_of_mem_below hentry) rfl)
  have hkeys : keys (entries ++ [(name, .table .dotted [(key, value)])]) = keys entries ++ [name] := List.map_append
  refine ⟨entries ++ [(name, .table .dotted [(key, value)])], ?_, h.extend (fun entry hentry => ?_) ?_
    (fun hpath => ?_) fun _ => ?_⟩
  · rw [Entries.assign, hlookup]
    rfl
  · rw [below_append_dotted, hnone, List.nil_append]
    rcases List.mem_append.mp hentry with hold | hnew
    · rcases h.entry entry hold with hplain | rfl
      · exact .inl (List.mem_append_left _ hplain)
      · exact absurd (List.mem_map_of_mem hold) habsent
    · exact .inr (List.mem_singleton.mp hnew)
  · rw [hkeys]
    exact List.subset_append_left _ _
  · cases hpath
  · rw [hkeys]
    exact List.mem_append_right _ (List.mem_singleton_self _)

/-- Each later one adds to the table, which holds what was assigned below the key before. -/
theorem Gathers.assign_dotted_again {key : String} {old : Value} (value : Value) (h : Gathers name order entries)
    (hshallow : Shallow name order) (hfresh : (⟨[name], key⟩ : Key) ∉ order.map Prod.fst)
    (hlookup : entries.lookup name = some old) :
    ∃ next, entries.assign [name] key value = some next ∧
      Gathers name (order ++ [(⟨[name], key⟩, value)]) next := by
  have hkey : key ∉ keys (below name order) := by
    intro hmem
    obtain ⟨entry, hentry, rfl⟩ := List.mem_map.mp hmem
    exact hfresh (List.mem_map_of_mem (mem_of_mem_below hentry))
  have hmem : (name, old) ∈ entries := by
    obtain ⟨before, after, rfl, -⟩ := List.lookup_eq_some_iff.mp hlookup
    simp
  obtain rfl : old = .table .dotted (below name order) := by
    rcases h.entry _ hmem with hplain | heq
    · rcases hshallow _ hplain with ⟨-, hne⟩ | hpath
      · exact absurd rfl hne
      · cases hpath
    · exact (Prod.mk.inj heq).2
  refine ⟨Entries.replace entries name (.table .dotted (below name order ++ [(key, value)])), ?_,
    h.extend (fun entry hentry => ?_) ?_ (fun hpath => ?_) fun _ => ?_⟩
  · rw [Entries.assign, hlookup]
    simp only [if_true, true_or, Toml.assign_plain hkey]
    rfl
  · rw [below_append_dotted]
    obtain ⟨found, hfound, rfl⟩ := List.mem_map.mp hentry
    by_cases hname : found.1 = name
    · simp [hname]
    · rcases h.entry found hfound with hplain | rfl
      · refine .inl (List.mem_append_left _ ?_)
        simpa [hname] using hplain
      · exact absurd rfl hname
  · rw [keys_replace]
    exact List.Subset.refl _
  · cases hpath
  · rw [keys_replace]
    exact Entries.mem_keys_of_lookup hlookup

theorem Gathers.assign_dotted {key : String} (value : Value) (h : Gathers name order entries)
    (hshallow : Shallow name order) (hfresh : (⟨[name], key⟩ : Key) ∉ order.map Prod.fst) :
    ∃ next, entries.assign [name] key value = some next ∧
      Gathers name (order ++ [(⟨[name], key⟩, value)]) next := by
  cases hlookup : entries.lookup name with
  | none => exact h.assign_dotted_first value hlookup
  | some old => exact h.assign_dotted_again value hshallow hfresh hlookup

/-- Assignments to different keys, with one dotted key or none, can be made in any order. The induction takes the last
    of them off. -/
theorem exists_gathers (hkeys : (order.map Prod.fst).Nodup) (hshallow : Shallow name order) :
    ∃ entries, assignAll order [] = some entries ∧ Gathers name order entries := by
  induction order using List.reverseRecOn with
  | nil => exact ⟨[], rfl, by simp, by simp, by simp⟩
  | append_singleton order assignment ih =>
    rw [List.map_append, List.nodup_append] at hkeys
    obtain ⟨hrest, hlast⟩ := List.forall_mem_append.mp hshallow
    obtain ⟨entries, hentries, hgathers⟩ := ih hkeys.1 hrest
    have hfresh : assignment.1 ∉ order.map Prod.fst := fun hmem => hkeys.2.2 _ hmem _ (by simp) rfl
    have hmade {next : Entries} (hnext : entries.assign assignment.1.path assignment.1.last assignment.2 = some next) :
        assignAll (order ++ [assignment]) [] = some next := by
      rw [assignAll] at hentries ⊢
      rw [List.foldlM_append, hentries]
      simp [hnext]
    obtain ⟨⟨path, key⟩, value⟩ := assignment
    rcases List.forall_mem_singleton.mp hlast with ⟨hpath, hne⟩ | hpath
    · obtain rfl : path = [] := hpath
      obtain ⟨next, hnext, hgathers⟩ := hgathers.assign_plain value hne hfresh
      exact ⟨next, hmade hnext, hgathers⟩
    · obtain rfl : path = [name] := hpath
      obtain ⟨next, hnext, hgathers⟩ := hgathers.assign_dotted value hrest hfresh
      exact ⟨next, hmade hnext, hgathers⟩

end

end SyntheticRows.Toml
