import Mathlib.Data.List.Basic
import SyntheticRows.Toml

/-!
Documents entry by entry. Each assignment and each header edits the entry of one key, and what it does depends on
the value of that key alone. So an entry that stands before a document whose table lacks its key stands before its
table (`Document.table?_cons`), and what holds of all assigned values and of tables holds of every value of the
table (`Document.forall_table?`).
-/

namespace SyntheticRows.Toml

namespace Entries

def keys (entries : Entries) : List String :=
  entries.map (·.1)

theorem mem_keys_of_lookup {entries : Entries} {key : String} {value : Value} (h : entries.lookup key = some value) :
    key ∈ keys entries := by
  obtain ⟨before, after, rfl, -⟩ := List.lookup_eq_some_iff.mp h
  simp [keys]

/-! ### Edits -/

/-- A change of the entry of a key. -/
inductive Edit
  | append (value : Value)
  | replace (value : Value)
  /-- The old entry goes, and a new one comes to the end. -/
  | move (value : Value)

namespace Edit

def value : Edit → Value
  | append value | replace value | move value => value

def apply (key : String) (entries : Entries) : Edit → Entries
  | append value => entries ++ [(key, value)]
  | replace value => entries.replace key value
  | move value => entries.erase key ++ [(key, value)]

variable {key other : String} {entries : Entries} {edit : Edit}

theorem apply_cons (hne : other ≠ key) (value : Value) :
    edit.apply key ((other, value) :: entries) = (other, value) :: edit.apply key entries := by
  cases edit <;> simp [apply, Entries.replace, Entries.erase, hne]

theorem mem_keys_apply (h : other ∈ keys entries) : other ∈ keys (edit.apply key entries) := by
  obtain ⟨entry, hentry, rfl⟩ := List.mem_map.mp h
  cases edit with
  | append value => simpa [apply, keys] using .inl ⟨entry.2, hentry⟩
  | replace value =>
    refine List.mem_map.mpr ⟨_, List.mem_map_of_mem hentry, ?_⟩
    by_cases heq : entry.1 = key <;> simp [heq]
  | move value =>
    by_cases heq : entry.1 = key
    · simp [apply, keys, heq]
    · exact List.mem_map_of_mem (List.mem_append_left _ (List.mem_filter.mpr ⟨hentry, by simpa using heq⟩))

theorem mem_apply {entry : String × Value} (h : entry ∈ edit.apply key entries) :
    entry ∈ entries ∨ entry.2 = edit.value := by
  cases edit with
  | append value =>
    rcases List.mem_append.mp h with h | h
    · exact .inl h
    · exact .inr (congrArg Prod.snd (List.mem_singleton.mp h))
  | replace value =>
    obtain ⟨old, hold, rfl⟩ := List.mem_map.mp h
    by_cases heq : old.1 = key
    · simp [heq, Edit.value]
    · simp [heq, hold]
  | move value =>
    rcases List.mem_append.mp h with h | h
    · exact .inl (List.mem_filter.mp h).1
    · exact .inr (congrArg Prod.snd (List.mem_singleton.mp h))

end Edit

/-- On the tables in which a key has this value or none, a step edits the entry of the key to a value with a property.
    Without a value it appends. -/
def EditsAt (P : Value → Prop) (key : String) (found : Option Value) (step : Entries → Option Entries) : Prop :=
  ∃ edit : Option Edit,
    (∀ entries : Entries, entries.lookup key = found → step entries = edit.map (Edit.apply key entries)) ∧
      ∀ e ∈ edit, P e.value ∧ (found = none → e = .append e.value)

/-- A step that edits the entry of one key as the value of the key tells. -/
def EditsOne (P : Value → Prop) (step : Entries → Option Entries) : Prop :=
  ∃ key, ∀ found : Option Value, EditsAt P key found step

section
variable {P : Value → Prop} {key : String} {found : Option Value} {step : Entries → Option Entries}

theorem editsAt_of_refused (h : ∀ entries : Entries, entries.lookup key = found → step entries = none) :
    EditsAt P key found step :=
  ⟨none, h, by simp⟩

/-- A step that builds its edit from an inner table, if there is one. -/
theorem editsAt_of_inner (inner : Option Entries) (edit : Entries → Edit)
    (h : ∀ entries : Entries, entries.lookup key = found →
      step entries = inner.map fun table => (edit table).apply key entries)
    (hshape : ∀ table, P (edit table).value ∧ (found = none → edit table = .append (edit table).value)) :
    EditsAt P key found step := by
  refine ⟨inner.map edit, fun entries hfound => by rw [h entries hfound, Option.map_map]; rfl, fun e he => ?_⟩
  obtain ⟨table, -, rfl⟩ := Option.map_eq_some_iff.mp he
  exact hshape table

end

def IsTable : Value → Prop
  | .table .. | .tables _ => True
  | _ => False

theorem editsAt_assign_last (last : String) (assigned : Value) (found : Option Value) :
    EditsAt (fun value => value = assigned ∨ IsTable value) last found (assign [] last assigned) := by
  cases found with
  | none => exact ⟨some (.append assigned), fun entries h => by rw [assign, h]; rfl, by simp [Edit.value]⟩
  | some value => exact editsAt_of_refused fun entries h => by rw [assign, h]

theorem editsOne_assign (path : List String) (last : String) (assigned : Value) :
    EditsOne (fun value => value = assigned ∨ IsTable value) (assign path last assigned) := by
  match path with
  | [] => exact ⟨last, editsAt_assign_last last assigned⟩
  | key :: path =>
    refine ⟨key, fun found => ?_⟩
    match found with
    | none =>
      refine editsAt_of_inner (assign path last assigned []) (.append <| .table .dotted ·) (fun entries h => ?_)
        fun _ => ⟨.inr trivial, fun _ => rfl⟩
      rw [assign, h]
      cases assign path last assigned [] <;> rfl
    | some (.table origin inner) =>
      by_cases hopen : origin = .dotted ∨ (origin = .implied ∧ path ≠ [])
      · refine editsAt_of_inner (assign path last assigned inner) (.replace <| .table origin ·) (fun entries h => ?_)
          fun _ => ⟨.inr trivial, by simp⟩
        simp only [assign, h, if_pos hopen]
        cases assign path last assigned inner <;> rfl
      · exact editsAt_of_refused fun entries h => by rw [assign, h]; exact if_neg hopen
    | some (.tables rows) =>
      match path, hrows : rows.reverse with
      | [], _ => exact editsAt_of_refused fun entries h => by rw [assign, h]
      | _ :: _, [] => exact editsAt_of_refused fun entries h => by simp only [assign, h, hrows]
      | next :: path, latest :: before =>
        refine editsAt_of_inner (assign (next :: path) last assigned latest)
          (fun inner => .replace (.tables (inner :: before).reverse)) (fun entries h => ?_)
          fun _ => ⟨.inr trivial, by simp⟩
        rw [assign, h]
        simp only [hrows]
        cases assign (next :: path) last assigned latest <;> rfl
    | some (.text _) | some (.int _) | some (.real _) | some (.time _) | some (.bool _) | some (.list _) =>
      exact editsAt_of_refused fun entries h => by rw [assign, h]

theorem editsAt_openTable_last (opening : Opening) (fill : Entries → Option Entries) (key : String)
    (found : Option Value) : EditsAt IsTable key found (openTable opening fill [key]) := by
  match opening, found with
  | .single, none =>
    refine editsAt_of_inner (fill []) (.append <| .table .header ·) (fun entries h => ?_)
      fun _ => ⟨trivial, fun _ => rfl⟩
    simp only [openTable, h]
    cases fill [] <;> rfl
  | .repeated, none =>
    refine editsAt_of_inner (fill []) (.append <| .tables [·]) (fun entries h => ?_) fun _ => ⟨trivial, fun _ => rfl⟩
    simp only [openTable, h]
    cases fill [] <;> rfl
  | .single, some (.table .implied inner) =>
    refine editsAt_of_inner (fill inner) (.move <| .table .header ·) (fun entries h => ?_) fun _ => ⟨trivial, by simp⟩
    simp only [openTable, h]
    cases fill inner <;> rfl
  | .repeated, some (.tables rows) =>
    refine editsAt_of_inner (fill []) (fun row => .replace (.tables (rows ++ [row]))) (fun entries h => ?_)
      fun _ => ⟨trivial, by simp⟩
    simp only [openTable, h]
    cases fill [] <;> rfl
  | .single, some (.table .inline _) | .single, some (.table .header _) | .single, some (.table .dotted _)
  | .repeated, some (.table _ _) | .single, some (.tables _)
  | _, some (.text _) | _, some (.int _) | _, some (.real _) | _, some (.time _) | _, some (.bool _)
  | _, some (.list _) =>
    exact editsAt_of_refused fun entries h => by simp [openTable, h]

theorem editsOne_openTable (opening : Opening) (fill : Entries → Option Entries) (path : List String) :
    EditsOne IsTable (openTable opening fill path) := by
  match path with
  | [] => exact ⟨"", fun _ => editsAt_of_refused fun _ _ => rfl⟩
  | [key] => exact ⟨key, editsAt_openTable_last opening fill key⟩
  | key :: next :: path =>
    refine ⟨key, fun found => ?_⟩
    match found with
    | none =>
      refine editsAt_of_inner (openTable opening fill (next :: path) []) (.append <| .table .implied ·)
        (fun entries h => ?_) fun _ => ⟨trivial, fun _ => rfl⟩
      simp only [openTable, h]
      cases openTable opening fill (next :: path) [] <;> rfl
    | some (.table origin inner) =>
      by_cases hopen : origin = .inline
      · exact editsAt_of_refused fun entries h => by simp only [openTable, h, if_pos hopen]
      · refine editsAt_of_inner (openTable opening fill (next :: path) inner) (.replace <| .table origin ·)
          (fun entries h => ?_) fun _ => ⟨trivial, by simp⟩
        simp only [openTable, h, if_neg hopen]
        cases openTable opening fill (next :: path) inner <;> rfl
    | some (.tables rows) =>
      match hrows : rows.reverse with
      | [] => exact editsAt_of_refused fun entries h => by simp only [openTable, h, hrows]
      | latest :: before =>
        refine editsAt_of_inner (openTable opening fill (next :: path) latest)
          (fun inner => .replace (.tables (inner :: before).reverse)) (fun entries h => ?_)
          fun _ => ⟨trivial, by simp⟩
        simp only [openTable, h, hrows]
        cases openTable opening fill (next :: path) latest <;> rfl
    | some (.text _) | some (.int _) | some (.real _) | some (.time _) | some (.bool _) | some (.list _) =>
      exact editsAt_of_refused fun entries h => by simp only [openTable, h]

/-! ### An entry in front -/

/-- A step that does the same with an entry in front, if it neither needs the key of the entry nor adds it. -/
def Passes (key : String) (step : Entries → Option Entries) : Prop :=
  ∀ a b, step a = some b → key ∉ keys b →
    key ∉ keys a ∧ ∀ value, step ((key, value) :: a) = some ((key, value) :: b)

theorem EditsOne.passes {P : Value → Prop} {step : Entries → Option Entries} (h : EditsOne P step) (key : String) :
    Passes key step := by
  intro a b hstep hkey
  obtain ⟨edited, h⟩ := h
  obtain ⟨edit, hedit, hshape⟩ := h (a.lookup edited)
  have ha := hedit a rfl
  rw [hstep] at ha
  obtain ⟨e, he, rfl⟩ := Option.map_eq_some_iff.mp ha.symm
  -- The edited key is there afterwards.
  have hedited : edited ∈ keys (e.apply edited a) := by
    cases hlookup : a.lookup edited with
    | some value => exact Edit.mem_keys_apply (mem_keys_of_lookup hlookup)
    | none =>
      rw [(hshape e he).2 hlookup]
      simp [Edit.apply, keys]
  have hne : key ≠ edited := by
    rintro rfl
    exact hkey hedited
  refine ⟨fun h => hkey (Edit.mem_keys_apply h), fun value => ?_⟩
  have hlookup : ((key, value) :: a).lookup edited = a.lookup edited := by
    simp [List.lookup_cons, beq_false_of_ne hne.symm]
  rw [hedit _ hlookup, he, Option.map_some, Edit.apply_cons hne]

theorem Passes.foldlM {α : Type} {key : String} {step : Entries → α → Option Entries}
    (h : ∀ x, Passes key (step · x)) (xs : List α) : Passes key (xs.foldlM step) := by
  induction xs with
  | nil =>
    rintro a _ ⟨⟩ hkey
    exact ⟨hkey, fun _ => rfl⟩
  | cons x xs ih =>
    intro a c hsteps hkey
    obtain ⟨b, hb, hc⟩ := Option.bind_eq_some_iff.mp hsteps
    obtain ⟨hkey, hxs⟩ := ih b c hc hkey
    obtain ⟨hkey, hx⟩ := h x a b hb hkey
    refine ⟨hkey, fun value => ?_⟩
    simp only [List.foldlM_cons, hx value]
    exact hxs value

end Entries

open Entries

/-- An assignment to a key that the table lacks can stand before the document. -/
theorem Document.table?_cons {d : Document} {entries : Entries} {key : String} (h : d.table? = some entries)
    (hkey : key ∉ keys entries) (value : Value) :
    Document.table? { d with assignments := (⟨[], key⟩, value) :: d.assignments } =
      some ((key, value) :: entries) := by
  obtain ⟨root, hroot, hsections⟩ := Option.bind_eq_some_iff.mp h
  have hopen := Passes.foldlM (fun s =>
    (editsOne_openTable s.opening (assignAll s.assignments) s.name.names).passes key) d.sections root entries hsections
    hkey
  have hassign := Passes.foldlM (fun (assignment : Assignment) =>
    (editsOne_assign assignment.1.path assignment.1.last assignment.2).passes key) d.assignments [] root hroot hopen.1
  refine Option.bind_eq_some_iff.mpr ⟨(key, value) :: root, ?_, hopen.2 value⟩
  exact hassign.2 value

/-! ### Values -/

theorem Entries.EditsOne.mono {P Q : Value → Prop} {step : Entries → Option Entries} (h : EditsOne P step)
    (himp : ∀ value, P value → Q value) : EditsOne Q step := by
  obtain ⟨key, h⟩ := h
  refine ⟨key, fun found => ?_⟩
  obtain ⟨edit, hedit, hshape⟩ := h found
  exact ⟨edit, hedit, fun e he => ⟨himp _ (hshape e he).1, (hshape e he).2⟩⟩

theorem Entries.EditsOne.forall {P : Value → Prop} {step : Entries → Option Entries} (h : EditsOne P step)
    {a b : Entries} (hstep : step a = some b) (ha : ∀ entry ∈ a, P entry.2) : ∀ entry ∈ b, P entry.2 := by
  obtain ⟨key, h⟩ := h
  obtain ⟨edit, hedit, hshape⟩ := h (a.lookup key)
  rw [hedit a rfl] at hstep
  obtain ⟨e, he, rfl⟩ := Option.map_eq_some_iff.mp hstep
  intro entry hentry
  rcases Edit.mem_apply hentry with hold | hnew
  · exact ha entry hold
  · rw [hnew]
    exact (hshape e he).1

theorem forall_foldlM {α : Type} {P : Value → Prop} {step : Entries → α → Option Entries} {xs : List α}
    (h : ∀ x ∈ xs, EditsOne P (step · x)) {a b : Entries} (hsteps : xs.foldlM step a = some b)
    (ha : ∀ entry ∈ a, P entry.2) : ∀ entry ∈ b, P entry.2 := by
  induction xs generalizing a with
  | nil =>
    cases hsteps
    exact ha
  | cons x xs ih =>
    obtain ⟨hx, hxs⟩ := List.forall_mem_cons.mp h
    obtain ⟨c, hc, hb⟩ := Option.bind_eq_some_iff.mp hsteps
    exact ih hxs hb (hx.forall hc ha)

/-- The values of a document are those that it assigns, and tables. -/
theorem Document.forall_table? {P : Value → Prop} {d : Document} {entries : Entries} (h : d.table? = some entries)
    (htable : ∀ value, IsTable value → P value) (hassigned : ∀ assignment ∈ d.assignments, P assignment.2) :
    ∀ entry ∈ entries, P entry.2 := by
  obtain ⟨root, hroot, hsections⟩ := Option.bind_eq_some_iff.mp h
  refine forall_foldlM (fun s _ => (editsOne_openTable _ _ _).mono htable) hsections ?_
  refine forall_foldlM (fun assignment hmem => (editsOne_assign _ _ _).mono ?_) hroot (by simp)
  rintro value (rfl | hvalue)
  · exact hassigned assignment hmem
  · exact htable value hvalue

end SyntheticRows.Toml
