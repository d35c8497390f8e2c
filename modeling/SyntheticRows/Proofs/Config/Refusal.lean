import SyntheticRows.Proofs.Config.Layout

/-!
Documents that are no configurations: those with a key that none has, with a path that is defined twice, or with a pass
that does not exist (`Strays`). They are refused, and every layout of a configuration is read as the configuration
(`parse_layouts`).
-/

namespace SyntheticRows.Config

open Toml (Key Expr Clause Value Entries Assigns DefinesTwice IsDocument IsClause IsExpr IsGap IsMargin Leads)
open Toml.Entries (keys)

/-! ### Stray clauses -/

/-- A path occurs in a document: something is assigned to it, or a header names it. -/
def Mentions (clauses : List Clause) (path : List String) : Prop :=
  (∃ found, Assigns path found [] clauses) ∨
    ∃ opening name, Clause.opens opening name ∈ clauses ∧ name.names = path

/-- An item of a list names a pass: as a text, or as a key of a table. -/
inductive NamesPass : Expr → String → Prop
  | text (name : String) : NamesPass (.text name) name
  | key {members : List (Key × Expr)} {key : Key} {value : Expr} {name : String} {rest : List String}
    (mem : (key, value) ∈ members) (first : key.names = name :: rest) : NamesPass (.inline members) name

/-- Clauses that no configuration can be read from. -/
inductive Strays (clauses : List Clause) : Prop
  /-- A key that is none of the known ones. -/
  | key {name : String} {rest : List String} (mentions : Mentions clauses (name :: rest)) (unknown : name ∉ fields)
  /-- A key of the output that is none of the known ones. -/
  | outputKey {name : String} {rest : List String} (mentions : Mentions clauses ("output" :: name :: rest))
    (unknown : name ∉ outputFields)
  /-- A path that is defined twice. -/
  | twice (twice : DefinesTwice [] clauses)
  /-- A path that is assigned twice in a table between braces. -/
  | repeats {key : Key} {value : Expr} (mem : .assign key value ∈ clauses) (repeats : value.Repeats)
  /-- A pass that is none of the known ones, in a list. -/
  | pass {items : List Expr} {item : Expr} {name : String} (assigns : Assigns ["passes"] (.list items) [] clauses)
    (mem : item ∈ items) (names : NamesPass item name) (unknown : name ∉ passNames)
  /-- A pass that is none of the known ones, as a key. -/
  | passKey {name : String} {rest : List String} (mentions : Mentions clauses ("passes" :: name :: rest))
    (unknown : name ∉ passNames)

/-! ### Entries that are read -/

section
variable {entries : Entries} {c d : Config}

theorem exists_entry_of_foldlM {α β : Type} {step : α → β → Except Fault α} {xs : List β} {a b : α}
    (h : xs.foldlM step a = .ok b) {x : β} (hx : x ∈ xs) : ∃ c d, step c x = .ok d := by
  induction xs generalizing a with
  | nil => cases hx
  | cons y ys ih =>
    obtain ⟨c, hc, h⟩ := exists_of_bind_eq_ok h
    rcases List.mem_cons.mp hx with rfl | hx
    · exact ⟨a, c, hc⟩
    · exact ih h hx

theorem mem_of_lookup {key : String} {value : Value} (h : entries.lookup key = some value) :
    (key, value) ∈ entries := by
  obtain ⟨before, after, rfl, -⟩ := List.lookup_eq_some_iff.mp h
  simp

theorem mem_fields_of_entry {key : String} {value : Value} (h : entry d (key, value) = .ok c) : key ∈ fields := by
  unfold entry at h
  split at h
  all_goals first | (rename_i heq; cases heq; decide) | cases h

theorem mem_outputFields_of_entry {a b : OutputConfig} {key : String} {value : Value}
    (h : outputEntry a (key, value) = .ok b) : key ∈ outputFields := by
  unfold outputEntry at h
  split at h
  all_goals first | (rename_i heq; cases heq; decide) | cases h

theorem mem_passNames_of_passOfName {name : String} {p : Pass} (h : passOfName name = .ok p) : name ∈ passNames := by
  rw [passOfName] at h
  split at h
  · rename_i found hfound
    have hlabel := List.find?_some hfound
    rw [beq_iff_eq] at hlabel
    rw [← hlabel, passNames]
    exact List.mem_map_of_mem (List.mem_of_find?_eq_some hfound)
  · cases h

theorem exists_of_mapM_eq_ok {α β : Type} {f : α → Except Fault β} {xs : List α} {ys : List β}
    (h : xs.mapM f = .ok ys) {x : α} (hx : x ∈ xs) : ∃ y, f x = .ok y := by
  induction xs generalizing ys with
  | nil => cases hx
  | cons z zs ih =>
    rw [List.mapM_cons] at h
    obtain ⟨y, hy, h⟩ := exists_of_bind_eq_ok h
    obtain ⟨ys, hys, -⟩ := exists_of_bind_eq_ok h
    rcases List.mem_cons.mp hx with rfl | hx
    · exact ⟨y, hy⟩
    · exact ih hys hx

/-- A value below which a key stands, as a path through it says. -/
theorem exists_lookup_of_holds {P : Value → Prop} {value : Value} {name : String} {rest : List String}
    (h : value.Holds .all P (name :: rest)) : ∃ inner ∈ value.tablesIn .all, ∃ w, inner.lookup name = some w := by
  obtain ⟨hnil, -⟩ | ⟨inner, hinner, w, hw, -⟩ := h
  · cases hnil
  · exact ⟨inner, hinner, w, hw⟩

theorem mem_outputFields_of_outputPart {value : Value} {output : OutputConfig} (h : outputPart value = .ok output)
    {inner : Entries} (hinner : inner ∈ value.tablesIn .all) {name : String} {w : Value}
    (hw : inner.lookup name = some w) : name ∈ outputFields := by
  cases value with
  | table origin entries =>
    cases List.mem_singleton.mp hinner
    obtain ⟨a, b, hentry⟩ := exists_entry_of_foldlM h (mem_of_lookup hw)
    exact mem_outputFields_of_entry hentry
  | tables rows =>
    -- Three tables stand where a truth value and two texts should.
    have hrefused : ∃ fault, outputPart (.tables rows) = .error fault := by
      match rows with
      | [] | [_] | [_, _] => exact ⟨_, rfl⟩
      | _ :: _ :: _ :: _ => exact ⟨_, rfl⟩
    obtain ⟨fault, hfault⟩ := hrefused
    rw [hfault] at h
    cases h
  | _ => cases hinner

theorem mem_passNames_of_table {origin : Toml.Origin} {inner : Entries} {p : Pass}
    (h : pass (.table origin inner) = .ok p) {name : String} {w : Value} (hw : inner.lookup name = some w) :
    name ∈ passNames := by
  unfold pass at h
  split at h
  · rename_i heq
    cases heq
  · rename_i found content heq
    cases heq
    obtain ⟨q, hq, -⟩ := exists_of_bind_eq_ok h
    have hname : name = found := by
      by_contra hne
      rw [Toml.Entries.lookup_cons_entry, if_neg hne] at hw
      cases hw
    exact hname ▸ mem_passNames_of_passOfName hq
  · cases h

theorem exists_items_of_entry {value : Value} (h : entry d ("passes", value) = .ok c) :
    ∃ listed passes, items value = .ok listed ∧ listed.mapM pass = .ok passes := by
  rw [entry] at h
  obtain ⟨listed, hlisted, h⟩ := exists_of_bind_eq_ok h
  obtain ⟨passes, hpasses, -⟩ := exists_of_bind_eq_ok h
  exact ⟨listed, passes, hlisted, hpasses⟩

theorem mem_passNames_of_items {value : Value} {listed : List Value} {passes : List Pass}
    (hitems : items value = .ok listed) (hpasses : listed.mapM pass = .ok passes) {inner : Entries}
    (hinner : inner ∈ value.tablesIn .all) {name : String} {w : Value} (hw : inner.lookup name = some w) :
    name ∈ passNames := by
  cases value with
  | table origin entries => cases hitems
  | tables rows =>
    cases hitems
    obtain ⟨p, hp⟩ := exists_of_mapM_eq_ok hpasses (List.mem_map_of_mem (f := Value.table .header) hinner)
    exact mem_passNames_of_table hp hw
  | _ => cases hinner

end

/-! ### Refusals -/

section
variable {clauses : List Clause} {root entries : Entries} {c : Config}

theorem Mentions.holds {path : List String} (h : Mentions clauses path) (hleads : Leads [] clauses [] root entries) :
    entries.Holds .all (fun _ => True) path := by
  rcases h with ⟨found, hassigns⟩ | ⟨opening, name, hmem, rfl⟩
  · exact Toml.holds_of_assigns Toml.stable_true (fun _ _ _ => trivial) hassigns hleads
  · exact Toml.holds_of_opens hmem hleads

/-- What stands at a key of the document has been read as an entry. -/
theorem exists_entry {P : Value → Prop} {key : String} {path : List String}
    (h : entries.Holds .all P (key :: path)) (hread : ofEntries entries = .ok c) :
    ∃ value a b, value.Holds .all P path ∧ entry a (key, value) = .ok b := by
  obtain ⟨value, hvalue, hbelow⟩ := h
  obtain ⟨a, b, hentry⟩ := exists_entry_of_foldlM hread (mem_of_lookup hvalue)
  exact ⟨value, a, b, hbelow, hentry⟩

/-- A pass that an item of a list names exists, if the list is read. -/
theorem NamesPass.mem_passNames {item : Expr} {name : String} (h : NamesPass item name) {depth : ℕ} {value : Value}
    (hvalue : item.value? depth = some value) {p : Pass} (hp : pass value = .ok p) : name ∈ passNames := by
  cases h with
  | text name =>
    rw [Expr.value?] at hvalue
    cases hvalue
    exact mem_passNames_of_passOfName hp
  | @key members key value name rest mem first =>
    have hmember : (Expr.inline members).At (key.names ++ []) value := .member mem (.self value)
    rw [List.append_nil, first] at hmember
    have hheld : Value.Holds .all (fun _ => True) (name :: rest) _ :=
      hmember.holds Toml.stable_true (fun _ _ _ => trivial) hvalue
    obtain ⟨inner, hinner, w, hw⟩ := exists_lookup_of_holds hheld
    obtain ⟨less, assignments, table, -, -, rfl⟩ := Expr.value?_inline hvalue
    cases List.mem_singleton.mp hinner
    exact mem_passNames_of_table hp hw

/-- A value is the list of the values of items. -/
def IsListOf (items : List Expr) (value : Value) : Prop :=
  ∃ depth values, items.mapM (Expr.value? depth) = some values ∧ value = .list values

theorem stable_isListOf (items : List Expr) : Toml.Stable (IsListOf items) := by
  refine Toml.stable_of_not_isTable ?_
  rintro _ ⟨depth, values, -, rfl⟩
  exact id

theorem isListOf_of_value? {items : List Expr} {depth : ℕ} {value : Value}
    (h : (Expr.list items).value? depth = some value) : IsListOf items value := by
  cases depth with
  | zero => cases h
  | succ depth =>
    rw [Expr.value?] at h
    obtain ⟨values, hvalues, rfl⟩ := Option.map_eq_some_iff.mp h
    exact ⟨depth, values, hvalues, rfl⟩

theorem not_strays (hleads : Leads [] clauses [] root entries) (hread : ofEntries entries = .ok c) :
    ¬Strays clauses := by
  intro h
  cases h with
  | key mentions unknown =>
    obtain ⟨value, a, b, -, hentry⟩ := exists_entry (mentions.holds hleads) hread
    exact unknown (mem_fields_of_entry hentry)
  | outputKey mentions unknown =>
    obtain ⟨value, a, b, hbelow, hentry⟩ := exists_entry (mentions.holds hleads) hread
    obtain ⟨inner, hinner, w, hw⟩ := exists_lookup_of_holds hbelow
    rw [entry] at hentry
    obtain ⟨output, houtput, -⟩ := exists_of_bind_eq_ok hentry
    exact unknown (mem_outputFields_of_outputPart houtput hinner hw)
  | twice twice => exact Toml.not_definesTwice hleads twice
  | repeats mem repeats => exact Toml.not_repeats hleads mem repeats
  | @pass items item name assigns mem names unknown =>
    have hheld := Toml.holds_of_assigns (stable_isListOf items) (fun _ _ => isListOf_of_value?) assigns hleads
    obtain ⟨value, a, b, hbelow, hentry⟩ := exists_entry hheld hread
    obtain ⟨listed, passes, hlisted, hpasses⟩ := exists_items_of_entry hentry
    obtain ⟨-, depth, values, hvalues, rfl⟩ | ⟨inner, -, hinner⟩ := hbelow
    · cases hlisted
      obtain ⟨w, hw, hitem⟩ := Toml.exists_of_mapM hvalues mem
      obtain ⟨p, hp⟩ := exists_of_mapM_eq_ok hpasses hw
      exact unknown (names.mem_passNames hitem hp)
    · exact hinner
  | passKey mentions unknown =>
    obtain ⟨value, a, b, hbelow, hentry⟩ := exists_entry (mentions.holds hleads) hread
    obtain ⟨inner, hinner, w, hw⟩ := exists_lookup_of_holds hbelow
    obtain ⟨listed, passes, hlisted, hpasses⟩ := exists_items_of_entry hentry
    exact unknown (mem_passNames_of_items hlisted hpasses hinner hw)

end

/-- A document that lays a configuration out is read as the configuration, whatever the layout, and a document with a
    stray clause is refused. -/
theorem parse_layouts {text : String} {clauses : List Clause} (hdocument : IsDocument text.toList clauses) :
    (∀ c : Config, c.IsSigned → c.Arranged clauses → parse text = .ok c) ∧
      (Strays clauses → ∃ fault, parse text = .error fault) := by
  refine ⟨fun c hsigned harranged => parse_of_arranged hsigned hdocument harranged, fun hstrays => ?_⟩
  cases hparse : parse text with
  | error fault => exact ⟨fault, rfl⟩
  | ok c =>
    obtain ⟨entries, hentries, hread⟩ := ofEntries_of_parse hparse
    obtain ⟨root, hleads⟩ := Toml.exists_leads hdocument hentries
    exact absurd hstrays (not_strays hleads hread)

/-- A file with a comment, a hexadecimal number and a header, and one with a key that is misspelt. -/
theorem parse_layouts_of_files :
    parse "# rows\nseed = 0x2A\n[output]\nreading_table = 'ticks'" =
        .ok { seed := some 42, output := { readingTable := some "ticks" } } ∧
      ∃ fault, parse "seeds = 1" = .error fault := by
  have hnothing : IsMargin [] := .blanks Toml.isBlanks_nil
  have hgap : IsGap [] := .blanks Toml.isBlanks_nil
  have hcomment : IsGap ([] ++ '#' :: " rows".toList ++ (['\n'] ++ [])) :=
    .line (.comment Toml.isBlanks_nil (by simp [Toml.isPrintable])) .newline hgap
  have hnumber : IsExpr "0x2A".toList (.token "0x2A".toList) := .token ⟨by simp, by simp [Toml.isTokenChar]⟩
  have hticks : IsExpr ('\'' :: ("ticks".toList ++ ['\''])) (.text "ticks") := by
    have hplain (c : Char) (h : Toml.isPrintable c ∧ c ≠ '\'') : Toml.IsPlain '\'' c := ⟨h.1, h.2, by simp⟩
    exact .text (.line (.inr rfl) (.plain (hplain 't' (by decide)) (.plain (hplain 'i' (by decide))
      (.plain (hplain 'c' (by decide)) (.plain (hplain 'k' (by decide)) (.plain (hplain 's' (by decide)) .nil))))))
  have hone : IsExpr ['1'] (.token ['1']) := .token ⟨by simp, by simp [Toml.isTokenChar]⟩
  have hassign {key : String} (hkey : Toml.IsBare key.toList) {s : List Char} {e : Expr} (hs : IsExpr s e) :
      IsClause (key.toList ++ ([' '] ++ '=' :: ([' '] ++ s))) (.assign ⟨[], key⟩ e) := by
    have hclause := Toml.isClause_assign hkey hs
    rwa [String.ofList_toList] at hclause
  have hseed := hassign isBare_seed hnumber
  have htable := hassign (show Toml.IsBare "reading_table".toList from ⟨by simp, by simp [Toml.isBareKeyChar]⟩) hticks
  have hseeds := hassign (show Toml.IsBare "seeds".toList from ⟨by simp, by simp [Toml.isBareKeyChar]⟩) hone
  have houtput : IsClause ('[' :: ([] ++ ("output".toList ++ ([] ++ [']'])))) (.opens .single outputKey) :=
    .single Toml.isBlanks_nil (.last (.bare ⟨by simp, by simp [Toml.isBareKeyChar]⟩)) Toml.isBlanks_nil
  have hfile : IsDocument "# rows\nseed = 0x2A\n[output]\nreading_table = 'ticks'".toList
      (clausesOf [(⟨[], "seed"⟩, .token "0x2A".toList)] ++
        .opens .single outputKey :: clausesOf [(⟨[], "reading_table"⟩, .text "ticks")]) :=
    .line hcomment hseed hnothing .newline <| .line hgap houtput hnothing .newline <| .last hgap htable hnothing
  have hstray : IsDocument "seeds = 1".toList (clausesOf [(⟨[], "seeds"⟩, .token ['1'])]) :=
    .last hgap hseeds hnothing
  refine ⟨(parse_layouts hfile).1 _ ?_ ?_, (parse_layouts hstray).2 ?_⟩
  · rintro n (h | h | h) <;> cases h
    decide
  · have hinteger : Toml.IsInteger "0x2A".toList 42 := .based .hexadecimal (.cons rfl (.single rfl))
    exact .header ⟨_, .refl _, .cons ⟨rfl, .int hinteger⟩ .nil⟩ ⟨_, .refl _, .cons ⟨rfl, .text _⟩ .nil⟩
  · exact .key (.inl ⟨_, .here (.self _) rfl⟩) (show "seeds" ∉ fields by decide)

end SyntheticRows.Config
