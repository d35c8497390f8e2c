import SyntheticRows.Proofs.Toml.Reading
import SyntheticRows.Proofs.Toml.Tables

/-!
What the clauses of a document say about the paths of keys, and what becomes of it. What a clause assigns stands in the
table of the document (`holds_of_assigns`), and so does the name of a header (`holds_of_opens`). A document that
defines a path twice has no table (`not_definesTwice`); where repeated headers open several tables, each of them may
define the path.
-/

namespace SyntheticRows.Toml

/-! ### Paths -/

namespace Expr

/-- An expression stands in another one at a path of keys, through tables between braces. -/
inductive At : Expr → List String → Expr → Prop
  | self (e : Expr) : At e [] e
  | member {members : List (Key × Expr)} {key : Key} {value found : Expr} {path : List String}
    (mem : (key, value) ∈ members) (rest : At value path found) : At (.inline members) (key.names ++ path) found

/-- Somewhere in an expression a table between braces assigns to a path twice. -/
inductive Repeats : Expr → Prop
  | here {before between after : List (Key × Expr)} {k k' : Key} {v v' x x' : Expr} {path path' : List String}
    (first : At v path x) (second : At v' path' x') (same : k.names ++ path = k'.names ++ path') :
    Repeats (.inline (before ++ (k, v) :: (between ++ (k', v') :: after)))
  | member {members : List (Key × Expr)} {key : Key} {value : Expr} (mem : (key, value) ∈ members)
    (rest : Repeats value) : Repeats (.inline members)
  | item {items : List Expr} {e : Expr} (mem : e ∈ items) (rest : Repeats e) : Repeats (.list items)

end Expr

namespace Clause

/-- The path of the table to which the clauses behind a clause assign. -/
def headerAfter (header : List String) : Clause → List String
  | .assign _ _ => header
  | .opens _ name => name.names

/-- A clause under a header defines a path: it assigns to it, alone or in a table between braces, or opens its table. -/
inductive Defines (header : List String) : Clause → List String → Prop
  | assigned {key : Key} {value found : Expr} {path : List String} (stands : value.At path found) :
    Defines header (.assign key value) (header ++ (key.names ++ path))
  | opened {name : Key} : Defines header (.opens .single name) name.names

/-- A clause opens another table on the way to a path. -/
def Renews (path : List String) : Clause → Prop
  | .opens .repeated name => name.names <+: path
  | _ => False

end Clause

/-- A path is defined by a clause in the same table to which the first clauses add. -/
inductive DefinesLater (path : List String) : (header : List String) → List Clause → Prop
  | here {header : List String} {clause : Clause} {clauses : List Clause} (defines : clause.Defines header path) :
    DefinesLater path header (clause :: clauses)
  | after {header : List String} {clause : Clause} {clauses : List Clause} (keeps : ¬clause.Renews path)
    (later : DefinesLater path (clause.headerAfter header) clauses) : DefinesLater path header (clause :: clauses)

/-- Two clauses define one path in the same table. -/
inductive DefinesTwice : (header : List String) → List Clause → Prop
  | here {header path : List String} {clause : Clause} {clauses : List Clause} (defines : clause.Defines header path)
    (later : DefinesLater path (clause.headerAfter header) clauses) : DefinesTwice header (clause :: clauses)
  | after {header : List String} {clause : Clause} {clauses : List Clause}
    (twice : DefinesTwice (clause.headerAfter header) clauses) : DefinesTwice header (clause :: clauses)

/-- A clause gives a path this expression. -/
inductive Assigns (path : List String) (found : Expr) : (header : List String) → List Clause → Prop
  | here {header below : List String} {key : Key} {value : Expr} {clauses : List Clause} (stands : value.At below found)
    (path_eq : path = header ++ (key.names ++ below)) : Assigns path found header (.assign key value :: clauses)
  | after {header : List String} {clause : Clause} {clauses : List Clause}
    (assigns : Assigns path found (clause.headerAfter header) clauses) : Assigns path found header (clause :: clauses)

/-! ### Lists of what may fail -/

section
variable {α β : Type} {f : α → Option β}

theorem mapM_cons_eq_some {x : α} {xs : List α} {zs : List β} (h : (x :: xs).mapM f = some zs) :
    ∃ y ys, f x = some y ∧ xs.mapM f = some ys ∧ zs = y :: ys := by
  rw [List.mapM_cons] at h
  obtain ⟨y, hy, h⟩ := Option.bind_eq_some_iff.mp h
  obtain ⟨ys, hys, h⟩ := Option.bind_eq_some_iff.mp h
  cases h
  exact ⟨y, ys, hy, hys, rfl⟩

theorem mapM_append_eq_some {xs ys : List α} {zs : List β} (h : (xs ++ ys).mapM f = some zs) :
    ∃ us vs, xs.mapM f = some us ∧ ys.mapM f = some vs ∧ zs = us ++ vs := by
  rw [List.mapM_append] at h
  obtain ⟨us, hus, h⟩ := Option.bind_eq_some_iff.mp h
  obtain ⟨vs, hvs, h⟩ := Option.bind_eq_some_iff.mp h
  cases h
  exact ⟨us, vs, hus, hvs, rfl⟩

theorem exists_of_mapM {x : α} {xs : List α} {ys : List β} (h : xs.mapM f = some ys) (hx : x ∈ xs) :
    ∃ y ∈ ys, f x = some y := by
  obtain ⟨before, after, rfl⟩ := List.append_of_mem hx
  obtain ⟨us, vs, -, hvs, rfl⟩ := mapM_append_eq_some h
  obtain ⟨y, ys, hy, -, rfl⟩ := mapM_cons_eq_some hvs
  exact ⟨y, by simp, hy⟩

end

/-! ### Assignments in turn -/

section
variable {scope : Scope} {P : Value → Prop} {assignments : List Assignment} {a b : Entries}

theorem names_append (key : Key) (path : List String) : key.names ++ path = key.path ++ key.last :: path := by
  simp [Key.names]

theorem assignAll_keeps (hP : Stable P) (h : assignAll assignments a = some b) {held : List String}
    (hheld : a.Holds scope P held) : b.Holds scope P held := by
  induction assignments generalizing a with
  | nil =>
    cases h
    exact hheld
  | cons assignment assignments ih =>
    obtain ⟨c, hc, h⟩ := Option.bind_eq_some_iff.mp h
    exact ih h (Entries.assign_keeps hP hc hheld)

theorem assignAll_cons {key : Key} {value : Value} (h : assignAll ((key, value) :: assignments) a = some b) :
    ∃ c, a.assign key.path key.last value = some c ∧ assignAll assignments c = some b :=
  Option.bind_eq_some_iff.mp h

theorem assignAll_append {others : List Assignment} (h : assignAll (assignments ++ others) a = some b) :
    ∃ c, assignAll assignments a = some c ∧ assignAll others c = some b := by
  rw [assignAll, List.foldlM_append] at h
  exact Option.bind_eq_some_iff.mp h

theorem assignAll_adds (hP : Stable P) (h : assignAll assignments a = some b) {key : Key} {value : Value}
    (hmem : (key, value) ∈ assignments) {path : List String} (hvalue : value.Holds scope P path) :
    b.Holds scope P (key.names ++ path) := by
  obtain ⟨before, after, rfl⟩ := List.append_of_mem hmem
  obtain ⟨c, -, h⟩ := assignAll_append h
  obtain ⟨d, hd, h⟩ := assignAll_cons h
  rw [names_append]
  exact assignAll_keeps hP h (Entries.assign_adds hd hvalue)

end

/-! ### Values of expressions -/

theorem complete_of_ofToken? {s : List Char} {value : Value} (h : ofToken? s = some value) : value.Complete := by
  rw [ofToken?] at h
  split at h
  · cases h
    trivial
  split at h
  · cases h
    trivial
  split at h
  · cases h
    trivial
  split at h
  · cases h
    trivial
  obtain ⟨n, -, rfl⟩ := Option.map_eq_some_iff.mp h
  trivial

theorem Expr.complete {e : Expr} {depth : ℕ} {value : Value} (h : e.value? depth = some value) : value.Complete := by
  cases e with
  | text s =>
    rw [Expr.value?] at h
    cases h
    trivial
  | token s =>
    rw [Expr.value?] at h
    exact complete_of_ofToken? h
  | moment d t =>
    rw [Expr.value?] at h
    cases h
    trivial
  | list items =>
    cases depth with
    | zero => cases h
    | succ depth =>
      rw [Expr.value?] at h
      obtain ⟨values, -, rfl⟩ := Option.map_eq_some_iff.mp h
      trivial
  | inline members =>
    cases depth with
    | zero => cases h
    | succ depth =>
      rw [Expr.value?] at h
      obtain ⟨assignments, -, h⟩ := Option.bind_eq_some_iff.mp h
      obtain ⟨entries, -, rfl⟩ := Option.map_eq_some_iff.mp h
      trivial

theorem assignmentOf?_eq_some {meaning : Expr → Option Value} {key : Key} {e : Expr} {assignment : Assignment}
    (h : assignmentOf? meaning (key, e) = some assignment) :
    ∃ value, meaning e = some value ∧ assignment = (key, value) := by
  rw [assignmentOf?] at h
  split at h
  · obtain ⟨value, hvalue, rfl⟩ := Option.map_eq_some_iff.mp h
    exact ⟨value, hvalue, rfl⟩
  · cases h

theorem Expr.value?_inline {members : List (Key × Expr)} {depth : ℕ} {value : Value}
    (h : (Expr.inline members).value? depth = some value) :
    ∃ less assignments entries, members.mapM (assignmentOf? (Expr.value? less)) = some assignments ∧
      assignAll assignments [] = some entries ∧ value = .table .inline entries := by
  cases depth with
  | zero => cases h
  | succ depth =>
    rw [Expr.value?] at h
    obtain ⟨assignments, hassignments, h⟩ := Option.bind_eq_some_iff.mp h
    obtain ⟨entries, hentries, rfl⟩ := Option.map_eq_some_iff.mp h
    exact ⟨depth, assignments, entries, hassignments, hentries, rfl⟩

/-- The value of an expression holds what stands in the expression. -/
theorem Expr.At.holds {scope : Scope} {P : Value → Prop} (hP : Stable P) {e found : Expr} {path : List String}
    (h : e.At path found) (hfound : ∀ depth value, found.value? depth = some value → P value) {depth : ℕ}
    {value : Value} (hvalue : e.value? depth = some value) : value.Holds scope P path := by
  induction h generalizing depth value with
  | self e => exact .inl ⟨rfl, hfound depth value hvalue⟩
  | member mem _ ih =>
    obtain ⟨less, assignments, entries, hassignments, hentries, rfl⟩ := Expr.value?_inline hvalue
    obtain ⟨assignment, hmem, hassignment⟩ := exists_of_mapM hassignments mem
    obtain ⟨inner, hinner, rfl⟩ := assignmentOf?_eq_some hassignment
    exact .inr ⟨entries, List.mem_singleton_self _, assignAll_adds hP hentries hmem (ih hfound hinner)⟩

/-- An expression that assigns to a path twice has no value. -/
theorem Expr.Repeats.value?_eq_none {e : Expr} (h : e.Repeats) (depth : ℕ) : e.value? depth = none := by
  rw [Option.eq_none_iff_forall_ne_some]
  intro value hvalue
  induction h generalizing depth value with
  | @here before between after k k' v v' x x' path path' first _ same =>
    obtain ⟨less, assignments, entries, hassignments, hentries, rfl⟩ := Expr.value?_inline hvalue
    obtain ⟨xs, ys, -, hys, rfl⟩ := mapM_append_eq_some hassignments
    obtain ⟨assignment, zs, hassignment, hzs, rfl⟩ := mapM_cons_eq_some hys
    obtain ⟨middle, ws, -, hws, rfl⟩ := mapM_append_eq_some hzs
    obtain ⟨assignment', vs, hassignment', -, rfl⟩ := mapM_cons_eq_some hws
    obtain ⟨w, hw, rfl⟩ := assignmentOf?_eq_some hassignment
    obtain ⟨w', -, rfl⟩ := assignmentOf?_eq_some hassignment'
    obtain ⟨a, -, hentries⟩ := assignAll_append hentries
    obtain ⟨b, hb, hentries⟩ := assignAll_cons hentries
    obtain ⟨c, hc, hentries⟩ := assignAll_append hentries
    obtain ⟨d, hd, -⟩ := assignAll_cons hentries
    have hfirst : w.Holds .last (fun _ => True) path := first.holds stable_true (fun _ _ _ => trivial) hw
    have hheld := assignAll_keeps stable_true hc (Entries.assign_adds hb hfirst)
    rw [← names_append, same, names_append] at hheld
    exact Entries.assign_fresh hd path' hheld
  | member mem _ ih =>
    obtain ⟨less, assignments, entries, hassignments, -, rfl⟩ := Expr.value?_inline hvalue
    obtain ⟨assignment, -, hassignment⟩ := exists_of_mapM hassignments mem
    obtain ⟨w, hw, -⟩ := assignmentOf?_eq_some hassignment
    exact ih less w hw
  | item mem _ ih =>
    cases depth with
    | zero => cases hvalue
    | succ depth =>
      rw [Expr.value?] at hvalue
      obtain ⟨values, hvalues, -⟩ := Option.map_eq_some_iff.mp hvalue
      obtain ⟨w, -, hw⟩ := exists_of_mapM hvalues mem
      exact ih depth w hw

/-! ### Documents under way -/

def openSection (root : Entries) (s : Section) : Option Entries :=
  root.openTable s.opening (assignAll s.assignments) s.name.names

/-- A document under way. The table of its current header has the entries `a`, and `root` is the whole table once the
    assignments of this header are made. The clauses that are left lead to the table `final`. -/
def Leads (header : List String) (clauses : List Clause) (a root final : Entries) : Prop :=
  ∃ statements b, clauses.mapM Clause.statement? = some statements ∧
    assignAll (Document.ofStatements statements).assignments a = some b ∧
    (Document.ofStatements statements).sections.foldlM openSection root = some final ∧
    ∀ scope P path, b.Holds scope P path → root.Holds scope P (header ++ path)

/-- A text that is read is a document under way from its start. -/
theorem exists_leads {text : List Char} {clauses : List Clause} {final : Entries} (h : IsDocument text clauses)
    (hparse : parse? text = some final) : ∃ root, Leads [] clauses [] root final := by
  rw [parse?_of_isDocument h] at hparse
  obtain ⟨statements, hstatements, htable⟩ := Option.bind_eq_some_iff.mp hparse
  obtain ⟨root, hroot, hsections⟩ := Option.bind_eq_some_iff.mp htable
  exact ⟨root, statements, root, hstatements, hroot, hsections, fun _ _ _ => id⟩

section
variable {header : List String} {clauses : List Clause} {a root final : Entries} {scope : Scope} {P : Value → Prop}

/-- What the table of the current header holds, the whole table will hold below the header. -/
theorem Leads.holds_root (h : Leads header clauses a root final) (hP : Stable P) {path : List String}
    (hheld : a.Holds scope P path) : root.Holds scope P (header ++ path) := by
  obtain ⟨statements, b, -, hb, -, hbelow⟩ := h
  exact hbelow scope P path (assignAll_keeps hP hb hheld)

theorem openSections_keep (hP : Stable P) {sections : List Section} (h : sections.foldlM openSection root = some final)
    {path : List String} (hheld : root.Holds .all P path) : final.Holds .all P path := by
  induction sections generalizing root with
  | nil =>
    cases h
    exact hheld
  | cons s sections ih =>
    obtain ⟨next, hnext, h⟩ := Option.bind_eq_some_iff.mp h
    have hfill : ∀ a b, assignAll s.assignments a = some b → ∀ held, a.Holds .all P held → b.Holds .all P held :=
      fun _ _ hassign _ => assignAll_keeps hP hassign
    exact ih h (Entries.openTable_keeps hP hfill hnext hheld nofun)

theorem Leads.holds_final (h : Leads header clauses a root final) (hP : Stable P) {path : List String}
    (hheld : root.Holds .all P path) : final.Holds .all P path := by
  obtain ⟨statements, b, -, -, hsections, -⟩ := h
  exact openSections_keep hP hsections hheld

/-- An assignment adds its value to the table of the current header. -/
theorem Leads.assign {key : Key} {e : Expr} (h : Leads header (.assign key e :: clauses) a root final) :
    ∃ value c, e.value? (depthLimit - 1) = some value ∧ a.assign key.path key.last value = some c ∧
      Leads header clauses c root final := by
  obtain ⟨statements, b, hstatements, hb, hsections, hbelow⟩ := h
  obtain ⟨statement, rest, hstatement, hrest, rfl⟩ := mapM_cons_eq_some hstatements
  obtain ⟨assignment, hassignment, rfl⟩ := Option.map_eq_some_iff.mp hstatement
  obtain ⟨value, hvalue, rfl⟩ := assignmentOf?_eq_some hassignment
  obtain ⟨c, hc, hb⟩ := assignAll_cons hb
  exact ⟨value, c, hvalue, hc, rest, b, hrest, hb, hsections, hbelow⟩

/-- A header opens the table of the clauses behind it. -/
theorem Leads.opens {opening : Entries.Opening} {name : Key}
    (h : Leads header (.opens opening name :: clauses) a root final) :
    ∃ fill c next, root.openTable opening fill name.names = some next ∧
      (∀ {scope P}, Stable P → ∀ a b, fill a = some b → ∀ held, a.Holds scope P held → b.Holds scope P held) ∧
      (opening = .single → ∀ P path, path ≠ [] → root.Holds .last P (name.names ++ path) → c.Holds .last P path) ∧
      Leads name.names clauses c next final := by
  obtain ⟨statements, b, hstatements, -, hsections, -⟩ := h
  obtain ⟨statement, rest, hstatement, hrest, rfl⟩ := mapM_cons_eq_some hstatements
  rw [Clause.statement?] at hstatement
  split at hstatement
  · cases hstatement
    obtain ⟨next, hnext, hsections⟩ := Option.bind_eq_some_iff.mp hsections
    obtain ⟨c, d, hd, hbelow, hwithin⟩ := Entries.openTable_fills hnext
    exact ⟨_, c, next, hnext, fun hP _ _ h _ hheld => assignAll_keeps hP h hheld, hwithin,
      rest, d, hrest, hd, hsections, hbelow⟩
  · cases hstatement

theorem Leads.next {clause : Clause} (h : Leads header (clause :: clauses) a root final) :
    ∃ c next, Leads (clause.headerAfter header) clauses c next final := by
  cases clause with
  | assign key e =>
    obtain ⟨value, c, -, -, hrest⟩ := h.assign
    exact ⟨c, root, hrest⟩
  | opens opening name =>
    obtain ⟨fill, c, next, -, -, -, hrest⟩ := h.opens
    exact ⟨c, next, hrest⟩

/-! ### What a document assigns -/

theorem holds_of_assigns (hP : Stable P) {path : List String} {found : Expr}
    (hfound : ∀ depth value, found.value? depth = some value → P value) (h : Assigns path found header clauses)
    (hleads : Leads header clauses a root final) : final.Holds .all P path := by
  induction h generalizing a root with
  | here stands path_eq =>
    obtain ⟨value, c, hvalue, hc, hrest⟩ := hleads.assign
    have hinner : value.Holds .all P _ := stands.holds hP hfound hvalue
    have hheld := Entries.assign_adds hc hinner
    rw [← names_append] at hheld
    rw [path_eq]
    exact hrest.holds_final hP (hrest.holds_root hP hheld)
  | after _ ih =>
    obtain ⟨c, next, hrest⟩ := hleads.next
    exact ih hrest

theorem holds_of_opens {opening : Entries.Opening} {name : Key} (h : .opens opening name ∈ clauses)
    (hleads : Leads header clauses a root final) : final.Holds .all (fun _ => True) name.names := by
  induction clauses generalizing header a root with
  | nil => cases h
  | cons clause clauses ih =>
    rcases List.mem_cons.mp h with rfl | h
    · obtain ⟨fill, c, next, hnext, -, -, hrest⟩ := hleads.opens
      exact hrest.holds_final stable_true (Entries.openTable_adds hnext (fun _ => trivial) fun _ _ => trivial)
    · obtain ⟨c, next, hrest⟩ := hleads.next
      exact ih h hrest

/-! ### Paths that are defined twice -/

open Value (Complete)

/-- Where a complete value is held, no clause behind defines its path, unless another table is opened on the way. -/
theorem not_definesLater {path : List String} (hleads : Leads header clauses a root final)
    (hroot : root.Holds .last Complete path)
    (hblock : ∀ below, below ≠ [] → path = header ++ below → a.Holds .last Complete below) :
    ¬DefinesLater path header clauses := by
  intro h
  induction h generalizing a root with
  | here defines =>
    cases defines with
    | @assigned key value found below stands =>
      obtain ⟨value, c, -, hc, -⟩ := hleads.assign
      refine Entries.assign_fresh (P := Complete) hc below ?_
      rw [← names_append]
      exact hblock _ (by simp [Key.names]) rfl
    | opened =>
      obtain ⟨fill, c, next, hnext, -⟩ := hleads.opens
      exact Entries.openTable_fresh hnext hroot
  | @after header clause clauses keeps _ ih =>
    cases clause with
    | assign key e =>
      obtain ⟨value, c, -, hc, hrest⟩ := hleads.assign
      exact ih hrest hroot fun below hne hpath => Entries.assign_keeps stable_complete hc (hblock below hne hpath)
    | opens opening name =>
      obtain ⟨fill, c, next, hnext, hfill, hwithin, hrest⟩ := hleads.opens
      have hkeeps : opening = .repeated → ¬name.names <+: path := by
        rintro rfl
        exact keeps
      refine ih hrest (Entries.openTable_keeps stable_complete (hfill stable_complete) hnext hroot fun _ => hkeeps) ?_
      rintro below hne rfl
      have hsingle : opening = .single := by
        cases opening with
        | single => rfl
        | repeated => exact absurd ⟨below, rfl⟩ (hkeeps rfl)
      exact hwithin hsingle _ below hne hroot

theorem not_definesTwice (hleads : Leads header clauses a root final) : ¬DefinesTwice header clauses := by
  intro h
  induction h generalizing a root with
  | here defines later =>
    cases defines with
    | @assigned key value found below stands =>
      obtain ⟨w, c, hw, hc, hrest⟩ := hleads.assign
      have hvalue : w.Holds .last Complete below := stands.holds stable_complete (fun _ _ h => Expr.complete h) hw
      have hheld := Entries.assign_adds hc hvalue
      rw [← names_append] at hheld
      refine not_definesLater hrest (hrest.holds_root stable_complete hheld) (fun below _ hpath => ?_) later
      rwa [← List.append_cancel_left hpath]
    | @opened name =>
      obtain ⟨fill, c, next, hnext, -, -, hrest⟩ := hleads.opens
      refine not_definesLater hrest (Entries.openTable_adds hnext (fun _ => trivial) nofun) ?_ later
      intro below hne hpath
      exact absurd (List.self_eq_append_right.mp hpath) hne
  | after _ ih =>
    obtain ⟨c, next, hrest⟩ := hleads.next
    exact ih hrest

/-- Each assigned expression of a document that is read has a value, and so repeats no path. -/
theorem not_repeats (hleads : Leads header clauses a root final) {key : Key} {e : Expr}
    (h : .assign key e ∈ clauses) : ¬e.Repeats := by
  obtain ⟨statements, b, hstatements, -⟩ := hleads
  obtain ⟨statement, -, hstatement⟩ := exists_of_mapM hstatements h
  obtain ⟨assignment, hassignment, -⟩ := Option.map_eq_some_iff.mp hstatement
  obtain ⟨value, hvalue, -⟩ := assignmentOf?_eq_some hassignment
  intro hrepeats
  rw [hrepeats.value?_eq_none] at hvalue
  cases hvalue

end

end SyntheticRows.Toml
