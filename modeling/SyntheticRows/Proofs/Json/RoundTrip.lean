import Mathlib
import SyntheticRows.Proofs.Instant
import SyntheticRows.Proofs.Json.Decoders
import SyntheticRows.Proofs.Json.Layout
import SyntheticRows.Proofs.Vocabulary

/-!
Reading undoes writing. Each part of a record is read back from any text that lays it out (`Decodes`), a record is
read back if its members are, and so options, readings and reports are read back from both of their texts
(`readAll_toJson`).
-/

namespace SyntheticRows

namespace Json

/-- A value is read back from every layout of a JSON value. -/
def Decodes {α : Type} (read : Reader α) (j : Json) (a : α) : Prop :=
  ∀ v, IsLayout j v → result read v = some a

/-! ### Scalars -/

theorem decodes_uint64 (n : UInt64) : Decodes uint64 (.int n.toNat) n := by
  rintro v ⟨⟩
  exact result_uint64 n

theorem decodes_int64 (n : Int64) : Decodes int64 (.int n.toInt) n := by
  rintro v ⟨⟩
  exact result_int64 n

theorem decodes_string (s : String) : Decodes string (.text s) s := by
  rintro v ⟨⟩
  obtain ⟨pieces, htext, hmeaning⟩ := exists_pieces s
  rw [← htext, (gives_string pieces).result, hmeaning, Option.map_some, String.ofList_toList]

theorem decodes_choice_alone {α : Type} {names : List String} {alone : String → Option α} {content : String → Reader α}
    {name : String} {a : α} (hname : name ∈ names) (ha : alone name = some a) :
    Decodes (choice names alone content) (.text name) a := by
  rintro v ⟨⟩
  obtain ⟨pieces, htext, hmeaning⟩ := exists_pieces name
  rw [← htext, (gives_choice_alone pieces).result, hmeaning, Option.map_some, String.ofList_toList, Option.bind_some,
    if_pos hname, ha]

theorem decodes_optional {α : Type} {read : Reader α} {write : α → Json} (h : TakesValues read)
    (hdecodes : ∀ a, Decodes read (write a) a) (hnull : ∀ a, ¬IsLayout (write a) ['n', 'u', 'l', 'l']) (o : Option α) :
    Decodes (optional read) (o.elim .null write) o := by
  intro v hv
  cases o with
  | none =>
    rcases hv
    exact gives_optional_null.result
  | some a =>
    have hne : v ≠ ['n', 'u', 'l', 'l'] := by
      rintro rfl
      exact hnull a hv
    rw [(gives_optional h hv.isValue hne).result, hdecodes a v hv, Option.map_some]

/-! ### Lists -/

theorem decodes_array {α : Type} {read : Reader α} {write : α → Json} (h : TakesValues read)
    {as : List α} (hdecodes : ∀ a ∈ as, Decodes read (write a) a) : Decodes (array read) (.list (as.map write)) as := by
  intro v hv
  obtain ⟨inner, items, hitems, rfl, hvalues⟩ := hv.exists_list
  have hcores : ∀ item ∈ items.map Prod.snd, IsValue item.core :=
    List.forall_mem_map.mpr fun item hitem => (hvalues item hitem).isValue
  rw [(gives_array h inner hcores).result]
  clear hcores hv
  induction items generalizing as with
  | nil =>
    obtain rfl := List.map_eq_nil_iff.mp hitems.symm
    rfl
  | cons item items ih =>
    obtain ⟨a, as, rfl, ha, has⟩ := List.map_eq_cons_iff.mp hitems.symm
    obtain ⟨hitem, hrest⟩ := List.forall_mem_cons.mp hvalues
    obtain ⟨hfirst, hothers⟩ := List.forall_mem_cons.mp hdecodes
    rw [List.map_cons, List.mapM_cons, hfirst _ (ha ▸ hitem), ih hothers has.symm hrest]
    rfl

/-! ### Records -/

/-- What stands under the names of all members, in their order, gives the values one by one. -/
theorem values?_of_names {ts : List Type} {members : Members ts} (hnodup : members.names.Nodup)
    {named : List (String × List Char)} (h : named.map Prod.fst = members.names) :
    members.values? named = members.ofTexts? (named.map Prod.snd) := by
  induction members generalizing named with
  | nil =>
    obtain rfl := List.map_eq_nil_iff.mp h
    rfl
  | cons own read absent rest ih =>
    obtain ⟨⟨name, v⟩, others, rfl, rfl, hothers⟩ := List.map_eq_cons_iff.mp h
    obtain ⟨hown, hrest⟩ := List.nodup_cons.mp hnodup
    have hnone : others.filter (fun entry => entry.1 = name) = [] := by
      rw [List.filter_eq_nil_iff]
      intro entry hentry heq
      have hmem : entry.1 ∈ rest.names := hothers ▸ List.mem_map_of_mem hentry
      rw [of_decide_eq_true heq] at hmem
      exact hown hmem
    have hwritten : written name ((name, v) :: others) = [v] := by simp [written, hnone]
    have hvalues : rest.values? ((name, v) :: others) = rest.values? others := by
      refine rest.values?_perm fun other hother => List.Perm.of_eq ?_
      have hne : name ≠ other := fun heq => hown (heq ▸ hother)
      simp [written, hne]
    rw [Members.values?, hwritten, hvalues, ih hrest hothers]
    rfl

/-- The values of the members are read back from their own JSON values. -/
def Members.Decode : {ts : List Type} → Members ts → List Json → Values ts → Prop
  | _, nil, [], _ => True
  | _, cons _ read _ rest, j :: js, (value, values) => Decodes read j value ∧ rest.Decode js values
  | _, nil, _ :: _, _ => False
  | _, cons _ _ _ _, [], _ => False

theorem ofTexts?_of_decode {ts : List Type} {members : Members ts} {js : List Json} {values : Values ts}
    {vs : List (List Char)}
    (h : members.Decode js values) (hlayout : List.Forall₂ IsLayout js vs) : members.ofTexts? vs = some values := by
  induction members generalizing js vs with
  | nil =>
    cases hlayout with
    | nil => rfl
    | cons _ _ => exact h.elim
  | cons name read absent rest ih =>
    cases hlayout with
    | nil => exact h.elim
    | cons hv hvs =>
      obtain ⟨hfirst, hothers⟩ := h
      rw [Members.ofTexts?, hfirst _ hv, ih hothers hvs]
      rfl

theorem mapM_named {members : List ((String × Json) × Entry)}
    (h : ∀ member ∈ members, member.2.name? = some member.1.1) :
    (members.map Prod.snd).mapM Entry.named? =
      some (members.map fun member => (member.1.1, member.2.value.core)) := by
  induction members with
  | nil => rfl
  | cons member members ih =>
    obtain ⟨hmember, hmembers⟩ := List.forall_mem_cons.mp h
    rw [List.map_cons, List.mapM_cons, Entry.named?, hmember, ih hmembers]
    rfl

theorem decodes_record {α : Type} {ts : List Type} {members : Members ts} {make : Values ts → α}
    (htake : members.TakeValues) (hnodup : members.names.Nodup) {js : List (String × Json)}
    (hnames : js.map Prod.fst = members.names) (values : Values ts) (h : members.Decode (js.map Prod.snd) values) :
    Decodes (record members make) (.object js) (make values) := by
  intro v hv
  obtain ⟨inner, written, rfl, rfl, hwritten, hlayout⟩ := hv.exists_object
  have hcores : ∀ entry ∈ written.map Prod.snd, IsValue entry.value.core :=
    List.forall_mem_map.mpr fun member hmember => (hlayout member hmember).isValue
  have hordered : (written.map fun member => (member.1.1, member.2.value.core)).map Prod.fst = members.names := by
    rw [← hnames, List.map_map, List.map_map]
    rfl
  have hlayouts : List.Forall₂ IsLayout ((written.map Prod.fst).map Prod.snd)
      ((written.map fun member => (member.1.1, member.2.value.core)).map Prod.snd) := by
    rw [List.map_map, List.map_map, List.forall₂_map_left_iff, List.forall₂_map_right_iff]
    exact List.forall₂_same.mpr hlayout
  rw [(gives_record_object htake hnodup inner hcores).result, mapM_named hwritten, Option.bind_some,
    values?_of_names hnodup hordered, ofTexts?_of_decode h hlayouts, Option.map_some]

theorem decodes_choice_content {α : Type} {names : List String} {alone : String → Option α}
    {content : String → Reader α}
    {name : String} {j : Json} {a : α} (hcontent : ∀ name, TakesValues (content name)) (hname : name ∈ names)
    (h : Decodes (content name) j a) : Decodes (choice names alone content) (.object [(name, j)]) a := by
  intro v hv
  obtain ⟨inner, members, hmembers, rfl, hnamed, hlayout⟩ := hv.exists_object
  obtain ⟨member, others, rfl, hmember, hnil⟩ := List.map_eq_cons_iff.mp hmembers
  obtain rfl := List.map_eq_nil_iff.mp hnil
  have hfirst := hlayout member List.mem_cons_self
  have hread := hnamed member List.mem_cons_self
  rw [hmember] at hfirst hread
  rw [List.map_singleton, (gives_choice_content hcontent inner hfirst.isValue []).result, hread, Option.bind_some,
    if_pos ⟨hname, rfl⟩]
  exact h _ hfirst

theorem decodes_label {α : Type} [Vocabulary α] [LawfulVocabulary α] (a : α) :
    Decodes label (.text (Vocabulary.label a)) a :=
  decodes_choice_alone (label_mem_labelsOf a) (find?_label a)

theorem decodes_converted {α β : Type} {read : Reader α} {f : α → Except Fault β} {j : Json} {a : α} {b : β}
    (htake : TakesValues read) (h : Decodes read j a) (hf : f a = .ok b) : Decodes (converted read f) j b := by
  intro v hv
  rw [result_converted (htake.gives hv.isValue), h v hv, Option.bind_some, hf]
  rfl

theorem Decodes.readAll {α : Type} {read : Reader α} {j : Json} {a : α} (h : Decodes read j a) :
    readAll read j.compact = .ok a ∧ readAll read (j.pretty 0) = .ok a :=
  ⟨result_eq_some_iff.mp (h _ (isLayout_compact j)), result_eq_some_iff.mp (h _ (isLayout_pretty 0 j))⟩

end Json

open Json

/-! ### Options -/

theorem Framing.decodes_toJson (framing : Framing) : Decodes fromJson framing.toJson framing := by
  rw [fromJson_eq]
  cases framing with
  | lines => exact decodes_choice_alone (by decide) rfl
  | statements readingTable positionTable =>
    refine decodes_choice_content takesValues_content (by decide) ?_
    exact decodes_record tableMembers_takeValues (by decide) rfl (readingTable, positionTable, ())
      ⟨decodes_string readingTable, decodes_string positionTable, trivial⟩

namespace Options

theorem decodes_seed (seed : Option UInt64) :
    Decodes (optional uint64) (seed.elim .null fun seed => .int seed.toNat) seed := by
  refine decodes_optional takesValues_uint64 decodes_uint64 (fun n hn => ?_) seed
  have hread := decodes_uint64 n _ hn
  have hrefuse : result uint64 ['n', 'u', 'l', 'l'] = none := by decide
  rw [hrefuse] at hread
  cases hread

theorem decodes_toJson (o : Options) : Decodes fromJson o.toJson o :=
  decodes_record members_takeValues (by decide) rfl (o.seed, o.upperBound, o.step, o.passes, o.framing, ())
    ⟨decodes_seed o.seed, decodes_uint64 o.upperBound, decodes_uint64 o.step,
      decodes_array takesValues_label fun pass _ => decodes_label pass, o.framing.decodes_toJson, trivial⟩

end Options

/-! ### Readings -/

theorem Reading.decodes_toJson (r : Reading) : Decodes fromJson r.toJson r :=
  decodes_record members_takeValues (by decide) rfl (r.value, r.minutes, ())
    ⟨decodes_int64 r.value, decodes_uint64 r.minutes, trivial⟩

/-! ### Reports -/

theorem PassReport.decodes_toJson (r : PassReport) : Decodes fromJson r.toJson r :=
  decodes_record members_takeValues (by decide) rfl (r.pass, r.rows, r.bytesWritten, r.milliseconds, ())
    ⟨decodes_label r.pass, decodes_uint64 r.rows, decodes_uint64 r.bytesWritten, decodes_uint64 r.milliseconds, trivial⟩

theorem Instant.decodes_toJson {t : Instant} (hvalid : t.isValid) : Decodes fromJson t.toJson t := by
  rw [fromJson_eq]
  refine decodes_converted takesValues_string (decodes_string _) ?_
  rw [ofText, String.toList_ofList, parse?_text hvalid]

theorem Report.decodes_toJson {r : Report} (hvalid : r.startedAt.isValid) : Decodes fromJson r.toJson r :=
  decodes_record members_takeValues (by decide) rfl (r.runId, r.seed, r.startedAt, r.passes, r.milliseconds, ())
    ⟨decodes_string r.runId, decodes_uint64 r.seed, Instant.decodes_toJson hvalid,
      decodes_array PassReport.takesValues_fromJson fun pass _ => pass.decodes_toJson,
      decodes_uint64 r.milliseconds, trivial⟩

/-! ### Texts read back -/

/-- Options, readings and reports are read back from the text on one line and from the indented text, a report if the
    year of its moment has four digits. -/
theorem readAll_toJson :
    (∀ o : Options, readAll Options.fromJson o.toJson.compact = .ok o ∧
      readAll Options.fromJson (o.toJson.pretty 0) = .ok o) ∧
    (∀ r : Reading, readAll Reading.fromJson r.toJson.compact = .ok r ∧
      readAll Reading.fromJson (r.toJson.pretty 0) = .ok r) ∧
    ∀ r : Report, r.startedAt.isValid → 0 ≤ r.startedAt.date.year → r.startedAt.date.year ≤ 9999 →
      readAll Report.fromJson r.toJson.compact = .ok r ∧ readAll Report.fromJson (r.toJson.pretty 0) = .ok r :=
  ⟨fun o => o.decodes_toJson.readAll, fun r => r.decodes_toJson.readAll,
    fun _ hvalid _ _ => (Report.decodes_toJson hvalid).readAll⟩

/-- A report of the first moment of 1970. -/
theorem readAll_toJson_epoch :
    Instant.epoch.isValid ∧ 0 ≤ Instant.epoch.date.year ∧ Instant.epoch.date.year ≤ 9999 ∧
      let r : Report := ⟨"run", 7, Instant.epoch, [⟨.readings, 1, 2, 3⟩], 4⟩
      readAll Report.fromJson r.toJson.compact = .ok r ∧ readAll Report.fromJson (r.toJson.pretty 0) = .ok r :=
  ⟨by decide, by decide, by decide,
    readAll_toJson.2.2 ⟨"run", 7, Instant.epoch, [⟨.readings, 1, 2, 3⟩], 4⟩ (by decide) (by decide) (by decide)⟩

end SyntheticRows
