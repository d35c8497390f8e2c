import Mathlib
import SyntheticRows.Proofs.Json.Decoders

/-!
Which objects are accepted as records. A record is read just if every name in the object stands for a text, every
declared field stands in it once, or not at all where it may be absent, and the value of each decodes. The record
then holds what the declared fields say; the order of the members, the escapes in their names, the members of
other names and the blanks between them say nothing (`ReadsStrictly`).
-/

namespace SyntheticRows.Json

/-! ### Objects -/

/-- The text of an object, between blanks. -/
structure ObjectText where
  before : Blanks
  inner : Blanks
  entries : List Entry
  after : Blanks
  values : ∀ entry ∈ entries, IsValue entry.value.core

namespace ObjectText

def text (o : ObjectText) : List Char :=
  o.before.chars ++ (objectText o.inner o.entries ++ o.after.chars)

/-- The texts of the values under the names for which the entries stand, if each stands for one. -/
def named? (o : ObjectText) : Option (List (String × List Char)) :=
  o.entries.mapM Entry.named?

end ObjectText

/-! ### Fields -/

/-- A declared field of a record: its name, how it is read, the value that it has when it is absent, if it may be, and
    its place in the record. -/
structure DeclaredField (ρ : Type) where
  {α : Type}
  name : String
  read : Reader α
  absent : Option α
  get : ρ → α

/-- The texts that stand under the name of a field give it a value: one text that decodes, or none if the field may be
    absent. -/
def DeclaredField.Reads {ρ : Type} (f : DeclaredField ρ) : List (List Char) → f.α → Prop
  | [], value => f.absent = some value
  | [v], value => readAll f.read v = .ok value
  | _ :: _ :: _, _ => False

/-- What stands under the names of some fields. -/
def declared {ρ : Type} (fields : List (DeclaredField ρ)) (named : List (String × List Char)) :
    List (String × List Char) :=
  named.filter fun entry => entry.1 ∈ fields.map DeclaredField.name

/-- Objects are read strictly in the declared fields, and whatever else they hold. -/
structure ReadsStrictly {ρ : Type} (read : Reader ρ) (fields : List (DeclaredField ρ)) : Prop where
  accepted_iff : ∀ o : ObjectText, (∃ a, readAll read o.text = .ok a) ↔
    ∃ named, o.named? = some named ∧ ∀ f ∈ fields, ∃ value, f.Reads (written f.name named) value
  decoded : ∀ (o : ObjectText) named a, o.named? = some named → readAll read o.text = .ok a →
    ∀ f ∈ fields, f.Reads (written f.name named) (f.get a)
  unchanged : ∀ (o o' : ObjectText) named named', o.named? = some named → o'.named? = some named' →
    (declared fields named).Perm (declared fields named') →
      (readAll read o.text).toOption = (readAll read o'.text).toOption
  repeated : ∀ (o : ObjectText), ∀ f ∈ fields, 2 ≤ o.entries.countP (fun entry => entry.name? = some f.name) →
    ∀ a, readAll read o.text ≠ .ok a

/-! ### Records read strictly -/

theorem Gives.padded {α : Type} {read : Reader α} {v : List Char} {given : Option α} (h : Gives read v given)
    (before after : Blanks) : (readAll read (before.chars ++ (v ++ after.chars))).toOption = given := by
  have hafter : Ends after.chars := by
    have := Ends.blanks (t := []) nofun after
    rwa [List.append_nil] at this
  rw [readAll, toOption_bind, h before _ hafter]
  cases given with
  | none => rfl
  | some a =>
    simp only [Option.map_some, Option.bind_some, skipBlanks_blanks after, if_true]
    rfl

namespace Members

variable {ρ : Type} {ts : List Type}

/-- The members of a record as its fields. -/
def fields : {ts : List Type} → Members ts → (ρ → Values ts) → List (DeclaredField ρ)
  | _, nil, _ => []
  | _, cons name read absent rest, get =>
    ⟨name, read, absent, fun a => (get a).1⟩ :: rest.fields fun a => (get a).2

theorem map_name_fields (members : Members ts) (get : ρ → Values ts) :
    (members.fields get).map DeclaredField.name = members.names := by
  induction members with
  | nil => rfl
  | cons name read absent rest ih => exact congrArg (name :: ·) (ih fun a => (get a).2)

theorem fieldValue_eq_some_iff (f : DeclaredField ρ) (texts : List (List Char)) (value : f.α) :
    fieldValue f.read f.absent texts = some value ↔ f.Reads texts value := by
  match texts with
  | [] => exact Iff.rfl
  | [v] => exact result_eq_some_iff
  | _ :: _ :: _ => exact ⟨nofun, nofun⟩

theorem exists_values?_iff (members : Members ts) (get : ρ → Values ts) (named : List (String × List Char)) :
    (∃ values, members.values? named = some values) ↔
      ∀ f ∈ members.fields get, ∃ value, f.Reads (written f.name named) value := by
  induction members with
  | nil => exact ⟨fun _ => nofun, fun _ => ⟨(), rfl⟩⟩
  | cons name read absent rest ih =>
    rw [fields, List.forall_mem_cons, ← ih, values?]
    simp only [← fieldValue_eq_some_iff]
    constructor
    · rintro ⟨values, h⟩
      obtain ⟨value, hvalue, hrest⟩ := Option.bind_eq_some_iff.mp h
      obtain ⟨others, hothers, -⟩ := Option.map_eq_some_iff.mp hrest
      exact ⟨⟨value, hvalue⟩, others, hothers⟩
    · rintro ⟨⟨value, hvalue⟩, others, hothers⟩
      exact ⟨(value, others), by rw [hvalue, hothers]; rfl⟩

theorem reads_of_values? (members : Members ts) (get : ρ → Values ts) {named : List (String × List Char)} {a : ρ}
    (h : members.values? named = some (get a)) :
    ∀ f ∈ members.fields get, f.Reads (written f.name named) (f.get a) := by
  induction members with
  | nil => exact nofun
  | cons name read absent rest ih =>
    rw [values?] at h
    obtain ⟨value, hvalue, hrest⟩ := Option.bind_eq_some_iff.mp h
    obtain ⟨others, hothers, hget⟩ := Option.map_eq_some_iff.mp hrest
    refine List.forall_mem_cons.mpr ⟨?_, ih (fun a => (get a).2) ?_⟩
    · rw [← fieldValue_eq_some_iff]
      simp only [← hget]
      exact hvalue
    · simp only [← hget]
      exact hothers

end Members

theorem fieldValue_of_twice {α : Type} (read : Reader α) (absent : Option α) {texts : List (List Char)}
    (h : 2 ≤ texts.length) :
    Members.fieldValue read absent texts = none := by
  match texts with
  | _ :: _ :: _ => rfl

theorem length_written {entries : List Entry} {named : List (String × List Char)}
    (h : entries.mapM Entry.named? = some named) (name : String) :
    (written name named).length = entries.countP fun entry => entry.name? = some name := by
  induction entries generalizing named with
  | nil =>
    cases h
    rfl
  | cons entry entries ih =>
    rw [List.mapM_cons, Option.bind_eq_bind, Option.bind_eq_some_iff] at h
    obtain ⟨⟨own, v⟩, hentry, hrest⟩ := h
    obtain ⟨others, hothers, hnamed⟩ := Option.bind_eq_some_iff.mp hrest
    obtain rfl : (own, v) :: others = named := Option.some.inj hnamed
    have hown : entry.name? = some own := by
      obtain ⟨_, hname, heq⟩ := Option.map_eq_some_iff.mp hentry
      rw [hname, (Prod.mk.inj heq).1]
    rw [List.countP_cons, ← ih hothers, hown]
    by_cases heq : own = name <;> simp [written, heq]

theorem Members.written_perm {ρ : Type} {ts : List Type} (members : Members ts) (get : ρ → Values ts)
    {named named' : List (String × List Char)}
    (hperm : (declared (members.fields get) named).Perm (declared (members.fields get) named')) :
    ∀ name ∈ members.names, (written name named).Perm (written name named') := by
  intro name hname
  have hmem : decide (name ∈ (members.fields get).map DeclaredField.name) = true := by
    rw [members.map_name_fields]
    exact decide_eq_true hname
  rw [← written_filter (p := fun name => name ∈ (members.fields get).map DeclaredField.name) hmem named,
    ← written_filter (p := fun name => name ∈ (members.fields get).map DeclaredField.name) hmem named']
  exact (hperm.filter _).map Prod.snd

section
variable {ρ : Type} {ts : List Type} {members : Members ts} {make : Values ts → ρ}

theorem toOption_readAll_record (h : members.TakeValues) (hnodup : members.names.Nodup) (o : ObjectText) :
    (readAll (record members make) o.text).toOption = (o.named?.bind members.values?).map make :=
  (gives_record_object h hnodup o.inner o.values).padded o.before o.after

theorem readAll_record_iff (h : members.TakeValues) (hnodup : members.names.Nodup) (o : ObjectText) (a : ρ) :
    readAll (record members make) o.text = .ok a ↔
      ∃ named values, o.named? = some named ∧ members.values? named = some values ∧ make values = a := by
  rw [← result_eq_some_iff, result, toOption_readAll_record h hnodup, Option.map_eq_some_iff]
  simp only [Option.bind_eq_some_iff]
  constructor
  · rintro ⟨values, ⟨named, hnamed, hvalues⟩, rfl⟩
    exact ⟨named, values, hnamed, hvalues, rfl⟩
  · rintro ⟨named, values, hnamed, hvalues, rfl⟩
    exact ⟨values, ⟨named, hnamed, hvalues⟩, rfl⟩

theorem readsStrictly_record (h : members.TakeValues) (hnodup : members.names.Nodup) (get : ρ → Values ts)
    (hget : ∀ values, get (make values) = values) :
    ReadsStrictly (record members make) (members.fields get) := by
  have haccepted (o : ObjectText) (a : ρ) : readAll (record members make) o.text = .ok a ↔
      ∃ named values, o.named? = some named ∧ members.values? named = some values ∧ make values = a :=
    readAll_record_iff h hnodup o a
  constructor
  case accepted_iff =>
    intro o
    simp only [haccepted, ← members.exists_values?_iff get]
    constructor
    · rintro ⟨a, named, values, hnamed, hvalues, -⟩
      exact ⟨named, hnamed, values, hvalues⟩
    · rintro ⟨named, hnamed, values, hvalues⟩
      exact ⟨make values, named, values, hnamed, hvalues, rfl⟩
  case decoded =>
    intro o named a hnamed ha
    obtain ⟨named', values, hnamed', hvalues, rfl⟩ := (haccepted o a).mp ha
    obtain rfl := Option.some.inj (hnamed.symm.trans hnamed')
    exact members.reads_of_values? get (by rw [hvalues, hget])
  case unchanged =>
    intro o o' named named' hnamed hnamed' hperm
    rw [toOption_readAll_record h hnodup, toOption_readAll_record h hnodup, hnamed, hnamed', Option.bind_some,
      Option.bind_some, members.values?_perm (members.written_perm get hperm)]
  case repeated =>
    intro o f hf hcount a ha
    obtain ⟨named, values, hnamed, hvalues, -⟩ := (haccepted o a).mp ha
    obtain ⟨value, hvalue⟩ := (members.exists_values?_iff get named).mp ⟨values, hvalues⟩ f hf
    rw [← Members.fieldValue_eq_some_iff, fieldValue_of_twice] at hvalue
    · cases hvalue
    · rw [length_written hnamed]
      exact hcount

end

end SyntheticRows.Json

namespace SyntheticRows
open Json

/-! ### Declared fields -/

namespace Options

/-- Only the seed may be absent. -/
def declaredFields : List (DeclaredField Options) :=
  [⟨"seed", optional uint64, some none, seed⟩,
    ⟨"upper_bound", uint64, none, upperBound⟩,
    ⟨"step", uint64, none, step⟩,
    ⟨"passes", array label, none, passes⟩,
    ⟨"output", Framing.fromJson, none, framing⟩]

theorem readsStrictly : ReadsStrictly fromJson declaredFields :=
  readsStrictly_record members_takeValues (by decide)
    (fun o : Options => (o.seed, o.upperBound, o.step, o.passes, o.framing, ())) fun _ => rfl

end Options

namespace Reading

def declaredFields : List (DeclaredField Reading) :=
  [⟨"value", int64, none, value⟩,
    ⟨"timestamp_offset_minutes", uint64, none, minutes⟩]

theorem readsStrictly : ReadsStrictly fromJson declaredFields :=
  readsStrictly_record members_takeValues (by decide) (fun r : Reading => (r.value, r.minutes, ())) fun _ => rfl

end Reading

namespace Position

def declaredFields : List (DeclaredField Position) :=
  [⟨"account", label, none, account⟩,
    ⟨"position_type", label, none, direction⟩,
    ⟨"status", label, none, stage⟩,
    ⟨"order_type", label, none, pricing⟩,
    ⟨"entry_price", real64, none, entryPrice⟩,
    ⟨"execution_price", real64, none, executionPrice⟩,
    ⟨"position_size", int64, none, size⟩,
    ⟨"leverage", int64, none, leverage⟩,
    ⟨"initial_margin", int64, none, initialMargin⟩,
    ⟨"available_margin", int64, none, availableMargin⟩,
    ⟨"timestamp_offset_minutes", uint64, none, minutes⟩,
    ⟨"bankruptcy_price", real64, none, bankruptcyPrice⟩,
    ⟨"bankruptcy_value", real64, none, bankruptcyValue⟩,
    ⟨"maintenance_margin", real64, none, maintenanceMargin⟩,
    ⟨"liquidation_price", real64, none, liquidationPrice⟩,
    ⟨"unrealized_pnl", real64, none, unrealizedProfit⟩,
    ⟨"settlement_price", real64, none, settlementPrice⟩,
    ⟨"entry_nonce", int64, none, entryNonce⟩,
    ⟨"exit_nonce", int64, none, exitNonce⟩,
    ⟨"entry_sequence", int64, none, entrySequence⟩]

/-- The values of a position, in the order of its members. -/
def values (p : Position) : Values
    [Account, Direction, OrderStage, OrderPricing, Binary64, Binary64, Int64, Int64, Int64, Int64, UInt64,
      Binary64, Binary64, Binary64, Binary64, Binary64, Binary64, Int64, Int64, Int64] :=
  (p.account, p.direction, p.stage, p.pricing, p.entryPrice, p.executionPrice, p.size, p.leverage, p.initialMargin,
    p.availableMargin, p.minutes, p.bankruptcyPrice, p.bankruptcyValue, p.maintenanceMargin, p.liquidationPrice,
    p.unrealizedProfit, p.settlementPrice, p.entryNonce, p.exitNonce, p.entrySequence, ())

theorem readsStrictly : ReadsStrictly fromJson declaredFields :=
  readsStrictly_record members_takeValues (by decide) values fun _ => rfl

end Position

namespace PassReport

def declaredFields : List (DeclaredField PassReport) :=
  [⟨"pass", label, none, pass⟩,
    ⟨"rows", uint64, none, rows⟩,
    ⟨"bytes_written", uint64, none, bytesWritten⟩,
    ⟨"duration_ms", uint64, none, milliseconds⟩]

theorem readsStrictly : ReadsStrictly fromJson declaredFields :=
  readsStrictly_record members_takeValues (by decide)
    (fun r : PassReport => (r.pass, r.rows, r.bytesWritten, r.milliseconds, ())) fun _ => rfl

end PassReport

namespace Report

def declaredFields : List (DeclaredField Report) :=
  [⟨"run_id", string, none, runId⟩,
    ⟨"seed", uint64, none, seed⟩,
    ⟨"started_at", Instant.fromJson, none, startedAt⟩,
    ⟨"passes", array PassReport.fromJson, none, passes⟩,
    ⟨"duration_ms", uint64, none, milliseconds⟩]

theorem readsStrictly : ReadsStrictly fromJson declaredFields :=
  readsStrictly_record members_takeValues (by decide)
    (fun r : Report => (r.runId, r.seed, r.startedAt, r.passes, r.milliseconds, ())) fun _ => rfl

end Report

/-- Options, readings, positions and the reports of passes and runs are read strictly in their declared fields. -/
theorem records_read_strictly :
    ReadsStrictly Options.fromJson Options.declaredFields ∧
    ReadsStrictly Reading.fromJson Reading.declaredFields ∧
    ReadsStrictly Position.fromJson Position.declaredFields ∧
    ReadsStrictly PassReport.fromJson PassReport.declaredFields ∧
    ReadsStrictly Report.fromJson Report.declaredFields :=
  ⟨Options.readsStrictly, Reading.readsStrictly, Position.readsStrictly, PassReport.readsStrictly, Report.readsStrictly⟩

/-- A number of one digit. -/
def oneDigit (c : Char) (h : c.isDigit) : NumberText where
  negative := false
  first := c
  whole := []
  fraction := []
  exponent := none
  first_isDigit := h
  whole_isDigit := List.forall_mem_nil _
  whole_eq _ := rfl
  fraction_isDigit := List.forall_mem_nil _

/-- A reading with a member more, whose name is an escaped surrogate that stands alone. -/
def unpairedName : ObjectText where
  before := Blanks.none
  inner := Blanks.none
  entries :=
    let entry (name : List Piece) (value : NumberText) : Entry :=
      ⟨Blanks.none, name, Blanks.none, ⟨Blanks.none, value.text, Blanks.none⟩⟩
    [entry ("value".toList.pmap Piece.plain (by simp)) (oneDigit '1' rfl),
      entry ("timestamp_offset_minutes".toList.pmap Piece.plain (by simp)) (oneDigit '2' rfl),
      entry [.code 'd' '8' '0' '0' 0xD800 rfl] (oneDigit '0' rfl)]
  after := Blanks.none
  values := by
    simp only [List.forall_mem_cons]
    exact ⟨IsValue.number _, IsValue.number _, IsValue.number _, nofun⟩

/-- Not every object in which each declared field stands once and decodes is accepted: it is refused if the name of any
    other member stands for no text. -/
theorem reading_refused_for_unpaired_name :
    unpairedName.text = "\x7b\"value\":1,\"timestamp_offset_minutes\":2,\"\\ud800\":0\x7d".toList ∧
      (∀ f ∈ Reading.declaredFields, ∃ v value,
        (unpairedName.entries.filter (·.name? = some f.name)).map (·.value.core) = [v] ∧ readAll f.read v = .ok value) ∧
      ∀ r, readAll Reading.fromJson unpairedName.text ≠ .ok r := by
  refine ⟨by decide, ?_, fun r hr => ?_⟩
  · simp only [Reading.declaredFields, List.forall_mem_cons]
    exact ⟨⟨['1'], (1 : Int64), by decide, by decide⟩, ⟨['2'], (2 : UInt64), by decide, by decide⟩, nofun⟩
  · obtain ⟨named, hnamed, -⟩ := (Reading.readsStrictly.accepted_iff unpairedName).mp ⟨r, hr⟩
    have hnone : unpairedName.named? = none := by decide
    rw [hnone] at hnamed
    cases hnamed

end SyntheticRows
