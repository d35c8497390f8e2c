import Mathlib
import SyntheticRows.Proofs.Json.Reading
import SyntheticRows.Proofs.Json.Skipping

/-!
Reading records and choices. What a record reads from an object is decided member by member: from the texts that
stand in the object under the name of the member (`Members.values?`), in whatever order and between whatever other
names. What it reads from a list is decided item by item (`Members.ofTexts?`).
-/

namespace SyntheticRows.Json

/-! ### Choices -/

section
variable {α : Type} {names : List String} {alone : String → Option α} {content : String → Reader α}

theorem refuses_choice {c : Char} (hblank : isBlank c = false) (hquote : c ≠ '"') (hobject : c ≠ '\x7b') :
    Refuses (choice names alone content) c := by
  intro b s
  rw [choice, skipBlanks_to b hblank]
  split
  · exact absurd (List.cons.inj ‹_›).1 hquote
  · exact absurd (List.cons.inj ‹_›).1 hobject
  · rfl

/-- A name that stands alone. -/
theorem gives_choice_alone (pieces : List Piece) : Gives (choice names alone content) (literal pieces)
    (((Piece.meaning? pieces).map String.ofList).bind fun name => if name ∈ names then alone name else none) := by
  intro b t _
  have hstring := string_literal b pieces t
  rw [choice, literal, List.cons_append, skipBlanks_to b (by decide)]
  rw [literal, List.cons_append] at hstring
  simp only
  rw [toOption_bind, hstring]
  cases Piece.meaning? pieces with
  | none => rfl
  | some chars =>
    simp only [Option.map_some, Option.bind_some]
    by_cases hmem : String.ofList chars ∈ names
    · simp only [hmem, not_true_eq_false, if_false, if_true]
      cases alone (String.ofList chars) <;> rfl
    · simp only [hmem, not_false_eq_true, if_false, if_true]
      rfl

/-- The text of an object, from its first member to what follows the member. -/
theorem objectText_cons (inner : Blanks) (entry : Entry) (entries : List Entry) (t : List Char) :
    ∃ c s, (c = ',' ∨ c = '\x7d') ∧ objectText inner (entry :: entries) ++ t = '\x7b' :: (entry.text ++ c :: s) ∧
      (entries = [] → c = '\x7d' ∧ s = t) ∧ (entries ≠ [] → c = ',') := by
  cases entries with
  | nil =>
    refine ⟨'\x7d', t, Or.inr rfl, ?_, fun _ => ⟨rfl, rfl⟩, fun h => absurd rfl h⟩
    simp [objectText, enclose]
  | cons next entries =>
    refine ⟨',', [','].intercalate ((next :: entries).map Entry.text) ++ '\x7d' :: t, Or.inl rfl, ?_,
      fun h => absurd h (List.cons_ne_nil _ _), fun _ => rfl⟩
    simp [objectText, enclose, List.intercalate_cons_cons]

theorem gives_choice_empty (inner : Blanks) : Gives (choice names alone content) (objectText inner []) none := by
  intro b t _
  have htext : objectText inner [] ++ t = '\x7b' :: (inner.chars ++ '\x7d' :: t) := by simp [objectText, enclose]
  rw [htext, choice, skipBlanks_to b (by decide)]
  simp only
  rw [toOption_bind, refuses_string (by decide) (by decide) inner t]
  rfl

/-- A name with content. -/
theorem gives_choice_content (hcontent : ∀ name, TakesValues (content name)) (inner : Blanks) {entry : Entry}
    (hv : IsValue entry.value.core) (entries : List Entry) :
    Gives (choice names alone content) (objectText inner (entry :: entries)) (entry.name?.bind fun name =>
      if name ∈ names ∧ entries = [] then result (content name) entry.value.core else none) := by
  intro b t _
  obtain ⟨c, s, hc, htext, hlast, hmore⟩ := objectText_cons inner entry entries t
  have hentry : entry.text ++ c :: s = entry.beforeName.chars ++ (literal entry.name ++ (entry.afterName.chars ++
      ':' :: (entry.value.before.chars ++ (entry.value.core ++ (entry.value.after.chars ++ c :: s))))) := by
    simp [Entry.text, Padded.text]
  have hends : Ends (c :: s) := ends_mark (hc.imp_right Or.inr) s
  rw [htext, hentry, choice, skipBlanks_to b (by decide), Entry.name?]
  simp only
  rw [toOption_bind, string_literal]
  cases Piece.meaning? entry.name with
  | none => rfl
  | some chars =>
    have hread := (hcontent (String.ofList chars)).gives hv entry.value.before _
      (hends.blanks entry.value.after)
    simp only [Option.map_some, Option.bind_some]
    by_cases hmem : String.ofList chars ∈ names
    · simp only [hmem, not_true_eq_false, if_false, true_and]
      rw [expect_to _ (by decide)]
      change (content (String.ofList chars) _ >>= _).toOption = _
      rw [toOption_bind, hread]
      cases result (content (String.ofList chars)) entry.value.core with
      | none => split <;> rfl
      | some value =>
        simp only [Option.map_some, Option.bind_some]
        by_cases hone : entries = []
        · obtain ⟨rfl, rfl⟩ := hlast hone
          rw [expect_to _ (by decide), if_pos hone]
          rfl
        · obtain rfl := hmore hone
          rw [expect_ne _ (by decide) (by decide), if_neg hone]
          rfl
    · simp only [hmem, not_false_eq_true, if_true, false_and, if_false]
      rfl

theorem takesValues_choice (hcontent : ∀ name, TakesValues (content name)) :
    TakesValues (choice names alone content) where
  value hv := by
    cases hv with
    | string pieces => exact ⟨_, gives_choice_alone pieces⟩
    | object inner entries values =>
      cases entries with
      | nil => exact ⟨_, gives_choice_empty inner⟩
      | cons entry entries => exact ⟨_, gives_choice_content hcontent inner (values entry List.mem_cons_self) entries⟩
    | number n =>
      obtain ⟨c, r, htext, hblank, hne⟩ := n.exists_cons
      exact ⟨none, htext ▸ (refuses_choice hblank (hne _ (by decide) rfl) (hne _ (by decide) rfl)).gives r⟩
    | _ => exact ⟨_, (refuses_choice (by decide) (by decide) (by decide)).gives _⟩
  closing := refuses_choice (by decide) (by decide) (by decide)

end

/-! ### Members -/

namespace Members

def names : {ts : List Type} → Members ts → List String
  | _, nil => []
  | _, cons name _ _ rest => name :: rest.names

/-- Every member takes values. -/
def TakeValues : {ts : List Type} → Members ts → Prop
  | _, nil => True
  | _, cons _ read _ rest => TakesValues read ∧ rest.TakeValues

/-- What a member puts into its slot. A slot is filled once. -/
def put {α : Type} (read : Reader α) (slot : Option α) (v : List Char) : Option (Option α) :=
  if slot.isSome then Option.none else (result read v).map some

/-- The values of all members, each from the text in its place. -/
def ofTexts? : {ts : List Type} → Members ts → List (List Char) → Option (Values ts)
  | _, nil, [] => some ()
  | _, cons _ read _ rest, v :: vs =>
    (result read v).bind fun value => (rest.ofTexts? vs).map fun values => (value, values)
  | _, nil, _ :: _ => Option.none
  | _, cons _ _ _ _, [] => Option.none

/-- The slots behind an entry of an object: its text is read into the slot of its name, if there is one. -/
def place : {ts : List Type} → Members ts → Slots ts → String × List Char → Option (Slots ts)
  | _, nil, _, _ => some ()
  | _, cons own read _ rest, (slot, slots), (name, v) =>
    if own = name then (put read slot v).map fun slot => (slot, slots)
    else (rest.place slots (name, v)).map fun slots => (slot, slots)

theorem fill?_text {ts : List Type} {members : Members ts} (h : members.TakeValues) (slots : Slots ts) (name : String)
    (b : Blanks) {p : Padded} (hv : IsValue p.core) {c : Char} (hc : c = ',' ∨ c = '\x7d') (t : List Char) :
    match members.fill? slots name (b.chars ++ ':' :: (p.text ++ c :: t)) with
    | some filled => filled.toOption = (members.place slots (name, p.core)).map (·, p.after.chars ++ c :: t)
    | Option.none => members.place slots (name, p.core) = some slots := by
  induction members with
  | nil => rfl
  | cons own read absent rest ih =>
    obtain ⟨slot, slots⟩ := slots
    by_cases hname : own = name
    · have hends : Ends (c :: t) := ends_mark (hc.imp_right Or.inr) t
      have htext : p.text ++ c :: t = p.before.chars ++ (p.core ++ (p.after.chars ++ c :: t)) := by
        simp [Padded.text]
      have hread := h.1.gives hv p.before _ (hends.blanks p.after)
      rw [← htext] at hread
      simp only [fill?, place, put, if_pos hname]
      cases slot with
      | some value => rfl
      | none =>
        rw [expect_to b (by decide)]
        change ((read _) >>= fun given => pure ((some given.1, slots), given.2)).toOption = _
        rw [toOption_bind, hread]
        cases result read p.core <;> rfl
    · have hrest := ih h.2 slots
      simp only [fill?, place, if_neg hname]
      cases hfill : rest.fill? slots name (b.chars ++ ':' :: (p.text ++ c :: t)) with
      | none =>
        simp only [hfill] at hrest
        simp only [Option.map_none]
        rw [hrest]
        rfl
      | some filled =>
        simp only [hfill] at hrest
        simp only [Option.map_some]
        rw [toOption_bind, hrest]
        cases rest.place slots (name, p.core) <;> rfl

/-- The values of all members, each from the texts that stand under its name. -/
def fieldValue {α : Type} (read : Reader α) (absent : Option α) : List (List Char) → Option α
  | [] => absent
  | [v] => result read v
  | _ :: _ :: _ => Option.none

end Members

/-- The texts that stand under a name, in order. -/
def written (name : String) (named : List (String × List Char)) : List (List Char) :=
  (named.filter (·.1 = name)).map Prod.snd

/-- What stands under one name is not affected by what stands under others. -/
theorem written_filter {name : String} {p : String → Bool} (h : p name) (named : List (String × List Char)) :
    written name (named.filter fun entry => p entry.1) = written name named := by
  rw [written, written, List.filter_filter]
  congr 2
  funext entry
  by_cases hentry : entry.1 = name <;> simp [hentry, h]

namespace Members

def values? : {ts : List Type} → Members ts → List (String × List Char) → Option (Values ts)
  | _, nil, _ => some ()
  | _, cons name read absent rest, named =>
    (fieldValue read absent (written name named)).bind fun value =>
      (rest.values? named).map fun values => (value, values)

theorem fieldValue_perm {α : Type} (read : Reader α) (absent : Option α) {texts texts' : List (List Char)}
    (h : texts.Perm texts') : fieldValue read absent texts = fieldValue read absent texts' := by
  match texts, texts' with
  | [], _ => rw [List.nil_perm.mp h]
  | [v], _ => rw [List.singleton_perm.mp h]
  | v :: w :: vs, [] => exact absurd h.length_eq (by simp)
  | v :: w :: vs, [v'] => exact absurd h.length_eq (by simp)
  | _ :: _ :: _, _ :: _ :: _ => rfl

theorem values?_perm {ts : List Type} (members : Members ts) {named named' : List (String × List Char)}
    (h : ∀ name ∈ members.names, (written name named).Perm (written name named')) :
    members.values? named = members.values? named' := by
  induction members with
  | nil => rfl
  | cons name read absent rest ih =>
    obtain ⟨hname, hrest⟩ := List.forall_mem_cons.mp h
    rw [values?, values?, fieldValue_perm read absent hname, ih hrest]

/-- What one slot holds behind some texts. -/
theorem foldlM_put {α : Type} (read : Reader α) (absent : Option α) (vs : List (List Char)) :
    (vs.foldlM (put read) Option.none).bind (·.or absent) = fieldValue read absent vs := by
  match vs with
  | [] => rfl
  | [v] =>
    rw [List.foldlM_cons, put, if_neg (by simp)]
    cases h : result read v <;> simp [fieldValue, h]
  | v :: w :: vs =>
    rw [List.foldlM_cons, put, if_neg (by simp)]
    cases h : result read v <;> simp [fieldValue, put]

section
variable {α : Type} {ts : List Type} (own : String) (read : Reader α) (absent : Option α) (rest : Members ts)
  (slot : Option α) (slots : Slots ts)

theorem complete_cons : ((cons own read absent rest).complete (slot, slots)).toOption =
    (slot.or absent).bind fun value => (rest.complete slots).toOption.map fun values => (value, values) := by
  rw [complete]
  cases slot.or absent with
  | none => rfl
  | some value => cases rest.complete slots <;> rfl

/-- The slots fill independently of each other. -/
theorem foldlM_place_cons (named : List (String × List Char)) :
    named.foldlM (cons own read absent rest).place (slot, slots) =
      ((written own named).foldlM (put read) slot).bind fun slot =>
        ((named.filter (·.1 ≠ own)).foldlM rest.place slots).map fun slots => (slot, slots) := by
  induction named generalizing slot slots with
  | nil => rfl
  | cons entry named ih =>
    obtain ⟨name, v⟩ := entry
    by_cases hname : own = name
    · have hwritten : written own ((name, v) :: named) = v :: written own named := by simp [written, hname]
      have hothers : ((name, v) :: named).filter (·.1 ≠ own) = named.filter (·.1 ≠ own) := by simp [hname]
      have hplace : (cons own read absent rest).place (slot, slots) (name, v) =
          (put read slot v).map fun slot => (slot, slots) := if_pos hname
      change ((cons own read absent rest).place (slot, slots) (name, v) >>= fun slots =>
        named.foldlM (cons own read absent rest).place slots) = _
      rw [hwritten, hothers, hplace, List.foldlM_cons]
      cases put read slot v with
      | none => rfl
      | some slot => exact ih slot slots
    · have hwritten : written own ((name, v) :: named) = written own named := by simp [written, Ne.symm hname]
      have hothers : ((name, v) :: named).filter (·.1 ≠ own) = (name, v) :: named.filter (·.1 ≠ own) := by
        simp [Ne.symm hname]
      have hplace : (cons own read absent rest).place (slot, slots) (name, v) =
          (rest.place slots (name, v)).map fun slots => (slot, slots) := if_neg hname
      change ((cons own read absent rest).place (slot, slots) (name, v) >>= fun slots =>
        named.foldlM (cons own read absent rest).place slots) = _
      rw [hwritten, hothers, hplace, List.foldlM_cons]
      cases rest.place slots (name, v) with
      | none => cases (written own named).foldlM (put read) slot <;> rfl
      | some slots => exact ih slot slots

end

/-- What an object gives is decided by what stands under each name. -/
theorem foldlM_place {ts : List Type} {members : Members ts} (hnodup : members.names.Nodup)
    (named : List (String × List Char)) :
    (named.foldlM members.place members.none).bind (fun slots => (members.complete slots).toOption) =
      members.values? named := by
  induction members generalizing named with
  | nil =>
    induction named with
    | nil => rfl
    | cons entry named ih => exact ih
  | cons own read absent rest ih =>
    obtain ⟨hown, hrest⟩ := List.nodup_cons.mp hnodup
    have hothers : rest.values? (named.filter (·.1 ≠ own)) = rest.values? named := by
      refine rest.values?_perm fun name hname => List.Perm.of_eq ?_
      exact written_filter (p := (· ≠ own)) (decide_eq_true fun heq => hown (heq ▸ hname)) named
    rw [none, foldlM_place_cons, values?, ← foldlM_put read absent, ← hothers, ← ih hrest]
    cases (written own named).foldlM (put read) Option.none with
    | none => rfl
    | some slot =>
      cases (named.filter (·.1 ≠ own)).foldlM rest.place rest.none with
      | none =>
        cases h : slot.or absent with
        | none => simp only [Option.bind_some, h]; rfl
        | some value => simp only [Option.bind_some, h]; rfl
      | some slots => exact complete_cons own read absent rest slot slots

/-! ### Objects -/

theorem takesPart_entry {ts : List Type} {members : Members ts} (h : members.TakeValues) {entry : Entry}
    (hv : IsValue entry.value.core) : TakesPart members.entry '\x7d' entry.text fun slots =>
      entry.name?.bind fun name => members.place slots (name, entry.value.core) := by
  refine fun slots => ⟨entry.value.after, fun c t hc => ?_⟩
  have htext : entry.text ++ c :: t = entry.beforeName.chars ++ (literal entry.name ++ (entry.afterName.chars ++
      ':' :: (entry.value.text ++ c :: t))) := by simp [Entry.text]
  rw [Members.entry, htext, toOption_bind, string_literal, Entry.name?]
  cases Piece.meaning? entry.name with
  | none => rfl
  | some chars =>
    have hfill := fill?_text h slots (String.ofList chars) entry.afterName hv hc t
    simp only [Option.map_some, Option.bind_some]
    cases hfilled : members.fill? slots (String.ofList chars)
      (entry.afterName.chars ++ ':' :: (entry.value.text ++ c :: t)) with
    | some filled =>
      rw [hfilled] at hfill
      exact hfill
    | none =>
      rw [hfilled] at hfill
      simp only [hfill]
      have hends : Ends (c :: t) := ends_mark (hc.imp_right Or.inr) t
      have hvalue : entry.value.text ++ c :: t =
          entry.value.before.chars ++ (entry.value.core ++ (entry.value.after.chars ++ c :: t)) := by simp [Padded.text]
      rw [expect_to _ (by decide), hvalue]
      change (skipValue _ >>= fun s => pure (slots, s)).toOption = _
      rw [skipValue_of_isValue hv _ (hends.blanks entry.value.after)]
      rfl

end Members

/-- The text of the value of an entry, under the name for which the entry stands. -/
def Entry.named? (entry : Entry) : Option (String × List Char) :=
  entry.name?.map fun name => (name, entry.value.core)

theorem foldlM_entries {σ : Type} (place : σ → String × List Char → Option σ) (entries : List Entry) (start : σ) :
    entries.foldlM (fun acc entry => entry.name?.bind fun name => place acc (name, entry.value.core)) start =
      (entries.mapM Entry.named?).bind fun named => named.foldlM place start := by
  induction entries generalizing start with
  | nil => rfl
  | cons entry entries ih =>
    rw [List.foldlM_cons, List.mapM_cons, Entry.named?]
    cases entry.name? with
    | none => rfl
    | some name =>
      simp only [Option.bind_some, Option.map_some]
      cases hplace : place start (name, entry.value.core) with
      | none => cases entries.mapM Entry.named? <;> simp [hplace]
      | some acc =>
        simp only [Option.bind_eq_bind, Option.bind_some, ih]
        cases entries.mapM Entry.named? <;> simp [hplace]

section
variable {α : Type} {ts : List Type} {members : Members ts} {make : Values ts → α}

theorem first_entry (entry : Entry) (s : List Char) : ∃ c r, skipBlanks (entry.text ++ s) = c :: r ∧ c ≠ '\x7d' := by
  have htext : entry.text ++ s = entry.beforeName.chars ++ '"' ::
      (entry.name.flatMap Piece.text ++ '"' :: (entry.afterName.chars ++ ':' :: (entry.value.text ++ s))) := by
    simp [Entry.text, literal]
  exact ⟨'"', _, by rw [htext, skipBlanks_to _ (by decide)], by decide⟩

theorem gives_record_object (h : members.TakeValues) (hnodup : members.names.Nodup) (inner : Blanks)
    {entries : List Entry}
    (hv : ∀ entry ∈ entries, IsValue entry.value.core) : Gives (record members make) (objectText inner entries)
      (((entries.mapM Entry.named?).bind members.values?).map make) := by
  intro b t _
  have hread := enclosed_parts members.entry Entry.text
    (fun slots entry => entry.name?.bind fun name => members.place slots (name, entry.value.core)) (by decide)
    (by decide) inner (fun entry hentry => Members.takesPart_entry h (hv entry hentry))
    (fun entry _ => first_entry entry)
    members.none t
  rw [foldlM_entries] at hread
  rw [record, objectText, enclose, List.cons_append, List.append_assoc, List.singleton_append,
    skipBlanks_to b (by decide)]
  simp only
  rw [toOption_bind, hread]
  cases entries.mapM Entry.named? with
  | none => rfl
  | some named =>
    simp only [Option.bind_some]
    rw [← Members.foldlM_place hnodup]
    cases named.foldlM members.place members.none with
    | none => rfl
    | some slots =>
      simp only [Option.map_some, Option.bind_some]
      cases members.complete slots <;> rfl

/-! ### Lists of all values -/

/-- The items of a list behind its first one, each with the comma before it, and the bracket that closes the list. -/
def laterItems (items : List Padded) (t : List Char) : List Char :=
  items.flatMap (fun item => ',' :: item.text) ++ ']' :: t

theorem ends_laterItems (items : List Padded) (t : List Char) : Ends (laterItems items t) := by
  cases items with
  | nil => exact ends_mark (by decide) t
  | cons item items => exact ends_mark (by decide) _

theorem intercalate_items (item : Padded) (items : List Padded) (t : List Char) :
    [','].intercalate ((item :: items).map Padded.text) ++ ']' :: t = item.text ++ laterItems items t := by
  induction items generalizing item with
  | nil => simp [laterItems]
  | cons next items ih =>
    have hnext := ih next
    rw [List.map_cons] at hnext
    rw [List.map_cons, List.map_cons, List.intercalate_cons_cons, List.append_assoc, List.append_assoc, hnext]
    simp [laterItems]

/-- One item is read, and then the others. -/
theorem items_cons_text {β : Type} {ts : List Type} {read : Reader β} {rest : Members ts} (h : TakesValues read)
    {item : Padded} (hv : IsValue item.core) {items : List Padded} {t : List Char}
    (hrest : ∀ b : Blanks, (rest.items false (b.chars ++ laterItems items t)).toOption =
      (rest.ofTexts? (items.map Padded.core)).map (·, t)) (name : String) (absent : Option β) :
    (read (item.text ++ laterItems items t) >>= fun given =>
      rest.items false given.2 >>= fun others => pure ((given.1, others.1), others.2)).toOption =
      ((Members.cons name read absent rest).ofTexts? ((item :: items).map Padded.core)).map (·, t) := by
  have hread := h.gives hv item.before _ ((ends_laterItems items t).blanks item.after)
  have htext : item.text ++ laterItems items t =
      item.before.chars ++ (item.core ++ (item.after.chars ++ laterItems items t)) := by simp [Padded.text]
  rw [htext, toOption_bind, hread, List.map_cons, Members.ofTexts?]
  cases result read item.core with
  | none => rfl
  | some value =>
    simp only [Option.map_some, Option.bind_some]
    rw [toOption_bind, hrest item.after]
    cases rest.ofTexts? (items.map Padded.core) <;> rfl

theorem items_text (h : members.TakeValues) (b : Blanks) {items : List Padded} (hv : ∀ item ∈ items, IsValue item.core)
    (t : List Char) : (members.items false (b.chars ++ laterItems items t)).toOption =
      (members.ofTexts? (items.map Padded.core)).map (·, t) := by
  induction members generalizing b items with
  | nil =>
    cases items with
    | nil =>
      rw [laterItems, List.flatMap_nil, List.nil_append, Members.items, expect_to b (by decide)]
      rfl
    | cons item items =>
      rw [laterItems, List.flatMap_cons, List.cons_append, List.cons_append, Members.items,
        expect_ne b (by decide) (by decide)]
      rfl
  | cons name read absent rest ih =>
    cases items with
    | nil =>
      rw [laterItems, List.flatMap_nil, List.nil_append, Members.items]
      simp only [Bool.false_eq_true, if_false]
      rw [expect_ne b (by decide) (by decide)]
      rfl
    | cons item items =>
      obtain ⟨hitem, hitems⟩ := List.forall_mem_cons.mp hv
      have hlater : laterItems (item :: items) t = ',' :: (item.text ++ laterItems items t) := by simp [laterItems]
      rw [hlater, Members.items]
      simp only [Bool.false_eq_true, if_false]
      rw [expect_to b (by decide)]
      exact items_cons_text h.1 hitem (fun b => ih h.2 b hitems) name absent

theorem firstItems_text (h : members.TakeValues) (inner : Blanks) {items : List Padded}
    (hv : ∀ item ∈ items, IsValue item.core) (t : List Char) :
    (members.items true ((if items.map Padded.text = [] then inner.chars
      else [','].intercalate (items.map Padded.text)) ++ ']' :: t)).toOption =
        (members.ofTexts? (items.map Padded.core)).map (·, t) := by
  cases items with
  | nil =>
    rw [List.map_nil, if_pos rfl]
    cases members with
    | nil =>
      rw [Members.items, expect_to inner (by decide)]
      rfl
    | cons name read absent rest =>
      rw [Members.items]
      change (read (inner.chars ++ ']' :: t) >>= _).toOption = _
      rw [toOption_bind, h.1.closing inner t]
      rfl
  | cons item items =>
    obtain ⟨hitem, hitems⟩ := List.forall_mem_cons.mp hv
    rw [if_neg (by simp), intercalate_items]
    cases members with
    | nil =>
      obtain ⟨c, r, hskip, hne⟩ := first_padded hitem (laterItems items t)
      rw [Members.items, expect, hskip]
      simp only [if_neg hne.symm]
      rfl
    | cons name read absent rest =>
      rw [Members.items]
      exact items_cons_text h.1 hitem (fun b => items_text h.2 b hitems t) name absent

theorem gives_record_list (h : members.TakeValues) (inner : Blanks) {items : List Padded}
    (hv : ∀ item ∈ items, IsValue item.core) : Gives (record members make) (listText inner items)
      ((members.ofTexts? (items.map Padded.core)).map make) := by
  intro b t _
  rw [record, listText, enclose, List.cons_append, List.append_assoc, List.singleton_append,
    skipBlanks_to b (by decide)]
  simp only
  rw [toOption_bind, firstItems_text h inner hv]
  cases members.ofTexts? (items.map Padded.core) <;> rfl

theorem refuses_record {c : Char} (hblank : isBlank c = false) (hobject : c ≠ '\x7b') (hlist : c ≠ '[') :
    Refuses (record members make) c := by
  intro b s
  rw [record, skipBlanks_to b hblank]
  split
  · exact absurd (List.cons.inj ‹_›).1 hobject
  · exact absurd (List.cons.inj ‹_›).1 hlist
  · rfl

theorem takesValues_record (h : members.TakeValues) (hnodup : members.names.Nodup) :
    TakesValues (record members make) where
  value hv := by
    cases hv with
    | list inner items values => exact ⟨_, gives_record_list h inner values⟩
    | object inner entries values => exact ⟨_, gives_record_object h hnodup inner values⟩
    | number n =>
      obtain ⟨c, r, htext, hblank, hne⟩ := n.exists_cons
      exact ⟨none, htext ▸ (refuses_record hblank (hne _ (by decide) rfl) (hne _ (by decide) rfl)).gives r⟩
    | _ => exact ⟨_, (refuses_record (by decide) (by decide) (by decide)).gives _⟩
  closing := refuses_record (by decide) (by decide) (by decide)

end

end SyntheticRows.Json
