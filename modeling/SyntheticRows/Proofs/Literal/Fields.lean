import Mathlib
import SyntheticRows.Literal
import SyntheticRows.Proofs.Text

/-!
Tuples taken apart. A reader that counts parentheses and watches for quotes finds the commas between the
values of a tuple; it finds just these if each value is whole, that is if it closes what it opens and shows no
comma in between (`Whole`).
-/

namespace SyntheticRows.Literal

/-! ### Scanning -/

/-- Where a reader of a tuple is: inside of quotes or not, and inside of how many parentheses. -/
structure Scan where
  quoted : Bool := false
  depth : Nat := 0
deriving DecidableEq, Repr

namespace Scan

def top : Scan := {}

/-- Reads a character. A parenthesis that closes nothing is refused, unless it stands inside of quotes. -/
def step? (s : Scan) (c : Char) : Option Scan :=
  if c = '\'' then some { s with quoted := !s.quoted }
  else if s.quoted then some s
  else if c = '(' then some { s with depth := s.depth + 1 }
  else if c = ')' then if s.depth = 0 then none else some { s with depth := s.depth - 1 }
  else some s

/-- Reads a text that has to show no comma at the top. -/
def run? (s : Scan) (text : List Char) : Option Scan :=
  text.foldlM (fun s c => if c = ',' ∧ s = top then none else s.step? c) s

theorem run?_append {s t : Scan} {text : List Char} (h : s.run? text = some t) (more : List Char) :
    s.run? (text ++ more) = t.run? more := by
  rw [run?, List.foldlM_append]
  exact congrArg (· >>= fun s => s.run? more) h

theorem run?_cons (s : Scan) (c : Char) (text : List Char) :
    s.run? (c :: text) = if c = ',' ∧ s = top then none else (s.step? c).bind (·.run? text) := by
  rw [run?, List.foldlM_cons]
  split <;> rfl

def isQuiet (c : Char) : Bool :=
  c ∉ ['\'', '(', ')', ',']

theorem run?_quiet (s : Scan) {text : List Char} (h : ∀ c ∈ text, isQuiet c) : s.run? text = some s := by
  induction text with
  | nil => rfl
  | cons c text ih =>
    obtain ⟨hc, htext⟩ := List.forall_mem_cons.mp h
    have hne : c ≠ '\'' ∧ c ≠ '(' ∧ c ≠ ')' ∧ c ≠ ',' := by simpa [isQuiet] using hc
    obtain ⟨hquote, hopen, hclose, hcomma⟩ := hne
    have hstep : s.step? c = some s := by simp [step?, hquote, hopen, hclose]
    rw [run?_cons, if_neg fun h => hcomma h.1, hstep]
    exact ih htext

theorem run?_doubled (depth : Nat) (text : List Char) :
    run? ⟨true, depth⟩ (text.flatMap fun c => if c = '\'' then ['\'', '\''] else [c]) = some ⟨true, depth⟩ := by
  induction text with
  | nil => rfl
  | cons c text ih =>
    rw [List.flatMap_cons]
    refine (run?_append ?_ _).trans ih
    split
    · -- Between the two quotes the reader is outside for a moment, but reads no comma there.
      rfl
    · rename_i hc
      simp [run?_cons, top, step?, hc]
      rfl

end Scan

/-! ### Whole texts -/

/-- A text that closes what it opens, and shows no comma at the top. -/
def Whole (text : List Char) : Prop :=
  Scan.top.run? text = some Scan.top

instance (text : List Char) : Decidable (Whole text) :=
  inferInstanceAs (Decidable (_ = _))

theorem Whole.append {s t : List Char} (hs : Whole s) (ht : Whole t) : Whole (s ++ t) :=
  (Scan.run?_append hs t).trans ht

theorem whole_of_quiet {text : List Char} (h : ∀ c ∈ text, Scan.isQuiet c) : Whole text :=
  Scan.run?_quiet _ h

theorem whole_quoted (text : List Char) : Whole (quoted text) := by
  have hopen : Scan.top.run? ['\''] = some ⟨true, 0⟩ := rfl
  exact (Scan.run?_append hopen _).trans (Scan.run?_append (Scan.run?_doubled 0 text) _)

/-! ### Splitting -/

/-- Splits a text at the commas at the top. Whatever is opened has to be closed at the end. -/
def Scan.split? (s : Scan) : List Char → Option (List (List Char))
  | [] => if s = top then some [[]] else none
  | c :: rest =>
    if c = ',' ∧ s = top then (s.split? rest).map ([] :: ·)
    else (s.step? c).bind fun t => (t.split? rest).map (List.modifyHead (c :: ·))

def dropSpace? : List Char → Option (List Char)
  | ' ' :: rest => some rest
  | _ => none

/-- The texts of the values of a tuple. -/
def fields? : List Char → Option (List (List Char))
  | '(' :: rest =>
    if rest.getLast? = some ')' then
      match Scan.top.split? rest.dropLast with
      | some (first :: later) => (later.mapM dropSpace?).map (first :: ·)
      | _ => none
    else none
  | _ => none

theorem Scan.split?_append {s t : Scan} {text : List Char} (h : s.run? text = some t) (rest : List Char) :
    s.split? (text ++ rest) = (t.split? rest).map (List.modifyHead (text ++ ·)) := by
  induction text generalizing s with
  | nil =>
    obtain rfl : s = t := Option.some.inj h
    have hid : List.modifyHead (fun text : List Char => [] ++ text) = id := by
      funext parts
      cases parts <;> rfl
    rw [hid, Option.map_id]
    rfl
  | cons c text ih =>
    rw [run?_cons] at h
    split at h
    · cases h
    · rename_i hcomma
      obtain ⟨u, hstep, hrun⟩ := Option.bind_eq_some_iff.mp h
      rw [List.cons_append, split?, if_neg hcomma, hstep, Option.bind_some, ih hrun, Option.map_map]
      congr 1
      funext parts
      cases parts <;> rfl

/-- The parts that splitting finds, of which only the first may begin within a string or between brackets. -/
theorem Scan.exists_of_split? {s : Scan} {text : List Char} {parts : List (List Char)} (h : s.split? text = some parts) :
    ∃ first rest, parts = first :: rest ∧ s.run? first = some top ∧ (∀ part ∈ rest, Whole part) ∧
      text = [','].intercalate parts := by
  induction text generalizing s parts with
  | nil =>
    rw [split?] at h
    split at h
    · rename_i hs
      cases h
      exact ⟨[], [], rfl, by rw [hs]; rfl, by simp, rfl⟩
    · cases h
  | cons c text ih =>
    rw [split?] at h
    split at h
    · rename_i hc
      obtain ⟨rfl, rfl⟩ := hc
      obtain ⟨later, hlater, rfl⟩ := Option.map_eq_some_iff.mp h
      obtain ⟨first, rest, rfl, hfirst, hrest, rfl⟩ := ih hlater
      refine ⟨[], first :: rest, rfl, rfl, List.forall_mem_cons.mpr ⟨hfirst, hrest⟩, ?_⟩
      rw [List.intercalate_cons_cons]
      rfl
    · rename_i hc
      obtain ⟨t, hstep, h⟩ := Option.bind_eq_some_iff.mp h
      obtain ⟨later, hlater, rfl⟩ := Option.map_eq_some_iff.mp h
      obtain ⟨first, rest, rfl, hfirst, hrest, rfl⟩ := ih hlater
      refine ⟨c :: first, rest, rfl, ?_, hrest, ?_⟩
      · rw [run?_cons, if_neg hc, hstep]
        exact hfirst
      · cases rest <;> simp

theorem Scan.split?_joined {s : Scan} {first : List Char} {rest : List (List Char)} (hfirst : s.run? first = some top)
    (hrest : ∀ part ∈ rest, Whole part) : s.split? ([','].intercalate (first :: rest)) = some (first :: rest) := by
  induction rest generalizing s first with
  | nil =>
    rw [List.intercalate_singleton, ← List.append_nil first, split?_append hfirst]
    rfl
  | cons second rest ih =>
    obtain ⟨hsecond, hrest⟩ := List.forall_mem_cons.mp hrest
    rw [List.intercalate_cons_cons, List.append_assoc, split?_append hfirst, List.cons_append, split?,
      if_pos ⟨rfl, rfl⟩, List.nil_append, ih hsecond hrest]
    simp

/-- Splitting finds just the whole texts that commas join. A reader that is not at the top has a part behind it
    already, so the first text only has to bring it there. -/
theorem Scan.split?_eq_some_iff {s : Scan} {text : List Char} {parts : List (List Char)} :
    s.split? text = some parts ↔ ∃ first rest, parts = first :: rest ∧ s.run? first = some top ∧
      (∀ part ∈ rest, Whole part) ∧ text = [','].intercalate parts := by
  refine ⟨exists_of_split?, ?_⟩
  rintro ⟨first, rest, rfl, hfirst, hrest, rfl⟩
  exact split?_joined hfirst hrest

/-- Whole texts that are joined by commas and spaces are found again, each but the first behind its space. -/
theorem Scan.split?_intercalate (first : List Char) (rest : List (List Char))
    (h : ∀ text ∈ first :: rest, Whole text) :
    top.split? ([',', ' '].intercalate (first :: rest)) = some (first :: rest.map (' ' :: ·)) := by
  obtain ⟨hfirst, hrest⟩ := List.forall_mem_cons.mp h
  have hspace : Whole [' '] := rfl
  have hparts : ∀ part ∈ rest.map (' ' :: ·), Whole part :=
    List.forall_mem_map.mpr fun text htext => hspace.append (hrest text htext)
  refine split?_eq_some_iff.mpr ⟨first, _, rfl, hfirst, hparts, ?_⟩
  -- The space of a separator counts as the beginning of the part behind it.
  rw [intercalate_cons, intercalate_cons, List.flatMap_map]
  rfl

theorem mapM_dropSpace? (texts : List (List Char)) : (texts.map (' ' :: ·)).mapM dropSpace? = some texts := by
  induction texts with
  | nil => rfl
  | cons text texts ih =>
    rw [List.map_cons, List.mapM_cons, ih, dropSpace?]
    rfl

theorem exists_eq_of_fields? {text : List Char} {texts : List (List Char)} (h : fields? text = some texts) :
    ∃ body, text = '(' :: body ++ [')'] := by
  unfold fields? at h
  split at h
  · rename_i rest
    split at h
    · rename_i hclose
      exact ⟨rest.dropLast, by rw [List.cons_append, List.dropLast_append_getLast? _ hclose]⟩
    · cases h
  · cases h

theorem fields?_intercalate {texts : List (List Char)} (hne : texts ≠ []) (h : ∀ text ∈ texts, Whole text) :
    fields? ('(' :: [',', ' '].intercalate texts ++ [')']) = some texts := by
  obtain ⟨first, rest, rfl⟩ := List.exists_cons_of_ne_nil hne
  rw [List.cons_append, fields?, List.getLast?_concat, if_pos rfl, List.dropLast_concat, Scan.split?_intercalate _ _ h]
  exact congrArg (Option.map (first :: ·)) (mapM_dropSpace? _)

theorem fields?_tuple {values : List Literal} (hne : values ≠ []) (h : ∀ value ∈ values, Whole value.render) :
    fields? (tuple values) = some (values.map render) :=
  fields?_intercalate (fun hnil => hne (List.map_eq_nil_iff.mp hnil)) (List.forall_mem_map.mpr h)

end SyntheticRows.Literal
