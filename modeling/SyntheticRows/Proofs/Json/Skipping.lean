import Mathlib
import SyntheticRows.Json.Skip
import SyntheticRows.Proofs.Json.Scalar

/-!
Skipping values. The walk over a value that keeps the open brackets ends just behind the value, whatever the value
holds and however deep it nests (`skipValue_of_isValue`).
-/

namespace SyntheticRows.Json

/-! ### Strings -/

theorem skipString_plain {c : Char} (h : c ≠ '"' ∧ c ≠ '\\' ∧ ¬c.toNat < 32) (s : List Char) :
    skipString (c :: s) = skipString s := by
  obtain ⟨hquote, hslash, hcontrol⟩ := h
  rw [skipString.eq_def]
  split <;> simp_all

theorem skipString_short {letter c : Char} (h : shortEscape? letter = some c) (s : List Char) :
    skipString ('\\' :: letter :: s) = skipString s := by
  have hne : letter ≠ 'u' := by
    rintro rfl
    cases h
  rw [skipString.eq_4 _ _ (fun _ _ _ _ _ heq => absurd heq hne), h]
  rfl

theorem skipString_code {h₁ h₂ h₃ h₄ : Char} {unit : Nat} (h : hex4? h₁ h₂ h₃ h₄ = some unit) (s : List Char) :
    skipString ('\\' :: 'u' :: h₁ :: h₂ :: h₃ :: h₄ :: s) = skipString s := by
  rw [skipString.eq_3, h]
  rfl

theorem skipString_pieces (pieces : List Piece) (t : List Char) :
    skipString (pieces.flatMap Piece.text ++ '"' :: t) = .ok t := by
  induction pieces with
  | nil => rfl
  | cons piece pieces ih =>
    rw [List.flatMap_cons, List.append_assoc]
    cases piece with
    | plain c allowed => exact (skipString_plain allowed _).trans ih
    | short letter c stands => exact (skipString_short stands _).trans ih
    | code h₁ h₂ h₃ h₄ unit stands => exact (skipString_code stands _).trans ih

/-! ### Numbers -/

theorem skipDigits_append (ds : List Char) {t : List Char} (hne : ds ≠ []) (hds : ∀ c ∈ ds, c.isDigit)
    (ht : NoDigit t) :
    skipDigits (ds ++ t) = .ok t := by
  obtain ⟨c, rest, rfl⟩ := List.exists_cons_of_ne_nil hne
  obtain ⟨hc, hrest⟩ := List.forall_mem_cons.mp hds
  rw [List.cons_append, skipDigits]
  rw [if_pos hc, dropWhile_isDigit hrest ht]

theorem skipExponent_text (e : Exponent) {t : List Char} (ht : NoDigit t) :
    skipExponent (e.sign ++ (e.digits ++ t)) = .ok t := by
  have hdigits := skipDigits_append e.digits e.digits_ne e.isDigit ht
  rcases e.sign_mem with h | h | h
  · obtain ⟨c, ds, hds⟩ := List.exists_cons_of_ne_nil e.digits_ne
    have hc : c.isDigit := e.isDigit c (hds ▸ List.mem_cons_self)
    rw [hds, List.cons_append] at hdigits
    rw [h, hds, List.nil_append, List.cons_append, skipExponent.eq_3]
    · exact hdigits
    · rintro rest heq
      exact absurd (List.cons.inj heq).1 (ne_of_isDigit hc rfl)
    · rintro rest heq
      exact absurd (List.cons.inj heq).1 (ne_of_isDigit hc rfl)
  · rw [h]
    exact hdigits
  · rw [h]
    exact hdigits

/-- Skips what follows the digits before the point. -/
def skipTail (s : List Char) : Except Fault (List Char) :=
  match s with
  | '.' :: rest => do
    match ← skipDigits rest with
    | 'e' :: rest | 'E' :: rest => skipExponent rest
    | rest => .ok rest
  | 'e' :: rest | 'E' :: rest => skipExponent rest
  | rest => .ok rest

/-- Skips what follows the digits behind the point. -/
def skipMark : List Char → Except Fault (List Char)
  | 'e' :: rest | 'E' :: rest => skipExponent rest
  | rest => .ok rest

section
variable {n : NumberText} {t : List Char}

theorem skipMark_exponentText (ht : Ends t) : skipMark (n.exponentText ++ t) = .ok t := by
  rw [NumberText.exponentText]
  cases n.exponent with
  | none =>
    rw [Option.elim_none, List.nil_append, skipMark.eq_def]
    split
    · exact absurd rfl (ht _ rfl).2.2.1
    · exact absurd rfl (ht _ rfl).2.2.2
    · rfl
  | some e =>
    have htext := skipExponent_text e (t := t) fun c hc => (ht c hc).1
    rw [Option.elim_some, Exponent.text, List.cons_append, List.append_assoc]
    rcases e.letter_mem with h | h <;> rw [h] <;> exact htext

theorem skipTail_exponentText (ht : Ends t) : skipTail (n.exponentText ++ t) = .ok t := by
  have hmark := skipMark_exponentText (n := n) ht
  rw [skipTail.eq_def]
  split
  · rename_i rest heq
    rw [NumberText.exponentText] at heq
    cases hexponent : n.exponent with
    | none =>
      rw [hexponent, Option.elim_none, List.nil_append] at heq
      exact absurd rfl (ht '.' (heq ▸ rfl)).2.1
    | some e =>
      rw [hexponent, Option.elim_some, Exponent.text, List.cons_append] at heq
      rcases e.letter_mem with h | h <;> rw [h] at heq <;> cases heq
  · rename_i rest heq
    rw [heq] at hmark
    exact hmark
  · rename_i rest heq
    rw [heq] at hmark
    exact hmark
  · rename_i hpoint he hE
    rw [skipMark.eq_3 _ he hE] at hmark
    exact hmark

theorem skipTail_tailText (ht : Ends t) : skipTail (n.tailText ++ t) = .ok t := by
  rw [NumberText.tailText]
  split
  · exact skipTail_exponentText ht
  · rename_i hne
    rw [List.cons_append, List.append_assoc]
    change (skipDigits _ >>= skipMark) = _
    rw [skipDigits_append n.fraction hne n.fraction_isDigit (NumberText.noDigit_exponentText ht)]
    exact skipMark_exponentText ht

/-- Skips the digits before the point. No digit follows a leading zero. -/
def skipWhole (s : List Char) : Except Fault (List Char) :=
  match s with
  | '0' :: d :: rest => if d.isDigit then .error .malformed else .ok (d :: rest)
  | s => skipDigits s

theorem skipWhole_text (ht : NoDigit t) : skipWhole (n.first :: (n.whole ++ t)) = .ok t := by
  have hdigits : skipDigits (n.first :: (n.whole ++ t)) = .ok t :=
    skipDigits_append (n.first :: n.whole) (List.cons_ne_nil _ _)
      (List.forall_mem_cons.mpr ⟨n.first_isDigit, n.whole_isDigit⟩) ht
  rw [skipWhole.eq_def]
  split
  · rename_i d rest heq
    obtain ⟨hfirst, hrest⟩ := List.cons.inj heq
    rw [n.whole_eq hfirst, List.nil_append] at hrest
    rw [if_neg (by simp [ht d (hrest ▸ rfl)]), hrest]
  · exact hdigits

theorem skipNumber_eq (s : List Char) : skipNumber s = skipWhole s >>= skipTail := by
  rw [skipNumber.eq_def]
  fun_cases skipWhole s with
  | case1 d rest h =>
    simp only [h, if_true]
    rfl
  | case2 d rest h =>
    simp only [h, Bool.false_eq_true, if_false]
    rfl
  | case3 s h =>
    dsimp only
    split
    · exact absurd rfl (h _ _)
    · rfl

theorem skipNumber_text (ht : Ends t) : skipNumber (n.unsignedText ++ t) = .ok t := by
  rw [NumberText.unsignedText, List.cons_append, List.append_assoc, skipNumber_eq,
    skipWhole_text (NumberText.noDigit_tailText ht)]
  exact skipTail_tailText ht

end

/-! ### Scalars -/

theorem skipScalar_number {n : NumberText} {t : List Char} (ht : Ends t) : skipScalar (n.text ++ t) = .ok t := by
  have hskip := skipNumber_text (n := n) ht
  rw [NumberText.text]
  split
  · exact hskip
  · have hdigit := n.first_isDigit
    rw [NumberText.unsignedText, List.cons_append] at *
    rw [skipScalar.eq_def]
    split
    · rename_i heq
      exact absurd (List.cons.inj heq).1 (ne_of_isDigit hdigit rfl)
    · rename_i heq
      exact absurd (List.cons.inj heq).1 (ne_of_isDigit hdigit rfl)
    · rename_i heq
      exact absurd (List.cons.inj heq).1 (ne_of_isDigit hdigit rfl)
    · rename_i heq
      exact absurd (List.cons.inj heq).1 (ne_of_isDigit hdigit rfl)
    · rename_i heq
      exact absurd (List.cons.inj heq).1 (ne_of_isDigit hdigit rfl)
    · rename_i heq
      cases heq
      rw [if_pos hdigit, hskip]
    · rename_i heq
      cases heq

/-! ### Values -/

theorem skipName_text (e : Entry) (s : List Char) :
    skipName (e.beforeName.chars ++ (literal e.name ++ (e.afterName.chars ++ ':' :: s))) = .ok s := by
  rw [skipName, literal, List.cons_append, expect_to _ (by decide), List.append_assoc]
  change (skipString (e.name.flatMap Piece.text ++ '"' :: _) >>= expect ':') = _
  rw [skipString_pieces]
  exact expect_to _ (by decide) _

/-- What is left to skip behind a value inside open brackets. -/
def skipRest (fuel : Nat) (outer : List Bracket) (s : List Char) : Except Fault (List Char) := do
  let (outer, rest) ← skipClosings (outer.length + 1) outer s
  if outer.isEmpty then .ok rest else skipFrom fuel outer rest

/-- The first step into a value: the brackets that are open behind it, and whether it ended a value. -/
def skipHead (outer : List Bracket) (s : List Char) : Except Fault (List Bracket × List Char × Bool) :=
  match s with
  | '[' :: rest =>
    match skipBlanks rest with
    | ']' :: rest => .ok (outer, rest, true)
    | rest => .ok (.list :: outer, rest, false)
  | '\x7b' :: rest =>
    match skipBlanks rest with
    | '\x7d' :: rest => .ok (outer, rest, true)
    | rest => do pure (.object :: outer, ← skipName rest, false)
  | s => do pure (outer, ← skipScalar s, true)

theorem skipFrom_succ (fuel : Nat) (outer : List Bracket) (s : List Char) :
    skipFrom (fuel + 1) outer s = (do
      let (outer, rest, closed) ← skipHead outer (skipBlanks s)
      if closed then skipRest fuel outer rest else skipFrom fuel outer rest) := by
  rw [skipFrom]
  generalize skipBlanks s = u
  fun_cases skipHead outer u with
  | case1 rest rest' h => simp only [h]; rfl
  | case2 rest h =>
    simp only
    rfl
  | case3 rest rest' h => simp only [h]; rfl
  | case4 rest h =>
    simp only
    cases skipName (skipBlanks rest) <;> rfl
  | case5 s hlist hobject =>
    split
    · exact (hlist _ rfl).elim
    · exact (hobject _ rfl).elim
    · cases skipScalar u <;> rfl

/-- A value is skipped in some steps, fewer than it has characters, whatever is open around it. -/
def Skips (v : List Char) : Prop :=
  ∃ steps ≤ v.length, ∀ fuel outer (b : Blanks) t, Ends t →
    skipFrom (fuel + steps) outer (b.chars ++ (v ++ t)) = skipRest fuel outer t

theorem skips_of_scalar {c : Char} {v : List Char} (hblank : isBlank c = false) (hlist : c ≠ '[') (hobject : c ≠ '\x7b')
    (h : ∀ t, Ends t → skipScalar (c :: v ++ t) = .ok t) : Skips (c :: v) := by
  refine ⟨1, Nat.succ_le_succ (Nat.zero_le _), fun fuel outer b t ht => ?_⟩
  have hhead : skipHead outer (c :: v ++ t) = .ok (outer, t, true) := by
    rw [List.cons_append, skipHead.eq_3]
    · rw [← List.cons_append, h t ht]
      rfl
    · intro rest heq
      exact hlist (List.cons.inj heq).1
    · intro rest heq
      exact hobject (List.cons.inj heq).1
  rw [skipFrom_succ, skipBlanks_append, List.cons_append, skipBlanks_cons hblank, ← List.cons_append, hhead]
  rfl

/-! ### Lists and objects -/

theorem skipRest_nil (fuel : Nat) (s : List Char) : skipRest fuel [] s = .ok s :=
  rfl

/-- What stands before the value of an item or a member. -/
def enter : Bracket → List Char → Except Fault (List Char)
  | .list, s => .ok s
  | .object, s => skipName s

section
variable (fuel : Nat) (bracket : Bracket) (outer : List Bracket) (b : Blanks) (s : List Char)

theorem skipRest_blanks : skipRest fuel (bracket :: outer) (b.chars ++ s) = skipRest fuel (bracket :: outer) s := by
  rw [skipRest, skipRest, List.length_cons, skipClosings, skipClosings, skipBlanks_append]

theorem skipRest_comma :
    skipRest fuel (bracket :: outer) (',' :: s) = enter bracket s >>= skipFrom fuel (bracket :: outer) := by
  rw [skipRest, List.length_cons, skipClosings, skipBlanks_cons (by decide)]
  cases bracket with
  | list => rfl
  | object => cases h : skipName s <;> simp only [enter, h] <;> rfl

theorem skipRest_closing : skipRest fuel (bracket :: outer) (bracket.closing :: s) = skipRest fuel outer s := by
  have hclosing : isBlank bracket.closing = false := by cases bracket <;> rfl
  rw [skipRest, List.length_cons, skipClosings, skipBlanks_cons hclosing]
  cases bracket <;> rfl

end

/-- A part between brackets is skipped up to the mark behind it. -/
def SkipsIn (bracket : Bracket) (part : List Char) : Prop :=
  ∃ steps ≤ part.length, ∀ fuel outer c t, c = ',' ∨ c = bracket.closing →
    (enter bracket (part ++ c :: t) >>= skipFrom (fuel + steps) (bracket :: outer)) =
      skipRest fuel (bracket :: outer) (c :: t)

theorem ends_after (bracket : Bracket) {c : Char} (h : c = ',' ∨ c = bracket.closing) (t : List Char) :
    Ends (c :: t) := by
  refine ends_mark ?_ t
  cases bracket with
  | list => exact h.imp_right Or.inl
  | object => exact h.imp_right Or.inr

theorem skips_padded {p : Padded} (h : Skips p.core) : ∃ steps ≤ p.text.length, ∀ fuel bracket outer c t,
    c = ',' ∨ c = Bracket.closing bracket → skipFrom (fuel + steps) (bracket :: outer) (p.text ++ c :: t) =
      skipRest fuel (bracket :: outer) (c :: t) := by
  obtain ⟨steps, hsteps, hskip⟩ := h
  refine ⟨steps, ?_, fun fuel bracket outer c t hc => ?_⟩
  · simp only [Padded.text, List.length_append]
    omega
  · have htext : p.text ++ c :: t = p.before.chars ++ (p.core ++ (p.after.chars ++ c :: t)) := by simp [Padded.text]
    rw [htext, hskip _ _ _ _ ((ends_after bracket hc t).blanks p.after), skipRest_blanks]

theorem skipsIn_item {item : Padded} (h : Skips item.core) : SkipsIn .list item.text := by
  obtain ⟨steps, hsteps, hskip⟩ := skips_padded h
  exact ⟨steps, hsteps, fun fuel outer c t hc => hskip fuel .list outer c t hc⟩

theorem skipsIn_entry {entry : Entry} (h : Skips entry.value.core) : SkipsIn .object entry.text := by
  obtain ⟨steps, hsteps, hskip⟩ := skips_padded h
  refine ⟨steps, ?_, fun fuel outer c t hc => ?_⟩
  · simp only [Entry.text, List.length_append, List.length_cons]
    omega
  · have htext : entry.text ++ c :: t = entry.beforeName.chars ++ (literal entry.name ++
        (entry.afterName.chars ++ ':' :: (entry.value.text ++ c :: t))) := by simp [Entry.text]
    rw [enter, htext, skipName_text]
    exact hskip fuel .object outer c t hc

/-- The parts between brackets are skipped one after the other. -/
theorem skips_parts {bracket : Bracket} {parts : List (List Char)} (hne : parts ≠ [])
    (h : ∀ part ∈ parts, SkipsIn bracket part) :
    ∃ steps ≤ ([','].intercalate parts).length, ∀ fuel outer t,
      (enter bracket ([','].intercalate parts ++ bracket.closing :: t) >>= skipFrom (fuel + steps) (bracket :: outer)) =
        skipRest fuel outer t := by
  induction parts with
  | nil => exact absurd rfl hne
  | cons part parts ih =>
    obtain ⟨⟨steps, hsteps, hskip⟩, hparts⟩ := List.forall_mem_cons.mp h
    cases parts with
    | nil =>
      rw [List.intercalate_singleton]
      refine ⟨steps, hsteps, fun fuel outer t => ?_⟩
      rw [hskip fuel outer _ t (Or.inr rfl), skipRest_closing]
    | cons next parts =>
      obtain ⟨more, hmore, hrest⟩ := ih (List.cons_ne_nil _ _) hparts
      rw [List.intercalate_cons_cons]
      refine ⟨more + steps, ?_, fun fuel outer t => ?_⟩
      · simp only [List.length_append, List.length_singleton]
        omega
      · rw [List.append_assoc, List.append_assoc, List.singleton_append, ← Nat.add_assoc,
          hskip _ _ _ _ (Or.inl rfl), skipRest_comma]
        exact hrest fuel outer t

theorem exists_part {parts : List (List Char)} (hne : parts ≠ []) :
    ∃ part ∈ parts, ∃ r, [','].intercalate parts = part ++ r := by
  cases parts with
  | nil => exact absurd rfl hne
  | cons part parts =>
    refine ⟨part, List.mem_cons_self, ?_⟩
    cases parts with
    | nil => exact ⟨[], by simp⟩
    | cons next parts => exact ⟨_, by rw [List.intercalate_cons_cons, List.append_assoc]⟩

def Bracket.opening : Bracket → Char
  | list => '['
  | object => '\x7b'

theorem skipFrom_skipBlanks (fuel : Nat) (outer : List Bracket) (s : List Char) :
    skipFrom fuel outer (skipBlanks s) = skipFrom fuel outer s := by
  cases fuel with
  | zero => rfl
  | succ fuel => rw [skipFrom_succ, skipFrom_succ, skipBlanks_skipBlanks]

theorem skipName_skipBlanks (s : List Char) : skipName (skipBlanks s) = skipName s := by
  rw [skipName, skipName, expect, expect, skipBlanks_skipBlanks]

section
variable (fuel : Nat) (bracket : Bracket) (outer : List Bracket) (b : Blanks)

theorem skipFrom_empty (inner : Blanks) (t : List Char) :
    skipFrom (fuel + 1) outer (b.chars ++ bracket.opening :: (inner.chars ++ bracket.closing :: t)) =
      skipRest fuel outer t := by
  cases bracket with
  | list =>
    rw [skipFrom_succ, Bracket.opening, skipBlanks_to b (by decide), skipHead, Bracket.closing,
      skipBlanks_to inner (by decide)]
    rfl
  | object =>
    rw [skipFrom_succ, Bracket.opening, skipBlanks_to b (by decide), skipHead, Bracket.closing,
      skipBlanks_to inner (by decide)]
    rfl

theorem skipFrom_opening {s : List Char} (h : ∀ r, skipBlanks s ≠ bracket.closing :: r) :
    skipFrom (fuel + 1) outer (b.chars ++ bracket.opening :: s) =
      enter bracket s >>= skipFrom fuel (bracket :: outer) := by
  cases bracket with
  | list =>
    rw [skipFrom_succ, Bracket.opening, skipBlanks_to b (by decide), skipHead]
    split
    · exact absurd ‹_› (h _)
    · exact skipFrom_skipBlanks _ _ _
  | object =>
    rw [skipFrom_succ, Bracket.opening, skipBlanks_to b (by decide), skipHead]
    split
    · exact absurd ‹_› (h _)
    · rw [skipName_skipBlanks, enter]
      cases skipName s <;> rfl

end

/-- A list or an object is skipped if its parts are. -/
theorem skips_enclose (bracket : Bracket) {parts : List (List Char)} (inner : Blanks)
    (h : ∀ part ∈ parts, SkipsIn bracket part)
    (hfirst : ∀ part ∈ parts, ∀ s r, skipBlanks (part ++ s) ≠ bracket.closing :: r) :
    Skips (enclose bracket.opening bracket.closing inner parts) := by
  by_cases hempty : parts = []
  · refine ⟨1, Nat.succ_le_succ (Nat.zero_le _), fun fuel outer b t _ => ?_⟩
    rw [enclose, if_pos hempty, List.cons_append, List.append_assoc, List.singleton_append, skipFrom_empty]
  · obtain ⟨steps, hsteps, hskip⟩ := skips_parts hempty h
    refine ⟨steps + 1, ?_, fun fuel outer b t _ => ?_⟩
    · simp only [enclose, if_neg hempty, List.length_cons, List.length_append]
      omega
    · obtain ⟨part, hpart, r, hr⟩ := exists_part hempty
      have hclosing : ∀ u, skipBlanks ([','].intercalate parts ++ bracket.closing :: t) ≠ bracket.closing :: u := by
        intro u
        rw [hr, List.append_assoc]
        exact hfirst part hpart _ u
      rw [enclose, if_neg hempty, List.cons_append, List.append_assoc, List.singleton_append, ← Nat.add_assoc,
        skipFrom_opening _ _ _ _ hclosing]
      exact hskip fuel outer t

/-! ### Values -/

theorem skips_of_isValue {v : List Char} (hv : IsValue v) : Skips v := by
  induction hv with
  | nullWord => exact skips_of_scalar rfl (by decide) (by decide) fun t _ => rfl
  | trueWord => exact skips_of_scalar rfl (by decide) (by decide) fun t _ => rfl
  | falseWord => exact skips_of_scalar rfl (by decide) (by decide) fun t _ => rfl
  | number n =>
    obtain ⟨c, r, htext, hblank, hne⟩ := n.exists_cons
    have hskip : ∀ t, Ends t → skipScalar (c :: r ++ t) = .ok t := fun t ht => htext ▸ skipScalar_number ht
    rw [htext]
    exact skips_of_scalar hblank (hne _ (by decide) rfl) (hne _ (by decide) rfl) hskip
  | string pieces =>
    refine skips_of_scalar rfl (by decide) (by decide) fun t _ => ?_
    rw [List.cons_append, List.append_assoc]
    exact skipString_pieces pieces t
  | list inner items values ih =>
    refine skips_enclose .list inner ?_ ?_
    · simp only [List.forall_mem_map]
      exact fun item hitem => skipsIn_item (ih item hitem)
    · simp only [List.forall_mem_map]
      intro item hitem s r
      obtain ⟨c, u, hcore, hblank, hclosing⟩ := (values item hitem).exists_cons
      rw [Padded.text, hcore, List.append_assoc, List.append_assoc, List.cons_append, skipBlanks_to _ hblank]
      exact fun heq => hclosing (List.cons.inj heq).1
  | object inner entries values ih =>
    refine skips_enclose .object inner ?_ ?_
    · simp only [List.forall_mem_map]
      exact fun entry hentry => skipsIn_entry (ih entry hentry)
    · simp only [List.forall_mem_map]
      intro entry hentry s r
      rw [Entry.text, literal, List.append_assoc, List.append_assoc, List.cons_append, skipBlanks_to _ (by decide)]
      exact fun heq => absurd (List.cons.inj heq).1 (by decide)

/-- A value is skipped whole. -/
theorem skipValue_of_isValue {v t : List Char} (hv : IsValue v) (b : Blanks) (ht : Ends t) :
    skipValue (b.chars ++ (v ++ t)) = .ok t := by
  obtain ⟨steps, hsteps, hskip⟩ := skips_of_isValue hv
  have hfuel : (b.chars ++ (v ++ t)).length + 1 = ((b.chars ++ (v ++ t)).length + 1 - steps) + steps := by
    simp only [List.length_append]
    omega
  rw [skipValue, hfuel, hskip _ _ _ _ ht, skipRest_nil]

end SyntheticRows.Json
