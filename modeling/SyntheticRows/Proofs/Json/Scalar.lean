import Mathlib
import SyntheticRows.Json.Number
import SyntheticRows.Proofs.Json.Grammar

/-!
Reading strings and numbers as they are written. A string gives the text for which its parts stand, and a number
the one of its digits and exponent (`NumberText.number`), whatever follows, unless the number would go on with it.
-/

namespace SyntheticRows.Json

/-! ### Strings -/

theorem stringBody_plain {c : Char} (h : c ≠ '"' ∧ c ≠ '\\' ∧ ¬c.toNat < 32) (reversed s : List Char) :
    stringBody reversed (c :: s) = stringBody (c :: reversed) s := by
  obtain ⟨hquote, hslash, hcontrol⟩ := h
  rw [stringBody.eq_def]
  split <;> simp_all

theorem stringBody_short {letter c : Char} (h : shortEscape? letter = some c) (reversed s : List Char) :
    stringBody reversed ('\\' :: letter :: s) = stringBody (c :: reversed) s := by
  have hne : letter ≠ 'u' := by
    rintro rfl
    cases h
  rw [stringBody.eq_4 _ _ _ (fun _ _ _ _ _ heq => absurd heq hne), h]

theorem stringBody_code {a b c d : Char} {unit : Nat} (h : hex4? a b c d = some unit)
    (hhigh : isHighSurrogate unit = false)
    (reversed s : List Char) : stringBody reversed ('\\' :: 'u' :: a :: b :: c :: d :: s) =
      if isLowSurrogate unit then .error .malformed else stringBody (Char.ofNat unit :: reversed) s := by
  rw [stringBody.eq_def]
  simp only [h, hhigh]
  rfl

theorem stringBody_pair {a b c d e f g i : Char} {unit low : Nat} (h : hex4? a b c d = some unit)
    (hlow : isLowSurrogate unit = false) (hhigh : isHighSurrogate unit = true) (h' : hex4? e f g i = some low)
    (reversed s : List Char) :
    stringBody reversed ('\\' :: 'u' :: a :: b :: c :: d :: '\\' :: 'u' :: e :: f :: g :: i :: s) =
      if isLowSurrogate low then
        stringBody (Char.ofNat (0x10000 + (unit - 0xD800) * 0x400 + (low - 0xDC00)) :: reversed) s
      else .error .malformed := by
  rw [stringBody.eq_def]
  simp only [h, hlow, hhigh, h', if_true]
  rfl

theorem stringBody_unpaired {a b c d : Char} {unit : Nat} (h : hex4? a b c d = some unit)
    (hlow : isLowSurrogate unit = false) (hhigh : isHighSurrogate unit = true) {s : List Char}
    (hs : ∀ r, s ≠ '\\' :: 'u' :: r) (reversed : List Char) :
    stringBody reversed ('\\' :: 'u' :: a :: b :: c :: d :: s) = .error .malformed := by
  rw [stringBody.eq_def]
  simp only [h, hlow, hhigh, if_true]
  simp only [Bool.false_eq_true, if_false]
  split
  · exact absurd rfl (hs _)
  · rfl

/-- Only a unit in hexadecimal digits looks like the beginning of one. -/
theorem flatMap_text_ne_code {pieces : List Piece}
    (hne : ∀ a b c d unit stands rest, pieces = .code a b c d unit stands :: rest → False) (t r : List Char) :
    pieces.flatMap Piece.text ++ '"' :: t ≠ '\\' :: 'u' :: r := by
  intro heq
  match pieces, hne with
  | [], _ => cases heq
  | .plain c allowed :: rest, _ => exact allowed.2.1 (List.cons.inj heq).1
  | .short letter c stands :: rest, _ =>
    obtain rfl : letter = 'u' := (List.cons.inj (List.cons.inj heq).2).1
    cases stands
  | .code _ _ _ _ _ _ :: rest, hne => exact hne _ _ _ _ _ _ _ rfl

/-- Reading a string gives its characters, and fails just if it stands for no text. -/
theorem stringBody_pieces (pieces : List Piece) (reversed t : List Char) :
    (stringBody reversed (pieces.flatMap Piece.text ++ '"' :: t)).toOption =
      (Piece.meaning? pieces).map fun chars => (reversed.reverse ++ chars, t) := by
  fun_induction Piece.meaning? pieces generalizing reversed with
  | case1 => simp [stringBody, Except.toOption]
  | case2 c allowed rest ih =>
    rw [List.flatMap_cons, Piece.text, List.append_assoc, List.singleton_append, stringBody_plain allowed, ih,
      Option.map_map]
    simp [Function.comp_def]
  | case3 letter c stands rest ih =>
    simp only [List.flatMap_cons, Piece.text, List.cons_append, List.nil_append]
    rw [stringBody_short stands, ih, Option.map_map]
    simp [Function.comp_def]
  | case4 a b c d unit stands rest hlow =>
    have hhigh : isHighSurrogate unit = false := by
      simp [isLowSurrogate, isHighSurrogate] at hlow ⊢
      omega
    simp only [List.flatMap_cons, Piece.text, List.cons_append, List.nil_append]
    rw [stringBody_code stands hhigh, if_pos hlow]
    rfl
  | case5 a b c d unit stands hlow hhigh e f g i low stands' rest hpair ih =>
    simp only [List.flatMap_cons, Piece.text, List.cons_append, List.nil_append]
    rw [stringBody_pair stands (by simpa using hlow) hhigh stands', if_pos hpair, ih, Option.map_map]
    simp [Function.comp_def]
  | case6 a b c d unit stands hlow hhigh e f g i low stands' rest hpair =>
    simp only [List.flatMap_cons, Piece.text, List.cons_append, List.nil_append]
    rw [stringBody_pair stands (by simpa using hlow) hhigh stands', if_neg hpair]
    rfl
  | case7 a b c d unit stands rest hlow hhigh hne =>
    simp only [List.flatMap_cons, Piece.text, List.cons_append, List.nil_append]
    rw [stringBody_unpaired stands (by simpa using hlow) hhigh (flatMap_text_ne_code hne t)]
    rfl
  | case8 a b c d unit stands rest hlow hhigh ih =>
    simp only [List.flatMap_cons, Piece.text, List.cons_append, List.nil_append]
    rw [stringBody_code stands (by simpa using hhigh), if_neg hlow, ih, Option.map_map]
    simp [Function.comp_def]

theorem string_literal (b : Blanks) (pieces : List Piece) (t : List Char) :
    (string (b.chars ++ (literal pieces ++ t))).toOption =
      (Piece.meaning? pieces).map fun chars => (String.ofList chars, t) := by
  have hbody := stringBody_pieces pieces [] t
  rw [List.reverse_nil] at hbody
  rw [string, literal, List.cons_append, List.append_assoc, List.singleton_append, expect_to b (by decide)]
  change ((stringBody [] (pieces.flatMap Piece.text ++ '"' :: t)) >>= _).toOption = _
  rw [toOption_bind, hbody]
  cases Piece.meaning? pieces <;> rfl

/-! ### Numbers -/

open Number

theorem ne_of_isDigit {c d : Char} (h : c.isDigit) (hd : d.isDigit = false) : c ≠ d := by
  rintro rfl
  exact absurd h (by simp [hd])

theorem isBlank_of_isDigit {c : Char} (h : c.isDigit) : isBlank c = false := by
  have hspace : c ≠ ' ' := ne_of_isDigit h rfl
  have htab : c ≠ '\t' := ne_of_isDigit h rfl
  have hline : c ≠ '\n' := ne_of_isDigit h rfl
  have hreturn : c ≠ '\r' := ne_of_isDigit h rfl
  simp [isBlank, hspace, htab, hline, hreturn]

/-- A text that does not begin with a digit. -/
def NoDigit (t : List Char) : Prop :=
  ∀ c ∈ t.head?, c.isDigit = false

theorem takeWhile_isDigit {ds t : List Char} (hds : ∀ c ∈ ds, c.isDigit) (ht : NoDigit t) :
    (ds ++ t).takeWhile Char.isDigit = ds := by
  rw [List.takeWhile_append_of_pos hds]
  cases t with
  | nil => simp
  | cons c t => simp [ht c rfl]

theorem dropWhile_isDigit {ds t : List Char} (hds : ∀ c ∈ ds, c.isDigit) (ht : NoDigit t) :
    (ds ++ t).dropWhile Char.isDigit = t := by
  rw [List.dropWhile_append_of_pos hds]
  cases t with
  | nil => simp
  | cons c t => simp [ht c rfl]

theorem wholeDigits_append {ds t : List Char} (hds : ∀ c ∈ ds, c.isDigit) (ht : NoDigit t) (value dropped : Nat) :
    wholeDigits value dropped (ds ++ t) =
      ((wholeDigits value dropped ds).1, (wholeDigits value dropped ds).2.1, t) := by
  induction ds generalizing value dropped with
  | nil =>
    cases t with
    | nil => rfl
    | cons c t => simp [wholeDigits, ht c rfl]
  | cons c ds ih =>
    obtain ⟨hc, hds⟩ := List.forall_mem_cons.mp hds
    rw [List.cons_append, wholeDigits, wholeDigits, if_pos hc, if_pos hc]
    split
    · exact ih hds _ _
    · exact ih hds _ _

theorem fractionDigits_append {ds t : List Char} (hds : ∀ c ∈ ds, c.isDigit) (ht : NoDigit t) (value taken : Nat) :
    fractionDigits value taken (ds ++ t) =
      ((fractionDigits value taken ds).1, (fractionDigits value taken ds).2.1, t) := by
  induction ds generalizing value taken with
  | nil =>
    cases t with
    | nil => rfl
    | cons c t => simp [fractionDigits, ht c rfl]
  | cons c ds ih =>
    obtain ⟨hc, hds⟩ := List.forall_mem_cons.mp hds
    rw [List.cons_append, fractionDigits, fractionDigits, if_pos hc, if_pos hc]
    split
    · exact ih hds _ _
    · rw [dropWhile_isDigit hds ht]

/-- What is read behind the sign of an exponent. -/
def exponentDigits (negative : Bool) (significand : Nat) (exponent : Int) (down : Bool) : Reader Number := fun s =>
  let digits := s.takeWhile Char.isDigit
  let rest := s.dropWhile Char.isDigit
  let value := Digits.value digits
  if digits = [] then .error .malformed
  else if maxExponent < value then
    if significand ≠ 0 ∧ !down then .error .malformed
    else .ok (.real (signed negative .zero), rest)
  else do
    let x ← ofParts negative significand (if down then exponent - value else exponent + value)
    return (.real x, rest)

/-- Whether an exponent has a minus sign, and what stands behind its sign. -/
def exponentSign : List Char → Bool × List Char
  | '-' :: rest => (true, rest)
  | '+' :: rest => (false, rest)
  | s => (false, s)

theorem exponentPart_eq (negative : Bool) (significand : Nat) (exponent : Int) (s : List Char) :
    exponentPart negative significand exponent s =
      exponentDigits negative significand exponent (exponentSign s).1 (exponentSign s).2 :=
  rfl

theorem exponentSign_text (e : Exponent) (t : List Char) :
    exponentSign (e.sign ++ (e.digits ++ t)) = (e.sign == ['-'], e.digits ++ t) := by
  rcases e.sign_mem with h | h | h
  · obtain ⟨c, ds, hds⟩ := List.exists_cons_of_ne_nil e.digits_ne
    have hc : c.isDigit := e.isDigit c (hds ▸ List.mem_cons_self)
    rw [h, hds, List.nil_append, List.cons_append, exponentSign.eq_3 _ _ _]
    · rfl
    · rintro rest heq
      cases heq
      exact absurd hc (by decide)
    · rintro rest heq
      cases heq
      exact absurd hc (by decide)
  · rw [h]
    rfl
  · rw [h]
    rfl

/-- The number of a significand, an exponent and a written exponent. -/
def Exponent.number (e : Exponent) (negative : Bool) (significand : Nat) (exponent : Int) : Except Fault Number :=
  (exponentDigits negative significand exponent (e.sign == ['-']) e.digits).map Prod.fst

theorem exponentPart_text (e : Exponent) {t : List Char} (ht : NoDigit t) (negative : Bool) (significand : Nat)
    (exponent : Int) :
    exponentPart negative significand exponent (e.sign ++ (e.digits ++ t)) =
      (e.number negative significand exponent).map (·, t) := by
  have hnil := takeWhile_isDigit e.isDigit (t := []) nofun
  rw [List.append_nil] at hnil
  rw [exponentPart_eq, exponentSign_text, Exponent.number]
  simp only [exponentDigits, takeWhile_isDigit e.isDigit ht, dropWhile_isDigit e.isDigit ht, hnil, e.digits_ne,
    if_false]
  split
  · split <;> rfl
  · cases ofParts negative significand _ <;> rfl

namespace NumberText
variable (n : NumberText)

/-- The number of the digits that were read so far, with the exponent that follows them. -/
def afterDigits (significand : Nat) (exponent : Int) : Except Fault Number :=
  match n.exponent with
  | none => (ofParts n.negative significand exponent).map .real
  | some e => e.number n.negative significand exponent

/-- The number that is read from the text. -/
def number : Except Fault Number :=
  let (significand, dropped, _) := wholeDigits (Digits.decimal n.first) 0 n.whole
  if n.fraction = [] then
    if n.exponent.isNone ∧ dropped = 0 then .ok (ofWhole n.negative significand)
    else n.afterDigits significand dropped
  else
    let (significand, taken, _) := fractionDigits significand 0 n.fraction
    n.afterDigits significand (dropped - taken)

variable {n} {t : List Char}

theorem noDigit_exponentText (ht : Ends t) : NoDigit (n.exponentText ++ t) := by
  rw [exponentText]
  cases n.exponent with
  | none => exact fun c hc => (ht c hc).1
  | some e =>
    rintro c hc
    cases hc
    rcases e.letter_mem with h | h <;> rw [h] <;> rfl

theorem noDigit_tailText (ht : Ends t) : NoDigit (n.tailText ++ t) := by
  rw [tailText]
  split
  · exact noDigit_exponentText ht
  · rintro c hc
    cases hc
    rfl

theorem afterFraction_text (ht : Ends t) (significand : Nat) (exponent : Int) :
    afterFraction n.negative significand exponent (n.exponentText ++ t) =
      (n.afterDigits significand exponent).map (·, t) := by
  rw [exponentText, afterDigits]
  cases n.exponent with
  | none =>
    have hplain : afterFraction n.negative significand exponent t =
        (do let x ← ofParts n.negative significand exponent; return (.real x, t)) := by
      rw [afterFraction.eq_def]
      split
      · exact absurd rfl (ht _ rfl).2.2.1
      · exact absurd rfl (ht _ rfl).2.2.2
      · rfl
    rw [Option.elim_none, List.nil_append, hplain]
    cases ofParts n.negative significand exponent <;> rfl
  | some e =>
    have htext := exponentPart_text e (fun c hc => (ht c hc).1) n.negative significand exponent
    rw [Option.elim_some, Exponent.text, List.cons_append, List.append_assoc]
    rcases e.letter_mem with h | h <;> rw [h] <;> exact htext

theorem fractionPart_text (ht : Ends t) (hne : n.fraction ≠ []) (significand dropped : Nat) :
    fractionPart n.negative significand dropped (n.fraction ++ (n.exponentText ++ t)) =
      (n.afterDigits (fractionDigits significand 0 n.fraction).1
        (dropped - (fractionDigits significand 0 n.fraction).2.1)).map (·, t) := by
  have hscan := fractionDigits_append n.fraction_isDigit (noDigit_exponentText (n := n) ht) significand 0
  have hdigits := n.fraction_isDigit
  obtain ⟨c, ds, hds⟩ := List.exists_cons_of_ne_nil hne
  rw [hds] at hscan hdigits ⊢
  have hc : c.isDigit := hdigits c List.mem_cons_self
  rw [List.cons_append] at hscan ⊢
  simp only [fractionPart, hc, if_true, hscan]
  exact afterFraction_text ht _ _

/-- Reads what follows the digits before the point. -/
def afterWhole (negative : Bool) (first : Char) (significand dropped : Nat) : Reader Number := fun s =>
  match s with
  | '.' :: rest => fractionPart negative significand dropped rest
  | 'e' :: rest | 'E' :: rest => exponentPart negative significand dropped rest
  | d :: _ =>
    if first = '0' ∧ d.isDigit then .error .malformed
    else if dropped = 0 then .ok (ofWhole negative significand, s)
    else afterFraction negative significand dropped s
  | [] =>
    if dropped = 0 then .ok (ofWhole negative significand, s)
    else afterFraction negative significand dropped s

theorem afterWhole_of_ends (ht : Ends t) (negative : Bool) (first : Char) (significand dropped : Nat) :
    afterWhole negative first significand dropped t =
      if dropped = 0 then .ok (ofWhole negative significand, t) else afterFraction negative significand dropped t := by
  rw [afterWhole.eq_def]
  split
  · exact absurd rfl (ht _ rfl).2.1
  · exact absurd rfl (ht _ rfl).2.2.1
  · exact absurd rfl (ht _ rfl).2.2.2
  · rw [if_neg fun h => absurd h.2 (by rw [(ht _ rfl).1]; exact Bool.false_ne_true)]
  · rfl

theorem afterWhole_text (ht : Ends t) (significand dropped : Nat) :
    afterWhole n.negative n.first significand dropped (n.tailText ++ t) =
      (if n.fraction = [] then
        if n.exponent.isNone ∧ dropped = 0 then .ok (ofWhole n.negative significand)
        else n.afterDigits significand dropped
      else n.afterDigits (fractionDigits significand 0 n.fraction).1
        (dropped - (fractionDigits significand 0 n.fraction).2.1)).map (·, t) := by
  rw [tailText]
  split
  · have hafter := afterFraction_text (n := n) ht significand dropped
    rw [exponentText] at hafter ⊢
    cases hexponent : n.exponent with
    | none =>
      rw [hexponent] at hafter
      rw [Option.elim_none, List.nil_append] at hafter ⊢
      rw [afterWhole_of_ends ht]
      by_cases hzero : dropped = 0
      · simp [hzero]
        rfl
      · simp [hzero, hafter]
    | some e =>
      have htext := exponentPart_text e (fun c hc => (ht c hc).1) n.negative significand dropped
      rw [Option.elim_some, Exponent.text, List.cons_append, List.append_assoc, afterDigits, hexponent]
      rcases e.letter_mem with h | h <;> rw [h] <;> simpa [afterWhole] using htext
  · rename_i hne
    rw [List.cons_append, List.append_assoc]
    exact fractionPart_text ht hne significand dropped

theorem unsigned_text (ht : Ends t) : unsigned n.negative (n.unsignedText ++ t) = n.number.map (·, t) := by
  have hscan : (if n.first = '0' then (0, 0, n.whole ++ (n.tailText ++ t))
      else wholeDigits (Digits.decimal n.first) 0 (n.whole ++ (n.tailText ++ t))) =
      ((wholeDigits (Digits.decimal n.first) 0 n.whole).1, (wholeDigits (Digits.decimal n.first) 0 n.whole).2.1,
        n.tailText ++ t) := by
    split
    · rename_i hzero
      rw [n.whole_eq hzero, hzero]
      rfl
    · exact wholeDigits_append n.whole_isDigit (noDigit_tailText ht) _ _
  rw [unsignedText, List.cons_append, List.append_assoc, unsigned]
  simp only [n.first_isDigit, Bool.not_true, Bool.false_eq_true, if_false, hscan]
  exact afterWhole_text ht _ _

theorem number_text (b : Blanks) (ht : Ends t) : Json.number (b.chars ++ (n.text ++ t)) = n.number.map (·, t) := by
  have hunsigned := unsigned_text (n := n) ht
  rw [Json.number, text]
  cases hsign : n.negative with
  | true =>
    rw [if_pos rfl, List.cons_append, skipBlanks_to b (by decide)]
    rw [hsign] at hunsigned
    exact hunsigned
  | false =>
    rw [hsign] at hunsigned
    rw [if_neg Bool.false_ne_true, unsignedText, List.cons_append] at *
    rw [skipBlanks_to b (isBlank_of_isDigit n.first_isDigit)]
    split
    · rename_i heq
      exact absurd (List.cons.inj heq).1 (ne_of_isDigit n.first_isDigit rfl)
    · exact hunsigned

/-- The first character of a number is its sign or a digit, so it is no blank and no other mark. -/
theorem exists_cons (n : NumberText) : ∃ c r, n.text = c :: r ∧ isBlank c = false ∧
    ∀ mark : Char, mark ≠ '-' → mark.isDigit = false → c ≠ mark := by
  rw [text]
  split
  · exact ⟨_, _, rfl, rfl, fun _ hsign _ => hsign.symm⟩
  · exact ⟨_, _, rfl, isBlank_of_isDigit n.first_isDigit, fun _ _ hdigit => ne_of_isDigit n.first_isDigit hdigit⟩

end NumberText

/-- The first character of a value. -/
theorem IsValue.exists_cons {v : List Char} (hv : IsValue v) : ∃ c r, v = c :: r ∧ isBlank c = false ∧ c ≠ ']' := by
  cases hv with
  | nullWord => exact ⟨_, _, rfl, by decide⟩
  | trueWord => exact ⟨_, _, rfl, by decide⟩
  | falseWord => exact ⟨_, _, rfl, by decide⟩
  | number n =>
    obtain ⟨c, r, htext, hblank, hne⟩ := n.exists_cons
    exact ⟨c, r, htext, hblank, hne _ (by decide) rfl⟩
  | string pieces => exact ⟨_, _, rfl, by decide⟩
  | list inner items values => exact ⟨_, _, rfl, by decide⟩
  | object inner entries values => exact ⟨_, _, rfl, by decide⟩

end SyntheticRows.Json
