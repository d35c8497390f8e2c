import SyntheticRows.Proofs.Decimal.Plain
import SyntheticRows.Toml.Document

/-!
The notations of integers in TOML: decimal with a sign, or in base 16, 8 or 2 behind a prefix, with underscores between
digits. Each is read as its number if 64 bits with sign hold that (`ofToken?_of_isInteger`). The numeral of a natural
number is one of them (`isInteger_numeral`).
-/

namespace SyntheticRows.Toml

open Decimal (numeral)

/-- A run of digits, with single underscores between some of them, and the digits. -/
inductive IsDigitRun (isDigit : Char → Bool) : List Char → List Char → Prop
  | single {d : Char} (digit : isDigit d) : IsDigitRun isDigit [d] [d]
  | cons {d : Char} {s ds : List Char} (digit : isDigit d) (rest : IsDigitRun isDigit s ds) :
    IsDigitRun isDigit (d :: s) (d :: ds)
  | underscore {d : Char} {s ds : List Char} (digit : isDigit d) (rest : IsDigitRun isDigit s ds) :
    IsDigitRun isDigit (d :: '_' :: s) (d :: ds)

def isDigitIn (base : ℕ) (c : Char) : Bool :=
  (Digits.hex? c).any (· < base)

/-- The letter for a base behind a zero. -/
inductive IsBaseMark : Char → ℕ → Prop
  | hexadecimal : IsBaseMark 'x' 16
  | octal : IsBaseMark 'o' 8
  | binary : IsBaseMark 'b' 2

/-- The texts of integers. A decimal number has no leading zero. -/
inductive IsInteger : List Char → ℤ → Prop
  | unsigned {s ds : List Char} (digits : IsDigitRun Char.isDigit s ds) (leading : ds.head? = some '0' → ds = ['0']) :
    IsInteger s (Digits.value ds)
  | plus {s ds : List Char} (digits : IsDigitRun Char.isDigit s ds) (leading : ds.head? = some '0' → ds = ['0']) :
    IsInteger ('+' :: s) (Digits.value ds)
  | minus {s ds : List Char} (digits : IsDigitRun Char.isDigit s ds) (leading : ds.head? = some '0' → ds = ['0']) :
    IsInteger ('-' :: s) (-Digits.value ds)
  | based {mark : Char} {base : ℕ} {s ds : List Char} (isMark : IsBaseMark mark base)
    (digits : IsDigitRun (isDigitIn base) s ds) : IsInteger ('0' :: mark :: s) (Digits.valueIn base ds)

/-! ### Runs of digits -/

section
variable {isDigit : Char → Bool} {s ds : List Char}

theorem IsDigitRun.exists_cons (h : IsDigitRun isDigit s ds) : ∃ d rest, s = d :: rest ∧ isDigit d := by
  cases h with
  | single digit => exact ⟨_, _, rfl, digit⟩
  | cons digit _ => exact ⟨_, _, rfl, digit⟩
  | underscore digit _ => exact ⟨_, _, rfl, digit⟩

theorem IsDigitRun.forall_mem (h : IsDigitRun isDigit s ds) : ∀ c ∈ s, isDigit c ∨ c = '_' := by
  induction h with
  | single digit => simpa using .inl digit
  | cons digit _ ih => exact List.forall_mem_cons.mpr ⟨.inl digit, ih⟩
  | underscore digit _ ih => exact List.forall_mem_cons.mpr ⟨.inl digit, List.forall_mem_cons.mpr ⟨.inr rfl, ih⟩⟩

theorem IsDigitRun.not_mem (h : IsDigitRun isDigit s ds) {c : Char} (hc : isDigit c = false) (hne : c ≠ '_') :
    c ∉ s := by
  intro hmem
  rcases h.forall_mem c hmem with hdigit | heq
  · rw [hc] at hdigit
    cases hdigit
  · exact hne heq

theorem IsDigitRun.digitRun?_eq (h : IsDigitRun isDigit s ds) (hunderscore : isDigit '_' = false) (afterDigit : Bool) :
    digitRun? isDigit afterDigit s = some ds := by
  induction h generalizing afterDigit with
  | single digit => simp [digitRun?, digit]
  | cons digit _ ih => simp [digitRun?, digit, ih true]
  | @underscore d s ds digit rest ih =>
    obtain ⟨c, s, rfl, hc⟩ := rest.exists_cons
    have hrest : digitRun? isDigit true ('_' :: c :: s) = some ds := by
      rw [digitRun?, hunderscore]
      simp [hc, ih false]
    rw [digitRun?, if_pos digit, hrest, Option.map_some]

theorem isDigitIn_underscore (base : ℕ) : isDigitIn base '_' = false := rfl

theorem IsDigitRun.wholeDigits?_eq (h : IsDigitRun Char.isDigit s ds) (hleading : ds.head? = some '0' → ds = ['0']) :
    wholeDigits? s = some ds := by
  rw [wholeDigits?, decimalDigits?, h.digitRun?_eq rfl]
  refine if_neg ?_
  rintro ⟨hlength, hhead⟩
  rw [hleading hhead] at hlength
  exact hlength rfl

end

/-! ### No times and no real numbers -/

section
variable {s : List Char}

theorem mark?_eq_none {mark : Char} (h : mark ∉ s) : mark? mark s = none := by
  cases s with
  | nil => rfl
  | cons c rest =>
    rw [mark?, if_neg]
    rintro rfl
    exact h List.mem_cons_self

theorem fixed?_eq (width : Nat) (s : List Char) :
    fixed? width s = none ∨ ∃ n, fixed? width s = some (n, s.drop width) := by
  rw [fixed?]
  split
  · exact .inr ⟨_, rfl⟩
  · exact .inl rfl

theorem clockTime?_eq_none (h : ':' ∉ s) : clockTime? s = none := by
  rcases fixed?_eq 2 s with hfixed | ⟨n, hfixed⟩
  · rw [clockTime?, hfixed]
    rfl
  · rw [clockTime?, hfixed]
    simp only [bind, Option.bind, mark?_eq_none fun hmem => h (List.mem_of_mem_drop hmem)]

theorem date?_eq_none (h : '-' ∉ s) : date? s = none := by
  rcases fixed?_eq 4 s with hfixed | ⟨n, hfixed⟩
  · rw [date?, hfixed]
    rfl
  · rw [date?, hfixed]
    simp only [bind, Option.bind, mark?_eq_none fun hmem => h (List.mem_of_mem_drop hmem)]

theorem isTime_eq_false (hcolon : ':' ∉ s) (hdash : '-' ∉ s) : isTime s = false := by
  rw [isTime, clockTime?_eq_none hcolon, date?_eq_none hdash]
  rfl

end

theorem date?_signed {c : Char} (h : c.isDigit = false) (s : List Char) : date? (c :: s) = none := by
  have hfixed : fixed? 4 (c :: s) = none := by simp [fixed?, h]
  rw [date?, hfixed]
  rfl

theorem isReal_eq_false {s body : List Char} {negative : Bool} (hsign : takeSign s = (negative, body))
    (hmarks : ∀ c ∈ body, c ≠ 'e' ∧ c ≠ 'E' ∧ c ≠ '.') (hinf : body ≠ "inf".toList) (hnan : body ≠ "nan".toList) :
    isReal s = false := by
  have hmark : ∀ c ∈ body, (!(c == 'e' || c == 'E')) = true := fun c hc => by simp [hmarks c hc]
  have hpoint : ∀ c ∈ body, (c != '.') = true := fun c hc => by simp [hmarks c hc]
  simp only [isReal, hsign, if_neg (not_or.mpr ⟨hinf, hnan⟩), List.takeWhile_eq_self_iff.mpr hmark,
    List.dropWhile_eq_nil_iff.mpr hmark, List.takeWhile_eq_self_iff.mpr hpoint, List.dropWhile_eq_nil_iff.mpr hpoint]
  split <;> rfl

theorem IsDigitRun.isReal_eq {s ds text : List Char} {negative : Bool} (h : IsDigitRun Char.isDigit s ds)
    (hsign : takeSign text = (negative, s)) : isReal text = false := by
  have hne {c : Char} (hc : c.isDigit = false) (hunderscore : c ≠ '_') : ∀ d ∈ s, d ≠ c := by
    rintro d hd rfl
    exact h.not_mem hc hunderscore hd
  obtain ⟨d, rest, hs, hd⟩ := h.exists_cons
  refine isReal_eq_false hsign (fun c hc => ⟨?_, ?_, ?_⟩) ?_ ?_
  · exact hne rfl (by decide) c hc
  · exact hne rfl (by decide) c hc
  · exact hne rfl (by decide) c hc
  · rintro rfl
    exact hne (c := 'i') rfl (by decide) 'i' (by decide) rfl
  · rintro rfl
    exact hne (c := 'n') rfl (by decide) 'n' (by decide) rfl

/-! ### Integers -/

theorem ofToken?_integer {s : List Char} {n : ℤ} (htrue : s ≠ "true".toList) (hfalse : s ≠ "false".toList)
    (htime : isTime s = false) (hreal : isReal s = false) (hinteger : integer? s = inRange? n) :
    ofToken? s = (inRange? n).map .int := by
  rw [ofToken?, if_neg htrue, if_neg hfalse, htime, hreal, hinteger]
  rfl

theorem takeSign_digit {c : Char} (h : c.isDigit) (s : List Char) : takeSign (c :: s) = (false, c :: s) := by
  unfold takeSign
  split
  · rename_i heq
    cases heq
    cases h
  · rename_i heq
    cases heq
    cases h
  · rfl

theorem isTime_signed {c : Char} (h : c.isDigit = false) {s : List Char} (hcolon : ':' ∉ c :: s) :
    isTime (c :: s) = false := by
  rw [isTime, clockTime?_eq_none hcolon, date?_signed h]
  rfl

section
variable {s ds : List Char}

theorem IsDigitRun.integer?_eq {text : List Char} {negative : Bool} (h : IsDigitRun Char.isDigit s ds)
    (hleading : ds.head? = some '0' → ds = ['0']) (hsign : takeSign text = (negative, s))
    (hmark : ∀ mark base rest, IsBaseMark mark base → text ≠ '0' :: mark :: rest) :
    integer? text = inRange? (if negative then -Digits.value ds else Digits.value ds) := by
  rw [integer?.eq_4 _ (fun rest => hmark _ _ rest .hexadecimal) (fun rest => hmark _ _ rest .octal)
    (fun rest => hmark _ _ rest .binary), hsign]
  simp only [h.wholeDigits?_eq hleading, Option.bind_eq_bind, Option.bind_some]

theorem IsBaseMark.not_isDigit {mark : Char} {base : ℕ} (h : IsBaseMark mark base) :
    mark.isDigit = false ∧ mark ≠ '_' := by
  cases h <;> exact ⟨rfl, by decide⟩

/-- A decimal run is not taken for a number in another base. -/
theorem IsDigitRun.ne_based (h : IsDigitRun Char.isDigit s ds) {mark : Char} {base : ℕ} (hmark : IsBaseMark mark base)
    (rest : List Char) : s ≠ '0' :: mark :: rest := by
  rintro rfl
  exact h.not_mem hmark.not_isDigit.1 hmark.not_isDigit.2 (List.mem_cons_of_mem _ List.mem_cons_self)

theorem IsDigitRun.ofToken?_signed {c : Char} {negative : Bool} (h : IsDigitRun Char.isDigit s ds)
    (hleading : ds.head? = some '0' → ds = ['0']) (hc : c = '+' ∨ c = '-')
    (hsign : takeSign (c :: s) = (negative, s)) :
    ofToken? (c :: s) = (inRange? (if negative then -Digits.value ds else Digits.value ds)).map .int := by
  have hdigit : c.isDigit = false := by rcases hc with rfl | rfl <;> rfl
  have hfirst : ∀ d rest, c ≠ d → c :: s ≠ d :: rest := by
    rintro d rest hne ⟨⟩
    exact hne rfl
  refine ofToken?_integer ?_ ?_ (isTime_signed hdigit ?_) (h.isReal_eq hsign) (h.integer?_eq hleading hsign ?_)
  · exact hfirst _ _ (by rcases hc with rfl | rfl <;> decide)
  · exact hfirst _ _ (by rcases hc with rfl | rfl <;> decide)
  · rintro (_ | ⟨_, hmem⟩)
    · rcases hc with hc | hc <;> cases hc
    · exact h.not_mem rfl (by decide) hmem
  · exact fun mark base rest _ => hfirst _ _ (by rcases hc with rfl | rfl <;> decide)

theorem IsDigitRun.ofToken?_unsigned (h : IsDigitRun Char.isDigit s ds)
    (hleading : ds.head? = some '0' → ds = ['0']) : ofToken? s = (inRange? (Digits.value ds)).map .int := by
  obtain ⟨d, rest, rfl, hd⟩ := h.exists_cons
  have hsign := takeSign_digit hd rest
  have hne : ∀ c rest', c.isDigit = false → d :: rest ≠ c :: rest' := by
    rintro c rest' hc ⟨⟩
    rw [hc] at hd
    cases hd
  exact ofToken?_integer (hne _ _ rfl) (hne _ _ rfl)
    (isTime_eq_false (h.not_mem rfl (by decide)) (h.not_mem rfl (by decide))) (h.isReal_eq hsign)
    (h.integer?_eq hleading hsign fun mark base rest hmark => h.ne_based hmark rest)

theorem isReal_based {mark : Char} {base : ℕ} (hmark : IsBaseMark mark base) (s : List Char) :
    isReal ('0' :: mark :: s) = false := by
  have hwhole (rest : List Char) : wholeDigits? ('0' :: mark :: rest) = none := by
    cases hmark <;> rfl
  cases hmark <;>
  · simp [isReal, takeSign, hwhole]

theorem ofToken?_based {mark : Char} {base : ℕ} (hmark : IsBaseMark mark base)
    (h : IsDigitRun (isDigitIn base) s ds) :
    ofToken? ('0' :: mark :: s) = (inRange? (Digits.valueIn base ds)).map .int := by
  have hnot {c : Char} (hc : isDigitIn base c = false) (hne : c ≠ '_') (hzero : c ≠ '0') (hm : c ≠ mark) :
      c ∉ '0' :: mark :: s := by
    simp [hzero, hm, h.not_mem hc hne]
  have hinBase : inBase? base s = inRange? (Digits.valueIn base ds) := by
    rw [inBase?]
    exact congrArg (Option.bind · _) (h.digitRun?_eq (isDigitIn_underscore base) false)
  have hfirst : ∀ c rest, '0' ≠ c → '0' :: mark :: s ≠ c :: rest := fun c rest hne heq => hne (List.cons.inj heq).1
  refine ofToken?_integer (hfirst _ _ (by decide)) (hfirst _ _ (by decide)) (isTime_eq_false ?_ ?_)
    (isReal_based hmark s) ?_
  · exact hnot rfl (by decide) (by decide) (by cases hmark <;> decide)
  · exact hnot rfl (by decide) (by decide) (by cases hmark <;> decide)
  · cases hmark <;> exact hinBase

end

theorem ofToken?_of_isInteger {s : List Char} {n : ℤ} (h : IsInteger s n) : ofToken? s = (inRange? n).map .int := by
  cases h with
  | unsigned digits leading => exact digits.ofToken?_unsigned leading
  | plus digits leading => exact digits.ofToken?_signed leading (.inl rfl) rfl
  | minus digits leading => exact digits.ofToken?_signed leading (.inr rfl) rfl
  | based isMark digits => exact ofToken?_based isMark digits

/-! ### Numerals -/

theorem isDigitRun_of_forall {isDigit : Char → Bool} {s : List Char} (hne : s ≠ []) (h : ∀ c ∈ s, isDigit c) :
    IsDigitRun isDigit s s := by
  induction s with
  | nil => exact absurd rfl hne
  | cons c s ih =>
    obtain ⟨hc, hs⟩ := List.forall_mem_cons.mp h
    cases s with
    | nil => exact .single hc
    | cons d s => exact .cons hc (ih (List.cons_ne_nil d s) hs)

theorem isInteger_numeral (n : ℕ) : IsInteger (numeral n) n := by
  obtain ⟨c, ds, hnumeral, -, -, hzero⟩ := Decimal.exists_numeral_cons n
  have hdigits : IsDigitRun Char.isDigit (numeral n) (numeral n) :=
    isDigitRun_of_forall (hnumeral ▸ List.cons_ne_nil c ds) fun c => Decimal.isDigit_of_mem_numeral
  have hinteger := IsInteger.unsigned hdigits fun hhead => by
    rw [hnumeral] at hhead ⊢
    cases hhead
    rw [(hzero rfl).1]
  rwa [Decimal.value_numeral] at hinteger

theorem inRange?_natCast (n : ℕ) : inRange? n = if n < 2 ^ 63 then some (n : ℤ) else none := by
  have hmin : Int64.minValue.toInt = -2 ^ 63 := rfl
  have hmax : Int64.maxValue.toInt = 2 ^ 63 - 1 := rfl
  rw [inRange?, hmin, hmax]
  split <;> split <;> first | rfl | omega

end SyntheticRows.Toml
