import Mathlib
import SyntheticRows.Json.Record
import SyntheticRows.Proofs.Json.Scalar

/-!
What readers take off the front of a text. A reader takes values if, in front of any value, it gives something
that depends on the value alone, and leaves what follows it, or fails (`TakesValues`). Then all it does to texts
of values is said by what it reads from them as whole texts (`result`).
-/

namespace SyntheticRows.Json

/-- What a reader gives for a whole text, if it accepts the text. -/
def result {α : Type} (read : Reader α) (v : List Char) : Option α :=
  (readAll read v).toOption

section
variable {α : Type} {read : Reader α} {v : List Char}

theorem result_eq_some_iff {a : α} : result read v = some a ↔ readAll read v = .ok a := by
  rw [result]
  cases readAll read v with
  | error e => exact ⟨nofun, nofun⟩
  | ok x => exact ⟨fun h => congrArg _ (Option.some.inj h), fun h => congrArg _ (Except.ok.inj h)⟩

/-- In front of a text a reader gives something and leaves what follows the text, or it fails. -/
def Gives (read : Reader α) (v : List Char) (given : Option α) : Prop :=
  ∀ (b : Blanks) (t : List Char), Ends t → (read (b.chars ++ (v ++ t))).toOption = given.map (·, t)

/-- A reader fails at a character. -/
def Refuses (read : Reader α) (c : Char) : Prop :=
  ∀ (b : Blanks) (s : List Char), (read (b.chars ++ c :: s)).toOption = none

theorem Refuses.gives {c : Char} (h : Refuses read c) (r : List Char) : Gives read (c :: r) none :=
  fun b t _ => h b (r ++ t)

theorem Gives.result {given : Option α} (h : Gives read v given) : result read v = given := by
  have hread := h Blanks.none [] nofun
  rw [Blanks.none, List.nil_append, List.append_nil] at hread
  rw [Json.result, readAll, toOption_bind, hread]
  cases given <;> rfl

/-- In front of a value, what a reader gives depends on the value alone. -/
structure TakesValues (read : Reader α) : Prop where
  value : ∀ {v}, IsValue v → ∃ given, Gives read v given
  closing : Refuses read ']'

theorem TakesValues.gives (h : TakesValues read) (hv : IsValue v) : Gives read v (result read v) := by
  obtain ⟨given, hgiven⟩ := h.value hv
  rw [hgiven.result]
  exact hgiven

end

/-! ### Conversions -/

/-- Converts what is read, or refuses it. -/
def converted {α β : Type} (read : Reader α) (f : α → Except Fault β) : Reader β := fun s => do
  let (a, rest) ← read s
  let value ← f a
  return (value, rest)

section
variable {α β : Type} {read : Reader α}

theorem Gives.converted {v : List Char} {given : Option α} (h : Gives read v given) (f : α → Except Fault β) :
    Gives (converted read f) v (given.bind fun a => (f a).toOption) := by
  intro b t ht
  rw [Json.converted, toOption_bind, h b t ht]
  cases given with
  | none => rfl
  | some a =>
    change (f a >>= fun value => pure (value, t)).toOption = (f a).toOption.map (·, t)
    cases f a <;> rfl

theorem result_converted {v : List Char} {given : Option α} (h : Gives read v given) (f : α → Except Fault β) :
    result (Json.converted read f) v = given.bind fun a => (f a).toOption :=
  (h.converted f).result

theorem Refuses.converted {c : Char} (h : Refuses read c) (f : α → Except Fault β) : Refuses (converted read f) c := by
  intro b s
  rw [Json.converted, toOption_bind, h b s]
  rfl

theorem TakesValues.converted (h : TakesValues read) (f : α → Except Fault β) : TakesValues (converted read f) where
  value hv := ⟨_, (h.gives hv).converted f⟩
  closing := h.closing.converted f

end

/-! ### Scalars -/

theorem refuses_number {c : Char} (hblank : isBlank c = false) (hsign : c ≠ '-') (hdigit : c.isDigit = false) :
    Refuses number c := by
  intro b s
  rw [number, skipBlanks_to b hblank]
  split
  · exact absurd (List.cons.inj ‹_›).1 hsign
  · rw [Number.unsigned, hdigit]
    rfl

theorem gives_number (n : NumberText) : Gives number n.text n.number.toOption := by
  intro b t ht
  rw [NumberText.number_text b ht]
  cases n.number <;> rfl

theorem takesValues_number : TakesValues number where
  value hv := by
    cases hv with
    | number n => exact ⟨_, gives_number n⟩
    | _ => exact ⟨_, (refuses_number (by decide) (by decide) (by decide)).gives _⟩
  closing := refuses_number (by decide) (by decide) (by decide)

theorem refuses_expect {α : Type} {mark c : Char} (hblank : isBlank c = false) (hne : mark ≠ c)
    (next : List Char → Except Fault (α × List Char)) : Refuses (fun s => expect mark s >>= next) c := by
  intro b s
  change (expect mark _ >>= next).toOption = none
  rw [expect_ne b hblank hne]
  rfl

theorem refuses_string {c : Char} (hblank : isBlank c = false) (hne : '"' ≠ c) : Refuses string c :=
  refuses_expect hblank hne _

theorem gives_string (pieces : List Piece) :
    Gives string (literal pieces) ((Piece.meaning? pieces).map String.ofList) := by
  intro b t _
  rw [string_literal, Option.map_map]
  rfl

theorem takesValues_string : TakesValues string where
  value hv := by
    cases hv with
    | string pieces => exact ⟨_, gives_string pieces⟩
    | number n =>
      obtain ⟨c, r, htext, hblank, hne⟩ := n.exists_cons
      exact ⟨none, htext ▸ (refuses_string hblank (hne _ (by decide) rfl).symm).gives r⟩
    | _ => exact ⟨_, (refuses_string (by decide) (by decide)).gives _⟩
  closing := refuses_string (by decide) (by decide)

/-- The whole number of 64 bits with sign that a number is. -/
def int64Of : Number → Except Fault Int64
  | .int n =>
    if Int64.minValue.toInt ≤ n ∧ n ≤ Int64.maxValue.toInt then .ok (Int64.ofInt n) else .error .malformed
  | .real _ => .error .malformed

def uint64Of : Number → Except Fault UInt64
  | .int n => if 0 ≤ n ∧ n < UInt64.size then .ok (UInt64.ofNat n.toNat) else .error .malformed
  | .real _ => .error .malformed

def real64Of : Number → Except Fault Binary64
  | .int n => .ok (Binary64.ofInt n)
  | .real x => .ok x

theorem int64_eq : int64 = converted number int64Of := by
  funext s
  rw [int64, converted]
  congr 1
  funext ⟨n, rest⟩
  cases n with
  | int n =>
    simp only [int64Of]
    split <;> rfl
  | real x => rfl

theorem uint64_eq : uint64 = converted number uint64Of := by
  funext s
  rw [uint64, converted]
  congr 1
  funext ⟨n, rest⟩
  cases n with
  | int n =>
    simp only [uint64Of]
    split <;> rfl
  | real x => rfl

theorem real64_eq : real64 = converted number real64Of := by
  funext s
  rw [real64, converted]
  congr 1
  funext ⟨n, rest⟩
  cases n <;> rfl

theorem takesValues_int64 : TakesValues int64 :=
  int64_eq ▸ takesValues_number.converted _

theorem takesValues_uint64 : TakesValues uint64 :=
  uint64_eq ▸ takesValues_number.converted _

theorem takesValues_real64 : TakesValues real64 :=
  real64_eq ▸ takesValues_number.converted _

theorem refuses_nullWord {c : Char} (hblank : isBlank c = false) (hne : 'n' ≠ c) : Refuses nullWord c := by
  intro b s
  rw [nullWord, skipBlanks_to b hblank, expectWord, if_neg hne]
  rfl

theorem takesValues_nullWord : TakesValues nullWord where
  value hv := by
    cases hv with
    | nullWord =>
      refine ⟨some (), fun b t _ => ?_⟩
      rw [nullWord, List.cons_append, skipBlanks_to b (by decide)]
      rfl
    | number n =>
      obtain ⟨c, r, htext, hblank, hne⟩ := n.exists_cons
      exact ⟨none, htext ▸ (refuses_nullWord hblank (hne _ (by decide) rfl).symm).gives r⟩
    | _ => exact ⟨_, (refuses_nullWord (by decide) (by decide)).gives _⟩
  closing := refuses_nullWord (by decide) (by decide)

/-! ### Values that may be null -/

theorem optional_of_ne {α : Type} (read : Reader α) (b : Blanks) {c : Char} (hblank : isBlank c = false) (hne : c ≠ 'n')
    (s : List Char) : optional read (b.chars ++ c :: s) = converted read (.ok ∘ some) (b.chars ++ c :: s) := by
  rw [optional, skipBlanks_to b hblank]
  split
  · exact absurd (List.cons.inj ‹_›).1 hne
  · rfl

section
variable {α : Type} {read : Reader α}

theorem gives_optional_null : Gives (optional read) ['n', 'u', 'l', 'l'] (some none) := by
  intro b t _
  rw [optional, List.cons_append, skipBlanks_to b (by decide)]
  rfl

theorem IsValue.null_or_cons {v : List Char} (hv : IsValue v) :
    v = ['n', 'u', 'l', 'l'] ∨ ∃ c r, v = c :: r ∧ isBlank c = false ∧ c ≠ 'n' := by
  cases hv with
  | nullWord => exact Or.inl rfl
  | number n =>
    obtain ⟨c, r, htext, hblank, hne⟩ := n.exists_cons
    exact Or.inr ⟨c, r, htext, hblank, hne _ (by decide) rfl⟩
  | _ => exact Or.inr ⟨_, _, rfl, by decide⟩

theorem gives_optional (h : TakesValues read) {v : List Char} (hv : IsValue v) (hne : v ≠ ['n', 'u', 'l', 'l']) :
    Gives (optional read) v ((result read v).map some) := by
  obtain ⟨c, r, rfl, hblank, hn⟩ := hv.null_or_cons.resolve_left hne
  intro b t ht
  have hgives := (h.gives hv).converted (.ok ∘ some) b t ht
  rw [List.cons_append] at hgives ⊢
  rw [optional_of_ne read b hblank hn, hgives]
  cases result read (c :: r) <;> rfl

theorem takesValues_optional (h : TakesValues read) : TakesValues (optional read) where
  value {v} hv := by
    by_cases hne : v = ['n', 'u', 'l', 'l']
    · exact ⟨_, hne ▸ gives_optional_null⟩
    · exact ⟨_, gives_optional h hv hne⟩
  closing := by
    intro b s
    rw [optional_of_ne read b (by decide) (by decide)]
    exact h.closing.converted _ b s

end

/-! ### Lists -/

section
variable {σ ι : Type} {item : σ → Reader σ} {closing : Char} {text : ι → List Char} {step : σ → ι → Option σ}

/-- A part between brackets is read up to blanks before the mark behind it. -/
def TakesPart (item : σ → Reader σ) (closing : Char) (part : List Char) (step : σ → Option σ) : Prop :=
  ∀ acc, ∃ after : Blanks, ∀ c t, c = ',' ∨ c = closing →
    (item acc (part ++ c :: t)).toOption = (step acc).map (·, after.chars ++ c :: t)

theorem length_le_intercalate (parts : List (List Char)) : parts.length ≤ ([','].intercalate parts).length + 1 := by
  induction parts with
  | nil => exact Nat.zero_le _
  | cons part parts ih =>
    cases parts with
    | nil => simp
    | cons next parts =>
      rw [List.intercalate_cons_cons]
      simp only [List.length_append, List.length_cons] at ih ⊢
      omega

/-- The parts are read one after the other. -/
theorem separated_parts (hclosing : isBlank closing = false) (hcomma : closing ≠ ',') {part : ι} {parts : List ι}
    (hitem : ∀ p ∈ part :: parts, TakesPart item closing (text p) (step · p)) (acc : σ) (t : List Char) {fuel : Nat}
    (hfuel : parts.length < fuel) :
    (separated closing item fuel acc ([','].intercalate ((part :: parts).map text) ++ closing :: t)).toOption =
      ((part :: parts).foldlM step acc).map (·, t) := by
  obtain ⟨fuel, rfl⟩ := Nat.exists_eq_add_of_lt hfuel
  induction parts generalizing part acc fuel with
  | nil =>
    obtain ⟨after, hafter⟩ := hitem part List.mem_cons_self acc
    beta_reduce at hafter
    rw [List.map_singleton, List.intercalate_singleton, List.length_nil, Nat.zero_add, separated, toOption_bind,
      hafter closing t (Or.inr rfl), List.foldlM_cons]
    cases step acc part with
    | none => rfl
    | some acc => simp [skipBlanks_to after hclosing, hcomma, Except.toOption]
  | cons next parts ih =>
    obtain ⟨hpart, hparts⟩ := List.forall_mem_cons.mp hitem
    obtain ⟨after, hafter⟩ := hpart acc
    beta_reduce at hafter
    rw [List.map_cons, List.map_cons, List.intercalate_cons_cons, List.append_assoc, List.append_assoc,
      List.singleton_append, separated, toOption_bind, hafter ',' _ (Or.inl rfl), List.foldlM_cons]
    cases step acc part with
    | none => rfl
    | some acc =>
      have hcount : (next :: parts).length + fuel = parts.length + fuel + 1 := by
        rw [List.length_cons]
        omega
      have hrest := ih hparts acc fuel (by omega)
      rw [← hcount] at hrest
      simpa [skipBlanks_to after (show isBlank ',' = false by decide)] using hrest

/-- The parts between brackets are read one after the other, from behind the opening bracket to behind the closing
    one. -/
theorem enclosed_parts (item : σ → Reader σ) (text : ι → List Char) (step : σ → ι → Option σ)
    (hclosing : isBlank closing = false) (hcomma : closing ≠ ',') (inner : Blanks) {parts : List ι}
    (hitem : ∀ p ∈ parts, TakesPart item closing (text p) (step · p))
    (hfirst : ∀ p ∈ parts, ∀ s, ∃ c r, skipBlanks (text p ++ s) = c :: r ∧ c ≠ closing) (start : σ) (t : List Char) :
    (enclosed closing item start ((if parts.map text = [] then inner.chars else [','].intercalate (parts.map text)) ++
      closing :: t)).toOption = (parts.foldlM step start).map (·, t) := by
  cases parts with
  | nil =>
    rw [List.map_nil, if_pos rfl, enclosed, skipBlanks_to inner hclosing]
    simp [Except.toOption]
  | cons part parts =>
    have hcount := length_le_intercalate ((part :: parts).map text)
    have hjoined : ∃ s, [','].intercalate ((part :: parts).map text) ++ closing :: t = text part ++ s := by
      cases parts with
      | nil => exact ⟨_, by rw [List.map_singleton, List.intercalate_singleton]⟩
      | cons next parts =>
        exact ⟨_, by rw [List.map_cons, List.map_cons, List.intercalate_cons_cons, List.append_assoc,
          List.append_assoc]⟩
    obtain ⟨s, hs⟩ := hjoined
    obtain ⟨c, r, hskip, hne⟩ := hfirst part List.mem_cons_self s
    have hskip' := hs ▸ hskip
    rw [if_neg (by simp), enclosed, hskip']
    simp only [if_neg hne]
    refine separated_parts hclosing hcomma hitem start t ?_
    simp only [List.length_map, List.length_cons, List.length_append] at hcount ⊢
    omega

end

/-! ### Lists of values -/

section
variable {α : Type} {read : Reader α}

/-- Reads one more item of a list. -/
def oneMore (read : Reader α) (acc : List α) : Reader (List α) := fun s => do
  let (value, rest) ← read s
  return (value :: acc, rest)

theorem takesPart_item (h : TakesValues read) {item : Padded} (hv : IsValue item.core) :
    TakesPart (oneMore read) ']' item.text fun acc => (result read item.core).map (· :: acc) := by
  refine fun acc => ⟨item.after, fun c t hc => ?_⟩
  have hends : Ends (c :: t) := ends_mark (hc.imp_right Or.inl) t
  have htext : item.text ++ c :: t = item.before.chars ++ (item.core ++ (item.after.chars ++ c :: t)) := by
    simp [Padded.text]
  rw [oneMore, htext, toOption_bind, h.gives hv _ _ (hends.blanks item.after)]
  cases result read item.core <;> rfl

theorem foldlM_oneMore (f : Padded → Option α) (items : List Padded) (acc : List α) :
    items.foldlM (fun acc item => (f item).map (· :: acc)) acc = (items.mapM f).map (·.reverse ++ acc) := by
  induction items generalizing acc with
  | nil => rfl
  | cons item items ih =>
    rw [List.foldlM_cons, List.mapM_cons]
    cases f item with
    | none => rfl
    | some a =>
      simp [ih]
      cases items.mapM f <;> simp

theorem first_padded {item : Padded} (hv : IsValue item.core) (s : List Char) :
    ∃ c r, skipBlanks (item.text ++ s) = c :: r ∧ c ≠ ']' := by
  obtain ⟨c, r, hcore, hblank, hclosing⟩ := hv.exists_cons
  refine ⟨c, r ++ (item.after.chars ++ s), ?_, hclosing⟩
  rw [Padded.text, hcore, List.append_assoc, List.append_assoc, List.cons_append, skipBlanks_to _ hblank]

theorem gives_array (h : TakesValues read) (inner : Blanks) {items : List Padded}
    (hv : ∀ item ∈ items, IsValue item.core) :
    Gives (array read) (listText inner items) (items.mapM fun item => result read item.core) := by
  intro b t _
  have hread := enclosed_parts (oneMore read) Padded.text
    (fun acc item => (result read item.core).map (· :: acc)) (by decide) (by decide) inner
    (fun item hitem => takesPart_item h (hv item hitem)) (fun item hitem => first_padded (hv item hitem)) [] t
  rw [foldlM_oneMore] at hread
  rw [array, listText, enclose, List.cons_append, List.append_assoc, expect_to b (by decide)]
  change (enclosed ']' (oneMore read) [] _ >>= _).toOption = _
  rw [toOption_bind, List.singleton_append, hread]
  cases items.mapM fun item => result read item.core with
  | none => rfl
  | some values => simp [Except.toOption, pure, Except.pure]

theorem refuses_array {c : Char} (hblank : isBlank c = false) (hne : '[' ≠ c) : Refuses (array read) c :=
  refuses_expect hblank hne _

theorem takesValues_array (h : TakesValues read) : TakesValues (array read) where
  value hv := by
    cases hv with
    | list inner items values => exact ⟨_, gives_array h inner values⟩
    | number n =>
      obtain ⟨c, r, htext, hblank, hne⟩ := n.exists_cons
      exact ⟨none, htext ▸ (refuses_array hblank (hne _ (by decide) rfl).symm).gives r⟩
    | _ => exact ⟨_, (refuses_array (by decide) (by decide)).gives _⟩
  closing := refuses_array (by decide) (by decide)

end

end SyntheticRows.Json
