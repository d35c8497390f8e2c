import SyntheticRows.Proofs.Toml.Scanning

/-!
Reading TOML documents that the grammar describes. A value is read as the value of its expression, if it has one, and
the statements of a document are those of its clauses (`parse?_of_isDocument`): the layout makes no difference.
-/

namespace SyntheticRows.Toml

/-! ### Meanings -/

/-- An assignment, if its key is not too long and its value has a meaning. -/
def assignmentOf? (meaning : Expr → Option Value) (member : Key × Expr) : Option Assignment :=
  if member.1.names.length < depthLimit then (meaning member.2).map (member.1, ·) else none

namespace Expr

/-- The value of an expression that nests at most so deep. -/
def value? : (depth : ℕ) → Expr → Option Value
  | _, .text value => some (.text value)
  | _, .token s => ofToken? s
  | _, .moment d t => some (.time (String.ofList (d ++ ' ' :: t)))
  | 0, .list _ | 0, .inline _ => none
  | depth + 1, .list items => (items.mapM (value? depth)).map .list
  | depth + 1, .inline members =>
    (members.mapM (assignmentOf? (value? depth))).bind fun assignments =>
      (assignAll assignments []).map (.table .inline)

end Expr

namespace Clause

def statement? : Clause → Option Statement
  | .assign key value => (assignmentOf? (Expr.value? (depthLimit - 1)) (key, value)).map .assign
  | .opens opening name => if name.names.length < depthLimit then some (.opens opening name) else none

end Clause

/-! ### Ends of values -/

/-- A text in front of which a value ends: blanks, and then nothing or a mark that goes on behind a value. -/
def EndsValue (t : List Char) : Prop :=
  ∃ b r, t = b ++ r ∧ IsBlanks b ∧ ∀ c ∈ r.head?, c ∈ [',', ']', '\x7d', '#', '\n', '\r']

theorem isBlanks_nil : IsBlanks [] :=
  nofun

theorem IsBlanks.endsValue {b : List Char} (h : IsBlanks b) {c : Char} (hc : c ∈ [',', ']', '\x7d', '#', '\n', '\r'])
    (t : List Char) : EndsValue (b ++ c :: t) := by
  refine ⟨b, c :: t, rfl, h, ?_⟩
  rintro d ⟨⟩
  exact hc

theorem IsMargin.endsValue {m t : List Char} (h : IsMargin m) (ht : EndsLine t) : EndsValue (m ++ t) := by
  cases h with
  | blanks hb =>
    refine ⟨m, t, rfl, hb, fun c hc => ?_⟩
    rcases ht c hc with rfl | rfl <;> decide
  | comment hb hs =>
    rw [List.append_assoc, List.cons_append]
    exact hb.endsValue (by decide) _

theorem IsGap.endsValue {g : List Char} (h : IsGap g) {c : Char} (hc : c = ',' ∨ c = ']') (t : List Char) :
    EndsValue (g ++ c :: t) := by
  cases h with
  | blanks hb => exact hb.endsValue (by rcases hc with rfl | rfl <;> decide) t
  | line hm hn _ =>
    rw [List.append_assoc, List.append_assoc]
    exact hm.endsValue (hn.endsLine _)

/-- Neither a value without quotes nor a string goes on. -/
theorem EndsValue.head {t : List Char} (h : EndsValue t) : ∀ c ∈ t.head?, isTokenChar c = false ∧ ¬IsQuote c := by
  obtain ⟨b, r, rfl, hb, hr⟩ := h
  intro c hc
  cases b with
  | nil =>
    have hmem := hr c hc
    simp only [List.mem_cons, List.not_mem_nil, or_false] at hmem
    rcases hmem with rfl | rfl | rfl | rfl | rfl | rfl <;>
      exact ⟨by decide, not_isQuote (by decide) (by decide)⟩
  | cons _ b =>
    cases hc
    rcases isBlank_eq_true_iff.mp (hb c List.mem_cons_self) with rfl | rfl <;>
      exact ⟨by decide, not_isQuote (by decide) (by decide)⟩

theorem EndsValue.tail {t : List Char} (h : EndsValue (' ' :: t)) : EndsValue t := by
  obtain ⟨b, r, heq, hb, hr⟩ := h
  cases b with
  | nil =>
    have hmem := hr ' ' (by rw [← List.nil_append r, ← heq]; rfl)
    cases List.mem_cons.mp hmem with
    | inl h => cases h
    | inr h => exact absurd h (by decide)
  | cons d b =>
    obtain ⟨rfl, rfl⟩ := List.cons.inj heq
    exact ⟨b, r, rfl, fun c hc => hb c (List.mem_cons_of_mem _ hc), hr⟩

/-! ### Values without quotes -/

theorem EndsValue.takeWhile_eq_nil {t : List Char} (h : EndsValue t) : t.takeWhile isTokenChar = [] := by
  cases t with
  | nil => rfl
  | cons c t => exact List.takeWhile_cons_of_neg (by simp [(h.head c rfl).1])

theorem EndsValue.dropWhile_eq {t : List Char} (h : EndsValue t) : t.dropWhile isTokenChar = t := by
  cases t with
  | nil => rfl
  | cons c t => exact List.dropWhile_cons_of_neg (by simp [(h.head c rfl).1])

theorem IsToken.takeWhile_append {s : List Char} (h : IsToken s) (t : List Char) :
    (s ++ t).takeWhile isTokenChar = s ++ t.takeWhile isTokenChar :=
  List.takeWhile_append_of_pos h.chars

theorem IsToken.dropWhile_append {s : List Char} (h : IsToken s) (t : List Char) :
    (s ++ t).dropWhile isTokenChar = t.dropWhile isTokenChar :=
  List.dropWhile_append_of_pos h.chars

theorem IsToken.scalar?_append {s t : List Char} (h : IsToken s) (ht : EndsValue t) :
    scalar? (s ++ t) = (ofToken? s).map (·, t) := by
  rw [scalar?, h.takeWhile_append, h.dropWhile_append, ht.takeWhile_eq_nil, ht.dropWhile_eq, List.append_nil]
  cases ofToken? s with
  | none => rfl
  | some value =>
    simp only [Option.bind_eq_bind, Option.bind_some, Option.map_some]
    split
    · rename_i after
      have hnone : ¬(date? s = some [] ∧ isTimeWithOffset [] = true) := fun h => absurd h.2 (by decide)
      rw [ht.tail.takeWhile_eq_nil, if_neg hnone]
    · rfl

theorem exists_ofToken?_of_date {d : List Char} (h : date? d = some []) : ∃ value, ofToken? d = some value := by
  have htime : isTime d = true := by
    rw [isTime, h]
    simp
  rw [ofToken?, if_pos htime]
  split
  · exact ⟨_, rfl⟩
  split <;> exact ⟨_, rfl⟩

theorem scalar?_moment {d s t : List Char} (hd : IsToken d) (hs : IsToken s) (hdate : date? d = some [])
    (htime : isTimeWithOffset s) (ht : EndsValue t) :
    scalar? (d ++ ' ' :: (s ++ t)) = some (.time (String.ofList (d ++ ' ' :: s)), t) := by
  have hspace : isTokenChar ' ' = false := by decide
  obtain ⟨value, hvalue⟩ := exists_ofToken?_of_date hdate
  rw [scalar?, hd.takeWhile_append, hd.dropWhile_append, List.takeWhile_cons_of_neg (by simp [hspace]),
    List.dropWhile_cons_of_neg (by simp [hspace]), List.append_nil, hvalue]
  simp only [Option.bind_eq_bind, Option.bind_some]
  rw [hs.takeWhile_append, hs.dropWhile_append, ht.takeWhile_eq_nil, ht.dropWhile_eq, List.append_nil,
    if_pos ⟨hdate, htime⟩]

/-! ### Expressions -/

/-- A character with which a value begins. -/
def StartsExpr (c : Char) : Prop :=
  isTokenChar c ∨ c ∈ ['"', '\'', '[', '\x7b']

theorem StartsExpr.ne {c d : Char} (h : StartsExpr c) (hd : isTokenChar d = false ∧ d ∉ ['"', '\'', '[', '\x7b']) :
    c ≠ d := by
  rintro rfl
  rcases h with h | h
  · rw [hd.1] at h
    cases h
  · exact hd.2 h

theorem StartsExpr.isSolid {c : Char} (h : StartsExpr c) : IsSolid c where
  not_isBlank := by
    rw [Bool.eq_false_iff]
    intro hblank
    rcases isBlank_eq_true_iff.mp hblank with hc | hc <;> exact h.ne (by decide) hc
  ne_hash := h.ne (by decide)
  ne_newline := h.ne (by decide)
  ne_return := h.ne (by decide)

theorem IsExpr.exists_cons {s : List Char} {e : Expr} (h : IsExpr s e) : ∃ c rest, s = c :: rest ∧ StartsExpr c := by
  have hquote {q : Char} (hq : IsQuote q) : StartsExpr q := by
    rcases hq with rfl | rfl <;> exact .inr (by decide)
  have htoken {s : List Char} (hs : IsToken s) (t : List Char) : ∃ c rest, s ++ t = c :: rest ∧ StartsExpr c := by
    obtain ⟨c, rest, rfl⟩ := List.exists_cons_of_ne_nil hs.ne_nil
    exact ⟨c, rest ++ t, rfl, .inl (hs.chars c List.mem_cons_self)⟩
  cases h with
  | text hs =>
    cases hs with
    | line hq _ => exact ⟨_, _, rfl, hquote hq⟩
    | block hq _ _ => exact ⟨_, _, rfl, hquote hq⟩
  | token hs => simpa using htoken hs []
  | moment hd _ _ _ => exact htoken hd _
  | list _ => exact ⟨_, _, rfl, .inr (by decide)⟩
  | empty _ => exact ⟨_, _, rfl, .inr (by decide)⟩
  | inline _ => exact ⟨_, _, rfl, .inr (by decide)⟩

/-- A reader of items that reads an expression in front of an end of values, and gives its meaning. -/
def ReadsExpr (item : Reader Value) (meaning : Expr → Option Value) : Prop :=
  ∀ s e, IsExpr s e → ∀ t, EndsValue t → item (s ++ t) = (meaning e).map (·, t)

section
variable {item : Reader Value} {meaning : Expr → Option Value}

theorem skipLines_expr {g s : List Char} {e : Expr} (hg : IsGap g) (hs : IsExpr s e) (t : List Char) :
    skipLines false (g ++ (s ++ t)) = s ++ t := by
  obtain ⟨c, rest, rfl, hc⟩ := hs.exists_cons
  exact hg.skipLines_to hc.isSolid _

theorem IsExpr.append_ne {s : List Char} {e : Expr} (hs : IsExpr s e) {d : Char}
    (hd : isTokenChar d = false ∧ d ∉ ['"', '\'', '[', '\x7b']) (t rest : List Char) : s ++ t ≠ d :: rest := by
  obtain ⟨c, s, rfl, hc⟩ := hs.exists_cons
  exact fun heq => hc.ne hd (List.cons.inj heq).1

theorem listItems?_append (hitem : ReadsExpr item meaning) {s : List Char} {items : List Expr}
    (h : IsItems IsExpr s items) {fuel : ℕ} (hfuel : s.length ≤ fuel) (reversed : List Value) (t : List Char) :
    listItems? item fuel reversed (s ++ t) =
      (items.mapM meaning).map fun values => (.list (reversed.reverse ++ values), t) := by
  induction h generalizing fuel reversed with
  | @close g hg =>
    obtain ⟨fuel, rfl⟩ : ∃ m, fuel = m + 1 := ⟨fuel - 1, by simp at hfuel; omega⟩
    rw [List.append_assoc, List.singleton_append, listItems?, hg.skipLines_to (by constructor <;> decide)]
    simp
  | @last g s g' e hg hs hg' =>
    obtain ⟨fuel, rfl⟩ : ∃ m, fuel = m + 1 := ⟨fuel - 1, by simp at hfuel; omega⟩
    have hsplit : g ++ (s ++ (g' ++ [']'])) ++ t = g ++ (s ++ (g' ++ ']' :: t)) := by simp
    rw [hsplit, listItems?, skipLines_expr hg hs]
    split
    · rename_i heq
      exact absurd heq (hs.append_ne (by decide) _ _)
    rw [hitem s e hs _ (hg'.endsValue (.inr rfl) t), List.mapM_cons]
    cases meaning e with
    | none => rfl
    | some value =>
      simp only [Option.bind_eq_bind, Option.bind_some, Option.map_some,
        hg'.skipLines_to (c := ']') (by constructor <;> decide)]
      simp
  | @comma g s g' r e items hg hs hg' _ ih =>
    obtain ⟨fuel, rfl⟩ : ∃ m, fuel = m + 1 := ⟨fuel - 1, by simp at hfuel; omega⟩
    have hsplit : g ++ (s ++ (g' ++ ',' :: r)) ++ t = g ++ (s ++ (g' ++ ',' :: (r ++ t))) := by simp
    rw [hsplit, listItems?, skipLines_expr hg hs]
    split
    · rename_i heq
      exact absurd heq (hs.append_ne (by decide) _ _)
    rw [hitem s e hs _ (hg'.endsValue (.inl rfl) _), List.mapM_cons]
    cases meaning e with
    | none => rfl
    | some value =>
      simp only [Option.bind_eq_bind, Option.bind_some, Option.map_some,
        hg'.skipLines_to (c := ',') (by constructor <;> decide)]
      rw [ih (by simp only [List.length_append, List.length_cons] at hfuel; omega)]
      cases items.mapM meaning <;> simp

/-! ### Tables between braces -/

theorem assignment?_append (hitem : ReadsExpr item meaning) {b s : List Char} {key : Key} {value : Expr}
    (hb : IsBlanks b) (h : IsAssignment IsExpr s key value) {t : List Char} (ht : EndsValue t) :
    assignment? item (b ++ (s ++ t)) = (assignmentOf? meaning (key, value)).map (·, t) := by
  cases h with
  | @intro k b₁ b₂ s key value hk hb₁ hb₂ hs =>
    have hsplit : b ++ (k ++ (b₁ ++ '=' :: (b₂ ++ s)) ++ t) = b ++ (k ++ (b₁ ++ '=' :: (b₂ ++ (s ++ t)))) := by simp
    have hskip : skipBlanks (b₂ ++ (s ++ t)) = s ++ t := by
      obtain ⟨c, s, rfl, hc⟩ := hs.exists_cons
      exact hb₂.skipBlanks_to hc.isSolid.not_isBlank _
    rw [hsplit, assignment?, key?_append hk hb hb₁ (.inl rfl), assignmentOf?]
    split
    · simp only [Option.bind_eq_bind, Option.bind_some, hskip, hitem s value hs t ht]
      cases meaning value <;> rfl
    · rfl

theorem inlineAssignments?_append (hitem : ReadsExpr item meaning) {s : List Char} {members : List (Key × Expr)}
    (h : IsMembers IsExpr s members) {fuel : ℕ} (hfuel : s.length ≤ fuel) (reversed : List Assignment)
    (t : List Char) :
    inlineAssignments? item fuel reversed (s ++ t) =
      (members.mapM (assignmentOf? meaning)).map fun assignments =>
        (reversed.reverse ++ assignments, t) := by
  induction h generalizing fuel reversed with
  | @last b s b' key value hb hs hb' =>
    obtain ⟨fuel, rfl⟩ : ∃ m, fuel = m + 1 := ⟨fuel - 1, by simp at hfuel; omega⟩
    have hsplit : b ++ (s ++ (b' ++ ['\x7d'])) ++ t = b ++ (s ++ (b' ++ '\x7d' :: t)) := by simp
    rw [hsplit, inlineAssignments?, assignment?_append hitem hb hs (hb'.endsValue (by decide) t), List.mapM_cons]
    cases assignmentOf? meaning (key, value) with
    | none => rfl
    | some assignment =>
      simp only [Option.bind_eq_bind, Option.bind_some, Option.map_some, hb'.skipBlanks_to (c := '\x7d') (by decide)]
      simp
  | @comma b s b' r key value members hb hs hb' _ ih =>
    obtain ⟨fuel, rfl⟩ : ∃ m, fuel = m + 1 := ⟨fuel - 1, by simp at hfuel; omega⟩
    have hsplit : b ++ (s ++ (b' ++ ',' :: r)) ++ t = b ++ (s ++ (b' ++ ',' :: (r ++ t))) := by simp
    rw [hsplit, inlineAssignments?, assignment?_append hitem hb hs (hb'.endsValue (by decide) _), List.mapM_cons]
    cases assignmentOf? meaning (key, value) with
    | none => rfl
    | some assignment =>
      simp only [Option.bind_eq_bind, Option.bind_some, Option.map_some, hb'.skipBlanks_to (c := ',') (by decide)]
      rw [ih (by simp only [List.length_append, List.length_cons] at hfuel; omega)]
      cases members.mapM (assignmentOf? meaning) <;> simp

theorem IsAssignment.exists_cons {IsItem : List Char → Expr → Prop} {s : List Char} {key : Key} {value : Expr}
    (h : IsAssignment IsItem s key value) : ∃ c rest, s = c :: rest ∧ StartsKey c := by
  cases h with
  | intro hk _ _ _ =>
    obtain ⟨c, rest, rfl, hc⟩ := hk.exists_cons
    exact ⟨c, _, rfl, hc⟩

/-- Blanks before the members of a table do not matter. -/
theorem IsMembers.skipBlanks {s : List Char} {members : List (Key × Expr)} (h : IsMembers IsExpr s members)
    (t : List Char) : ∃ s', skipBlanks (s ++ t) = s' ++ t ∧ IsMembers IsExpr s' members ∧
      ∀ rest, s' ++ t ≠ '\x7d' :: rest := by
  cases h with
  | @last b s b' key value hb hs hb' =>
    obtain ⟨c, rest, rfl, hc⟩ := hs.exists_cons
    refine ⟨[] ++ (c :: rest ++ (b' ++ ['\x7d'])), ?_, .last isBlanks_nil hs hb', fun _ heq => ?_⟩
    · rw [List.append_assoc, List.nil_append, List.cons_append, List.cons_append,
        hb.skipBlanks_to hc.isSolid.not_isBlank]
    · exact hc.ne (by decide) (not_isQuote (by decide) (by decide)) (List.cons.inj heq).1
  | @comma b s b' r key value members hb hs hb' hrest =>
    obtain ⟨c, rest, rfl, hc⟩ := hs.exists_cons
    refine ⟨[] ++ (c :: rest ++ (b' ++ ',' :: r)), ?_, .comma isBlanks_nil hs hb' hrest, fun _ heq => ?_⟩
    · rw [List.append_assoc, List.nil_append, List.cons_append, List.cons_append,
        hb.skipBlanks_to hc.isSolid.not_isBlank]
    · exact hc.ne (by decide) (not_isQuote (by decide) (by decide)) (List.cons.inj heq).1

theorem inlineTable?_append (hitem : ReadsExpr item meaning) {s : List Char} {members : List (Key × Expr)}
    (h : IsMembers IsExpr s members) (t : List Char) :
    inlineTable? item (s ++ t) =
      ((members.mapM (assignmentOf? meaning)).bind fun assignments =>
        (assignAll assignments []).map (.table .inline)).map (·, t) := by
  obtain ⟨s', hskip, hs', hne⟩ := h.skipBlanks t
  rw [inlineTable?, hskip]
  split
  · rename_i heq
    exact absurd heq (hne _)
  rw [inlineAssignments?_append hitem hs' (by simp)]
  cases members.mapM (assignmentOf? meaning) with
  | none => rfl
  | some assignments =>
    simp only [Option.bind_eq_bind, Option.bind_some, Option.map_some, List.reverse_nil, List.nil_append]
    cases assignAll assignments [] <;> rfl

end

/-! ### Values -/

theorem value?_token {c : Char} (hc : isTokenChar c) (depth : ℕ) (s : List Char) :
    Toml.value? depth (c :: s) = scalar? (c :: s) := by
  have hne : ∀ d : Char, isTokenChar d = false → ∀ rest, c :: s ≠ d :: rest := by
    rintro _ hd rest ⟨⟩
    rw [hd] at hc
    cases hc
  cases depth with
  | zero => rw [Toml.value?] <;> exact hne _ (by decide)
  | succ depth => rw [Toml.value?] <;> exact hne _ (by decide)

theorem IsToken.value?_append {s : List Char} (h : IsToken s) (depth : ℕ) (t : List Char) :
    Toml.value? depth (s ++ t) = scalar? (s ++ t) := by
  obtain ⟨c, s, rfl⟩ := List.exists_cons_of_ne_nil h.ne_nil
  exact value?_token (h.chars c List.mem_cons_self) depth _

theorem value?_quote {q : Char} (hq : IsQuote q) (depth : ℕ) (s : List Char) :
    Toml.value? depth (q :: s) = (string? (q :: s)).map fun (text, rest) => (.text text, rest) := by
  rcases hq with rfl | rfl <;> cases depth <;> rw [Toml.value?]

theorem value?_string {s : List Char} {value : String} (h : IsString s value) (depth : ℕ) {t : List Char}
    (ht : EndsValue t) : Toml.value? depth (s ++ t) = some (.text value, t) := by
  have hread := h.string?_append fun c hc => (ht.head c hc).2
  cases h with
  | line hq _ =>
    rw [List.cons_append] at hread ⊢
    rw [value?_quote hq, hread]
    rfl
  | block hq _ _ =>
    rw [List.cons_append] at hread ⊢
    rw [value?_quote hq, hread]
    rfl

theorem value?_zero {c : Char} (hc : c = '[' ∨ c = '\x7b') (s : List Char) : Toml.value? 0 (c :: s) = none := by
  rcases hc with rfl | rfl
  · rw [Toml.value?.eq_3 _ (by simp) (by simp)]
    rfl
  · rw [Toml.value?.eq_3 _ (by simp) (by simp)]
    rfl

/-- Reading an expression gives its value. The induction is on the depth, since what is nested is read with less. -/
theorem readsExpr_value? (depth : ℕ) : ReadsExpr (Toml.value? depth) (Expr.value? depth) := by
  induction depth with
  | zero =>
    intro s e h t ht
    cases h with
    | text hs => simp [Expr.value?, value?_string hs 0 ht]
    | token hs => rw [hs.value?_append, hs.scalar?_append ht, Expr.value?]
    | moment hd hs hdate htime =>
      rw [List.append_assoc, List.cons_append, hd.value?_append, scalar?_moment hd hs hdate htime ht]
      simp [Expr.value?]
    | list _ => rw [List.cons_append, value?_zero (.inl rfl), Expr.value?, Option.map_none]
    | empty _ => rw [List.cons_append, value?_zero (.inr rfl), Expr.value?, Option.map_none]
    | inline _ => rw [List.cons_append, value?_zero (.inr rfl), Expr.value?, Option.map_none]
  | succ depth ih =>
    intro s e h t ht
    cases h with
    | text hs => simp [Expr.value?, value?_string hs (depth + 1) ht]
    | token hs => rw [hs.value?_append, hs.scalar?_append ht, Expr.value?]
    | moment hd hs hdate htime =>
      rw [List.append_assoc, List.cons_append, hd.value?_append, scalar?_moment hd hs hdate htime ht]
      simp [Expr.value?]
    | @list s items hs =>
      rw [List.cons_append, Toml.value?, listItems?_append ih hs (by simp; omega), Expr.value?]
      cases items.mapM (Expr.value? depth) <;> rfl
    | @empty b hb =>
      rw [List.cons_append, Toml.value?, List.append_assoc, List.singleton_append, inlineTable?,
        hb.skipBlanks_to (by decide), Expr.value?]
      rfl
    | inline hs => rw [List.cons_append, Toml.value?, inlineTable?_append ih hs, Expr.value?]

/-! ### Clauses -/

/-- A clause begins with a bracket or like a key. -/
theorem IsClause.exists_cons {s : List Char} {clause : Clause} (h : IsClause s clause) :
    ∃ c rest, s = c :: rest ∧ (c = '[' ∨ StartsKey c) := by
  cases h with
  | assign h =>
    obtain ⟨c, rest, rfl, hc⟩ := h.exists_cons
    exact ⟨c, rest, rfl, .inr hc⟩
  | single _ _ _ => exact ⟨_, _, rfl, .inl rfl⟩
  | repeated _ _ _ => exact ⟨_, _, rfl, .inl rfl⟩

theorem IsClause.exists_solid {s : List Char} {clause : Clause} (h : IsClause s clause) :
    ∃ c rest, s = c :: rest ∧ IsSolid c ∧ c ≠ '\ufeff' := by
  obtain ⟨c, rest, rfl, rfl | hc⟩ := h.exists_cons
  · exact ⟨_, _, rfl, by constructor <;> decide, by decide⟩
  · exact ⟨c, rest, rfl, hc.isSolid, hc.ne (by decide) (not_isQuote (by decide) (by decide))⟩

/-- A clause in its line is read as its statement, if it has one. -/
theorem statement?_append {s : List Char} {clause : Clause} (h : IsClause s clause) {t : List Char} (ht : EndsValue t) :
    statement? (s ++ t) = clause.statement?.bind fun statement => (lineEnd? t).map (statement, ·) := by
  cases h with
  | @assign s key value h =>
    have hread := assignment?_append (readsExpr_value? (depthLimit - 1)) isBlanks_nil h ht
    have hstart : ∀ rest, s ++ t ≠ '[' :: rest := by
      obtain ⟨c, rest, rfl, hc⟩ := h.exists_cons
      exact fun _ heq => hc.ne (by decide) (not_isQuote (by decide) (by decide)) (List.cons.inj heq).1
    rw [statement?.eq_3 _ (fun _ => hstart _) hstart, ← List.nil_append (s ++ t), hread, Clause.statement?]
    cases assignmentOf? (Expr.value? (depthLimit - 1)) (key, value) with
    | none => rfl
    | some assignment =>
      simp only [Option.bind_eq_bind, Option.bind_some, Option.map_some]
      cases lineEnd? t <;> rfl
  | @single b k b' key hb hk hb' =>
    have hsplit : '[' :: (b ++ (k ++ (b' ++ [']']))) ++ t = '[' :: (b ++ (k ++ (b' ++ ']' :: t))) := by simp
    have hstart : ∀ rest, b ++ (k ++ (b' ++ ']' :: t)) ≠ '[' :: rest := by
      intro rest heq
      cases b with
      | nil =>
        obtain ⟨c, k, rfl, hc⟩ := hk.exists_cons
        exact hc.ne (by decide) (not_isQuote (by decide) (by decide)) (List.cons.inj heq).1
      | cons c b =>
        have hblank := hb c List.mem_cons_self
        rw [(List.cons.inj heq).1] at hblank
        cases hblank
    rw [hsplit, statement?.eq_2 _ hstart, key?_append hk hb hb' (.inr rfl), Clause.statement?]
    split
    · simp only [Option.bind_eq_bind, Option.bind_some]
      cases lineEnd? t <;> rfl
    · rfl
  | @repeated b k b' key hb hk hb' =>
    have hsplit : '[' :: '[' :: (b ++ (k ++ (b' ++ [']', ']']))) ++ t =
        '[' :: '[' :: (b ++ (k ++ (b' ++ ']' :: ']' :: t))) := by simp
    rw [hsplit, statement?, key?_append hk hb hb' (.inr rfl), Clause.statement?]
    split
    · simp only [Option.bind_eq_bind, Option.bind_some]
      cases lineEnd? t <;> rfl
    · rfl

/-! ### Documents -/

theorem statements?_eq (fuel : ℕ) (reversed : List Statement) (s : List Char) :
    statements? fuel reversed s = (statements? fuel [] s).map (reversed.reverse ++ ·) := by
  induction fuel generalizing reversed s with
  | zero => rfl
  | succ fuel ih =>
    rw [statements?, statements?]
    split
    · simp
    · cases statement? (skipLines false s) with
      | none => rfl
      | some found =>
        simp only [Option.bind_eq_bind, Option.bind_some]
        rw [ih (found.1 :: reversed), ih [found.1]]
        cases statements? fuel [] found.2 <;> simp

/-- A text without the mark of the byte order before it. -/
def unmarked : List Char → List Char
  | '\ufeff' :: rest => rest
  | s => s

theorem parse?_eq (s : List Char) : parse? s =
    (statements? ((unmarked s).length + 1) [] (unmarked s)).bind fun statements =>
      (Document.ofStatements statements).table? := by
  rfl

theorem statements?_nil (fuel : ℕ) (reversed : List Statement) :
    statements? (fuel + 1) reversed [] = some reversed.reverse := by
  simp [statements?, skipLines]

/-- In front of a clause a document goes on with its statement. -/
theorem statements?_clause {g s : List Char} {clause : Clause} (hg : IsGap g) (h : IsClause s clause) {t : List Char}
    (ht : EndsValue t) (fuel : ℕ) : statements? (fuel + 1) [] (g ++ (s ++ t)) =
      clause.statement?.bind fun statement => (lineEnd? t).bind fun rest =>
        (statements? fuel [] rest).map (statement :: ·) := by
  have hread := statement?_append h ht
  obtain ⟨c, s, rfl, hc, -⟩ := h.exists_solid
  have hskip : skipLines false (g ++ (c :: s ++ t)) = c :: s ++ t := hg.skipLines_to hc _
  rw [statements?, hskip]
  split
  · rename_i heq
    cases heq
  rw [hread]
  cases clause.statement? with
  | none => rfl
  | some statement =>
    simp only [Option.bind_eq_bind, Option.bind_some]
    cases lineEnd? t with
    | none => rfl
    | some rest =>
      simp only [Option.map_some, Option.bind_some]
      rw [statements?_eq]
      rfl

theorem statements?_of_isDocument {text : List Char} {clauses : List Clause} (h : IsDocument text clauses) {fuel : ℕ}
    (hfuel : text.length < fuel) : statements? fuel [] text = clauses.mapM Clause.statement? := by
  induction h generalizing fuel with
  | empty hg hm =>
    obtain ⟨fuel, rfl⟩ : ∃ m, fuel = m + 1 := ⟨fuel - 1, by omega⟩
    rw [statements?, hg.skipLines_append, hm.skipLines_eq]
    rfl
  | @last g s m clause hg hs hm =>
    obtain ⟨c, rest, rfl, -⟩ := hs.exists_solid
    obtain ⟨fuel, rfl⟩ : ∃ m, fuel = m + 2 := ⟨fuel - 2, by simp at hfuel; omega⟩
    have hends : EndsValue m := by
      have := hm.endsValue endsLine_nil
      rwa [List.append_nil] at this
    rw [statements?_clause hg hs hends, hm.lineEnd?_eq, List.mapM_cons]
    simp [statements?_nil]
  | @line g s m n t clause clauses hg hs hm hn _ ih =>
    obtain ⟨c, rest, rfl, -⟩ := hs.exists_solid
    obtain ⟨fuel, rfl⟩ : ∃ m, fuel = m + 1 := ⟨fuel - 1, by omega⟩
    rw [statements?_clause hg hs (hm.endsValue (hn.endsLine t)), hm.lineEnd?_append hn, List.mapM_cons]
    simp only [Option.bind_some]
    rw [ih (by simp only [List.length_append, List.length_cons] at hfuel; omega)]
    cases clause.statement? with
    | none => rfl
    | some statement => cases clauses.mapM Clause.statement? <;> rfl

/-- A document begins with no mark of the byte order. -/
theorem unmarked_of_isDocument {text : List Char} {clauses : List Clause} (h : IsDocument text clauses) :
    unmarked text = text := by
  have hmark (rest : List Char) : skipLines false ('\ufeff' :: rest) = '\ufeff' :: rest :=
    IsSolid.skipLines_eq (by constructor <;> decide) rest
  have hclause {g s : List Char} {clause : Clause} (hg : IsGap g) (hs : IsClause s clause) (t rest : List Char) :
      g ++ (s ++ t) ≠ '\ufeff' :: rest := by
    intro heq
    obtain ⟨c, s, rfl, hc, hne⟩ := hs.exists_solid
    have hskip := hg.skipLines_to hc (s ++ t)
    rw [← List.cons_append, heq, hmark] at hskip
    exact hne (List.cons.inj hskip).1.symm
  unfold unmarked
  split
  · rename_i rest
    generalize htext : '\ufeff' :: rest = text at h
    cases h with
    | @empty g m hg hm =>
      have hskip := hg.skipLines_append m
      rw [hm.skipLines_eq, ← htext, hmark] at hskip
      cases hskip
    | last hg hs _ => exact absurd htext.symm (hclause hg hs _ _)
    | line hg hs _ _ _ => exact absurd htext.symm (hclause hg hs _ _)
  · rfl

/-- What a document means is a matter of its clauses. -/
theorem parse?_of_isDocument {text : List Char} {clauses : List Clause} (h : IsDocument text clauses) :
    parse? text = (clauses.mapM Clause.statement?).bind fun statements =>
      (Document.ofStatements statements).table? := by
  rw [parse?_eq, unmarked_of_isDocument h, statements?_of_isDocument h (Nat.lt_succ_self _)]

end SyntheticRows.Toml
