import SyntheticRows.Proofs.Toml.Grammar

/-!
Scanning TOML texts. Each reader of blanks, line ends, strings and keys takes just the text that the grammar gives it
off the front, whatever stands behind, and finds what the text means.
-/

namespace SyntheticRows.Toml

/-! ### Blanks and lines -/

theorem IsBlanks.skipBlanks_append {b : List Char} (h : IsBlanks b) (s : List Char) :
    skipBlanks (b ++ s) = skipBlanks s :=
  List.dropWhile_append_of_pos h

theorem skipBlanks_cons {c : Char} (h : isBlank c = false) (s : List Char) : skipBlanks (c :: s) = c :: s :=
  List.dropWhile_cons_of_neg (by simp [h])

theorem IsBlanks.skipBlanks_to {b : List Char} (h : IsBlanks b) {c : Char} (hc : isBlank c = false) (s : List Char) :
    skipBlanks (b ++ c :: s) = c :: s := by
  rw [h.skipBlanks_append, skipBlanks_cons hc]

theorem newline?_of_isLineBreak {n : List Char} (h : IsLineBreak n) (s : List Char) : newline? (n ++ s) = some s := by
  cases h <;> rfl

theorem isBlank_eq_true_iff {c : Char} : isBlank c = true ↔ c = ' ' ∨ c = '\t' := by
  simp [isBlank]

theorem not_isPrintable_newline {c : Char} (h : c = '\n' ∨ c = '\r') : isPrintable c = false := by
  rcases h with rfl | rfl <;> decide

/-- A text at which a line ends. -/
def EndsLine (s : List Char) : Prop :=
  ∀ c ∈ s.head?, c = '\n' ∨ c = '\r'

theorem endsLine_nil : EndsLine [] :=
  nofun

theorem IsLineBreak.endsLine {n : List Char} (h : IsLineBreak n) (s : List Char) : EndsLine (n ++ s) := by
  rintro c hc
  cases h <;> cases hc
  · exact .inl rfl
  · exact .inr rfl

theorem skipBlanks_of_endsLine {t : List Char} (h : EndsLine t) : skipBlanks t = t := by
  cases t with
  | nil => rfl
  | cons c t =>
    refine skipBlanks_cons ?_ t
    rcases h c rfl with rfl | rfl <;> decide

theorem dropWhile_isPrintable {s t : List Char} (hs : ∀ c ∈ s, isPrintable c) (ht : EndsLine t) :
    (s ++ t).dropWhile isPrintable = t := by
  rw [List.dropWhile_append_of_pos hs]
  cases t with
  | nil => rfl
  | cons c t => exact List.dropWhile_cons_of_neg (by simp [not_isPrintable_newline (ht c rfl)])

theorem IsMargin.skipComment_append {m t : List Char} (h : IsMargin m) (ht : EndsLine t) :
    skipComment (m ++ t) = t := by
  cases h with
  | blanks hb =>
    rw [skipComment, hb.skipBlanks_append, skipBlanks_of_endsLine ht]
    split
    · rcases ht '#' rfl with h | h <;> cases h
    · rfl
  | @comment b s hb hs =>
    rw [List.append_assoc, List.cons_append, skipComment, hb.skipBlanks_to (by decide)]
    exact dropWhile_isPrintable hs ht

theorem IsMargin.lineEnd?_eq {m : List Char} (h : IsMargin m) : lineEnd? m = some [] := by
  have hskip := h.skipComment_append endsLine_nil
  rw [List.append_nil] at hskip
  rw [lineEnd?, hskip]

theorem IsMargin.lineEnd?_append {m n : List Char} (h : IsMargin m) (hn : IsLineBreak n) (t : List Char) :
    lineEnd? (m ++ (n ++ t)) = some t := by
  rw [lineEnd?, h.skipComment_append (hn.endsLine t)]
  cases hn <;> rfl

/-- A character with which neither a gap nor a comment goes on. -/
structure IsSolid (c : Char) : Prop where
  not_isBlank : isBlank c = false
  ne_hash : c ≠ '#'
  ne_newline : c ≠ '\n'
  ne_return : c ≠ '\r'

theorem skipLines_cons {c : Char} (hnewline : c ≠ '\n') (hreturn : c ≠ '\r') (inComment : Bool) (s : List Char) :
    skipLines inComment (c :: s) =
      if inComment then if isPrintable c then skipLines true s else c :: s
      else if isBlank c then skipLines false s
      else if c = '#' then skipLines true s
      else c :: s := by
  rw [skipLines]
  · exact hnewline
  · exact fun _ h => absurd h hreturn

theorem IsSolid.skipLines_eq {c : Char} (h : IsSolid c) (s : List Char) : skipLines false (c :: s) = c :: s := by
  rw [skipLines_cons h.ne_newline h.ne_return, if_neg Bool.false_ne_true, h.not_isBlank, if_neg Bool.false_ne_true,
    if_neg h.ne_hash]

theorem skipLines_lineBreak {n : List Char} (h : IsLineBreak n) (inComment : Bool) (s : List Char) :
    skipLines inComment (n ++ s) = skipLines false s := by
  cases h <;> simp [skipLines]

theorem ne_newline_of_isPrintable {c : Char} (h : isPrintable c) : c ≠ '\n' ∧ c ≠ '\r' := by
  constructor <;> rintro rfl <;> cases h

theorem IsBlanks.skipLines_append {b : List Char} (h : IsBlanks b) (s : List Char) :
    skipLines false (b ++ s) = skipLines false s := by
  induction b with
  | nil => rfl
  | cons c b ih =>
    obtain ⟨hc, hb⟩ := List.forall_mem_cons.mp h
    have hprintable : isPrintable c := by
      rcases isBlank_eq_true_iff.mp hc with rfl | rfl <;> decide
    obtain ⟨hnewline, hreturn⟩ := ne_newline_of_isPrintable hprintable
    rw [List.cons_append, skipLines_cons hnewline hreturn, if_neg Bool.false_ne_true, if_pos hc, ih hb]

theorem skipLines_comment {s : List Char} (h : ∀ c ∈ s, isPrintable c) (t : List Char) :
    skipLines true (s ++ t) = skipLines true t := by
  induction s with
  | nil => rfl
  | cons c s ih =>
    obtain ⟨hc, hs⟩ := List.forall_mem_cons.mp h
    obtain ⟨hnewline, hreturn⟩ := ne_newline_of_isPrintable hc
    rw [List.cons_append, skipLines_cons hnewline hreturn, if_pos rfl, if_pos hc, ih hs]

/-- Behind a margin a scanner over lines is within a comment or not. -/
theorem IsMargin.skipLines_append {m : List Char} (h : IsMargin m) :
    ∃ inComment, ∀ t, skipLines false (m ++ t) = skipLines inComment t := by
  cases h with
  | blanks hb => exact ⟨false, hb.skipLines_append⟩
  | comment hb hs =>
    refine ⟨true, fun t => ?_⟩
    rw [List.append_assoc, List.cons_append, hb.skipLines_append, skipLines_cons (by decide) (by decide)]
    exact skipLines_comment hs t

theorem IsMargin.skipLines_eq {m : List Char} (h : IsMargin m) : skipLines false m = [] := by
  obtain ⟨inComment, hm⟩ := h.skipLines_append
  have := hm []
  rw [List.append_nil] at this
  rw [this, skipLines]

theorem IsGap.skipLines_append {g : List Char} (h : IsGap g) (s : List Char) :
    skipLines false (g ++ s) = skipLines false s := by
  induction h with
  | blanks hb => exact hb.skipLines_append s
  | line hm hn _ ih =>
    obtain ⟨inComment, hm⟩ := hm.skipLines_append
    rw [List.append_assoc, List.append_assoc, hm, skipLines_lineBreak hn, ih]

theorem IsGap.skipLines_to {g : List Char} (h : IsGap g) {c : Char} (hc : IsSolid c) (s : List Char) :
    skipLines false (g ++ c :: s) = c :: s := by
  rw [h.skipLines_append, hc.skipLines_eq]

/-! ### Strings -/

theorem IsEscape.escape?_append {e : List Char} {c : Char} (h : IsEscape e c) (t : List Char) :
    escape? (e ++ t) = some (c, t) := by
  cases h with
  | @short letter c stands =>
    have hu : letter ≠ 'u' := by
      rintro rfl
      cases stands
    have hU : letter ≠ 'U' := by
      rintro rfl
      cases stands
    rw [List.singleton_append, escape?.eq_3 _ _ (fun _ _ _ _ _ h => absurd h hu)
      (fun _ _ _ _ _ _ _ _ _ h => absurd h hU), stands]
    rfl
  | four stands =>
    rw [List.cons_append, List.cons_append, List.cons_append, List.cons_append, List.cons_append, escape?, stands]
    rfl
  | eight stands =>
    simp only [List.cons_append, List.nil_append, escape?, stands]
    rfl

theorem IsQuote.ne_backslash {q : Char} (h : IsQuote q) : q ≠ '\\' := by
  rcases h with rfl | rfl <;> decide

theorem IsQuote.dark {q : Char} (h : IsQuote q) : isBlank q = false ∧ q ≠ '\n' ∧ q ≠ '\r' := by
  rcases h with rfl | rfl <;> decide

theorem IsLineBody.lineString_eq {q : Char} {s v : List Char} (h : IsLineBody q s v) {fuel : ℕ}
    (hfuel : s.length < fuel) (reversed t : List Char) :
    lineString q fuel reversed (s ++ q :: t) = some (String.ofList (reversed.reverse ++ v), t) := by
  induction h generalizing fuel reversed with
  | nil =>
    obtain ⟨fuel, rfl⟩ := Nat.exists_eq_add_of_lt hfuel
    rw [List.nil_append, lineString, if_pos rfl, List.append_nil]
  | @plain c s v plain _ ih =>
    obtain ⟨fuel, rfl⟩ : ∃ m, fuel = m + 1 := ⟨fuel - 1, by omega⟩
    have hescape : ¬(c = '\\' ∧ q = '"') := fun ⟨hc, hq⟩ => plain.ne_backslash hq hc
    rw [List.cons_append, lineString, if_neg plain.ne_quote, if_neg hescape, if_pos plain.printable,
      ih (Nat.lt_of_succ_lt_succ hfuel), List.reverse_cons, List.append_assoc, List.singleton_append]
  | @escape e s v c double escape _ ih =>
    obtain ⟨fuel, rfl⟩ : ∃ m, fuel = m + 1 := ⟨fuel - 1, by omega⟩
    rw [List.length_cons, List.length_append] at hfuel
    have hq : ¬('\\' = q) := double ▸ by decide
    rw [List.cons_append, List.append_assoc, lineString, if_neg hq, if_pos ⟨rfl, double⟩, escape.escape?_append]
    simp only [Option.bind_eq_bind, Option.bind_some]
    rw [ih (by omega), List.reverse_cons, List.append_assoc, List.singleton_append]

theorem lineString_quoted {q : Char} {s v : List Char} (h : IsLineBody q s v) (t : List Char) :
    lineString q ((s ++ q :: t).length + 1) [] (s ++ q :: t) = some (String.ofList v, t) :=
  h.lineString_eq (by rw [List.length_append]; omega) [] t

theorem continuation?_of_white {b n w s : List Char} (hb : IsBlanks b) (hn : IsLineBreak n) (hw : IsWhite w)
    (hs : StartsDark s) : continuation? (b ++ (n ++ (w ++ s))) = some s := by
  have hwhite : continuation?.skipEmpty (w ++ s) = s := by
    induction hw with
    | nil =>
      cases s with
      | nil => rfl
      | cons c s =>
        obtain ⟨hblank, hnewline, hreturn⟩ := hs c rfl
        rw [List.nil_append, continuation?.skipEmpty, hblank, if_neg Bool.false_ne_true]
        · exact hnewline
        · exact fun _ h => absurd h hreturn
    | @blank c w hc _ ih =>
      rw [List.cons_append, continuation?.skipEmpty, if_pos hc, ih]
      · rintro rfl
        cases hc
      · rintro _ rfl
        cases hc
    | lineBreak hn _ ih => cases hn <;> simpa [continuation?.skipEmpty] using ih
  have hskip : skipBlanks (b ++ (n ++ (w ++ s))) = n ++ (w ++ s) := by
    rw [hb.skipBlanks_append, skipBlanks_of_endsLine (hn.endsLine _)]
  rw [continuation?, hskip, newline?_of_isLineBreak hn]
  simp only [Option.bind_eq_bind, Option.bind_some, hwhite]
  rfl

theorem continuation?_of_isEscape {e : List Char} {c : Char} (h : IsEscape e c) (t : List Char) :
    continuation? (e ++ t) = none := by
  have hfirst {d : Char} (rest : List Char) (hblank : isBlank d = false) (hn : d ≠ '\n') (hr : d ≠ '\r') :
      continuation? (d :: rest) = none := by
    rw [continuation?, skipBlanks_cons hblank, newline?.eq_3 _ (by simp [hn]) (by simp [hr])]
    rfl
  cases h with
  | @short letter c stands =>
    refine hfirst t ?_ ?_ ?_
    · rw [Bool.eq_false_iff]
      intro hblank
      rcases isBlank_eq_true_iff.mp hblank with rfl | rfl <;> cases stands
    · rintro rfl
      cases stands
    · rintro rfl
      cases stands
  | four => exact hfirst _ (by decide) (by decide) (by decide)
  | eight => exact hfirst _ (by decide) (by decide) (by decide)

section
variable {q : Char}

/-- A text of several lines is at most two quotes, or begins with at most two of them and something else. -/
theorem IsBlockBody.quotes (hq : IsQuote q) {k : ℕ} {s v : List Char} (h : IsBlockBody q k s v) (hk : k ≤ 2) :
    ∃ j, j + k ≤ 2 ∧ (s = List.replicate j q ∧ v = List.replicate j q ∨
      ∃ c rest, c ≠ q ∧ s = List.replicate j q ++ c :: rest) := by
  have hother {k : ℕ} {c : Char} {rest v : List Char} (hk : k ≤ 2) (hc : c ≠ q) :
      ∃ j, j + k ≤ 2 ∧ (c :: rest = List.replicate j q ∧ v = List.replicate j q ∨
        ∃ c' rest', c' ≠ q ∧ c :: rest = List.replicate j q ++ c' :: rest') :=
    ⟨0, by omega, .inr ⟨c, rest, hc, rfl⟩⟩
  induction h with
  | nil => exact ⟨0, by omega, .inl ⟨rfl, rfl⟩⟩
  | quote few _ ih =>
    obtain ⟨j, hj, h⟩ := ih (by omega)
    refine ⟨j + 1, by omega, ?_⟩
    rcases h with ⟨rfl, rfl⟩ | ⟨c, rest, hc, rfl⟩
    · exact .inl ⟨rfl, rfl⟩
    · exact .inr ⟨c, rest, hc, rfl⟩
  | plain plain _ => exact hother hk plain.ne_quote
  | lineBreak hn _ =>
    cases hn with
    | newline => exact hother hk (by rintro rfl; rcases hq with h | h <;> cases h)
    | returned => exact hother hk (by rintro rfl; rcases hq with h | h <;> cases h)
  | escape _ _ _ => exact hother hk hq.ne_backslash.symm
  | continued _ _ _ _ _ _ => exact hother hk hq.ne_backslash.symm

theorem takeWhile_replicate_append (j : ℕ) {t : List Char} (ht : ∀ c ∈ t.head?, c ≠ q) :
    (List.replicate j q ++ t).takeWhile (· == q) = List.replicate j q := by
  rw [List.takeWhile_append_of_pos fun c hc => by simp [List.eq_of_mem_replicate hc]]
  cases t with
  | nil => exact List.append_nil _
  | cons c t => rw [List.takeWhile_cons_of_neg (by simpa using ht c rfl), List.append_nil]

/-- At a quote with others behind it: from three of them on a string of several lines closes. -/
theorem blockString_closing {j : ℕ} (hj : j ≤ 2) {t : List Char} (ht : ∀ c ∈ t.head?, c ≠ q) {fuel : ℕ}
    (hfuel : 0 < fuel) (reversed : List Char) :
    blockString q fuel reversed (List.replicate j q ++ q :: q :: q :: t) =
      some (String.ofList (reversed.reverse ++ List.replicate j q), t) := by
  obtain ⟨fuel, rfl⟩ : ∃ m, fuel = m + 1 := ⟨fuel - 1, by omega⟩
  have hsplit : List.replicate j q ++ q :: q :: q :: t = q :: (List.replicate (j + 2) q ++ t) := by
    have hthree : q :: q :: q :: t = List.replicate 3 q ++ t := rfl
    rw [hthree, ← List.append_assoc, List.replicate_append_replicate, List.replicate_succ, List.cons_append]
  have hkept : min (j + 2 - 2) 2 = j := by omega
  have hlong : 2 ≤ j + 2 := by omega
  rw [hsplit, blockString, if_pos rfl]
  simp only [takeWhile_replicate_append _ ht, List.length_replicate, if_pos hlong, hkept, List.reverse_append,
    List.reverse_replicate]
  rw [List.drop_left' (List.length_replicate ..)]

theorem blockString_quote {s t v : List Char} (hq : IsQuote q) (ht : ∀ c ∈ t.head?, c ≠ q) {k : ℕ}
    (few : k < 2) (h : IsBlockBody q (k + 1) s v) {fuel : ℕ} (reversed : List Char)
    (ih : blockString q fuel (q :: reversed) (s ++ q :: q :: q :: t) =
      some (String.ofList ((q :: reversed).reverse ++ v), t)) :
    blockString q (fuel + 1) reversed (q :: (s ++ q :: q :: q :: t)) =
      some (String.ofList (reversed.reverse ++ q :: v), t) := by
  obtain ⟨j, hj, ⟨rfl, rfl⟩ | ⟨c, rest, hc, rfl⟩⟩ := h.quotes hq (by omega)
  · exact blockString_closing (j := j + 1) (by omega) ht (Nat.succ_pos fuel) reversed
  · have hfew : ¬2 ≤ j := by omega
    have hmore : (List.replicate j q ++ c :: rest ++ q :: q :: q :: t).takeWhile (· == q) = List.replicate j q := by
      rw [List.append_assoc]
      refine takeWhile_replicate_append j ?_
      rintro d ⟨⟩
      exact hc
    rw [blockString, if_pos rfl]
    simp only [hmore, List.length_replicate, if_neg hfew]
    rw [ih, List.reverse_cons, List.append_assoc, List.singleton_append]

theorem IsBlockBody.blockString_eq {k : ℕ} {s v : List Char} (h : IsBlockBody q k s v) (hq : IsQuote q)
    {t : List Char} (ht : ∀ c ∈ t.head?, c ≠ q) {fuel : ℕ} (hfuel : s.length < fuel) (reversed : List Char) :
    blockString q fuel reversed (s ++ q :: q :: q :: t) = some (String.ofList (reversed.reverse ++ v), t) := by
  induction h generalizing fuel reversed with
  | nil => exact blockString_closing (j := 0) (by omega) ht (Nat.zero_lt_of_lt hfuel) reversed
  | quote few rest ih =>
    obtain ⟨fuel, rfl⟩ : ∃ m, fuel = m + 1 := ⟨fuel - 1, by omega⟩
    exact blockString_quote hq ht few rest reversed (ih (Nat.lt_of_succ_lt_succ hfuel) _)
  | @plain _ c s v plain _ ih =>
    obtain ⟨fuel, rfl⟩ : ∃ m, fuel = m + 1 := ⟨fuel - 1, by omega⟩
    have hescape : ¬(c = '\\' ∧ q = '"') := fun ⟨hc, hq⟩ => plain.ne_backslash hq hc
    obtain ⟨hnewline, hreturn⟩ := ne_newline_of_isPrintable plain.printable
    rw [List.cons_append, blockString, if_neg plain.ne_quote, if_neg hescape,
      newline?.eq_3 _ (by simp [hnewline]) (by simp [hreturn])]
    simp only [if_pos plain.printable]
    rw [ih (Nat.lt_of_succ_lt_succ hfuel), List.reverse_cons, List.append_assoc, List.singleton_append]
  | @lineBreak _ n s v hn _ ih =>
    obtain ⟨fuel, rfl⟩ : ∃ m, fuel = m + 1 := ⟨fuel - 1, by omega⟩
    rw [List.length_append] at hfuel
    have hless : s.length < fuel := by cases hn <;> simp at hfuel <;> omega
    have hrest := ih hless ('\n' :: reversed)
    rw [List.reverse_cons, List.append_assoc, List.singleton_append] at hrest
    rw [← hrest, List.append_assoc]
    rcases hq with rfl | rfl <;> cases hn <;> rfl
  | @escape _ e s v c double escape _ ih =>
    obtain ⟨fuel, rfl⟩ : ∃ m, fuel = m + 1 := ⟨fuel - 1, by omega⟩
    rw [List.length_cons, List.length_append] at hfuel
    rw [List.cons_append, List.append_assoc, blockString, if_neg hq.ne_backslash.symm, if_pos ⟨rfl, double⟩,
      continuation?_of_isEscape escape]
    simp only [escape.escape?_append, Option.bind_eq_bind, Option.bind_some]
    rw [ih (by omega), List.reverse_cons, List.append_assoc, List.singleton_append]
  | @continued _ b n w s v double hb hn hw dark _ ih =>
    obtain ⟨fuel, rfl⟩ : ∃ m, fuel = m + 1 := ⟨fuel - 1, by omega⟩
    simp only [List.length_cons, List.length_append] at hfuel
    have hdark : StartsDark (s ++ q :: q :: q :: t) := by
      cases s with
      | nil =>
        rintro c ⟨⟩
        exact hq.dark
      | cons c s => exact dark
    rw [List.cons_append, List.append_assoc, List.append_assoc, List.append_assoc, blockString,
      if_neg hq.ne_backslash.symm, if_pos ⟨rfl, double⟩, continuation?_of_white hb hn hw hdark]
    exact ih (by omega) reversed

/-- A string in one line does not look like the beginning of one of several lines. -/
theorem IsLineBody.ne_quotes {s v : List Char} (h : IsLineBody q s v) (hq : IsQuote q) {t : List Char}
    (ht : ∀ c ∈ t.head?, ¬IsQuote c) (rest : List Char) : s ++ q :: t ≠ q :: q :: rest := by
  intro heq
  cases h with
  | nil =>
    have htail : t = q :: rest := (List.cons.inj heq).2
    exact ht q (by rw [htail]; rfl) hq
  | plain plain _ => exact plain.ne_quote (List.cons.inj heq).1
  | escape _ _ _ => exact hq.ne_backslash (List.cons.inj heq).1.symm

theorem string?_line (hq : IsQuote q) {s : List Char} (hs : ∀ rest, s ≠ q :: q :: rest) :
    string? (q :: s) = lineString q (s.length + 1) [] s := by
  rcases hq with rfl | rfl
  · rw [string?]
    exact fun rest h => hs rest h
  · rw [string?]
    exact fun rest h => hs rest h

theorem string?_block (hq : IsQuote q) (s : List Char) :
    string? (q :: q :: q :: s) = blockString q (s.length + 1) [] ((newline? s).getD s) := by
  rcases hq with rfl | rfl <;> rfl

theorem IsOpening.newline?_getD {n s : List Char} (h : IsOpening n s) (hq : IsQuote q) (t : List Char) :
    (newline? (n ++ (s ++ q :: t))).getD (n ++ (s ++ q :: t)) = s ++ q :: t := by
  rcases h with hn | ⟨rfl, hs⟩
  · rw [newline?_of_isLineBreak hn, Option.getD_some]
  · have hnone : newline? (s ++ q :: t) = none := by
      cases s with
      | nil => rcases hq with rfl | rfl <;> rfl
      | cons c s =>
        obtain ⟨hnewline, hreturn⟩ := hs c rfl
        exact newline?.eq_3 _ (by simp [hnewline]) (by simp [hreturn])
    rw [List.nil_append, hnone, Option.getD_none]

end

theorem IsString.string?_append {s : List Char} {value : String} (h : IsString s value) {t : List Char}
    (ht : ∀ c ∈ t.head?, ¬IsQuote c) : string? (s ++ t) = some (value, t) := by
  cases h with
  | @line q s v hq body =>
    rw [List.cons_append, List.append_assoc, List.singleton_append, string?_line hq (body.ne_quotes hq ht),
      lineString_quoted body]
  | @block q n s v hq body opening =>
    have hsplit : q :: q :: q :: (n ++ (s ++ [q, q, q])) ++ t = q :: q :: q :: (n ++ (s ++ q :: q :: q :: t)) := by
      simp
    have hlength : s.length < (n ++ (s ++ q :: q :: q :: t)).length + 1 := by
      simp only [List.length_append]
      omega
    rw [hsplit, string?_block hq, opening.newline?_getD hq]
    refine body.blockString_eq hq ?_ hlength []
    rintro c hc rfl
    exact ht c hc hq

/-! ### Keys -/

theorem IsBare.cons_ne {key : List Char} (h : IsBare key) {d : Char} (hd : Toml.isBareKeyChar d = false)
    (s t : List Char) : key ++ s ≠ d :: t := by
  obtain ⟨c, ks, rfl⟩ := List.exists_cons_of_ne_nil h.ne_nil
  rintro ⟨⟩
  exact Bool.false_ne_true (hd.symm.trans (h.isBareKeyChar d List.mem_cons_self))

theorem simpleKey?_append {s : List Char} {name : String} (h : IsSimpleKey s name) {t : List Char}
    (ht : ∀ c ∈ t.head?, isBareKeyChar c = false) : simpleKey? (s ++ t) = some (name, t) := by
  cases h with
  | bare bare =>
    rw [simpleKey?]
    · rw [List.takeWhile_append_of_pos bare.isBareKeyChar, List.dropWhile_append_of_pos bare.isBareKeyChar]
      have hstop : t.takeWhile isBareKeyChar = [] ∧ t.dropWhile isBareKeyChar = t := by
        cases t with
        | nil => exact ⟨rfl, rfl⟩
        | cons c t =>
          have hc := ht c rfl
          exact ⟨List.takeWhile_cons_of_neg (by simp [hc]), List.dropWhile_cons_of_neg (by simp [hc])⟩
      rw [hstop.1, hstop.2, List.append_nil]
      exact if_neg bare.ne_nil
    · exact bare.cons_ne (by decide) _
    · exact bare.cons_ne (by decide) _
  | @quoted q s v hq body =>
    have hsimple (rest : List Char) : simpleKey? (q :: rest) = lineString q (rest.length + 1) [] rest := by
      rcases hq with rfl | rfl <;> rfl
    rw [List.cons_append, List.append_assoc, List.singleton_append, hsimple, lineString_quoted body]

/-- A character with which a key begins. -/
def StartsKey (c : Char) : Prop :=
  isBareKeyChar c ∨ IsQuote c

theorem StartsKey.ne {c d : Char} (h : StartsKey c) (hd : isBareKeyChar d = false) (hquote : ¬IsQuote d) : c ≠ d := by
  rintro rfl
  rcases h with h | h
  · rw [hd] at h
    cases h
  · exact hquote h

theorem not_isQuote {c : Char} (hdouble : c ≠ '"') (hsingle : c ≠ '\'') : ¬IsQuote c :=
  not_or.mpr ⟨hdouble, hsingle⟩

theorem StartsKey.isSolid {c : Char} (h : StartsKey c) : IsSolid c where
  not_isBlank := by
    rw [Bool.eq_false_iff]
    intro hblank
    rcases isBlank_eq_true_iff.mp hblank with hc | hc
    · exact h.ne (by decide) (not_isQuote (by decide) (by decide)) hc
    · exact h.ne (by decide) (not_isQuote (by decide) (by decide)) hc
  ne_hash := h.ne (by decide) (not_isQuote (by decide) (by decide))
  ne_newline := h.ne (by decide) (not_isQuote (by decide) (by decide))
  ne_return := h.ne (by decide) (not_isQuote (by decide) (by decide))

theorem IsSimpleKey.exists_cons {s : List Char} {name : String} (h : IsSimpleKey s name) :
    ∃ c rest, s = c :: rest ∧ StartsKey c := by
  cases h with
  | bare bare =>
    obtain ⟨c, rest, rfl⟩ := List.exists_cons_of_ne_nil bare.ne_nil
    exact ⟨c, rest, rfl, .inl (bare.isBareKeyChar c List.mem_cons_self)⟩
  | quoted hq _ => exact ⟨_, _, rfl, .inr hq⟩

theorem IsKey.exists_cons {s : List Char} {key : Key} (h : IsKey s key) : ∃ c rest, s = c :: rest ∧ StartsKey c := by
  cases h with
  | last simple => exact simple.exists_cons
  | dot simple _ _ _ =>
    obtain ⟨c, rest, rfl, hc⟩ := simple.exists_cons
    exact ⟨c, _, rfl, hc⟩

/-- A simple key between blanks, before a mark with which no key goes on. -/
theorem simpleKey?_between {b s b' : List Char} {name : String} (hb : IsBlanks b) (h : IsSimpleKey s name)
    (hb' : IsBlanks b') {c : Char} (hc : isBareKeyChar c = false) (t : List Char) :
    simpleKey? (skipBlanks (b ++ (s ++ (b' ++ c :: t)))) = some (name, b' ++ c :: t) := by
  have hskip : skipBlanks (b ++ (s ++ (b' ++ c :: t))) = s ++ (b' ++ c :: t) := by
    obtain ⟨d, rest, rfl, hd⟩ := h.exists_cons
    rw [List.cons_append, hb.skipBlanks_to hd.isSolid.not_isBlank]
  rw [hskip]
  refine simpleKey?_append h ?_
  cases b' with
  | nil =>
    rintro d ⟨⟩
    exact hc
  | cons d b' =>
    rintro _ ⟨⟩
    rcases isBlank_eq_true_iff.mp (hb' d List.mem_cons_self) with rfl | rfl <;> decide

theorem dottedKey?_append {s : List Char} {key : Key} (h : IsKey s key) {b b' : List Char} (hb : IsBlanks b)
    (hb' : IsBlanks b') {c : Char} (hc : c = '=' ∨ c = ']') (fuel : ℕ) (reversed : List String) (t : List Char) :
    dottedKey? fuel reversed (b ++ (s ++ (b' ++ c :: t))) =
      if key.names.length ≤ fuel then some (⟨reversed.reverse ++ key.path, key.last⟩, c :: t) else none := by
  induction h generalizing fuel reversed b with
  | @last s name simple =>
    cases fuel with
    | zero => rfl
    | succ fuel =>
      have hbare : isBareKeyChar c = false := by rcases hc with rfl | rfl <;> decide
      have hblank : isBlank c = false := by rcases hc with rfl | rfl <;> decide
      have hshort : (⟨[], name⟩ : Key).names.length ≤ fuel + 1 := by simp [Key.names]
      rw [dottedKey?, simpleKey?_between hb simple hb' hbare, if_pos hshort]
      simp only [Option.bind_eq_bind, Option.bind_some, hb'.skipBlanks_to hblank, List.append_nil]
      rcases hc with rfl | rfl <;> rfl
  | @dot s b₁ b₂ rest name key simple hb₁ hb₂ _ ih =>
    cases fuel with
    | zero => simp [dottedKey?, Key.names]
    | succ fuel =>
      have hsplit : b ++ ((s ++ (b₁ ++ '.' :: (b₂ ++ rest))) ++ (b' ++ c :: t)) =
          b ++ (s ++ (b₁ ++ '.' :: (b₂ ++ (rest ++ (b' ++ c :: t))))) := by
        simp
      rw [hsplit, dottedKey?, simpleKey?_between hb simple hb₁ (by decide)]
      simp only [Option.bind_eq_bind, Option.bind_some, hb₁.skipBlanks_to (c := '.') (by decide), ih hb₂]
      simp [Key.names]

/-- A key between blanks, before an equals sign or the bracket that closes a header. -/
theorem key?_append {s : List Char} {key : Key} (h : IsKey s key) {b b' : List Char} (hb : IsBlanks b)
    (hb' : IsBlanks b') {c : Char} (hc : c = '=' ∨ c = ']') (t : List Char) :
    key? (b ++ (s ++ (b' ++ c :: t))) = if key.names.length < depthLimit then some (key, c :: t) else none := by
  have hlimit : key.names.length ≤ depthLimit - 1 ↔ key.names.length < depthLimit :=
    Nat.le_sub_one_iff_lt (by decide)
  rw [key?, dottedKey?_append h hb hb' hc]
  simp only [hlimit, List.reverse_nil, List.nil_append]

end SyntheticRows.Toml
