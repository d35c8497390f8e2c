import Mathlib
import SyntheticRows.Json
import SyntheticRows.Proofs.Decimal.Digits
import SyntheticRows.Proofs.Json.Scientific

/-!
The texts of JSON values as they are written. Both the text on one line and the indented text lay a value out
(`IsLayout`): they differ in the blanks between the parts, and all of them are texts of values.
-/

namespace SyntheticRows.Json

/-! ### Strings -/

theorem hex4?_control : ∀ n < 32, hex4? '0' '0' (Nat.digitChar ((Char.ofNat n).toUInt8.toNat / 16))
    (Nat.digitChar ((Char.ofNat n).toUInt8.toNat % 16)) = some n := by
  decide

/-- A character of a string is written by a letter of its own, by its code, or as it is. -/
theorem escaped_cases (c : Char) :
    (∃ letter, shortEscape? letter = some c ∧ escaped c = ['\\', letter]) ∨
    (c.toNat < 32 ∧ escaped c = '\\' :: 'u' :: '0' :: '0' :: Digits.ofByte c.toUInt8) ∨
    (c ≠ '"' ∧ c ≠ '\\' ∧ ¬c.toNat < 32) ∧ escaped c = [c] := by
  unfold escaped
  split_ifs with hquote hslash hback htab hline hform hreturn hcontrol
  · exact .inl ⟨'"', by rw [hquote]; rfl, rfl⟩
  · exact .inl ⟨'\\', by rw [hslash]; rfl, rfl⟩
  · exact .inl ⟨'b', by rw [hback]; rfl, rfl⟩
  · exact .inl ⟨'t', by rw [htab]; rfl, rfl⟩
  · exact .inl ⟨'n', by rw [hline]; rfl, rfl⟩
  · exact .inl ⟨'f', by rw [hform]; rfl, rfl⟩
  · exact .inl ⟨'r', by rw [hreturn]; rfl, rfl⟩
  · exact .inr (.inl ⟨hcontrol, rfl⟩)
  · exact .inr (.inr ⟨⟨hquote, hslash, hcontrol⟩, rfl⟩)

/-- A character of a string is written as one part, which stands for it. -/
theorem exists_piece (c : Char) : ∃ p : Piece, p.text = escaped c ∧
    ∀ rest, Piece.meaning? (p :: rest) = (Piece.meaning? rest).map (c :: ·) := by
  rcases escaped_cases c with ⟨letter, stands, htext⟩ | ⟨hcontrol, htext⟩ | ⟨allowed, htext⟩
  · exact ⟨.short letter c stands, htext.symm, fun rest => rfl⟩
  · have hcode := hex4?_control c.toNat hcontrol
    rw [Char.ofNat_toNat] at hcode
    refine ⟨.code _ _ _ _ c.toNat hcode, htext.symm, fun rest => ?_⟩
    have hlow : isLowSurrogate c.toNat = false := by
      simp [isLowSurrogate]
      omega
    have hhigh : isHighSurrogate c.toNat = false := by
      simp [isHighSurrogate]
      omega
    rw [Piece.meaning?.eq_def]
    simp only [hlow, hhigh, Bool.false_eq_true, if_false, Char.ofNat_toNat]
  · exact ⟨.plain c allowed, htext.symm, fun rest => rfl⟩

theorem exists_pieces (s : String) : ∃ pieces, literal pieces = quoted s ∧ Piece.meaning? pieces = some s.toList := by
  have hchars : ∀ cs : List Char, ∃ pieces : List Piece, pieces.flatMap Piece.text = cs.flatMap escaped ∧
      Piece.meaning? pieces = some cs := by
    intro cs
    induction cs with
    | nil => exact ⟨[], rfl, rfl⟩
    | cons c cs ih =>
      obtain ⟨pieces, htext, hmeaning⟩ := ih
      obtain ⟨p, hp, hc⟩ := exists_piece c
      exact ⟨p :: pieces, by rw [List.flatMap_cons, List.flatMap_cons, hp, htext],
        by rw [hc, hmeaning, Option.map_some]⟩
  obtain ⟨pieces, htext, hmeaning⟩ := hchars s.toList
  exact ⟨pieces, by rw [literal, quoted, htext, List.cons_append], hmeaning⟩

/-! ### Real numbers -/

theorem exists_prints_shortest (negative : Bool) {rank : ℕ} (hpos : 0 < rank) (hfinite : rank < Binary64.infiniteRank) :
    ∃ t, Prints negative (Binary64.shortest rank .even) t := by
  obtain ⟨hlow, hhigh⟩ := Binary64.exponent_shortest_mem hpos hfinite .even
  have hdigits := Binary64.digits_shortest_le hpos hfinite .even
  refine exists_prints negative (Binary64.digits_shortest_pos hpos hfinite .even) (by omega) (by omega) ?_
  exact Nat.le_trans (Decimal.length_numeral_le (k := 18) (by decide) (by omega)) (by decide)

theorem isValue_realText (x : Binary64) : IsValue (realText x) := by
  rw [realText]
  split
  · exact IsValue.nullWord
  · rename_i hfinite
    have hrank : x.rank < Binary64.infiniteRank := by simpa [Binary64.isFinite] using hfinite
    by_cases hzero : x.rank = 0
    · let zero : NumberText := ⟨x.isNegative, '0', [], ['0'], none, rfl, List.forall_mem_nil _, fun _ => rfl,
        List.forall_mem_singleton.mpr rfl⟩
      have htext : zero.text = (if x.isNegative then ['-'] else []) ++ "0.0".toList := by
        simp only [zero, NumberText.text]
        cases x.isNegative <;> rfl
      rw [if_pos hzero]
      exact htext ▸ IsValue.number zero
    · obtain ⟨t, ht⟩ := exists_prints_shortest x.isNegative (Nat.pos_of_ne_zero hzero) hrank
      rw [if_neg hzero]
      exact ht.text ▸ IsValue.number t

/-! ### Layouts -/

/-- A text of a JSON value, with any blanks between its parts. -/
inductive IsLayout : Json → List Char → Prop
  | null : IsLayout .null ['n', 'u', 'l', 'l']
  | yes : IsLayout (.bool true) ['t', 'r', 'u', 'e']
  | no : IsLayout (.bool false) ['f', 'a', 'l', 's', 'e']
  | int (n : Int) : IsLayout (.int n) (Decimal.signedNumeral n)
  | real (x : Binary64) : IsLayout (.real x) (realText x)
  | text (s : String) : IsLayout (.text s) (quoted s)
  | list (inner : Blanks) (items : List (Json × Padded)) (values : ∀ item ∈ items, IsLayout item.1 item.2.core) :
    IsLayout (.list (items.map Prod.fst)) (listText inner (items.map Prod.snd))
  | object (inner : Blanks) (members : List ((String × Json) × Entry))
    (names : ∀ member ∈ members, member.2.name? = some member.1.1)
    (values : ∀ member ∈ members, IsLayout member.1.2 member.2.value.core) :
    IsLayout (.object (members.map Prod.fst)) (objectText inner (members.map Prod.snd))

theorem IsLayout.exists_list {js : List Json} {v : List Char} (h : IsLayout (.list js) v) :
    ∃ (inner : Blanks) (items : List (Json × Padded)), items.map Prod.fst = js ∧
      v = listText inner (items.map Prod.snd) ∧
      ∀ item ∈ items, IsLayout item.1 item.2.core := by
  cases h with
  | list inner items values => exact ⟨inner, items, rfl, rfl, values⟩

theorem IsLayout.exists_object {js : List (String × Json)} {v : List Char} (h : IsLayout (.object js) v) :
    ∃ (inner : Blanks) (members : List ((String × Json) × Entry)), members.map Prod.fst = js ∧
      v = objectText inner (members.map Prod.snd) ∧
      (∀ member ∈ members, member.2.name? = some member.1.1) ∧
      ∀ member ∈ members, IsLayout member.1.2 member.2.value.core := by
  cases h with
  | object inner members names values => exact ⟨inner, members, rfl, rfl, names, values⟩

theorem IsLayout.isValue {j : Json} {v : List Char} (h : IsLayout j v) : IsValue v := by
  induction h with
  | null => exact IsValue.nullWord
  | yes => exact IsValue.trueWord
  | no => exact IsValue.falseWord
  | int n => exact isValue_signedNumeral n
  | real x => exact isValue_realText x
  | text s =>
    obtain ⟨pieces, htext, -⟩ := exists_pieces s
    exact htext ▸ IsValue.string pieces
  | list inner items _ ih => exact IsValue.list inner _ (List.forall_mem_map.mpr ih)
  | object inner members _ _ ih => exact IsValue.object inner _ (List.forall_mem_map.mpr ih)

/-! ### Parts between brackets -/

/-- Parts between brackets, all with the same blanks before them, and blanks behind the last one. -/
def spaced (before after : Blanks) (opening closing : Char) (parts : List (List Char)) : List Char :=
  if parts = [] then [opening, closing]
  else opening :: (before.chars ++ ((',' :: before.chars).intercalate parts ++ (after.chars ++ [closing])))

/-- Gives the last of some parts the blanks behind it. -/
def withLast {ι κ : Type} (mk : Blanks → ι → κ) (after : Blanks) : List ι → List κ
  | [] => []
  | [i] => [mk after i]
  | i :: next :: is => mk Blanks.none i :: withLast mk after (next :: is)

section
variable {ι κ : Type} (mk : Blanks → ι → κ)

theorem exists_of_mem_withLast {after : Blanks} {is : List ι} {k : κ} (h : k ∈ withLast mk after is) :
    ∃ i ∈ is, ∃ b, k = mk b i := by
  fun_induction withLast mk after is with
  | case1 => cases h
  | case2 i => exact ⟨i, List.mem_singleton_self i, after, List.mem_singleton.mp h⟩
  | case3 i next is ih =>
    rcases List.mem_cons.mp h with h | h
    · exact ⟨i, List.mem_cons_self, Blanks.none, h⟩
    · obtain ⟨j, hj, b, hk⟩ := ih h
      exact ⟨j, List.mem_cons_of_mem i hj, b, hk⟩

theorem map_withLast {β : Type} (f : κ → β) (g : ι → β) (h : ∀ b i, f (mk b i) = g i) (after : Blanks) (is : List ι) :
    (withLast mk after is).map f = is.map g := by
  fun_induction withLast mk after is with
  | case1 => rfl
  | case2 i => rw [List.map_singleton, List.map_singleton, h]
  | case3 i next is ih => rw [List.map_cons, List.map_cons, h, ih]

theorem withLast_ne_nil (after : Blanks) {is : List ι} (h : is ≠ []) : withLast mk after is ≠ [] := by
  fun_cases withLast mk after is with
  | case1 => exact absurd rfl h
  | case2 i => exact List.cons_ne_nil _ _
  | case3 i next is => exact List.cons_ne_nil _ _

theorem enclose_withLast (text : κ → List Char) (body : ι → List Char) (before : Blanks)
    (h : ∀ b i, text (mk b i) = before.chars ++ (body i ++ b.chars)) (after : Blanks) (opening closing : Char)
    (is : List ι) :
    enclose opening closing Blanks.none ((withLast mk after is).map text) =
      spaced before after opening closing (is.map body) := by
  by_cases hempty : is = []
  · subst hempty
    rfl
  · have hjoined : [','].intercalate ((withLast mk after is).map text) =
        before.chars ++ ((',' :: before.chars).intercalate (is.map body) ++ after.chars) := by
      fun_induction withLast mk after is with
      | case1 => exact absurd rfl hempty
      | case2 i => simp [h]
      | case3 i next is ih =>
        have hne : (withLast mk after (next :: is)).map text ≠ [] := by
          rw [ne_eq, List.map_eq_nil_iff]
          exact withLast_ne_nil mk after (List.cons_ne_nil _ _)
        have hrest := ih (List.cons_ne_nil _ _)
        rw [List.map_cons, List.intercalate_cons_of_ne_nil hne, hrest, h, List.map_cons, List.map_cons, List.map_cons,
          List.intercalate_cons_cons]
        simp [Blanks.none]
    rw [enclose, if_neg (by simpa using withLast_ne_nil mk after hempty), hjoined, spaced,
      if_neg (by simpa using hempty)]
    simp

end

theorem isLayout_list (before after : Blanks) {items : List Json} {f : Json → List Char}
    (h : ∀ j ∈ items, IsLayout j (f j)) : IsLayout (.list items) (spaced before after '[' ']' (items.map f)) := by
  let mk (b : Blanks) (j : Json) : Json × Padded := (j, ⟨before, f j, b⟩)
  have hlayout : IsLayout _ _ := IsLayout.list Blanks.none (withLast mk after items) fun item hitem => by
    obtain ⟨j, hj, b, rfl⟩ := exists_of_mem_withLast mk hitem
    exact h j hj
  have hitems : (withLast mk after items).map Prod.fst = items :=
    (map_withLast mk Prod.fst id (fun b j => rfl) after items).trans (List.map_id items)
  have htext := enclose_withLast mk (Padded.text ∘ Prod.snd) f before (fun b j => rfl) after '[' ']' items
  rw [hitems, listText, List.map_map, htext] at hlayout
  exact hlayout

theorem isLayout_object (before after gap : Blanks) {members : List (String × Json)} {f : Json → List Char}
    (h : ∀ member ∈ members, IsLayout member.2 (f member.2)) :
    IsLayout (.object members) (spaced before after '\x7b' '\x7d'
      (members.map fun member => quoted member.1 ++ ':' :: (gap.chars ++ f member.2))) := by
  choose pieces hquoted hmeaning using exists_pieces
  let mk (b : Blanks) (member : String × Json) : (String × Json) × Entry :=
    (member, ⟨before, pieces member.1, Blanks.none, ⟨gap, f member.2, b⟩⟩)
  have hlayout : IsLayout _ _ := IsLayout.object Blanks.none (withLast mk after members)
    (fun m hm => by
      obtain ⟨member, -, b, rfl⟩ := exists_of_mem_withLast mk hm
      rw [Entry.name?, hmeaning, Option.map_some, String.ofList_toList])
    (fun m hm => by
      obtain ⟨member, hmember, b, rfl⟩ := exists_of_mem_withLast mk hm
      exact h member hmember)
  have hmembers : (withLast mk after members).map Prod.fst = members :=
    (map_withLast mk Prod.fst id (fun b m => rfl) after members).trans (List.map_id members)
  have htext := enclose_withLast mk (Entry.text ∘ Prod.snd)
    (fun member => quoted member.1 ++ ':' :: (gap.chars ++ f member.2)) before
    (fun b member => by simp [mk, Entry.text, Padded.text, hquoted, Blanks.none]) after '\x7b' '\x7d' members
  rw [hmembers, objectText, List.map_map, htext] at hlayout
  exact hlayout

/-! ### The written texts -/

theorem compactItems_eq (items : List Json) : compactItems items = items.map compact := by
  induction items with
  | nil => rfl
  | cons item items ih => rw [compactItems, ih, List.map_cons]

theorem compactMembers_eq (members : List (String × Json)) :
    compactMembers members = members.map fun member => quoted member.1 ++ ':' :: ([] ++ compact member.2) := by
  induction members with
  | nil => rfl
  | cons member members ih => rw [compactMembers, ih, List.map_cons, List.nil_append]

theorem prettyItems_eq (depth : ℕ) (items : List Json) : prettyItems depth items = items.map (pretty depth) := by
  induction items with
  | nil => rfl
  | cons item items ih => rw [prettyItems, ih, List.map_cons]

theorem prettyMembers_eq (depth : ℕ) (members : List (String × Json)) :
    prettyMembers depth members =
      members.map fun member => quoted member.1 ++ ':' :: ([' '] ++ pretty depth member.2) := by
  induction members with
  | nil => rfl
  | cons member members ih => rw [prettyMembers, ih, List.map_cons, List.singleton_append]

/-- Induction over the items of lists and the values of objects. -/
theorem induction {motive : Json → Prop} (null : motive .null) (bool : ∀ b, motive (.bool b))
    (int : ∀ n, motive (.int n)) (real : ∀ x, motive (.real x)) (text : ∀ s, motive (.text s))
    (list : ∀ items, (∀ j ∈ items, motive j) → motive (.list items))
    (object : ∀ members, (∀ member ∈ members, motive member.2) → motive (.object members)) (j : Json) : motive j := by
  cases hj : j with
  | null => exact null
  | bool b => exact bool b
  | int n => exact int n
  | real x => exact real x
  | text s => exact text s
  | list items => exact list items fun j _ => induction null bool int real text list object j
  | object members => exact object members fun member _ => induction null bool int real text list object member.2
termination_by j
decreasing_by
  · have := List.sizeOf_lt_of_mem ‹_ ∈ items›
    simp
    omega
  · have := List.sizeOf_lt_of_mem ‹_ ∈ members›
    have : sizeOf member.2 < sizeOf member := by cases member; simp
    simp
    omega

/-- The text on one line has no blanks. -/
theorem isLayout_compact (j : Json) : IsLayout j j.compact := by
  induction j using Json.induction with
  | null => exact IsLayout.null
  | bool b => cases b <;> [exact IsLayout.no; exact IsLayout.yes]
  | int n => exact IsLayout.int n
  | real x => exact IsLayout.real x
  | text s => exact IsLayout.text s
  | list items ih =>
    have hlayout := isLayout_list Blanks.none Blanks.none ih
    have htext : spaced Blanks.none Blanks.none '[' ']' (items.map compact) = compact (.list items) := by
      rw [compact, compactItems_eq, spaced]
      split <;> simp_all [Blanks.none]
    exact htext ▸ hlayout
  | object members ih =>
    have hlayout := isLayout_object Blanks.none Blanks.none Blanks.none ih
    have htext : spaced Blanks.none Blanks.none '\x7b' '\x7d' (members.map fun member =>
        quoted member.1 ++ ':' :: ([] ++ compact member.2)) = compact (.object members) := by
      rw [compact, compactMembers_eq, spaced]
      split <;> simp_all [Blanks.none]
    exact htext ▸ hlayout

def Blanks.newLine (depth : ℕ) : Blanks where
  chars := Json.newLine depth
  blank := List.forall_mem_cons.mpr ⟨rfl, fun c hc => by rw [List.eq_of_mem_replicate hc]; rfl⟩

def Blanks.space : Blanks where
  chars := [' ']
  blank := List.forall_mem_singleton.mpr rfl

theorem bracketed_eq (depth : ℕ) (opening closing : Char) (parts : List (List Char)) :
    bracketed depth opening closing parts =
      spaced (Blanks.newLine (depth + 1)) (Blanks.newLine depth) opening closing parts := by
  rw [bracketed, spaced]
  cases parts <;> simp [Blanks.newLine]

/-- The indented text has its blanks before the parts. -/
theorem isLayout_pretty (depth : ℕ) (j : Json) : IsLayout j (j.pretty depth) := by
  induction j using Json.induction generalizing depth with
  | null => exact isLayout_compact .null
  | bool b => exact isLayout_compact (.bool b)
  | int n => exact isLayout_compact (.int n)
  | real x => exact isLayout_compact (.real x)
  | text s => exact isLayout_compact (.text s)
  | list items ih =>
    rw [pretty, prettyItems_eq, bracketed_eq]
    exact isLayout_list _ _ fun j hj => ih j hj (depth + 1)
  | object members ih =>
    rw [pretty, prettyMembers_eq, bracketed_eq]
    exact isLayout_object _ _ Blanks.space fun member hmember => ih member hmember (depth + 1)

end SyntheticRows.Json
