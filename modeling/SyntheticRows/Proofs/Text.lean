import SyntheticRows.Sink

/-!
Texts with separators, the lines of texts, and their bytes.
-/

namespace SyntheticRows

section
variable {α : Type}

/-- Behind the first part each part comes with a separator before it. -/
theorem intercalate_cons (sep x : List α) (xs : List (List α)) :
    sep.intercalate (x :: xs) = x ++ xs.flatMap (sep ++ ·) := by
  induction xs generalizing x with
  | nil => simp
  | cons y ys ih => rw [List.intercalate_cons_cons, ih, List.flatMap_cons, List.append_assoc, List.append_assoc]

theorem flatMap_append_eq_intercalate (sep : List α) {xs : List (List α)} (h : xs ≠ []) :
    xs.flatMap (· ++ sep) = sep.intercalate xs ++ sep := by
  induction xs with
  | nil => exact absurd rfl h
  | cons x xs ih =>
    cases xs with
    | nil => simp
    | cons y ys => rw [List.flatMap_cons, ih (List.cons_ne_nil _ _), List.intercalate_cons_cons]; simp

theorem intercalate_concat (sep : List α) (xs : List (List α)) (last : List α) :
    sep.intercalate (xs ++ [last]) = xs.flatMap (· ++ sep) ++ last := by
  induction xs with
  | nil => simp
  | cons x xs ih =>
    obtain ⟨y, ys, hy⟩ := List.exists_cons_of_ne_nil (List.concat_ne_nil last xs)
    rw [List.cons_append, hy, List.intercalate_cons_cons, ← hy, ih, List.flatMap_cons]
    simp only [List.append_assoc]

theorem forall_mem_intercalate {p : α → Prop} {sep : List α} {xs : List (List α)} (hsep : ∀ a ∈ sep, p a)
    (h : ∀ x ∈ xs, ∀ a ∈ x, p a) : ∀ a ∈ sep.intercalate xs, p a := by
  cases xs with
  | nil => exact fun a ha => absurd ha List.not_mem_nil
  | cons x xs =>
    obtain ⟨hx, hxs⟩ := List.forall_mem_cons.mp h
    rw [intercalate_cons]
    refine List.forall_mem_append.mpr ⟨hx, fun a ha => ?_⟩
    obtain ⟨y, hy, ha⟩ := List.mem_flatMap.mp ha
    exact List.forall_mem_append.mpr ⟨hsep, hxs y hy⟩ a ha

/-! ### Lines -/

/-- The lines of a text. What stands behind the last line break is no line. -/
def linesOf [BEq α] (newline : α) (text : List α) : List (List α) :=
  (text.splitOn newline).dropLast

theorem linesOf_flatMap [BEq α] [LawfulBEq α] {newline : α} {xs : List (List α)} (h : ∀ x ∈ xs, newline ∉ x) :
    linesOf newline (xs.flatMap (· ++ [newline])) = xs := by
  have hall : ∀ x ∈ xs ++ [[]], newline ∉ x :=
    List.forall_mem_append.mpr ⟨h, List.forall_mem_singleton.mpr List.not_mem_nil⟩
  rw [linesOf, ← List.append_nil (xs.flatMap _), ← intercalate_concat,
    List.splitOn_intercalate newline hall (List.concat_ne_nil _ _), List.dropLast_concat]

theorem count_flatMap_newline [BEq α] [LawfulBEq α] {newline : α} {xs : List (List α)} (h : ∀ x ∈ xs, newline ∉ x) :
    (xs.flatMap (· ++ [newline])).count newline = xs.length := by
  induction xs with
  | nil => rfl
  | cons x xs ih =>
    obtain ⟨hx, hxs⟩ := List.forall_mem_cons.mp h
    rw [List.flatMap_cons, List.count_append, List.count_append, List.count_eq_zero_of_not_mem hx,
      List.count_singleton_self, ih hxs, List.length_cons]
    omega

/-! ### Lengths -/

theorem length_flatMap_le {β : Type} {b : Nat} {f : α → List β} {xs : List α} (h : ∀ x ∈ xs, (f x).length ≤ b) :
    (xs.flatMap f).length ≤ xs.length * b := by
  induction xs with
  | nil => simp
  | cons x xs ih =>
    obtain ⟨hx, hxs⟩ := List.forall_mem_cons.mp h
    have := ih hxs
    rw [List.flatMap_cons, List.length_append, List.length_cons, Nat.succ_mul]
    omega

theorem length_intercalate_le {b : Nat} {sep : List α} {xs : List (List α)} (h : ∀ x ∈ xs, x.length ≤ b) :
    (sep.intercalate xs).length ≤ xs.length * (sep.length + b) := by
  cases xs with
  | nil => simp
  | cons x xs =>
    obtain ⟨hx, hxs⟩ := List.forall_mem_cons.mp h
    have hrest : (xs.flatMap (sep ++ ·)).length ≤ xs.length * (sep.length + b) :=
      length_flatMap_le fun y hy => by
        have := hxs y hy
        rw [List.length_append]
        omega
    rw [intercalate_cons, List.length_append, List.length_cons, Nat.succ_mul]
    omega

end

/-! ### Bytes -/

theorem utf8_append (s t : List Char) : utf8 (s ++ t) = utf8 s ++ utf8 t :=
  List.flatMap_append

theorem utf8_flatMap {α : Type} (xs : List α) (f : α → List Char) :
    utf8 (xs.flatMap f) = xs.flatMap fun x => utf8 (f x) :=
  List.flatMap_assoc

theorem length_utf8_le (text : List Char) : (utf8 text).length ≤ 4 * text.length := by
  rw [Nat.mul_comm]
  refine length_flatMap_le fun c _ => ?_
  rw [String.length_utf8EncodeChar]
  exact c.utf8Size_le_four

/-- A byte of a character is the character itself, or has its high bit set. -/
theorem toNat_of_mem_utf8EncodeChar {c : Char} {byte : UInt8} (h : byte ∈ String.utf8EncodeChar c) :
    byte.toNat = c.toNat ∨ 128 ≤ byte.toNat := by
  have htoNat : ∀ n, (UInt8.ofNat n).toNat = n % 256 := fun n => UInt8.toNat_ofNat'
  unfold String.utf8EncodeChar at h
  dsimp only at h
  split at h
  · rw [List.mem_singleton.mp h, htoNat]
    exact Or.inl (Nat.mod_eq_of_lt (by omega))
  · right
    split at h
    · simp only [List.mem_cons, List.not_mem_nil, or_false] at h
      rcases h with rfl | rfl <;> rw [htoNat] <;> omega
    · split at h
      · simp only [List.mem_cons, List.not_mem_nil, or_false] at h
        rcases h with rfl | rfl | rfl <;> rw [htoNat] <;> omega
      · simp only [List.mem_cons, List.not_mem_nil, or_false] at h
        rcases h with rfl | rfl | rfl | rfl <;> rw [htoNat] <;> omega

/-- The byte of a line break. -/
def newline : UInt8 := 10

theorem newline_not_mem_utf8 {text : List Char} (h : '\n' ∉ text) : newline ∉ utf8 text := fun hmem => by
  obtain ⟨c, hc, hbyte⟩ := List.mem_flatMap.mp hmem
  rcases toNat_of_mem_utf8EncodeChar hbyte with heq | hhigh
  · have hnewline : c = '\n' := Char.toNat_inj.mp heq.symm
    exact h (hnewline ▸ hc)
  · exact absurd hhigh (by decide)

end SyntheticRows
