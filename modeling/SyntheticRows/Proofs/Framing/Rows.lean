import SyntheticRows.Framing.Writer
import SyntheticRows.Proofs.Recording.Attempt
import SyntheticRows.Proofs.Text

/-!
The rows of a pass on their way into a device. A writer that is given row after row attempts the framed
text of the rows (`framed`), counts the rows that are written whole, and counts every byte that the
device takes.
-/

namespace SyntheticRows.Framing.Writer
open Recording

/-! ### Framed rows -/

/-- The text of rows from the first one of a pass on. Lines end after each row; in a statement the
    opening stands before the first row and a separator before each other one. -/
def framed (header? : Option Bytes) (rows : List Bytes) : Bytes :=
  match header?, rows with
  | none, rows => rows.flatMap (· ++ utf8 ['\n'])
  | some _, [] => []
  | some header, row :: rest => header ++ row ++ rest.flatMap (utf8 [',', '\n'] ++ ·)

def closing (header? : Option Bytes) (rows : Nat) : Bytes :=
  if header?.isSome ∧ 0 < rows then utf8 [';', '\n'] else []

/-- What rows add to those that a writer has written already. -/
def added (w : Writer) : List Bytes → Bytes
  | [] => []
  | row :: rest => (w.rowTexts row).flatten ++ added { w with rows := w.rows + 1 } rest

theorem added_congr {v w : Writer} (hh : v.header? = w.header?) (hr : v.rows = w.rows) (rows : List Bytes) :
    v.added rows = w.added rows := by
  induction rows generalizing v w with
  | nil => rfl
  | cons row rest ih =>
    rw [added, added, rowTexts, rowTexts, hh, hr]
    exact congrArg _ (ih rfl rfl)

theorem added_prefix (w : Writer) {first rows : List Bytes} (h : first <+: rows) : w.added first <+: w.added rows := by
  obtain ⟨rest, rfl⟩ := h
  induction first generalizing w with
  | nil => exact List.nil_prefix
  | cons row first ih => exact (List.prefix_append_right_inj _).mpr (ih _)

theorem added_lines {w : Writer} (hw : w.header? = none) (rows : List Bytes) :
    w.added rows = rows.flatMap (· ++ utf8 ['\n']) := by
  induction rows generalizing w with
  | nil => rfl
  | cons row rest ih =>
    rw [added, ih (by exact hw), List.flatMap_cons, rowTexts, hw]
    simp

theorem added_later {w : Writer} {header : Bytes} (hw : w.header? = some header) (hrows : 0 < w.rows)
    (rows : List Bytes) : w.added rows = rows.flatMap (utf8 [',', '\n'] ++ ·) := by
  induction rows generalizing w with
  | nil => rfl
  | cons row rest ih =>
    rw [added, ih (by exact hw) (Nat.succ_pos _), List.flatMap_cons, rowTexts, hw]
    have hne : w.rows ≠ 0 := Nat.ne_of_gt hrows
    simp [hne]

theorem added_eq_framed {w : Writer} (hrows : w.rows = 0) (rows : List Bytes) :
    w.added rows = framed w.header? rows := by
  cases hw : w.header? with
  | none => exact added_lines hw rows
  | some header =>
    cases rows with
    | nil => rfl
    | cons row rest =>
      have hlater : { w with rows := w.rows + 1 }.header? = some header := hw
      rw [added, added_later hlater (Nat.succ_pos _), rowTexts, hw]
      simp [framed, hrows]

theorem flatten_lastTexts (w : Writer) : w.lastTexts.flatten = closing w.header? w.rows := by
  unfold lastTexts closing
  split <;> simp

/-- A writer of one statement for a table and its columns, or of bare lines. -/
def into : Option (String × List String) → Writer
  | none => lines
  | some (table, columns) => statement table columns

theorem into_fresh (into? : Option (String × List String)) : (into into?).rows = 0 ∧ (into into?).bytes = 0 := by
  rcases into? with _ | ⟨table, columns⟩ <;> exact ⟨rfl, rfl⟩

/-- The text of a whole pass with these rows. -/
def textOf (into? : Option (String × List String)) (rows : List (List Char)) : List Char :=
  match into?, rows with
  | none, rows => rows.flatMap (· ++ ['\n'])
  | some _, [] => []
  | some (table, columns), row :: rest =>
    header table columns ++ [',', '\n'].intercalate (row :: rest) ++ [';', '\n']

theorem framed_append_closing (into? : Option (String × List String)) (rows : List (List Char)) :
    framed (into into?).header? (rows.map utf8) ++ closing (into into?).header? (rows.map utf8).length =
      utf8 (textOf into? rows) := by
  rcases into? with _ | ⟨table, columns⟩
  · simp [into, lines, framed, closing, textOf, utf8_flatMap, utf8_append, List.flatMap_map]
  · cases rows with
    | nil => rfl
    | cons row rest =>
      rw [textOf, intercalate_cons, utf8_append, utf8_append, utf8_append, utf8_flatMap]
      simp [into, statement, framed, closing, List.flatMap_map]
      rfl

/-! ### Counting -/

/-- Counting stops at the most that the count can hold, in one step as in several. -/
theorem count_count (w : Writer) (m n : Nat) : (w.count m).count n = w.count (m + n) := by
  simp only [count, Writer.mk.injEq, true_and]
  omega

theorem count_zero (w : Writer) (hw : w.bytes ≤ maxBytes) : w.count 0 = w := by
  cases w
  simp only [count, Writer.mk.injEq, true_and, Nat.add_zero]
  exact Nat.min_eq_right hw

/-! ### Writing -/

def writeRows {m : Type → Type} [Monad m] [Outlet m] (w : Writer) : List Bytes → m (Option IoFault × Writer)
  | [] => pure (none, w)
  | row :: rest => do
    let (fault, w) ← w.writeRow row
    match fault with
    | some fault => pure (some fault, w)
    | none => w.writeRows rest

section
variable {σ : Type}

/-- Writing a row attempts its texts and flushes nothing. The bytes are counted whether it succeeds or not, the
    row only if it does. -/
theorem adds_writeRow (w : Writer) (row : Bytes) :
    Adds (w.writeRow row : StateM (Recording σ) (Option IoFault × Writer)) fun a hs =>
      Attempt ((w.rowTexts row).flatten.map .byte) hs a.1 ∧
      a.2 = { w.count (taken hs).length with rows := w.rows + if a.1 = none then 1 else 0 } ∧ Unflushed hs := by
  unfold writeRow
  refine (Adds.writeEach _).bind ?_
  rintro ⟨count, fault⟩ hs ⟨rfl, hattempt, hunflushed, -⟩
  cases fault with
  | none | some _ =>
    refine Adds.pure ?_
    rw [List.append_nil]
    exact ⟨hattempt, rfl, hunflushed⟩

/-- Writing rows attempts their framed text. The bytes are counted up to where it stops, and the rows before the one
    that a fault cuts off. -/
theorem adds_writeRows (w : Writer) (hw : w.bytes ≤ maxBytes) (rows : List Bytes) :
    Adds (w.writeRows rows : StateM (Recording σ) (Option IoFault × Writer)) fun a hs =>
      Attempt ((w.added rows).map .byte) hs a.1 ∧
      ∃ n ≤ rows.length, a.2 = { w.count (taken hs).length with rows := w.rows + n } ∧
        (a.1 = none → n = rows.length) := by
  induction rows generalizing w with
  | nil => exact Adds.pure ⟨Attempt.nil, 0, Nat.le_refl 0, (count_zero w hw).symm, fun _ => rfl⟩
  | cons row rest ih =>
    unfold writeRows
    refine (adds_writeRow w row).bind ?_
    rintro ⟨fault, w₁⟩ hs ⟨hattempt, hw₁, -⟩
    rw [added, List.map_append]
    cases fault with
    | some fault =>
      refine Adds.pure ?_
      rw [List.append_nil]
      exact ⟨hattempt.stop, 0, Nat.zero_le _, hw₁, fun hn => by cases hn⟩
    | none =>
      -- The texts of the rows to come depend on the rows so far, not on the bytes that were counted.
      obtain rfl : w₁ = { w.count (taken hs).length with rows := w.rows + 1 } := hw₁
      refine (ih _ (Nat.min_le_left _ _)).mono ?_
      rintro ⟨fault, w₂⟩ ks ⟨kattempt, n, hn, hw₂, hall⟩
      refine ⟨hattempt.append ?_, n + 1, Nat.succ_le_succ hn, ?_, fun hnone => congrArg Nat.succ (hall hnone)⟩
      · rw [added_congr (w := { w.count (taken hs).length with rows := w.rows + 1 }) (by rfl) (by rfl)]
        exact kattempt
      · rw [hw₂, taken_append, List.length_append, ← count_count]
        simp only [count, Writer.mk.injEq, and_true, true_and]
        omega

/-- How a pass ends: what closes it is written whole and one flush follows, or a fault cuts it off and nothing is
    flushed. -/
inductive Ends (closing : Bytes) : Option IoFault → List Happening → Prop
  | flushed {writes : List Happening} {fault : Option IoFault} (unflushed : Unflushed writes)
      (whole : taken writes = closing) : Ends closing fault (writes ++ [.flushed fault])
  | cutOff {writes : List Happening} {fault : IoFault} (unflushed : Unflushed writes) (part : taken writes <+: closing)
      (short : (taken writes).length < closing.length) : Ends closing (some fault) writes

theorem adds_finish (w : Writer) :
    Adds (w.finish : StateM (Recording σ) (Option IoFault × Writer)) fun a hs =>
      Attempt ((closing w.header? w.rows).map .byte ++ [.flush]) hs a.1 ∧
      a.2 = w.count (taken hs).length ∧ Ends (closing w.header? w.rows) a.1 hs := by
  unfold finish
  refine (Adds.writeEach _).bind ?_
  rintro ⟨count, fault⟩ hs hwrites
  rw [flatten_lastTexts] at hwrites
  obtain ⟨rfl, hattempt, hunflushed, hshort⟩ := hwrites
  cases fault with
  | some fault =>
    refine Adds.pure ?_
    rw [List.append_nil]
    have hpart := hattempt.taken_prefix
    rw [filterMap_map_byte] at hpart
    exact ⟨hattempt.stop, rfl, .cutOff hunflushed hpart (hshort (Option.some_ne_none fault))⟩
  | none =>
    refine Adds.flush.bind ?_
    rintro fault _ rfl
    refine Adds.pure ⟨?_, ?_, ?_⟩
    · have hflush : Attempt [.flush] [.flushed fault] fault := by
        cases fault with
        | none => exact ⟨rfl, by simp [Faultless, Happening.fault?]⟩
        | some fault => exact ⟨List.nil_prefix, [], _, rfl, fun _ h => absurd h List.not_mem_nil, rfl⟩
      simpa using hattempt.append hflush
    · simp [taken, Happening.accepted]
    · rw [List.append_nil]
      exact .flushed hunflushed hattempt.taken_eq

end

end SyntheticRows.Framing.Writer
