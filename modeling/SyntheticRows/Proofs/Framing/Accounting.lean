import Mathlib
import SyntheticRows.Proofs.Framing.Rows
import SyntheticRows.Sink.Scripted

/-!
The accounts of a writer under faults. Rows are given to it one by one, also after a call that failed, and then the
pass is ended (`session`). Whatever fails on the way, the rows that were written whole and the bytes that the device
took are counted exactly.
-/

namespace SyntheticRows.Framing.Writer
open Recording

/-! ### Rows one by one -/

def writeEvery {m : Type → Type} [Monad m] [Outlet m] (w : Writer) : List Bytes → m (List (Option IoFault) × Writer)
  | [] => pure ([], w)
  | row :: rest => do
    let (outcome, w) ← w.writeRow row
    let (outcomes, w) ← w.writeEvery rest
    pure (outcome :: outcomes, w)

/-- The accounts of a writer that goes from `w` to `v` over some rows, each with its outcome. -/
structure Accounts (w : Writer) (rows : List Bytes) (outcomes : List (Option IoFault)) (v : Writer)
    (hs : List Happening) : Prop where
  length : outcomes.length = rows.length
  writer : v = { w.count (taken hs).length with rows := w.rows + outcomes.count none }
  unflushed : Unflushed hs
  faultless_iff : Faultless hs ↔ ∀ outcome ∈ outcomes, outcome = none
  whole : (∀ outcome ∈ outcomes, outcome = none) → taken hs = w.added rows

namespace Accounts
variable {w v : Writer} {row : Bytes} {rows : List Bytes} {outcome : Option IoFault} {outcomes : List (Option IoFault)}
  {hs ks : List Happening}

theorem nil (hw : w.bytes ≤ maxBytes) : Accounts w [] [] w [] :=
  ⟨rfl, (count_zero w hw).symm, Unflushed.nil, by simp [Faultless], fun _ => rfl⟩

theorem cons (hattempt : Attempt ((w.rowTexts row).flatten.map .byte) hs outcome) (hunflushed : Unflushed hs)
    (h : Accounts { w.count (taken hs).length with rows := w.rows + if outcome = none then 1 else 0 } rows
      outcomes v ks) : Accounts w (row :: rows) (outcome :: outcomes) v (hs ++ ks) where
  length := congrArg Nat.succ h.length
  writer := by
    have hrows : w.rows + (outcome :: outcomes).count none =
        (w.rows + if outcome = none then 1 else 0) + outcomes.count none := by
      rw [List.count_cons, Nat.add_comm (List.count _ _), Nat.add_assoc]
      simp only [beq_iff_eq]
    rw [hrows, taken_append, List.length_append, ← count_count]
    exact h.writer
  unflushed := hunflushed.append h.unflushed
  faultless_iff := by
    rw [Faultless, List.forall_mem_append, List.forall_mem_cons]
    exact and_congr hattempt.faultless_iff h.faultless_iff
  whole hall := by
    obtain ⟨rfl, hrest⟩ := List.forall_mem_cons.mp hall
    rw [taken_append, added, hattempt.taken_eq, h.whole hrest]
    exact congrArg _ (added_congr (by rfl) (by rfl) rows)

end Accounts

theorem adds_writeEvery {σ : Type} (w : Writer) (hw : w.bytes ≤ maxBytes) (rows : List Bytes) :
    Adds (w.writeEvery rows : StateM (Recording σ) (List (Option IoFault) × Writer)) fun a hs =>
      Accounts w rows a.1 a.2 hs := by
  induction rows generalizing w with
  | nil => exact Adds.pure (Accounts.nil hw)
  | cons row rest ih =>
    unfold writeEvery
    refine (adds_writeRow w row).bind ?_
    rintro ⟨outcome, w₁⟩ hs ⟨hattempt, hw₁, hunflushed⟩
    -- Also after a fault the count of bytes is one that can be held, so the rows to come are counted like these.
    obtain rfl : w₁ = { w.count (taken hs).length with rows := w.rows + if outcome = none then 1 else 0 } := hw₁
    refine (ih _ (Nat.min_le_left _ _)).bind ?_
    rintro ⟨outcomes, w₂⟩ ks haccounts
    refine Adds.pure ?_
    rw [List.append_nil]
    exact haccounts.cons hattempt hunflushed

/-! ### Ending the pass -/

/-- The end of a pass in the recording: the flush comes last and gives the outcome, unless it is not reached. -/
theorem Ends.recorded {σ : Type} {r t : Recording σ} {closing : Bytes} {outcome : Option IoFault} {hs : List Happening}
    (h : Ends closing outcome hs) (hextends : r.Extends hs t) :
    ∃ closed, t.stored = r.stored ++ closed ∧
      (closed = closing ∧ t.flushes = r.flushes + 1 ∧ t.happenings.getLast? = some (.flushed outcome) ∨
        closed <+: closing ∧ closed ≠ closing ∧ t.flushes = r.flushes ∧ outcome ≠ none) := by
  refine ⟨taken hs, hextends.stored, ?_⟩
  rw [hextends.flushes, hextends.happenings]
  cases h with
  | flushed unflushed whole =>
    refine Or.inl ⟨?_, ?_, ?_⟩
    · rw [taken_append, whole]
      exact List.append_nil _
    · rw [List.countP_append, unflushed.countP_eq, Nat.zero_add]
      rfl
    · rw [← List.append_assoc, List.getLast?_concat]
  | cutOff unflushed part short =>
    refine Or.inr ⟨part, fun hwhole => ?_, ?_, Option.some_ne_none _⟩
    · exact absurd (congrArg List.length hwhole) (Nat.ne_of_lt short)
    · rw [unflushed.countP_eq, Nat.add_zero]

/-! ### Sessions -/

/-- Rows that were given one by one to a new writer, and the end of the pass after them. -/
structure Session (σ : Type) where
  /-- The outcome of each row. -/
  outcomes : List (Option IoFault)
  /-- What was recorded before the pass was ended. -/
  before : Recording σ
  /-- The outcome of ending the pass. -/
  outcome : Option IoFault
  writer : Writer
  after : Recording σ

def session {σ : Type} (device : Device σ) (state : σ) (into? : Option (String × List String))
    (rows : List (List Char)) : Session σ :=
  let ((outcomes, w), before) := StateT.run (m := Id) ((into into?).writeEvery (rows.map utf8)) { device, state }
  let ((outcome, writer), after) := StateT.run (m := Id) w.finish before
  { outcomes, before, outcome, writer, after }

/-- A session in two parts, with the writer `w` between them. -/
theorem session_parts {σ : Type} (device : Device σ) (state : σ) (into? : Option (String × List String))
    (rows : List (List Char)) :
    let x := session device state into? rows
    ∃ w hs ks, Extends { device, state } hs x.before ∧ x.before.Extends ks x.after ∧
      Accounts (into into?) (rows.map utf8) x.outcomes w hs ∧
      x.writer = w.count (taken ks).length ∧ (Faultless ks ↔ x.outcome = none) ∧
      Ends (closing w.header? w.rows) x.outcome ks := by
  have hbytes : (into into?).bytes ≤ maxBytes := (into_fresh into?).2 ▸ Nat.zero_le _
  obtain ⟨hs, hextends, haccounts⟩ := adds_writeEvery _ hbytes (rows.map utf8) { device, state }
  obtain ⟨ks, kextends, hattempt, hwriter, hends⟩ := adds_finish _ _
  exact ⟨_, hs, ks, hextends, kextends, haccounts, hwriter, hattempt.faultless_iff, hends⟩

/-- The accounts of a session on any device. The rows are those whose call succeeded, and the bytes are all that the
    device holds in the end, as far as they can be counted. Ending the pass writes what closes it and flushes once,
    even if this is nothing, or fails while it writes and does not flush. All calls succeed just if the device shows
    no fault, and then it holds the text of the pass. -/
theorem session_accounts {σ : Type} (device : Device σ) (state : σ) (into? : Option (String × List String))
    (rows : List (List Char)) :
    let x := session device state into? rows
    let ending := closing (into into?).header? (x.outcomes.count none)
    (x.outcomes.length = rows.length ∧ x.writer.rows = x.outcomes.count none ∧
        x.writer.bytes = min (2 ^ 64 - 1) x.after.stored.length) ∧
      (x.before.flushes = 0 ∧ ∃ closed, x.after.stored = x.before.stored ++ closed ∧
        (closed = ending ∧ x.after.flushes = 1 ∧ x.after.happenings.getLast? = some (.flushed x.outcome) ∨
          closed <+: ending ∧ closed ≠ ending ∧ x.after.flushes = 0 ∧ x.outcome ≠ none)) ∧
      ((∀ outcome ∈ x.outcome :: x.outcomes, outcome = none) ↔ Faultless x.after.happenings) ∧
      ((∀ outcome ∈ x.outcome :: x.outcomes, outcome = none) → x.after.stored = utf8 (textOf into? rows)) := by
  intro x ending
  obtain ⟨w, hs, ks, hextends, kextends, haccounts, hwriter, hfinished, hends⟩ := session_parts device state into? rows
  obtain ⟨hlength, hw, hunflushed, hwritten, hwhole⟩ := haccounts
  obtain ⟨hrows, hbytes⟩ := into_fresh into?
  rw [hrows, Nat.zero_add] at hw
  subst hw
  rw [List.length_map] at hlength
  have hbefore : x.before.stored = taken hs := hextends.stored
  have hquiet : x.before.flushes = 0 := by
    rw [hextends.flushes, hunflushed.countP_eq]
    rfl
  have hends : Ends ending x.outcome ks := hends
  obtain ⟨closed, hstored, hclosed⟩ := hends.recorded kextends
  rw [hquiet] at hclosed
  refine ⟨⟨hlength, by rw [hwriter]; rfl, ?_⟩, ⟨hquiet, closed, hstored, hclosed⟩, ?_, fun hall => ?_⟩
  · rw [hwriter, kextends.stored, hbefore, List.length_append]
    simp only [count, hbytes, maxBytes, UInt64.size]
    omega
  · have hhappenings : x.after.happenings = hs ++ ks := by
      rw [kextends.happenings, hextends.happenings]
      rfl
    rw [hhappenings, Faultless, List.forall_mem_append, List.forall_mem_cons, and_comm]
    exact and_congr hwritten.symm hfinished.symm
  · obtain ⟨houtcome, houtcomes⟩ := List.forall_mem_cons.mp hall
    have hcount : x.outcomes.count none = (rows.map utf8).length := by
      rw [List.count_eq_length.mpr fun outcome h => (houtcomes outcome h).symm, hlength, List.length_map]
    -- As the end gave no fault it was not cut off, and what closes the rows follows them.
    rcases hclosed with ⟨rfl, -, -⟩ | ⟨-, -, -, hfault⟩
    · rw [hstored, hbefore, hwhole houtcomes, added_eq_framed hrows, ← framed_append_closing, ← hcount]
    · exact absurd houtcome hfault

/-- The first row breaks off behind its first byte, which is counted; the others are written whole. -/
example :
    let x := session Script.device { mishaps := [(0, .interruption), (1, .broken)] } none [['a', 'b'], [], ['c']]
    (x.outcomes.map Option.isNone, x.outcome, x.writer.rows, x.writer.bytes, x.after.flushes) =
        ([false, true, true], none, 2, 4, 1) ∧
      x.after.stored = utf8 ['a', '\n', 'c', '\n'] := by
  cbv

end SyntheticRows.Framing.Writer
