import SyntheticRows.Proofs.Framing.Accounting

/-!
The opening of a statement under faults. A session is looked at call by call (`course`). Each call sends the opening
until one succeeds, and none does after it (`Steps.sends_header_iff`); so a fault behind the opening, within the first
row, makes the next call send it again.
-/

namespace SyntheticRows.Framing.Writer
open Recording

/-! ### Calls -/

/-- One call of a writer: what it gave, and what happened between it and the device. -/
structure Call where
  outcome : Option IoFault
  happenings : List Happening

namespace Call

/-- Makes a call, after what was recorded so far. Gives also the writer and the recording after it. -/
def make {σ : Type} (r : Recording σ) (call : StateM (Recording σ) (Option IoFault × Writer)) :
    Call × Writer × Recording σ :=
  let a := StateT.run (m := Id) call r
  ({ outcome := a.1.1, happenings := a.2.happenings.drop r.happenings.length }, a.1.2, a.2)

theorem make_spec {σ : Type} {call : StateM (Recording σ) (Option IoFault × Writer)}
    {P : Option IoFault × Writer → List Happening → Prop} (h : Adds call P) (r : Recording σ) :
    r.Extends (make r call).1.happenings (make r call).2.2 ∧
      P ((make r call).1.outcome, (make r call).2.1) (make r call).1.happenings := by
  obtain ⟨hs, hextends, hP⟩ := h r
  have hhappenings : (make r call).1.happenings = hs := by
    rw [make, hextends.happenings, List.drop_left]
  rw [hhappenings]
  exact ⟨hextends, hP⟩

/-- The call begins by offering this text as a whole. -/
def Sends (c : Call) (text : Bytes) : Prop :=
  ∃ reply, c.happenings.head? = some (.offered text reply)

instance (c : Call) (text : Bytes) : Decidable (c.Sends text) :=
  match h : c.happenings.head? with
  | some (.offered other _) => decidable_of_iff (other = text) (by simp [Sends, h])
  | some (.flushed _) | some (.noted _) | none => isFalse (by simp [Sends, h])

/-- The call sends this text, and the device takes all of it. -/
def Delivers (c : Call) (text : Bytes) : Prop :=
  c.Sends text ∧ text <+: taken c.happenings

theorem Sends.eq {c : Call} {text other : Bytes} (h : c.Sends text) (k : c.Sends other) : text = other := by
  obtain ⟨reply, h⟩ := h
  obtain ⟨reply', k⟩ := k
  have heq := Option.some.inj (h.symm.trans k)
  exact (Happening.offered.inj heq).1

end Call

/-- The calls by which a writer gives rows to a device one by one, whatever comes of them. -/
def calls {σ : Type} (w : Writer) (r : Recording σ) : List Bytes → List Call × Writer × Recording σ
  | [] => ([], w, r)
  | row :: rest =>
    let (call, w, r) := Call.make r (w.writeRow row)
    let (later, w, r) := calls w r rest
    (call :: later, w, r)

theorem calls_eq_writeEvery {σ : Type} (w : Writer) (r : Recording σ) (rows : List Bytes) :
    StateT.run (m := Id) (w.writeEvery rows) r =
      (((calls w r rows).1.map (·.outcome), (calls w r rows).2.1), (calls w r rows).2.2) := by
  induction rows generalizing w r with
  | nil => rfl
  | cons row rest ih =>
    have hrun : StateT.run (m := Id) (w.writeEvery (row :: rest)) r =
        let a := StateT.run (m := Id) (w.writeRow row) r
        let b := StateT.run (m := Id) (a.1.2.writeEvery rest) a.2
        ((a.1.1 :: b.1.1, b.1.2), b.2) := rfl
    rw [hrun]
    simp only [ih]
    rfl

/-- A session of a statement, call by call. -/
structure Course (σ : Type) where
  calls : List Call
  ending : Call
  writer : Writer
  after : Recording σ

def course {σ : Type} (device : Device σ) (state : σ) (table : String) (columns : List String)
    (rows : List (List Char)) : Course σ :=
  let (calls, w, before) := calls (statement table columns) { device, state } (rows.map utf8)
  let (ending, writer, after) := Call.make before w.finish
  { calls, ending, writer, after }

/-- The calls of a session have its outcomes, and lead to where it ends. -/
theorem course_eq_session {σ : Type} (device : Device σ) (state : σ) (table : String) (columns : List String)
    (rows : List (List Char)) :
    let x := course device state table columns rows
    let y := session device state (some (table, columns)) rows
    x.calls.map (·.outcome) = y.outcomes ∧ x.ending.outcome = y.outcome ∧ x.writer = y.writer ∧ x.after = y.after := by
  simp only [session, into, calls_eq_writeEvery]
  exact ⟨rfl, rfl, rfl, rfl⟩

/-! ### What a call sends -/

section
variable {σ : Type}

theorem adds_writeAll_head {text : Bytes} (h : text ≠ []) :
    Adds (writeAll text : StateM (Recording σ) (Nat × Option IoFault)) fun _ hs =>
      ∃ reply, hs.head? = some (.offered text reply) := by
  rw [writeAll, dif_neg h]
  refine (Adds.write text).bind ?_
  rintro reply _ rfl
  split
  · exact Adds.pure ⟨_, rfl⟩
  · exact Adds.pure ⟨_, rfl⟩
  · refine (Adds.writeAll _).bind ?_
    rintro ⟨more, fault⟩ ks -
    exact Adds.pure ⟨_, rfl⟩

theorem adds_writeEach_head {text : Bytes} (h : text ≠ []) (rest : List Bytes) :
    Adds (writeEach (text :: rest) : StateM (Recording σ) (Nat × Option IoFault)) fun _ hs =>
      ∃ reply, hs.head? = some (.offered text reply) := by
  unfold writeEach
  refine (adds_writeAll_head h).bind ?_
  rintro ⟨count, fault⟩ hs ⟨reply, hhead⟩
  have hhead : ∀ ks, (hs ++ ks).head? = some (.offered text reply) := fun ks => by rw [List.head?_append, hhead]; rfl
  cases fault with
  | some fault => exact Adds.pure ⟨reply, hhead _⟩
  | none =>
    refine (Adds.writeEach rest).bind ?_
    rintro ⟨more, fault⟩ ks -
    exact Adds.pure ⟨reply, by rw [List.append_nil]; exact hhead ks⟩

theorem adds_writeRow_head {w : Writer} {header : Bytes} (hw : w.header? = some header) (hne : header ≠ [])
    (row : Bytes) :
    Adds (w.writeRow row : StateM (Recording σ) (Option IoFault × Writer)) fun a hs =>
      (∃ reply, hs.head? = some (.offered (if w.rows = 0 then header else utf8 [',', '\n']) reply)) ∧
      a.2.header? = w.header? ∧ a.2.rows = w.rows + if a.1 = none then 1 else 0 := by
  have hfirst : (if w.rows = 0 then header else utf8 [',', '\n']) ≠ [] := by
    split
    · exact hne
    · decide
  have htexts : w.rowTexts row = [if w.rows = 0 then header else utf8 [',', '\n'], row] := by rw [rowTexts, hw]
  unfold writeRow
  rw [htexts]
  refine (adds_writeEach_head hfirst [row]).bind ?_
  rintro ⟨count, fault⟩ hs hhead
  cases fault with
  | none | some _ =>
    refine Adds.pure ?_
    rw [List.append_nil]
    exact ⟨hhead, rfl, rfl⟩

/-- Ending a pass begins with the end of the statement, or with the flush. -/
theorem adds_finish_head (w : Writer) :
    Adds (w.finish : StateM (Recording σ) (Option IoFault × Writer)) fun _ hs =>
      ∀ text reply, hs.head? = some (.offered text reply) → text = utf8 [';', '\n'] := by
  unfold finish lastTexts
  split
  · refine (adds_writeEach_head (by decide) []).bind ?_
    rintro ⟨count, fault⟩ hs ⟨reply, hhead⟩
    have hfirst : ∀ ks text reply, (hs ++ ks).head? = some (.offered text reply) → text = utf8 [';', '\n'] := by
      intro ks text reply' h
      rw [List.head?_append, hhead] at h
      exact (Happening.offered.inj (Option.some.inj h)).1.symm
    cases fault with
    | some fault => exact Adds.pure (hfirst [])
    | none =>
      refine Adds.flush.bind ?_
      rintro fault ks -
      exact Adds.pure (by rw [List.append_nil]; exact hfirst ks)
  · refine (Adds.pure (P := fun a hs => a.2 = none ∧ hs = []) ⟨rfl, rfl⟩ : Adds (writeEach []) _).bind ?_
    rintro ⟨count, fault⟩ _ ⟨rfl, rfl⟩
    refine Adds.flush.bind ?_
    rintro fault _ rfl
    exact Adds.pure fun text reply h => by cases h

end

/-! ### Calls in a row -/

/-- What matters of a call that gives a row to `w`, a writer of one statement, and leaves it as `v`: it sends the
    opening as long as no row is counted, and a row is counted if it succeeds. -/
structure Step (header : Bytes) (w : Writer) (c : Call) (v : Writer) : Prop where
  sends : c.Sends (if w.rows = 0 then header else utf8 [',', '\n'])
  rows : v.rows = w.rows + if c.outcome = none then 1 else 0

inductive Steps (header : Bytes) : Writer → List Call → Writer → Prop
  | nil (w : Writer) : Steps header w [] w
  | cons {w v u : Writer} {c : Call} {cs : List Call} (first : Step header w c v) (later : Steps header v cs u) :
      Steps header w (c :: cs) u

section
variable {σ : Type} {header : Bytes} {w v : Writer} {c : Call} {cs earlier later : List Call}

theorem Step.rows_eq_zero_iff (h : Step header w c v) : v.rows = 0 ↔ w.rows = 0 ∧ c.outcome ≠ none := by
  rw [h.rows]
  split <;> simp_all

theorem Step.sends_header_iff (h : Step header w c v) (hsep : header ≠ utf8 [',', '\n']) :
    c.Sends header ↔ w.rows = 0 := by
  have hsends := h.sends
  split at hsends
  · rename_i hrows
    exact iff_of_true hsends hrows
  · rename_i hrows
    exact iff_of_false (fun hheader => hsep (hheader.eq hsends)) hrows

theorem Steps.rows_eq_zero_iff (h : Steps header w cs v) : v.rows = 0 ↔ w.rows = 0 ∧ ∀ c ∈ cs, c.outcome ≠ none := by
  induction h with
  | nil w => simp
  | cons first later ih => rw [ih, first.rows_eq_zero_iff, List.forall_mem_cons, and_assoc]

/-- A call sends the opening just if no row was counted before it. -/
theorem Steps.sends_header_iff (h : Steps header w cs v) (hsep : header ≠ utf8 [',', '\n'])
    (hcs : cs = earlier ++ c :: later) : c.Sends header ↔ w.rows = 0 ∧ ∀ e ∈ earlier, e.outcome ≠ none := by
  induction h generalizing earlier with
  | nil w => exact absurd hcs.symm (List.append_ne_nil_of_right_ne_nil _ (List.cons_ne_nil _ _))
  | cons first _ ih =>
    cases earlier with
    | nil =>
      obtain ⟨rfl, rfl⟩ := List.cons.inj hcs
      rw [first.sends_header_iff hsep]
      simp
    | cons e earlier =>
      obtain ⟨rfl, hrest⟩ := List.cons.inj hcs
      rw [ih hrest, first.rows_eq_zero_iff, List.forall_mem_cons, and_assoc]

theorem step_make (r : Recording σ) (hw : w.header? = some header) (hne : header ≠ []) (row : Bytes) :
    Step header w (Call.make r (w.writeRow row)).1 (Call.make r (w.writeRow row)).2.1 ∧
      (Call.make r (w.writeRow row)).2.1.header? = some header := by
  obtain ⟨-, hsends, hkept, hrows⟩ := Call.make_spec (adds_writeRow_head hw hne row) r
  exact ⟨⟨hsends, hrows⟩, hkept.trans hw⟩

theorem steps_calls (r : Recording σ) (hw : w.header? = some header) (hne : header ≠ []) (rows : List Bytes) :
    Steps header w (calls w r rows).1 (calls w r rows).2.1 := by
  induction rows generalizing w r with
  | nil => exact Steps.nil w
  | cons row rest ih =>
    obtain ⟨hstep, hkept⟩ := step_make r hw hne row
    exact Steps.cons hstep (ih _ hkept)

theorem extends_calls (w : Writer) (r : Recording σ) (rows : List Bytes) :
    r.Extends ((calls w r rows).1.flatMap (·.happenings)) (calls w r rows).2.2 := by
  induction rows generalizing w r with
  | nil => exact Extends.refl r
  | cons row rest ih => exact (Call.make_spec (adds_writeRow w row) r).1.trans (ih _ _)

end

/-! ### The course of a statement -/

theorem header_eq_cons (table : String) (columns : List String) :
    ∃ rest, utf8 (Framing.header table columns) = utf8 ['I'] ++ rest := by
  refine ⟨utf8 ((Framing.header table columns).drop 1), ?_⟩
  rw [← utf8_append]
  rfl

theorem header_ne (table : String) (columns : List String) :
    utf8 (Framing.header table columns) ≠ [] ∧ utf8 (Framing.header table columns) ≠ utf8 [',', '\n'] ∧
      utf8 (Framing.header table columns) ≠ utf8 [';', '\n'] := by
  obtain ⟨rest, h⟩ := header_eq_cons table columns
  have hhead : (utf8 (Framing.header table columns)).head? = (utf8 ['I']).head? := by rw [h]; rfl
  refine ⟨?_, ?_, ?_⟩ <;>
  · intro heq
    rw [heq] at hhead
    revert hhead
    decide

/-- The parts of a course: its calls, and an end that sends no opening and gives an unopened statement nothing. -/
theorem course_parts {σ : Type} (device : Device σ) (state : σ) (table : String) (columns : List String)
    (rows : List (List Char)) :
    let x := course device state table columns rows
    let header := utf8 (Framing.header table columns)
    (∃ v, Steps header (statement table columns) x.calls v ∧ x.writer.rows = v.rows) ∧
      ¬x.ending.Sends header ∧ (x.writer.rows = 0 → taken x.ending.happenings = []) ∧
      x.after.stored = taken (x.calls.flatMap (·.happenings)) ++ taken x.ending.happenings := by
  intro x header
  obtain ⟨hne, -, hend⟩ := header_ne table columns
  let a := calls (statement table columns) { device, state } (rows.map utf8)
  have hsteps : Steps header (statement table columns) a.1 a.2.1 := steps_calls _ rfl hne _
  obtain ⟨hextends, hattempt, hwriter, -⟩ := Call.make_spec (adds_finish a.2.1) a.2.2
  have hrows : x.writer.rows = a.2.1.rows := (congrArg Writer.rows hwriter).trans rfl
  refine ⟨⟨a.2.1, hsteps, hrows⟩, ?_, fun hzero => ?_, ?_⟩
  · rintro ⟨reply, hhead⟩
    exact hend ((Call.make_spec (adds_finish_head a.2.1) a.2.2).2 header reply hhead)
  · have hclosing : closing a.2.1.header? a.2.1.rows = [] := by simp [closing, ← hrows, hzero]
    have hpart := hattempt.taken_prefix
    rw [hclosing] at hpart
    exact List.prefix_nil.mp hpart
  · rw [← taken_append]
    exact ((extends_calls _ _ _).trans hextends).stored

/-- The opening of a statement goes out with each row until a row is written whole, and never again: not with a later
    row, and not with the end. So a device that took the opening is sent it again just if the rest of the row failed and
    further rows come. A statement that ends without a row leaves a device empty just if each call failed before
    the device took anything. -/
theorem header_sent_until_row_written {σ : Type} (device : Device σ) (state : σ) (table : String)
    (columns : List String) (rows : List (List Char)) :
    let x := course device state table columns rows
    let header := utf8 (Framing.header table columns)
    (∀ earlier c later, x.calls = earlier ++ c :: later → (c.Sends header ↔ ∀ e ∈ earlier, e.outcome ≠ none)) ∧
      ¬x.ending.Sends header ∧
      (∀ earlier c later, x.calls = earlier ++ c :: later → c.Delivers header →
        ((∀ d ∈ later ++ [x.ending], ¬d.Sends header) ↔ c.outcome = none ∨ later = [])) ∧
      (x.writer.rows = 0 ↔ ∀ c ∈ x.calls, c.outcome ≠ none) ∧
      (x.writer.rows = 0 → (x.after.stored = [] ↔ ∀ c ∈ x.calls, taken c.happenings = [])) := by
  intro x header
  obtain ⟨⟨v, hsteps, hrows⟩, hending, hempty, hstored⟩ := course_parts device state table columns rows
  obtain ⟨-, hsep, -⟩ := header_ne table columns
  have hsends : ∀ earlier c later, x.calls = earlier ++ c :: later →
      (c.Sends header ↔ ∀ e ∈ earlier, e.outcome ≠ none) := fun earlier c later hcs => by
    rw [hsteps.sends_header_iff hsep hcs]
    exact and_iff_right rfl
  refine ⟨hsends, hending, fun earlier c later hcs ⟨hc, _⟩ => ?_, ?_, fun hzero => ?_⟩
  · have hearlier := (hsends earlier c later hcs).mp hc
    constructor
    · intro hquiet
      cases later with
      | nil => exact Or.inr rfl
      | cons d later =>
        refine Or.inl (Classical.byContradiction fun hfault => hquiet d (by simp) ?_)
        refine (hsends (earlier ++ [c]) d later (by simpa using hcs)).mpr ?_
        exact List.forall_mem_append.mpr ⟨hearlier, by simpa using hfault⟩
    · rw [List.forall_mem_append, List.forall_mem_singleton]
      refine fun hlast => ⟨fun d hd hsent => ?_, hending⟩
      -- A later call comes after `c`, which succeeded if anything comes after it.
      obtain ⟨between, rest, rfl⟩ := List.append_of_mem hd
      have hall := (hsends (earlier ++ c :: between) d rest (by simpa using hcs)).mp hsent
      exact hall c (by simp) (hlast.resolve_right (by simp))
  · rw [hrows, hsteps.rows_eq_zero_iff]
    exact and_iff_right rfl
  · rw [hstored, hempty hzero, List.append_nil, taken, List.flatMap_assoc, List.flatMap_eq_nil_iff]
    rfl

/-- The device takes the opening and then fails once. It is sent the opening again with the next row. If no other row
    comes, the statement ends well without a row and leaves a bare opening in the device. -/
theorem header_sent_again :
    let header := utf8 (Framing.header "t" ["a"])
    let script : Script := { mishaps := [(25, .broken)] }
    let x := course Script.device script "t" ["a"] [['(', '1', ')'], ['(', '2', ')']]
    let y := course Script.device script "t" ["a"] [['(', '1', ')']]
    ((∀ c ∈ x.calls, c.Sends header) ∧
      (x.calls.map fun c => (c.outcome, taken c.happenings)) =
        [(some (.stated .brokenPipe "closed"), header), (none, header ++ utf8 ['(', '2', ')'])] ∧
      x.ending.outcome = none ∧ x.after.stored = header ++ header ++ utf8 ['(', '2', ')', ';', '\n']) ∧
    y.ending.outcome = none ∧ y.writer.rows = 0 ∧ y.after.stored = header ∧ header ≠ [] := by
  decide +kernel

end SyntheticRows.Framing.Writer
