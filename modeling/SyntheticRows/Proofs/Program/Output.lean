import Mathlib
import SyntheticRows.Proofs.Workspace

/-!
A run as a stage of the program. It does to standard output what it does to a recorded device that takes everything when
it is not open, as long as the log goes elsewhere, and nothing else in the workspace is changed by it but the log
(`Mirrors.run`).
-/

namespace SyntheticRows

/-! ### Devices that are not open -/

namespace Device
variable {σ : Type} {d : Device σ}

/-- A device that is open for writing. It may have any fault but that it is not. -/
structure IsWritable (d : Device σ) : Prop where
  write : ∀ s bytes, (d.write s bytes).1 ≠ .failed .notOpen
  flush : ∀ s, (d.flush s).1 ≠ some .notOpen

/-- A device as the program sees it, which takes everything if it is not open. -/
def overlooking (d : Device σ) : Device σ where
  write s bytes :=
    (if (d.write s bytes).1 = .failed .notOpen then .took bytes.length else (d.write s bytes).1, (d.write s bytes).2)
  flush s := (if (d.flush s).1 = some .notOpen then none else (d.flush s).1, (d.flush s).2)
  patience := d.patience
  patience_lt {s t bytes} h := by
    simp only [Prod.mk.injEq] at h
    obtain ⟨hanswer, ht⟩ := h
    split at hanswer
    · cases hanswer
    · exact d.patience_lt (Prod.ext hanswer ht)

theorem write_overlooking (d : Device σ) (s : σ) (bytes : Bytes) :
    d.overlooking.write s bytes =
      (if (d.write s bytes).1 = .failed .notOpen then .took bytes.length else (d.write s bytes).1,
        (d.write s bytes).2) :=
  rfl

theorem flush_overlooking (d : Device σ) (s : σ) :
    d.overlooking.flush s = (if (d.flush s).1 = some .notOpen then none else (d.flush s).1, (d.flush s).2) :=
  rfl

theorem offer_of_took {s t : σ} {bytes : Bytes} {count : Nat} (h : d.write s bytes = (.took count, t)) :
    d.offer s bytes = (.took count, t) := by
  rw [offer]
  split <;> rename_i hw <;> cases h.symm.trans hw
  rfl

theorem offer_of_failed {s t : σ} {bytes : Bytes} {fault : IoFault} (h : d.write s bytes = (.failed fault, t)) :
    d.offer s bytes = (.failed fault, t) := by
  rw [offer]
  split <;> rename_i hw <;> cases h.symm.trans hw
  rfl

theorem offer_of_interrupted {s t : σ} {bytes : Bytes} (h : d.write s bytes = (.interrupted, t)) :
    d.offer s bytes = d.offer t bytes := by
  rw [offer]
  split <;> rename_i hw <;> cases h.symm.trans hw
  rfl

theorem offer_overlooking (d : Device σ) (s : σ) (bytes : Bytes) :
    d.overlooking.offer s bytes =
      (if (d.offer s bytes).1 = .failed .notOpen then .took bytes.length else (d.offer s bytes).1,
        (d.offer s bytes).2) := by
  fun_induction d.offer s bytes with
  | case1 s count t hw => exact offer_of_took (by simp [write_overlooking, hw])
  | case2 s fault t hw =>
    by_cases hfault : fault = .notOpen
    · have htook : d.overlooking.write s bytes = (.took bytes.length, t) := by simp [write_overlooking, hw, hfault]
      rw [offer_of_took htook, if_pos (by rw [hfault])]
    · have hfailed : d.overlooking.write s bytes = (.failed fault, t) := by simp [write_overlooking, hw, hfault]
      rw [offer_of_failed hfailed, if_neg (by simpa using hfault)]
  | case3 s t hw ih =>
    have hagain : d.overlooking.write s bytes = (.interrupted, t) := by simp [write_overlooking, hw]
    rw [offer_of_interrupted hagain, ih]

theorem IsWritable.offer_ne (h : d.IsWritable) (s : σ) (bytes : Bytes) :
    (d.offer s bytes).1 ≠ .failed .notOpen := by
  fun_induction d.offer s bytes with
  | case1 s count t hw => exact Reply.noConfusion
  | case2 s fault t hw =>
    intro hfault
    cases hfault
    exact h.write s bytes (by rw [hw])
  | case3 s t hw ih => exact ih

theorem FaultFree.isWritable (h : d.FaultFree) : d.IsWritable where
  write s bytes := h.write s bytes _
  flush s := by
    rw [h.flush s]
    exact (Option.some_ne_none _).symm

theorem FaultFree.overlooking (h : d.FaultFree) : d.overlooking.FaultFree where
  write s bytes fault := by
    rw [write_overlooking, if_neg (h.isWritable.write s bytes)]
    exact h.write s bytes fault
  took s b bytes := by
    rw [write_overlooking, if_neg (h.isWritable.write s (b :: bytes))]
    exact h.took s b bytes
  flush s := by
    rw [flush_overlooking, if_neg (h.isWritable.flush s)]
    exact h.flush s

/-- A device that is not open for writing. -/
def unopened : Device Unit where
  write _ _ := (.failed .notOpen, ())
  flush _ := (some .notOpen, ())
  patience _ := 0
  patience_lt h := by cases h

theorem faultFree_overlooking_unopened : unopened.overlooking.FaultFree where
  write _ _ _ h := by cases h
  took _ b bytes h := by cases h
  flush _ := rfl

theorem taken_of_unopened {s t : Unit} {hs : List Happening} (h : unopened.Follows s hs t) : taken hs = [] := by
  induction hs with
  | nil => rfl
  | cons x hs ih =>
    cases x with
    | offered bytes reply =>
      obtain ⟨rfl, h⟩ := h
      have hfailed : unopened.offer s bytes = (.failed .notOpen, ()) := offer_of_failed rfl
      rw [hfailed]
      exact ih h
    | flushed fault => exact ih h.2
    | noted event => exact ih h

end Device

namespace Program
variable {σ α β : Type} {w v u : Workspace σ} {journal : Journal} {r : Recording σ}

/-- The workspace after an event was logged. -/
def logged (event : Log.Event) (journal : Journal) (w : Workspace σ) : Workspace σ :=
  (StateT.run (m := Id) (log event journal) w).2

theorem logged_cases (event : Log.Event) (journal : Journal) (w : Workspace σ) :
    logged event journal w =
      if journal.filter.allows event then
        if journal.toFile then w.appendLog (event.jsonLine w.occasion.startedAt)
        else { w with complaints := event.plainLine w.occasion.startedAt :: w.complaints }
      else w := by
  rw [logged, log]
  split
  · cases journal.toFile <;> rfl
  · rfl

theorem loggedBy_logged (event : Log.Event) (journal : Journal) (w : Workspace σ) :
    w.LoggedBy (logged event journal w) := by
  rw [logged_cases]
  split
  · split
    · exact w.loggedBy_appendLog _
    · exact ⟨.of_eq rfl rfl rfl ⟨[], .refl _⟩, fun _ => rfl⟩
  · exact .refl w

/-- An event that is logged to a file stands at its end. -/
theorem text?_logged {event : Log.Event} {location : Location} {text : List Char}
    (hallowed : journal.filter.allows event = true) (hfile : journal.toFile = true)
    (hat : w.logAt = some (.file location)) (htext : w.tree.text? location = some text) :
    (logged event journal w).tree.text? location = some (text ++ event.jsonLine w.occasion.startedAt) := by
  rw [logged_cases, if_pos hallowed, if_pos hfile]
  exact Workspace.text?_appendLog _ hat htext

/-- Standard output is where a recorded device is, which is the device of standard output as the program sees it. If
    this is open they hold the same bytes. The log goes elsewhere. -/
structure Stands (r : Recording σ) (v : Workspace σ) : Prop where
  device : r.device = v.output.device.overlooking
  state : r.state = v.output.state
  stored : v.output.device.IsWritable → v.output.stored = r.stored
  apart : v.LogApart

theorem Stands.of_loggedBy (h : Stands r v) (hlog : v.LoggedBy u) : Stands r u where
  device := hlog.output h.apart ▸ h.device
  state := hlog.output h.apart ▸ h.state
  stored := hlog.output h.apart ▸ h.stored
  apart := hlog.kept.apart h.apart

theorem stored_add (r : Recording σ) (x : Happening) : (r.add x).stored = r.stored ++ x.accepted := by
  simp [Recording.stored, Recording.happenings, Recording.add]

/-- A computation of the program changes nothing in a workspace but standard output and the log. From where a recorded
    device and standard output stand alike, another one gives the same value for the device, and they stand alike
    again. -/
structure Mirrors (journal : Journal) (x : StateM (Recording σ) α) (y : Journaled (StateM (Workspace σ)) α) : Prop where
  kept : ∀ v : Workspace σ, v.KeptBy (StateT.run (m := Id) (y journal) v).2
  same : ∀ r v, Stands r v → (StateT.run (m := Id) (y journal) v).1 = (StateT.run (m := Id) x r).1 ∧
    Stands (StateT.run (m := Id) x r).2 (StateT.run (m := Id) (y journal) v).2

namespace Mirrors

theorem pure (a : α) : Mirrors journal (Pure.pure a : StateM (Recording σ) α) (Pure.pure a) :=
  ⟨fun v => .refl v, fun _ _ h => ⟨rfl, h⟩⟩

theorem bind {x : StateM (Recording σ) α} {y : Journaled (StateM (Workspace σ)) α} {f : α → StateM (Recording σ) β}
    {g : α → Journaled (StateM (Workspace σ)) β} (h : Mirrors journal x y)
    (hnext : ∀ a, Mirrors journal (f a) (g a)) : Mirrors journal (x >>= f) (y >>= g) := by
  have hright : ∀ v, StateT.run (m := Id) ((y >>= g) journal) v =
      StateT.run (m := Id) (g (StateT.run (m := Id) (y journal) v).1 journal)
        (StateT.run (m := Id) (y journal) v).2 := fun _ => rfl
  refine ⟨fun v => ?_, fun r v hstands => ?_⟩
  · rw [hright]
    exact (h.kept v).trans ((hnext _).kept _)
  · obtain ⟨hvalue, hafter⟩ := h.same r v hstands
    have hrest := (hnext (StateT.run (m := Id) x r).1).same _ _ hafter
    rw [hright, hvalue]
    exact hrest

/-! ### Calls -/

theorem write (bytes : Bytes) :
    Mirrors journal (Outlet.write bytes : StateM (Recording σ) Reply) (Outlet.write bytes) := by
  refine ⟨fun v => ?_, fun r v h => ?_⟩
  · obtain ⟨hs, hextends, -⟩ := Recording.Adds.write bytes v.output
    exact .of_eq rfl rfl rfl ⟨hs, hextends⟩
  have hoffer : r.device.offer r.state bytes = _ :=
    (congrArg₂ (Device.offer · · bytes) h.device h.state).trans (v.output.device.offer_overlooking v.output.state bytes)
  refine ⟨(congrArg Prod.fst hoffer).symm, h.device, (congrArg Prod.snd hoffer :), fun hopen => ?_, h.apart⟩
  have hreply : (r.device.offer r.state bytes).1 = (v.output.device.offer v.output.state bytes).1 :=
    (congrArg Prod.fst hoffer).trans (if_neg (Device.IsWritable.offer_ne hopen _ _))
  refine (stored_add _ _).trans (Eq.trans ?_ (stored_add _ _).symm)
  rw [show (r.device.offer r.state bytes).1 = _ from hreply]
  exact congrArg (· ++ _) (h.stored hopen)

theorem flush : Mirrors journal (Outlet.flush : StateM (Recording σ) (Option IoFault)) Outlet.flush := by
  refine ⟨fun v => ?_, fun r v h => ?_⟩
  · obtain ⟨hs, hextends, -⟩ := Recording.Adds.flush v.output
    exact .of_eq rfl rfl rfl ⟨hs, hextends⟩
  have hflush : r.device.flush r.state = _ :=
    (congrArg₂ Device.flush h.device h.state).trans (v.output.device.flush_overlooking v.output.state)
  refine ⟨(congrArg Prod.fst hflush).symm, h.device, (congrArg Prod.snd hflush :), fun hopen => ?_, h.apart⟩
  refine (stored_add _ _).trans (Eq.trans ?_ (stored_add _ _).symm)
  exact congrArg (· ++ _) (h.stored hopen)

theorem note (event : RunEvent) :
    Mirrors journal (Observer.note event : StateM (Recording σ) Unit) (Observer.note event) := by
  refine ⟨fun v => (loggedBy_logged (Log.Event.ofRun event) journal v).kept, fun r v h => ?_⟩
  have hlog := h.of_loggedBy (loggedBy_logged (Log.Event.ofRun event) journal v)
  refine ⟨rfl, hlog.device, hlog.state, fun hopen => (hlog.stored hopen).trans ?_, hlog.apart⟩
  exact (List.append_nil _).symm.trans (stored_add r (.noted event)).symm

theorem clock : Mirrors journal (Observer.clock : StateM (Recording σ) UInt64) Observer.clock :=
  ⟨fun v => .refl v, fun _ _ h => ⟨rfl, h⟩⟩

/-! ### Writing -/

theorem writeAll (bytes : Bytes) :
    Mirrors journal (SyntheticRows.writeAll bytes : StateM (Recording σ) _) (SyntheticRows.writeAll bytes) := by
  induction hn : bytes.length using Nat.strongRecOn generalizing bytes with
  | _ n ih =>
    unfold SyntheticRows.writeAll
    split
    · exact pure _
    · rename_i hne
      refine bind (write bytes) fun reply => ?_
      match reply with
      | .failed fault => exact pure _
      | .took 0 => exact pure _
      | .took (count + 1) =>
        have hlt : (bytes.drop (count + 1)).length < n := by
          have := List.length_pos_iff.mpr hne
          simp only [List.length_drop]
          omega
        exact bind (ih _ hlt _ rfl) fun _ => pure _

theorem writeEach (texts : List Bytes) :
    Mirrors journal (SyntheticRows.writeEach texts : StateM (Recording σ) _) (SyntheticRows.writeEach texts) := by
  induction texts with
  | nil => exact pure _
  | cons text rest ih =>
    refine bind (writeAll text) fun ⟨count, fault⟩ => ?_
    cases fault with
    | some fault => exact pure _
    | none => exact bind ih fun _ => pure _

theorem writeRow (writer : Framing.Writer) (row : Bytes) :
    Mirrors journal (writer.writeRow row : StateM (Recording σ) _) (writer.writeRow row) := by
  refine bind (writeEach _) fun ⟨count, fault⟩ => ?_
  cases fault with
  | some fault => exact pure _
  | none => exact pure _

theorem finish (writer : Framing.Writer) :
    Mirrors journal (writer.finish : StateM (Recording σ) _) writer.finish := by
  refine bind (writeEach _) fun ⟨count, fault⟩ => ?_
  cases fault with
  | some fault => exact pure _
  | none => exact bind flush fun _ => pure _

theorem writeRows (row : UInt32 → List Char) (step bound fuel index : Nat) (writer : Framing.Writer) :
    Mirrors journal (Run.writeRows row step bound fuel index writer : StateM (Recording σ) _)
      (Run.writeRows row step bound fuel index writer) := by
  induction fuel generalizing index writer with
  | zero => exact pure _
  | succ fuel ih =>
    rw [Run.writeRows, Run.writeRows]
    split
    · cases Run.rowIndex? index with
      | none => exact pure _
      | some i =>
        refine bind (writeRow writer _) fun ⟨fault, writer⟩ => ?_
        cases fault with
        | some fault => exact pure _
        | none => exact ih _ writer
    · exact pure _

/-! ### Runs -/

theorem writePass (o : Options) (seed : Seed) (pass : Pass) :
    Mirrors journal (Run.writePass o seed pass : StateM (Recording σ) _) (Run.writePass o seed pass) := by
  refine bind (writeRows _ _ _ _ _ _) fun ⟨fault, writer⟩ => ?_
  cases fault with
  | some fault => exact pure _
  | none =>
    refine bind (finish writer) fun ⟨fault, writer⟩ => ?_
    cases fault with
    | some fault => exact pure _
    | none => exact pure _

theorem runPasses (o : Options) (passes : List Pass) (report : Report) :
    Mirrors journal (Run.runPasses o passes report : StateM (Recording σ) _) (Run.runPasses o passes report) := by
  induction passes generalizing report with
  | nil => exact pure _
  | cons pass rest ih =>
    refine bind clock fun before => bind (note _) fun _ => bind (writePass o report.seed pass) fun result => ?_
    match result with
    | .error fault => exact pure _
    | .ok (rows, bytes) => exact bind clock fun after => bind (note _) fun _ => ih _

theorem run (o : Options) (occasion : Occasion) :
    Mirrors journal (SyntheticRows.run o occasion : StateM (Recording σ) _) (SyntheticRows.run o occasion) := by
  rw [SyntheticRows.run, SyntheticRows.run]
  cases o.fault? with
  | some fault => exact pure _
  | none =>
    refine bind (note _) fun _ => bind clock fun before => bind (note _) fun _ =>
      bind (runPasses o o.selectedPasses _) fun result => ?_
    match result with
    | .error fault => exact pure _
    | .ok report => exact bind clock fun after => bind (note _) fun _ => pure _

end Mirrors

/-- A run in a workspace, as the program makes it. -/
def runIn (journal : Journal) (o : Options) (occasion : Occasion) (w : Workspace σ) :
    Except RunFault Report × Workspace σ :=
  StateT.run (m := Id) ((run o occasion : Journaled (StateM (Workspace σ)) (Except RunFault Report)) journal) w

theorem keptBy_runIn (journal : Journal) (o : Options) (occasion : Occasion) (w : Workspace σ) :
    w.KeptBy (runIn journal o occasion w).2 :=
  (Mirrors.run o occasion).kept w

theorem stands_runIn (journal : Journal) (o : Options) (occasion : Occasion) (h : Stands r v) :
    (runIn journal o occasion v).1 = (StateT.run (m := Id) (run o occasion) r).1 ∧
      Stands (StateT.run (m := Id) (run o occasion) r).2 (runIn journal o occasion v).2 :=
  (Mirrors.run o occasion).same r v h

end Program

end SyntheticRows
