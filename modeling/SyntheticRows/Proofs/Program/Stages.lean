import Mathlib
import SyntheticRows.Proofs.Program.Output

/-!
How far a program comes. Each stage begins only after the one before it succeeded. Apart from the log, which may go to
standard output, no stage before the run writes anything, the run writes nothing but standard output, and only the last
stage writes a file (`course_executeIn`).
-/

namespace SyntheticRows.Program
variable {σ α β : Type} {w v opened : Workspace σ} {journal : Journal} {a : Arguments} {args : List String}

/-! ### Stages one after the other -/

theorem run_bind (x : StateM (Workspace σ) α) (f : α → StateM (Workspace σ) β) (w : Workspace σ) :
    StateT.run (m := Id) (x >>= f) w =
      StateT.run (m := Id) (f (StateT.run (m := Id) x w).1) (StateT.run (m := Id) x w).2 :=
  rfl

/-- What a stage gives in a workspace, and the workspace after it. -/
def Stage.runIn (x : Stage (StateM (Workspace σ)) α) (journal : Journal) (w : Workspace σ) :
    Except Fault α × Workspace σ :=
  StateT.run (m := Id) (ExceptT.run x journal) w

namespace Stage

theorem runIn_bind (x : Stage (StateM (Workspace σ)) α) (f : α → Stage (StateM (Workspace σ)) β) :
    runIn (x >>= f) journal w =
      match x.runIn journal w with
      | (.ok a, v) => (f a).runIn journal v
      | (.error fault, v) => (.error fault, v) := by
  have hbind : runIn (x >>= f) journal w =
      StateT.run (m := Id) (ExceptT.bindCont f (x.runIn journal w).1 journal) (x.runIn journal w).2 := rfl
  rw [hbind]
  obtain ⟨result, v⟩ := x.runIn journal w
  cases result <;> rfl

theorem runIn_liftM (x : Journaled (StateM (Workspace σ)) α) :
    runIn (liftM x) journal w =
      (.ok (StateT.run (m := Id) (x journal) w).1, (StateT.run (m := Id) (x journal) w).2) :=
  rfl

end Stage

/-! ### Before the run -/

/-- The configuration that arguments name is read in a workspace. If they name none it is empty. -/
def ReadsConfig (w : Workspace σ) (a : Arguments) (file : Config) : Prop :=
  match a.config with
  | none => file = {}
  | some path => ∃ text, w.readText path = .ok text ∧ Config.parse text = .ok file

theorem runIn_loadConfig (path : String) (journal : Journal) (w : Workspace σ) :
    (∃ text file v, w.readText path = .ok text ∧ Config.parse text = .ok file ∧
      (loadConfig path).runIn journal w = (.ok file, v) ∧ w.LoggedBy v) ∨
    (∀ text file, w.readText path = .ok text → Config.parse text ≠ .ok file) ∧
      ∃ fault, (loadConfig path).runIn journal w = (.error fault, w) := by
  have hread : StateT.run (m := Id) (Host.readText path) w = (w.readText path, w) := rfl
  simp only [loadConfig, Stage.runIn_bind, Stage.runIn_liftM, hread]
  cases htext : w.readText path with
  | error fault =>
    refine .inr ⟨fun text file h => ?_, _, rfl⟩
    cases h
  | ok text =>
    cases hfile : Config.parse text with
    | error fault =>
      refine .inr ⟨fun text' file h hparse => ?_, _, by simp only [hfile]; rfl⟩
      cases h
      rw [hfile] at hparse
      cases hparse
    | ok file =>
      exact .inl ⟨text, file, _, rfl, hfile, by simp only [hfile]; rfl, loggedBy_logged (.configLoaded path) journal w⟩

theorem runIn_resolve (file : Config) (a : Arguments) (journal : Journal) (w : Workspace σ) :
    (StateT.run (m := Id) (resolve file a journal) w).1 = Config.resolve file a.overrides ∧
      w.LoggedBy (StateT.run (m := Id) (resolve file a journal) w).2 := by
  simp only [resolve]
  split
  · let event : Log.Event := .tableNamesIgnored (OutputConfig.ignoredKeys file.output a.overrides.output)
    exact ⟨rfl, loggedBy_logged event journal w⟩
  · exact ⟨rfl, .refl w⟩

/-! ### After the run -/

/-- The stages that follow a run that succeeded. -/
def conclude (a : Arguments) (report : Report) : Stage (StateM (Workspace σ)) Report := do
  if let some path := a.report then writeReport path report
  liftM (m := Journaled (StateM (Workspace σ))) (log (.runFinished report))
  return report

/-- The stages that come after the configuration is read. -/
def proceed (a : Arguments) (file : Config) : Stage (StateM (Workspace σ)) Report := do
  let options ← liftM (m := Journaled (StateM (Workspace σ))) (resolve file a)
  liftM (m := Journaled (StateM (Workspace σ))) (log (.runStarted options))
  let occasion ← liftM (m := Journaled (StateM (Workspace σ))) (fun _ => Host.occasion)
  match ← liftM (m := Journaled (StateM (Workspace σ))) (run options occasion) with
  | .error fault => throw (.run fault)
  | .ok report => conclude a report

/-- The configuration that arguments name, as a stage. -/
def configure (a : Arguments) : Stage (StateM (Workspace σ)) Config :=
  match a.config with
  | some path => loadConfig path
  | none => pure {}

theorem stages_eq (a : Arguments) : (stages a : Stage (StateM (Workspace σ)) Report) = configure a >>= proceed a := by
  rw [stages, configure]
  cases a.config
  all_goals
    refine bind_congr fun file => bind_congr fun options => bind_congr fun _ => bind_congr fun occasion =>
      bind_congr fun result => ?_
    cases result with
    | error fault => rfl
    | ok report =>
      unfold conclude
      cases a.report <;> rfl

/-- Reading the configuration changes nothing but the log. If it fails, there is no configuration to be read. -/
theorem runIn_configure (a : Arguments) (journal : Journal) (w : Workspace σ) :
    (∃ file v, ReadsConfig w a file ∧ (configure a).runIn journal w = (.ok file, v) ∧ w.LoggedBy v) ∨
    (∀ file, ¬ReadsConfig w a file) ∧ ∃ fault, (configure a).runIn journal w = (.error fault, w) := by
  simp only [ReadsConfig, configure]
  cases a.config with
  | none => exact .inl ⟨{}, w, rfl, rfl, .refl w⟩
  | some path =>
    rcases runIn_loadConfig path journal w with ⟨text, file, v, htext, hfile, hrest⟩ | ⟨hnone, hfault⟩
    · exact .inl ⟨file, v, ⟨text, htext, hfile⟩, hrest⟩
    · exact .inr ⟨fun file ⟨text, htext, hfile⟩ => hnone text file htext hfile, hfault⟩

theorem runIn_writeReport (path : String) (report : Report) (journal : Journal) (w : Workspace σ) :
    (writeReport path report).runIn journal w =
      match w.writeText path (report.toJson.pretty 0) with
      | (some fault, v) => (.error (.io fault), v)
      | (none, v) => (.ok (), logged (.reportWritten path) journal v) := by
  have hwrite : StateT.run (m := Id) (Host.writeText path (report.toJson.pretty 0)) w =
      w.writeText path (report.toJson.pretty 0) := rfl
  simp only [writeReport, Stage.runIn_bind, Stage.runIn_liftM, hwrite]
  rcases w.writeText path (report.toJson.pretty 0) with ⟨_ | fault, v⟩ <;> rfl

/-- What is left after a run that succeeded: the report is written if it was asked for. -/
theorem runIn_conclude (a : Arguments) (report : Report) (journal : Journal) (w : Workspace σ) :
    (conclude a report).runIn journal w =
      match a.report with
      | none => (.ok report, logged (.runFinished report) journal w)
      | some path =>
        match w.writeText path (report.toJson.pretty 0) with
        | (some fault, v) => (.error (.io fault), v)
        | (none, v) =>
          (.ok report, logged (.runFinished report) journal (logged (.reportWritten path) journal v)) := by
  rw [conclude]
  cases a.report with
  | none => rfl
  | some path =>
    dsimp only
    rw [Stage.runIn_bind, runIn_writeReport]
    rcases w.writeText path (report.toJson.pretty 0) with ⟨_ | fault, v⟩ <;> rfl

/-- A report that is written to the file of the log takes the place of the log, and two more events follow it there. -/
theorem runIn_conclude_over_log {path : String} {location : Location} {report : Report} (hpath : a.report = some path)
    (hplace : w.tree.placeToWrite path = .ok (.file location)) (hfile : journal.toFile = true)
    (hat : w.logAt = some (.file location)) (hwritten : journal.filter.allows (.reportWritten path) = true)
    (hfinished : journal.filter.allows (.runFinished report) = true) :
    ∃ after, (conclude a report).runIn journal w = (.ok report, after) ∧
      after.tree.text? location = some (report.toJson.pretty 0 ++
        (Log.Event.reportWritten path).jsonLine w.occasion.startedAt ++
        (Log.Event.runFinished report).jsonLine w.occasion.startedAt) := by
  let v : Workspace σ := { w with tree := w.tree.setText location (report.toJson.pretty 0) }
  have hwrite : w.writeText path (report.toJson.pretty 0) = (none, v) := by
    simp only [Workspace.writeText, hplace, v]
  have hkept := (loggedBy_logged (.reportWritten path) journal v).kept
  have hfirst : (logged (.reportWritten path) journal v).tree.text? location = _ :=
    text?_logged hwritten hfile hat (Tree.text?_setText_self w.tree location (report.toJson.pretty 0))
  have hsecond := text?_logged hfinished hfile (hkept.logAt.trans hat) hfirst
  rw [hkept.occasion] at hsecond
  refine ⟨_, ?_, hsecond⟩
  rw [runIn_conclude]
  simp only [hpath, hwrite]

/-- The report is where the arguments ask for it, and nothing else was written from one workspace to the other. -/
def Reported (w : Workspace σ) (a : Arguments) (report : Report) (v : Workspace σ) : Prop :=
  match a.report with
  | none => v = w
  | some path => w.writeText path (report.toJson.pretty 0) = (none, v)

theorem conclude_cases (a : Arguments) (report : Report) (journal : Journal) (w : Workspace σ) :
    (∃ path fault v, a.report = some path ∧ w.writeText path (report.toJson.pretty 0) = (some fault, v) ∧
      (conclude a report).runIn journal w = (.error (.io fault), v)) ∨
    ∃ v after, Reported w a report v ∧ (conclude a report).runIn journal w = (.ok report, after) ∧
      v.LoggedBy after := by
  rw [runIn_conclude]
  simp only [Reported]
  cases hreport : a.report with
  | none => exact .inr ⟨w, _, rfl, rfl, loggedBy_logged _ _ _⟩
  | some path =>
    dsimp only
    rcases hwrite : w.writeText path (report.toJson.pretty 0) with ⟨_ | fault, v⟩
    · exact .inr ⟨v, _, rfl, rfl, (loggedBy_logged _ _ v).trans (loggedBy_logged _ _ _)⟩
    · exact .inl ⟨path, fault, v, rfl, hwrite, rfl⟩

/-! ### The run -/

/-- A run whose options are refused does nothing. -/
theorem runIn_of_fault {o : Options} {fault : OptionFault} (h : o.fault? = some fault) (journal : Journal)
    (occasion : Occasion) (w : Workspace σ) : runIn journal o occasion w = (.error (.options fault), w) := by
  rw [runIn, run, h]
  rfl

/-- The run that a program comes to once it has begun, apart from its log. -/
def runOf (opened : Workspace σ) (a : Arguments) (file : Config) : Except RunFault Report × Recording σ :=
  runInto opened.output.device.overlooking opened.output.state (Config.resolve file a.overrides) opened.occasion

/-- A run with the options of the arguments and the configuration ends with this result and leaves this workspace.
    Before it nothing but the log was written. -/
def Ran (opened : Workspace σ) (a : Arguments) (file : Config) (result : Except RunFault Report) (v : Workspace σ) :
    Prop :=
  ∃ journal u, opened.LoggedBy u ∧ runIn journal (Config.resolve file a.overrides) opened.occasion u = (result, v)

namespace Ran
variable {file : Config} {result : Except RunFault Report}

theorem kept (h : Ran opened a file result v) : opened.KeptBy v := by
  obtain ⟨journal, u, hlogged, hrun⟩ := h
  have hkept := keptBy_runIn journal (Config.resolve file a.overrides) opened.occasion u
  rw [hrun] at hkept
  exact hlogged.kept.trans hkept

/-- A run whose options are refused writes nothing. -/
theorem refused {fault : OptionFault} (hfault : (Config.resolve file a.overrides).fault? = some fault)
    (h : Ran opened a file result v) : result = .error (.options fault) ∧ opened.LoggedBy v := by
  obtain ⟨journal, u, hlogged, hrun⟩ := h
  rw [runIn_of_fault hfault] at hrun
  cases hrun
  exact ⟨rfl, hlogged⟩

theorem accepted {report : Report} (h : Ran opened a file (.ok report) v) :
    (Config.resolve file a.overrides).fault? = none := by
  cases hfault : (Config.resolve file a.overrides).fault? with
  | none => rfl
  | some fault => cases (h.refused hfault).1

/-- What a run does to standard output is what it does to its device. -/
theorem stands (hempty : opened.output.stored = []) (hapart : opened.LogApart) (h : Ran opened a file result v) :
    result = (runOf opened a file).1 ∧ Stands (runOf opened a file).2 v := by
  obtain ⟨journal, u, hlogged, hrun⟩ := h
  have hstands : Stands { device := opened.output.device.overlooking, state := opened.output.state } opened :=
    ⟨rfl, rfl, fun _ => hempty, hapart⟩
  have hsame := stands_runIn journal (Config.resolve file a.overrides) opened.occasion (hstands.of_loggedBy hlogged)
  rw [hrun] at hsame
  exact hsame

end Ran

/-- The workspace in which a run begins, once the configuration is read. -/
def started (a : Arguments) (file : Config) (journal : Journal) (w : Workspace σ) : Workspace σ :=
  logged (.runStarted (Config.resolve file a.overrides)) journal (StateT.run (m := Id) (resolve file a journal) w).2

theorem loggedBy_started (a : Arguments) (file : Config) (journal : Journal) (w : Workspace σ) :
    w.LoggedBy (started a file journal w) :=
  (runIn_resolve file a journal w).2.trans (loggedBy_logged _ _ _)

theorem runIn_proceed (a : Arguments) (file : Config) (journal : Journal) (w : Workspace σ) :
    (proceed a file).runIn journal w =
      match runIn journal (Config.resolve file a.overrides) w.occasion (started a file journal w) with
      | (.error fault, v) => (.error (.run fault), v)
      | (.ok report, v) => (conclude a report).runIn journal v := by
  have hoptions := (runIn_resolve file a journal w).1
  have hlog : ∀ event, ∀ u : Workspace σ, StateT.run (m := Id) (log event journal) u = ((), logged event journal u) :=
    fun _ _ => rfl
  have hoccasion : ∀ u : Workspace σ, StateT.run (m := Id) Host.occasion u = (u.occasion, u) := fun _ => rfl
  have hrun : ∀ o occasion, ∀ u : Workspace σ,
      StateT.run (m := Id) ((run o occasion : Journaled (StateM (Workspace σ)) _) journal) u =
        runIn journal o occasion u := fun _ _ _ => rfl
  have hstarted : logged (.runStarted (Config.resolve file a.overrides)) journal
      (StateT.run (m := Id) (resolve file a journal) w).2 = started a file journal w := rfl
  simp only [proceed, Stage.runIn_bind, Stage.runIn_liftM, hoptions, hlog, hoccasion, hrun, hstarted,
    (loggedBy_started a file journal w).kept.occasion]
  rcases runIn journal (Config.resolve file a.overrides) w.occasion (started a file journal w) with
    ⟨fault | report, v⟩ <;> rfl

/-! ### The whole program -/

/-- The log is opened as the arguments ask for it. -/
def Opens (w : Workspace σ) (a : Arguments) (opened : Workspace σ) : Prop :=
  ∃ journal, StateT.run (m := Id) (openJournal a) w = (.ok journal, opened)

/-- The command line is understood, the log is open and the configuration is read. -/
structure Begun (w : Workspace σ) (args : List String) (a : Arguments) (opened : Workspace σ) (file : Config) :
    Prop where
  parsed : Arguments.parse args = .ok a
  logging : Opens w a opened
  configured : ReadsConfig opened a file

/-- How a program ends: the stage that it came to, with its outcome and the workspace that it leaves. -/
inductive Course (w : Workspace σ) (args : List String) : Outcome → Workspace σ → Prop
  /-- The command line is not understood, or asks for a notice alone. -/
  | misused {fault : UsageFault} : Arguments.parse args = .error fault → Course w args (.usage fault) w
  | unlogged {a : Arguments} {fault : IoFault} : Arguments.parse args = .ok a →
      (StateT.run (m := Id) (openJournal a) w).1 = .error fault → Course w args (.failed (.io fault)) w
  | unread {a : Arguments} {opened : Workspace σ} {fault : Fault} : Arguments.parse args = .ok a →
      Opens w a opened → (∀ file, ¬ReadsConfig opened a file) → Course w args (.failed fault) opened
  | stopped {a : Arguments} {file : Config} {opened after : Workspace σ} {fault : RunFault} :
      Begun w args a opened file → Ran opened a file (.error fault) after →
      Course w args (.failed (.run fault)) after
  /-- The run succeeded, but the report cannot be written. -/
  | unreported {a : Arguments} {file : Config} {opened ran after : Workspace σ} {report : Report} {path : String}
      {fault : IoFault} :
      Begun w args a opened file → Ran opened a file (.ok report) ran → a.report = some path →
      ran.writeText path (report.toJson.pretty 0) = (some fault, after) →
      Course w args (.failed (.io fault)) after
  | finished {a : Arguments} {file : Config} {opened ran reported after : Workspace σ} {report : Report} :
      Begun w args a opened file → Ran opened a file (.ok report) ran → Reported ran a report reported →
      reported.LoggedBy after → Course w args (.finished report) after

theorem openJournal_eq (a : Arguments) (w : Workspace σ) :
    StateT.run (m := Id) (openJournal a) w =
      match a.logFile with
      | none => (.ok { filter := Log.Filter.ofEnvironment w.logFilter a.verbose, toFile := false }, w)
      | some path =>
        match w.openLog path with
        | (some fault, v) => (.error fault, v)
        | (none, v) => (.ok { filter := Log.Filter.ofEnvironment w.logFilter a.verbose, toFile := true }, v) := by
  have hfilter : StateT.run (m := Id) Host.logFilter w = (w.logFilter, w) := rfl
  rw [openJournal]
  cases a.logFile with
  | none => rfl
  | some path =>
    have hlog : StateT.run (m := Id) (Host.openLog path) w = w.openLog path := rfl
    rw [run_bind, hfilter]
    dsimp only
    rw [run_bind, hlog]
    rcases w.openLog path with ⟨_ | fault, v⟩ <;> rfl

theorem openJournal_cases (hclosed : w.logAt = none) (a : Arguments) :
    (∃ fault, StateT.run (m := Id) (openJournal a) w = (.error fault, w)) ∨
    ∃ journal v, StateT.run (m := Id) (openJournal a) w = (.ok journal, v) ∧ w.OpenedBy v := by
  rw [openJournal_eq]
  cases a.logFile with
  | none => exact .inr ⟨_, w, rfl, .refl hclosed⟩
  | some path =>
    rcases w.openLog_cases path with ⟨fault, h⟩ | ⟨v, h, hopened⟩
    · exact .inl ⟨fault, by simp only [h]⟩
    · exact .inr ⟨⟨Log.Filter.ofEnvironment w.logFilter a.verbose, true⟩, v, by simp only [h], hopened⟩

theorem openedBy_of_opens (hclosed : w.logAt = none) (h : Opens w a opened) : w.OpenedBy opened := by
  obtain ⟨journal, h⟩ := h
  rcases openJournal_cases hclosed a with ⟨fault, hfault⟩ | ⟨journal', v, hv, hopened⟩
  · rw [hfault] at h
    cases h
  · rw [hv] at h
    cases h
    exact hopened

theorem executeIn_eq (w : Workspace σ) (args : List String) :
    executeIn w args =
      match Arguments.parse args with
      | .error fault => (.usage fault, w)
      | .ok a =>
        match StateT.run (m := Id) (openJournal a) w with
        | (.error fault, v) => (.failed (.io fault), v)
        | (.ok journal, v) =>
          match (stages a).runIn journal v with
          | (.ok report, after) => (.finished report, after)
          | (.error fault, after) => (.failed fault, after) := by
  rw [executeIn, execute]
  cases Arguments.parse args with
  | error fault => rfl
  | ok a =>
    dsimp only
    rw [run_bind]
    rcases StateT.run (m := Id) (openJournal a) w with ⟨fault | journal, v⟩
    · rfl
    · dsimp only
      rw [run_bind, Stage.runIn]
      rcases StateT.run (m := Id) (ExceptT.run (stages a) journal) v with ⟨fault | report, after⟩ <;> rfl

/-- A program whose configuration is read ends as the stages after it do. -/
theorem executeIn_configured {file : Config} (hparse : Arguments.parse args = .ok a)
    (hopen : StateT.run (m := Id) (openJournal a) w = (.ok journal, opened))
    (hconfigure : (configure a).runIn journal opened = (.ok file, v)) :
    executeIn w args =
      match (proceed a file).runIn journal v with
      | (.ok report, after) => (.finished report, after)
      | (.error fault, after) => (.failed fault, after) := by
  rw [executeIn_eq, hparse]
  dsimp only
  rw [hopen]
  dsimp only
  rw [stages_eq, Stage.runIn_bind, hconfigure]

/-- Once the configuration is read there is a run. If it succeeds, the program ends as its conclusion does. -/
theorem executeIn_ran {file : Config} (hparse : Arguments.parse args = .ok a)
    (hopen : StateT.run (m := Id) (openJournal a) w = (.ok journal, opened))
    (hconfigure : (configure a).runIn journal opened = (.ok file, v)) (hlogged : opened.LoggedBy v) :
    ∃ result u, Ran opened a file result u ∧
      executeIn w args =
        match result with
        | .error fault => (.failed (.run fault), u)
        | .ok report =>
          match (conclude a report).runIn journal u with
          | (.ok report, after) => (.finished report, after)
          | (.error fault, after) => (.failed fault, after) := by
  rcases hrun : runIn journal (Config.resolve file a.overrides) opened.occasion (started a file journal v) with
    ⟨result, u⟩
  refine ⟨result, u, ⟨journal, _, hlogged.trans (loggedBy_started a file journal v), hrun⟩, ?_⟩
  rw [executeIn_configured hparse hopen hconfigure, runIn_proceed, hlogged.kept.occasion, hrun]
  cases result <;> rfl

theorem course_executeIn (hclosed : w.logAt = none) (args : List String) :
    Course w args (executeIn w args).1 (executeIn w args).2 := by
  cases hparse : Arguments.parse args with
  | error fault =>
    rw [executeIn_eq, hparse]
    exact .misused hparse
  | ok a =>
    rcases openJournal_cases hclosed a with ⟨fault, hopen⟩ | ⟨journal, opened, hopen, -⟩
    · rw [executeIn_eq, hparse]
      dsimp only
      rw [hopen]
      exact .unlogged hparse (by rw [hopen])
    · have hlogging : Opens w a opened := ⟨journal, hopen⟩
      rcases runIn_configure a journal opened with ⟨file, v, hfile, hconfigure, hlogged⟩ | ⟨hnone, fault, hconfigure⟩
      · have hbegun : Begun w args a opened file := ⟨hparse, hlogging, hfile⟩
        obtain ⟨result, u, hran, hexecute⟩ := executeIn_ran hparse hopen hconfigure hlogged
        rw [hexecute]
        cases result with
        | error fault => exact .stopped hbegun hran
        | ok report =>
          dsimp only
          rcases conclude_cases a report journal u with ⟨path, fault, after, hpath, hwrite, hend⟩ |
            ⟨reported, after, hreported, hend, hrest⟩
          · rw [hend]
            exact .unreported hbegun hran hpath hwrite
          · rw [hend]
            exact .finished hbegun hran hreported hrest
      · rw [executeIn_eq, hparse]
        dsimp only
        rw [hopen]
        dsimp only
        rw [stages_eq, Stage.runIn_bind, hconfigure]
        exact .unread hparse hlogging hnone

end SyntheticRows.Program
