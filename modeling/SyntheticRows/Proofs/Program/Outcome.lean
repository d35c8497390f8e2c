import Mathlib
import SyntheticRows.Proofs.Json.RoundTrip
import SyntheticRows.Proofs.Program.Stages
import SyntheticRows.Proofs.Run.Truth

/-!
What the end of a program says. A program that ends well has carried out each stage, and the report that it leaves in a
file is true of what it wrote to standard output. The log and the report may themselves go to standard output or to
another special file, and standard output may not be open at all; then less is true (`reports_not_found`).
-/

namespace SyntheticRows

namespace Program
variable {σ : Type} {w opened after : Workspace σ} {a : Arguments} {file : Config} {args : List String}
  {outcome : Outcome}

/-! ### Standard output -/

/-- What stands on standard output in the end: what the run wrote, or the notice that was asked for. -/
def standardOutput (outcome : Outcome) (after : Workspace σ) : Bytes :=
  after.output.stored ++ outcome.notice?.elim [] fun notice => utf8 notice.toList

theorem Course.of_notice (h : Course w args outcome after) {notice : String} (hnotice : outcome.notice? = some notice) :
    after = w ∧ (Arguments.parse args = .error .helpRequested ∨ Arguments.parse args = .error .versionRequested) := by
  cases h with
  | @misused fault hparse =>
    cases fault
    case helpRequested => exact ⟨rfl, .inl hparse⟩
    case versionRequested => exact ⟨rfl, .inr hparse⟩
    all_goals cases hnotice
  | unlogged => cases hnotice
  | unread => cases hnotice
  | stopped => cases hnotice
  | unreported => cases hnotice
  | finished => cases hnotice

/-- Standard output is written to by a run whose options are accepted, or by a log that goes there. -/
theorem Course.of_stored (hclosed : w.logAt = none) (hempty : w.output.stored = []) (h : Course w args outcome after)
    (hstored : after.output.stored ≠ []) :
    (∃ a opened file, Begun w args a opened file ∧ (Config.resolve file a.overrides).fault? = none) ∨
    ∃ a opened, Arguments.parse args = .ok a ∧ Opens w a opened ∧ ¬opened.LogApart := by
  have hopened : ∀ {a opened}, Opens w a opened → opened.output.stored = [] := fun hopens => by
    rw [(openedBy_of_opens hclosed hopens).output, hempty]
  cases h with
  | misused => exact absurd hempty hstored
  | unlogged => exact absurd hempty hstored
  | unread _ hopens => exact absurd (hopened hopens) hstored
  | @stopped a file opened _ _ hbegun hran =>
    cases hfault : (Config.resolve file a.overrides).fault? with
    | none => exact .inl ⟨_, _, _, hbegun, hfault⟩
    | some fault =>
      refine .inr ⟨_, _, hbegun.parsed, hbegun.logging, fun hapart => hstored ?_⟩
      rw [(hran.refused hfault).2.output hapart, hopened hbegun.logging]
  | unreported hbegun hran => exact .inl ⟨_, _, _, hbegun, hran.accepted⟩
  | finished hbegun hran => exact .inl ⟨_, _, _, hbegun, hran.accepted⟩

/-! ### Files -/

/-- The text of a file has grown at its end, or the file is new. -/
def Grown (w v : Workspace σ) (location : Location) : Prop :=
  ∃ lines, v.tree.text? location = some ((w.tree.text? location).getD [] ++ lines)

/-- What is different from before the log was opened is the log, which has grown. -/
theorem grown_of_keptAt (hopened : w.OpenedBy opened) {location : Location} (hkept : opened.KeptAt after location)
    (h : after.tree.text? location ≠ w.tree.text? location) :
    opened.logAt = some (.file location) ∧ Grown w after location := by
  have hlog : opened.logAt = some (.file location) := by
    by_contra hne
    rcases hopened.text? location with hsame | ⟨hat, -⟩
    · exact h ((hkept.other hne).trans hsame)
    · exact hne hat
  refine ⟨hlog, hkept.log _ hlog ?_⟩
  rcases hopened.text? location with hsame | ⟨-, hnone, hempty⟩
  · obtain ⟨text, htext⟩ := Option.isSome_iff_exists.mp (hopened.ready location hlog)
    rw [← hsame, htext]
    rfl
  · rw [hnone, hempty]
    rfl

/-- Where a report was written. -/
theorem Reported.cases {ran reported : Workspace σ} {report : Report} (h : Reported ran a report reported) :
    (a.report = none ∧ reported = ran) ∨
    ∃ path, a.report = some path ∧
      ((∃ kind, kind ≠ .full ∧ ran.tree.placeToWrite path = .ok (.special kind) ∧ ran.KeptBy reported) ∨
        ∃ location, ran.tree.placeToWrite path = .ok (.file location) ∧
          reported = { ran with tree := ran.tree.setText location (report.toJson.pretty 0) }) := by
  rw [Reported] at h
  cases hreport : a.report with
  | none =>
    rw [hreport] at h
    exact .inl ⟨rfl, h⟩
  | some path =>
    rw [hreport] at h
    refine .inr ⟨path, rfl, ?_⟩
    rcases ran.writeText_cases path (report.toJson.pretty 0) with ⟨fault, v, hwrite, -⟩ |
      ⟨kind, v, hkind, hplace, hwrite, hkept⟩ | ⟨location, hplace, hwrite⟩
    · cases hwrite.symm.trans h
    · cases hwrite.symm.trans h
      exact .inl ⟨kind, hkind, hplace, hkept⟩
    · cases hwrite.symm.trans h
      exact .inr ⟨location, hplace, rfl⟩

/-- A file is the one that a report was written to after a run that succeeded. -/
def ReportedAt (w : Workspace σ) (args : List String) (location : Location) : Prop :=
  ∃ a opened file report ran path, Begun w args a opened file ∧ Ran opened a file (.ok report) ran ∧
    a.report = some path ∧ opened.tree.placeToWrite path = .ok (.file location)

theorem Course.of_text (hclosed : w.logAt = none) (h : Course w args outcome after) {location : Location}
    (hchanged : after.tree.text? location ≠ w.tree.text? location) :
    (∃ a opened, Arguments.parse args = .ok a ∧ Opens w a opened ∧ opened.logAt = some (.file location) ∧
      Grown w after location) ∨ ReportedAt w args location := by
  -- If nothing but the log was written once it was open, what has changed is the log.
  have hlog : ∀ {a opened}, Arguments.parse args = .ok a → Opens w a opened → opened.KeptAt after location →
      ∃ a opened, Arguments.parse args = .ok a ∧ Opens w a opened ∧ opened.logAt = some (.file location) ∧
        Grown w after location := fun hparse hopens hkept =>
    ⟨_, _, hparse, hopens, grown_of_keptAt (openedBy_of_opens hclosed hopens) hkept hchanged⟩
  cases h with
  | misused => exact absurd rfl hchanged
  | unlogged => exact absurd rfl hchanged
  | unread hparse hopens => exact .inl (hlog hparse hopens (.of_eq rfl))
  | stopped hbegun hran => exact .inl (hlog hbegun.parsed hbegun.logging (hran.kept.text? location))
  | unreported hbegun hran _ hwrite =>
    exact .inl (hlog hbegun.parsed hbegun.logging
      ((hran.kept.trans (Workspace.keptBy_of_fault hwrite)).text? location))
  | @finished a file opened ran reported after report hbegun hran hreported hrest =>
    -- Apart from the file of the report, all that was written is the log.
    have hkept : reported.logAt = opened.logAt → ran.KeptAt reported location → opened.KeptAt after location :=
      fun hat hreport => ((hran.kept.text? location).trans hran.kept.logAt hreport).trans hat
        (hrest.kept.text? location)
    rcases hreported.cases with ⟨-, rfl⟩ | ⟨path, hpath, ⟨kind, -, -, hreport⟩ | ⟨at_, hplace, rfl⟩⟩
    · exact .inl (hlog hbegun.parsed hbegun.logging (hkept hran.kept.logAt (.of_eq rfl)))
    · exact .inl (hlog hbegun.parsed hbegun.logging
        (hkept (hreport.logAt.trans hran.kept.logAt) (hreport.text? location)))
    · by_cases heq : location = at_
      · subst heq
        have hready := (openedBy_of_opens hclosed hbegun.logging).ready
        rw [(hran.kept.samePlaces hready).placeToWrite] at hplace
        exact .inr ⟨_, _, _, _, _, _, hbegun, hran, hpath, hplace⟩
      · exact .inl (hlog hbegun.parsed hbegun.logging
          (hkept hran.kept.logAt (.of_eq (Tree.text?_setText_of_ne heq))))

/-! ### Success -/

/-- The report was written to a special file or to a file of the tree. If that is not the log, the report is all that
    stands in it. -/
theorem Course.of_exitCode (hclosed : w.logAt = none) (h : Course w args outcome after)
    (hexit : outcome.exitCode = 0) (hnotice : outcome.notice? = none) :
    ∃ a opened file report ran, Begun w args a opened file ∧ Ran opened a file (.ok report) ran ∧
      outcome = .finished report ∧
      ∀ path, a.report = some path → (∃ kind, kind ≠ .full ∧ opened.tree.placeToWrite path = .ok (.special kind)) ∨
        ∃ location, opened.tree.placeToWrite path = .ok (.file location) ∧
          (opened.LogApart → after.output = ran.output) ∧
          (opened.logAt ≠ some (.file location) → after.tree.text? location = some (report.toJson.pretty 0)) := by
  cases h with
  | @misused fault hparse =>
    cases fault
    case helpRequested => cases hnotice
    case versionRequested => cases hnotice
    all_goals cases hexit
  | unlogged => cases hexit
  | unread => cases hexit
  | stopped => cases hexit
  | unreported => cases hexit
  | @finished a file opened ran reported after report hbegun hran hreported hrest =>
    have hplaces := (hran.kept.samePlaces (openedBy_of_opens hclosed hbegun.logging).ready).placeToWrite
    refine ⟨a, opened, file, report, ran, hbegun, hran, rfl, fun path hpath => ?_⟩
    rcases hreported.cases with ⟨hnone, -⟩ | ⟨path', hpath', hwritten⟩
    · cases hpath.symm.trans hnone
    · cases hpath.symm.trans hpath'
      rcases hwritten with ⟨kind, hkind, hplace, -⟩ | ⟨location, hplace, rfl⟩
      · exact .inl ⟨kind, hkind, hplaces path ▸ hplace⟩
      · have houtput := fun hapart => hrest.output (hran.kept.apart hapart)
        refine .inr ⟨location, hplaces path ▸ hplace, houtput, fun hlog => ?_⟩
        rw [(hrest.kept.text? location).other (hran.kept.logAt ▸ hlog)]
        exact Tree.text?_setText_self _ _ _

theorem Begun.unique {b : Arguments} {v : Workspace σ} {other : Config} (h : Begun w args a opened file)
    (k : Begun w args b v other) : b = a ∧ v = opened ∧ other = file := by
  obtain ⟨hparse, ⟨_, hopen⟩, hread⟩ := h
  obtain ⟨kparse, ⟨_, kopen⟩, kread⟩ := k
  cases hparse.symm.trans kparse
  cases hopen.symm.trans kopen
  refine ⟨rfl, rfl, ?_⟩
  rw [ReadsConfig] at hread kread
  cases hconfig : a.config with
  | none =>
    rw [hconfig] at hread kread
    exact kread.trans hread.symm
  | some path =>
    rw [hconfig] at hread kread
    obtain ⟨text, htext, hfile⟩ := hread
    obtain ⟨text', htext', hother⟩ := kread
    cases htext.symm.trans htext'
    cases hfile.symm.trans hother
    rfl

/-- A program that has begun and whose run succeeds ends well if there is a place for the report. -/
theorem Course.eq_finished (hclosed : w.logAt = none) (hempty : w.output.stored = []) (h : Course w args outcome after)
    (hbegun : Begun w args a opened file) (hapart : opened.LogApart) {report : Report}
    (hrun : (runOf opened a file).1 = .ok report)
    (hplace : ∀ path, a.report = some path → opened.tree.placeToWrite path = .ok (.special .null) ∨
      ∃ location, opened.tree.placeToWrite path = .ok (.file location)) : outcome = .finished report := by
  have hopened := openedBy_of_opens hclosed hbegun.logging
  -- The run is what it would be without a log.
  have hstands : ∀ {result v}, Ran opened a file result v → result = .ok report := fun hran =>
    (hran.stands (hopened.output ▸ hempty) hapart).1.trans hrun
  cases h with
  | misused hparse => cases hparse.symm.trans hbegun.parsed
  | unlogged hparse hfault =>
    cases hparse.symm.trans hbegun.parsed
    obtain ⟨journal, hopen⟩ := hbegun.logging
    rw [hopen] at hfault
    cases hfault
  | unread hparse hopens hnone =>
    cases hparse.symm.trans hbegun.parsed
    obtain ⟨journal, hopen⟩ := hbegun.logging
    obtain ⟨journal', hopen'⟩ := hopens
    cases hopen.symm.trans hopen'
    exact absurd hbegun.configured (hnone file)
  | stopped hother hran =>
    obtain ⟨rfl, rfl, rfl⟩ := hbegun.unique hother
    cases hstands hran
  | @unreported _ _ _ _ _ _ path fault hother hran hpath hwrite =>
    obtain ⟨rfl, rfl, rfl⟩ := hbegun.unique hother
    have hsame := (hran.kept.samePlaces hopened.ready).placeToWrite path
    rw [Workspace.writeText, hsame] at hwrite
    rcases hplace path hpath with hnull | ⟨location, hfile⟩
    · rw [hnull] at hwrite
      cases hwrite
    · rw [hfile] at hwrite
      cases hwrite
  | finished hother hran =>
    obtain ⟨rfl, rfl, rfl⟩ := hbegun.unique hother
    cases hstands hran
    rfl

/-- A report for a device that keeps nothing leaves no text. -/
theorem dropped_report :
    let w : Workspace Unit := { output := { device := Device.byteByByte, state := () }, occasion := .epoch }
    let args := ["--report", "/dev/null", "--upper-bound", "0"]
    (executeIn w args).1.exitCode = 0 ∧ (executeIn w args).2.tree.text? ["dev", "null"] = none := by
  intro w args
  let a : Arguments := { report := some "/dev/null", upperBound := some 0 }
  have hparse : Arguments.parse args = .ok a := by decide
  have hplace : w.tree.placeToWrite "/dev/null" = .ok (.special .null) := by
    simp only [Tree.placeToWrite, Tree.names_eq]
    decide +kernel
  have hbegun : Begun w args a w {} := ⟨hparse, ⟨_, openJournal_eq a w⟩, rfl⟩
  have hrun := (runInto_of_faultFree (o := Config.resolve {} a.overrides) (by decide)
    Device.faultFree_byteByByte.overlooking () .epoch).1
  have hcourse := course_executeIn (w := w) rfl args
  refine ⟨?_, ?_⟩
  · have hapart : w.LogApart := Workspace.logApart_of_closed rfl
    rw [hcourse.eq_finished rfl rfl hbegun hapart hrun fun path hpath => by cases hpath; exact .inl hplace]
    rfl
  · by_contra hchanged
    rcases hcourse.of_text rfl hchanged with ⟨b, opened, hb, hopens, hlog, -⟩ |
      ⟨b, opened, other, report, ran, path, hother, -, hpath, hfile⟩
    · cases hparse.symm.trans hb
      obtain ⟨journal, hopen⟩ := hopens
      cases (openJournal_eq a w).symm.trans hopen
      cases hlog
    · obtain ⟨rfl, rfl, rfl⟩ := hbegun.unique hother
      cases hpath
      cases hplace.symm.trans hfile

/-- Lines of the log follow the report in one file. -/
theorem mixed_report :
    let w : Workspace Unit := { output := { device := Device.byteByByte, state := () }, occasion := .epoch }
    let args := ["--log-file", "r", "--report", "r", "--verbose", "--upper-bound", "0"]
    (executeIn w args).1.exitCode = 0 ∧ ∃ text, (executeIn w args).2.tree.text? ["tmp", "workspace", "r"] = some text ∧
      ∀ read, Json.readAll Report.fromJson text ≠ .ok read := by
  intro w args
  let at_ : Location := ["tmp", "workspace", "r"]
  let a : Arguments :=
    { logFile := some "r", report := some "r", verbose := true, upperBound := some 0 }
  let journal : Journal := ⟨Log.Filter.ofEnvironment none true, true⟩
  let opened : Workspace Unit := { w.append at_ [] with logAt := some (.file at_) }
  let report := (Config.resolve {} a.overrides).report .epoch
  have hparse : Arguments.parse args = .ok a := by decide
  have hplace : w.tree.placeToWrite "r" = .ok (.file at_) := by
    simp only [Tree.placeToWrite, Tree.names_eq]
    decide +kernel
  have hopenLog : w.openLog "r" = (none, opened) := by
    simp only [Workspace.openLog, hplace]
    rfl
  have hopen : StateT.run (m := Id) (openJournal a) w = (.ok journal, opened) := by
    simp only [openJournal_eq, a, hopenLog]
    rfl
  have hopened : w.OpenedBy opened := openedBy_of_opens rfl ⟨journal, hopen⟩
  have hrun : (runOf opened a {}).1 = .ok report :=
    (runInto_of_faultFree (o := Config.resolve {} a.overrides) (by decide)
      Device.faultFree_byteByByte.overlooking () .epoch).1
  have hconfigure : (configure a).runIn journal opened = (.ok {}, opened) := rfl
  obtain ⟨result, u, hran, hexecute⟩ := executeIn_ran hparse hopen hconfigure (.refl opened)
  have hapart : opened.LogApart := fun hat => by cases hat
  obtain rfl : result = .ok report := (hran.stands rfl hapart).1.trans hrun
  have hagain : opened.tree.placeToWrite "r" = .ok (.file at_) := by
    simp only [Tree.placeToWrite, Tree.names_eq]
    decide +kernel
  have hwritten : journal.filter.allows (.reportWritten "r") = true := by decide +kernel
  have hfinished : journal.filter.allows (.runFinished report) = true := by decide +kernel
  obtain ⟨after, hconclude, hend⟩ := runIn_conclude_over_log (a := a) rfl
    (((hran.kept.samePlaces hopened.ready).placeToWrite "r").trans hagain) rfl hran.kept.logAt hwritten hfinished
  rw [congrArg Occasion.startedAt hran.kept.occasion] at hend
  dsimp only at hexecute
  rw [hconclude] at hexecute
  -- The file in the end, as a text that can be read.
  let text := report.toJson.pretty 0 ++ (Log.Event.reportWritten "r").jsonLine .epoch ++
    (Log.Event.runFinished report).jsonLine .epoch
  have hunread : (Json.readAll Report.fromJson text).toOption = none := by decide +kernel
  rw [hexecute]
  refine ⟨rfl, text, hend, fun read h => ?_⟩
  rw [h] at hunread
  cases hunread

/-- A log on standard output is written before the options are refused. -/
theorem logged_output :
    let w : Workspace Unit := { output := { device := Device.byteByByte, state := () }, occasion := .epoch }
    let args := ["--log-file", "/dev/stdout", "--verbose", "--step", "0"]
    standardOutput (executeIn w args).1 (executeIn w args).2 ≠ [] ∧
      ∀ a opened file, Begun w args a opened file → (Config.resolve file a.overrides).fault? ≠ none := by
  intro w args
  let a : Arguments := { logFile := some "/dev/stdout", verbose := true, step := some 0 }
  let journal : Journal := ⟨Log.Filter.ofEnvironment none true, true⟩
  let opened : Workspace Unit := { w with logAt := some (.special .standardOutput) }
  let o : Options := Config.resolve {} a.overrides
  have hparse : Arguments.parse args = .ok a := by decide
  have hplace : w.tree.placeToWrite "/dev/stdout" = .ok (.special .standardOutput) := by
    simp only [Tree.placeToWrite, Tree.names_eq]
    decide +kernel
  have hopen : StateT.run (m := Id) (openJournal a) w = (.ok journal, opened) := by
    simp only [openJournal_eq, a, Workspace.openLog, hplace]
    rfl
  have hconfigure : (configure a).runIn journal opened = (.ok {}, opened) := rfl
  have hfault : o.fault? = some .stepZero := by decide
  have hallowed : journal.filter.allows (.runStarted o) = true := by decide +kernel
  have hstarted : started a {} journal opened = (opened.send ((Log.Event.runStarted o).jsonLine .epoch)).2 := by
    have hresolved : (StateT.run (m := Id) (resolve {} a journal) opened).2 = opened := rfl
    rw [started, hresolved, logged_cases, if_pos hallowed]
    rfl
  have hexecute := executeIn_configured hparse hopen hconfigure
  rw [runIn_proceed, runIn_of_fault hfault, hstarted] at hexecute
  have hline : utf8 ((Log.Event.runStarted o).jsonLine .epoch) ≠ [] := by decide +kernel
  refine ⟨?_, fun b v other hbegun => ?_⟩
  · rw [hexecute, standardOutput, Workspace.stored_send Device.faultFree_byteByByte]
    exact List.append_ne_nil_of_left_ne_nil (List.append_ne_nil_of_right_ne_nil _ hline) _
  · obtain ⟨rfl, rfl, rfl⟩ := (⟨hparse, ⟨journal, hopen⟩, rfl⟩ : Begun w args a opened {}).unique hbegun
    rw [hfault]
    exact Option.some_ne_none _

/-- Nothing of what a report counts is on a standard output that is not open. -/
theorem unseen_output :
    let w : Workspace Unit := { output := { device := Device.unopened, state := () }, occasion := .epoch }
    let args := ["--report", "r", "--pass", "readings", "--upper-bound", "1"]
    (executeIn w args).1.exitCode = 0 ∧ standardOutput (executeIn w args).1 (executeIn w args).2 = [] ∧
      ∃ text read, (executeIn w args).2.tree.text? ["tmp", "workspace", "r"] = some text ∧
        Json.readAll Report.fromJson text = .ok read ∧ read.bytesTotal ≠ 0 := by
  intro w args
  let a : Arguments := { report := some "r", passes := [.readings], upperBound := some 1 }
  let report := (Config.resolve {} a.overrides).report .epoch
  have hparse : Arguments.parse args = .ok a := by decide
  have hplace : w.tree.placeToWrite "r" = .ok (.file ["tmp", "workspace", "r"]) := by
    simp only [Tree.placeToWrite, Tree.names_eq]
    decide +kernel
  have hbegun : Begun w args a w {} := ⟨hparse, ⟨_, openJournal_eq a w⟩, rfl⟩
  have hrun : (runOf w a {}).1 = .ok report :=
    (runInto_of_faultFree (o := Config.resolve {} a.overrides) (by decide)
      Device.faultFree_overlooking_unopened () .epoch).1
  have hcourse := course_executeIn (w := w) rfl args
  have hapart : w.LogApart := Workspace.logApart_of_closed rfl
  have hend := hcourse.eq_finished rfl rfl hbegun hapart hrun fun path hpath => by
    cases hpath
    exact .inr ⟨_, hplace⟩
  obtain ⟨b, opened, other, found, ran, hother, hran, houtcome, hreport⟩ := hcourse.of_exitCode rfl
    (by rw [hend]; rfl) (by rw [hend]; rfl)
  obtain ⟨rfl, rfl, rfl⟩ := hbegun.unique hother
  obtain rfl : found = report := by
    cases hend.symm.trans houtcome
    rfl
  rcases hreport "r" rfl with ⟨kind, -, hkind⟩ | ⟨location, hlocation, houtput, htext⟩
  · cases hplace.symm.trans hkind
  · cases hplace.symm.trans hlocation
    have hdecoded := (Report.decodes_toJson (r := report) (by decide)).readAll.2
    refine ⟨by rw [hend]; rfl, ?_, _, report, htext (Option.some_ne_none _).symm, hdecoded, by decide +kernel⟩
    obtain ⟨hs, hextends⟩ := hran.kept.output
    rw [standardOutput, hend, houtput hapart, hextends.stored, Device.taken_of_unopened hextends.follows]
    rfl

end Program

end SyntheticRows
