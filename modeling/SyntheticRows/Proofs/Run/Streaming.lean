import SyntheticRows.Proofs.Run.Loop
import SyntheticRows.Proofs.Run.Text

/-!
Runs into a device. A run of accepted options attempts the texts of its passes, each followed by a flush,
and reports what it wrote; the first fault of the device ends it.
-/

namespace SyntheticRows
open Recording

namespace Run

/-! ### Results -/

/-- A result that goes with happenings: the value if the goal was carried out, the fault of the device if
    one stopped it. -/
def Result {α : Type} (goal : List Effect) (value : α) (hs : List Happening) : Except RunFault α → Prop
  | .ok a => Attempt goal hs none ∧ a = value
  | .error fault => ∃ io, fault = .io io ∧ Attempt goal hs (some io)

variable {α β : Type} {goal more : List Effect} {hs ks : List Happening}

theorem Result.error {value : α} {io : IoFault} (h : Attempt goal hs (some io)) :
    Result goal value hs (.error (.io io)) :=
  ⟨io, rfl, h⟩

theorem Result.stop {value : α} {value' : β} {fault : RunFault} (h : Result goal value hs (.error fault)) :
    Result (goal ++ more) value' hs (.error fault) := by
  obtain ⟨io, rfl, h⟩ := h
  exact .error h.stop

theorem Result.append {value : α} {result : Except RunFault α} (h : Attempt goal hs none)
    (k : Result more value ks result) : Result (goal ++ more) value (hs ++ ks) result := by
  cases result with
  | ok a => exact ⟨h.append k.1, k.2⟩
  | error fault =>
    obtain ⟨io, rfl, k⟩ := k
    exact .error (h.append k)

theorem attempt_noted (event : RunEvent) : Attempt [] [.noted event] none :=
  ⟨rfl, by simp [Faultless, Happening.fault?]⟩

theorem Result.note {value : α} {event : RunEvent} {result : Except RunFault α} (h : Result goal value hs result) :
    Result goal value (.noted event :: hs) result :=
  Result.append (attempt_noted event) h

end Run

/-! ### What a run has to do and to report -/

namespace Options

/-- The effects of a pass: its text, and a flush after it. -/
def passEffects (o : Options) (seed : Seed) (pass : Pass) : List Effect :=
  (utf8 (o.passText seed pass)).map .byte ++ [.flush]

/-- The report on a pass that took no time. -/
def passReport (o : Options) (seed : Seed) (pass : Pass) : PassReport where
  pass := pass
  rows := o.rowsPerPass
  bytesWritten := UInt64.ofNat (min Framing.Writer.maxBytes (utf8 (o.passText seed pass)).length)
  milliseconds := 0

/-- The report on a run that took no time. -/
def report (o : Options) (occasion : Occasion) : Report where
  runId := occasion.runId
  seed := o.seed.getD occasion.randomSeed
  startedAt := occasion.startedAt
  passes := o.selectedPasses.map (o.passReport (o.seed.getD occasion.randomSeed))

theorem taken_of_passEffects {o : Options} {seed : Seed} {pass : Pass} {hs : List Happening}
    (h : effects hs = o.passEffects seed pass) : taken hs = utf8 (o.passText seed pass) := by
  rw [taken_eq_filterMap, h, passEffects, List.filterMap_append, filterMap_map_byte]
  exact List.append_nil _

end Options

namespace Run
variable {σ : Type} {o : Options}

/-! ### Passes -/

theorem writerFor_fresh (framing : Framing) (pass : Pass) :
    (writerFor framing pass).rows = 0 ∧ (writerFor framing pass).bytes = 0 := by
  rw [writerFor_eq_into]
  exact Framing.Writer.into_fresh _

/-- The first rounds of the loop attempt the first rows of a pass, and count them and their bytes. -/
theorem adds_rounds (accepted : o.fault? = none) (seed : Seed) (pass : Pass) (rounds : ℕ) :
    Adds (writeRows (rowText o.framing pass (pass.seed seed)) o.step.toNat o.upperBound.toNat rounds 0
        (writerFor o.framing pass) : StateM (Recording σ) _) fun a hs =>
      ∃ fault, a.1 = fault.map .io ∧
        Attempt ((Framing.Writer.framed (writerFor o.framing pass).header? ((o.rows seed pass).take rounds)).map .byte)
          hs fault ∧
        ∃ n ≤ ((o.rows seed pass).take rounds).length,
          a.2 = { (writerFor o.framing pass).count (taken hs).length with rows := n } ∧
          (fault = none → n = ((o.rows seed pass).take rounds).length) := by
  obtain ⟨hrows, hbytes⟩ := writerFor_fresh o.framing pass
  rw [writeRows_rounds accepted, List.map_take]
  refine (Framing.Writer.adds_writeRows _ (hbytes ▸ Nat.zero_le _) ((o.rows seed pass).take rounds)).map ?_
  rintro ⟨fault, w⟩ hs ⟨hattempt, n, hn, hw, hall⟩
  rw [Framing.Writer.added_eq_framed hrows] at hattempt
  rw [hrows, Nat.zero_add] at hw
  exact ⟨fault, rfl, hattempt, n, hn, hw, hall⟩

theorem adds_loop (accepted : o.fault? = none) (seed : Seed) (pass : Pass) :
    Adds (writeRows (rowText o.framing pass (pass.seed seed)) o.step.toNat o.upperBound.toNat o.upperBound.toNat 0
        (writerFor o.framing pass) : StateM (Recording σ) _) fun a hs =>
      ∃ fault, a.1 = fault.map .io ∧
        Attempt ((Framing.Writer.framed (writerFor o.framing pass).header? (o.rows seed pass)).map .byte) hs fault ∧
        (fault = none → a.2 = { (writerFor o.framing pass).count (taken hs).length with
          rows := o.rowsPerPass.toNat }) := by
  have hstep := Options.step_ne_zero accepted
  have hlength : (o.rows seed pass).length ≤ o.upperBound.toNat := by
    rw [Options.rows, List.length_map]
    exact Options.length_indexes_le hstep
  refine (adds_rounds accepted seed pass o.upperBound.toNat).mono ?_
  rintro ⟨_, w⟩ hs ⟨fault, rfl, hattempt, n, -, hw, hall⟩
  rw [List.take_of_length_le hlength] at hattempt hall
  rw [Options.length_rows hstep] at hall
  exact ⟨fault, rfl, hattempt, fun hnone => hall hnone ▸ hw⟩

/-- Writing a pass attempts its text and a flush, and counts its rows and bytes. -/
theorem adds_writePass (accepted : o.fault? = none) (seed : Seed) (pass : Pass) :
    Adds (writePass o seed pass : StateM (Recording σ) _) fun result hs =>
      Result (o.passEffects seed pass)
        (o.rowsPerPass.toNat, min Framing.Writer.maxBytes (utf8 (o.passText seed pass)).length) hs result := by
  -- The framed rows and what closes them make up the text, so the loop and the end attempt it in two parts.
  have hgoal : o.passEffects seed pass =
      (Framing.Writer.framed (writerFor o.framing pass).header? (o.rows seed pass)).map .byte ++
        ((Framing.Writer.closing (writerFor o.framing pass).header? o.rowsPerPass.toNat).map .byte ++ [.flush]) := by
    rw [← List.append_assoc, ← List.map_append, ← Options.length_rows (Options.step_ne_zero accepted) seed pass,
      Options.framed_rows]
    rfl
  unfold writePass
  refine (adds_loop accepted seed pass).bind ?_
  rintro ⟨_, w⟩ hs ⟨fault, rfl, hattempt, hw⟩
  cases fault with
  | some fault =>
    refine Adds.pure ?_
    rw [List.append_nil, hgoal]
    exact Result.error hattempt.stop
  | none =>
    obtain rfl : w = _ := hw rfl
    refine (Framing.Writer.adds_finish _).bind ?_
    rintro ⟨fault, w⟩ ks ⟨kattempt, hw, -⟩
    obtain rfl : w = _ := hw
    have hall : Attempt (o.passEffects seed pass) (hs ++ ks) fault := hgoal ▸ hattempt.append kattempt
    cases fault with
    | some fault =>
      refine Adds.pure ?_
      rw [List.append_nil]
      exact Result.error hall
    | none =>
      refine Adds.pure ?_
      rw [List.append_nil]
      refine ⟨hall, Prod.ext rfl ?_⟩
      rw [← Options.taken_of_passEffects hall.1, taken_append, List.length_append]
      simp only [Framing.Writer.count, (writerFor_fresh o.framing pass).2, Nat.zero_add]
      omega

/-- Running passes attempts them one after the other, and adds the report of each. -/
theorem adds_runPasses (accepted : o.fault? = none) (passes : List Pass) (report : Report) :
    Adds (runPasses o passes report : StateM (Recording σ) _) fun result hs =>
      Result (passes.flatMap (o.passEffects report.seed))
        { report with passes := report.passes ++ passes.map (o.passReport report.seed) } hs result := by
  induction passes generalizing report with
  | nil =>
    refine Adds.pure ⟨Attempt.nil, ?_⟩
    rw [List.map_nil, List.append_nil]
  | cons pass rest ih =>
    unfold runPasses
    rw [List.flatMap_cons]
    refine Adds.clock.bind ?_
    rintro _ _ ⟨rfl, rfl⟩
    refine (Adds.note _).bind ?_
    rintro _ _ rfl
    refine (adds_writePass accepted report.seed pass).bind ?_
    rintro (fault | ⟨rows, bytes⟩) hs h
    · refine Adds.pure ?_
      rw [List.append_nil]
      exact h.stop.note
    · obtain ⟨hattempt, hcounts⟩ := h
      obtain ⟨rfl, rfl⟩ := Prod.mk.inj hcounts
      refine Adds.clock.bind ?_
      rintro _ _ ⟨rfl, rfl⟩
      refine (Adds.note _).bind ?_
      rintro _ _ rfl
      refine (ih _).mono fun result ks k => ?_
      -- The clock shows no time, so the report that is pushed is the one that is due.
      have hreport : ({ pass, rows := UInt64.ofNat o.rowsPerPass.toNat
                        bytesWritten := UInt64.ofNat (min Framing.Writer.maxBytes
                          (utf8 (o.passText report.seed pass)).length)
                        milliseconds := 0 - 0 } : PassReport) = o.passReport report.seed pass := by
        rw [UInt64.ofNat_toNat]
        rfl
      rw [hreport] at k
      simp only [Report.push, List.append_assoc, List.singleton_append] at k
      exact (Result.append hattempt k.note).note

end Run

/-- A run of accepted options attempts the texts and flushes of the selected passes, and gives the report
    on them. -/
theorem adds_run {σ : Type} {o : Options} (accepted : o.fault? = none) (occasion : Occasion) :
    Adds (run o occasion : StateM (Recording σ) _) fun result hs =>
      Run.Result (o.selectedPasses.flatMap (o.passEffects (o.seed.getD occasion.randomSeed)))
        (o.report occasion) hs result := by
  unfold run
  rw [accepted]
  refine (Adds.note _).bind ?_
  rintro _ _ rfl
  refine Adds.clock.bind ?_
  rintro _ _ ⟨rfl, rfl⟩
  refine (Adds.note _).bind ?_
  rintro _ _ rfl
  refine (Run.adds_runPasses accepted o.selectedPasses _).bind ?_
  rintro (fault | report) hs h
  · refine Adds.pure ?_
    rw [List.append_nil]
    exact h.note.note
  · obtain ⟨hattempt, rfl⟩ := h
    refine Adds.clock.bind ?_
    rintro _ _ ⟨rfl, rfl⟩
    refine (Adds.note _).bind ?_
    rintro _ _ rfl
    refine Adds.pure ?_
    refine Run.Result.note (Run.Result.note ⟨?_, rfl⟩)
    simpa [Options.report] using hattempt.append (Run.attempt_noted (.finished (o.report occasion)))

/-- A run without a name at the beginning of the year 1970. -/
def Occasion.epoch : Occasion :=
  { runId := "", startedAt := .epoch, randomSeed := 0 }

theorem runInto_of_accepted {σ : Type} {o : Options} (accepted : o.fault? = none) (device : Device σ) (state : σ)
    (occasion : Occasion) :
    Run.Result (o.selectedPasses.flatMap (o.passEffects (o.seed.getD occasion.randomSeed))) (o.report occasion)
      (runInto device state o occasion).2.happenings (runInto device state o occasion).1 := by
  obtain ⟨hs, hextends, hresult⟩ := adds_run accepted occasion { device, state }
  rw [runInto, hextends.happenings]
  exact hresult

theorem follows_runInto {σ : Type} {o : Options} (accepted : o.fault? = none) (device : Device σ) (state : σ)
    (occasion : Occasion) :
    device.Follows state (runInto device state o occasion).2.happenings (runInto device state o occasion).2.state := by
  obtain ⟨hs, hextends, -⟩ := adds_run accepted occasion { device, state }
  rw [runInto, hextends.happenings]
  exact hextends.follows

theorem runInto_of_faultFree {σ : Type} {o : Options} {device : Device σ} (accepted : o.fault? = none)
    (hfree : device.FaultFree) (state : σ) (occasion : Occasion) :
    (runInto device state o occasion).1 = .ok (o.report occasion) ∧
      effects (runInto device state o occasion).2.happenings =
        o.selectedPasses.flatMap (o.passEffects (o.seed.getD occasion.randomSeed)) := by
  have hfaultless := hfree.faultless (follows_runInto accepted device state occasion)
  have hresult := runInto_of_accepted accepted device state occasion
  cases hend : (runInto device state o occasion).1 with
  | ok report =>
    rw [hend] at hresult
    obtain ⟨hattempt, rfl⟩ := hresult
    exact ⟨rfl, hattempt.1⟩
  | error fault =>
    rw [hend] at hresult
    obtain ⟨io, -, hattempt⟩ := hresult
    exact absurd hfaultless hattempt.2.not_faultless

end SyntheticRows
