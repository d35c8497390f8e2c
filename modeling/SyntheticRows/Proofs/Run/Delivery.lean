import Mathlib
import SyntheticRows.Proofs.Run.Length
import SyntheticRows.Proofs.Run.Streaming

/-!
What arrives at a device. However the device takes the bytes of a run and wherever it fails, it holds the
beginning of the text of the run; it holds all of it, with a flush behind each pass, just if no call failed.
-/

namespace SyntheticRows

namespace Options

theorem filterMap_passEffects (o : Options) (seed : Seed) :
    (o.selectedPasses.flatMap (o.passEffects seed)).filterMap Effect.byte? = utf8 (o.text seed) := by
  have hpass : ∀ pass, (o.passEffects seed pass).filterMap Effect.byte? = utf8 (o.passText seed pass) := fun pass => by
    rw [passEffects, List.filterMap_append, filterMap_map_byte]
    exact List.append_nil _
  rw [List.filterMap_flatMap, text, utf8_flatMap]
  simp only [hpass]
  rfl

theorem toNat_bytesWritten (o : Options) (seed : Seed) (pass : Pass) :
    (o.passReport seed pass).bytesWritten.toNat = min (2 ^ 64 - 1) (utf8 (o.passText seed pass)).length := by
  have hlt : min Framing.Writer.maxBytes (utf8 (o.passText seed pass)).length < UInt64.size :=
    Nat.lt_of_le_of_lt (Nat.min_le_left _ _) (by decide)
  exact UInt64.toNat_ofNat_of_lt' hlt

end Options

theorem stored_of_faultFree {σ : Type} {o : Options} {device : Device σ} (accepted : o.fault? = none)
    (hfree : device.FaultFree) (state : σ) (occasion : Occasion) :
    (runInto device state o occasion).2.stored = utf8 (o.text (o.seed.getD occasion.randomSeed)) := by
  rw [stored_eq_taken, taken_eq_filterMap, (runInto_of_faultFree accepted hfree state occasion).2,
    Options.filterMap_passEffects]

section
variable {σ : Type}

/-- Whatever the device does, it holds the beginning of the text of the run. The run succeeds just if no call
    failed and none that offered something had nothing taken of it; then the device holds the whole text, it was
    flushed behind the last byte of each pass and nowhere else, and the report counts the rows and the bytes of
    each pass, in full unless the name of its table has 2^63 bytes or more, as no text in memory has. Else the run
    ends at the first call that failed and gives its fault. -/
theorem run_delivers (device : Device σ) (state : σ) {o : Options} {seed : Seed} (occasion : Occasion)
    (accepted : o.fault? = none) (hseed : o.seed = some seed) :
    (runInto device state o occasion).2.stored <+: utf8 (o.text seed) ∧
    ((∃ report, (runInto device state o occasion).1 = .ok report) ↔
      Faultless (runInto device state o occasion).2.happenings) ∧
    match (runInto device state o occasion).1 with
    | .ok report =>
      (runInto device state o occasion).2.stored = utf8 (o.text seed) ∧
        effects (runInto device state o occasion).2.happenings = o.selectedPasses.flatMap (o.passEffects seed) ∧
        report.passes.map (·.pass) = [.readings, .positions].filter (· ∈ o.passes) ∧
        ∀ p ∈ report.passes, p.rows = o.rowsPerPass ∧
          p.bytesWritten.toNat = min (2 ^ 64 - 1) (utf8 (o.passText seed p.pass)).length ∧
          ((∀ table, o.framing.table? p.pass = some table → (utf8 table.toList).length < 2 ^ 63) →
            p.bytesWritten.toNat = (utf8 (o.passText seed p.pass)).length)
    | .error fault =>
      ∃ io, fault = .io io ∧ StopsAt (runInto device state o occasion).2.happenings io := by
  have hresult := runInto_of_accepted accepted device state occasion
  rw [hseed, Option.getD_some] at hresult
  cases hend : (runInto device state o occasion).1 with
  | ok report =>
    -- The whole goal was carried out.
    rw [hend] at hresult
    obtain ⟨hattempt, rfl⟩ := hresult
    have hstored : (runInto device state o occasion).2.stored = utf8 (o.text seed) := by
      rw [stored_eq_taken, taken_eq_filterMap, hattempt.1, Options.filterMap_passEffects]
    refine ⟨by rw [hstored], ⟨fun _ => hattempt.2, fun _ => ⟨_, rfl⟩⟩, hstored, hattempt.1, ?_, fun p hp => ?_⟩
    · rw [Options.report, List.map_map]
      exact List.map_id _
    · obtain ⟨pass, -, rfl⟩ := List.mem_map.mp hp
      rw [hseed, Option.getD_some]
      have hbytes := o.toNat_bytesWritten seed pass
      exact ⟨rfl, hbytes, fun hname => hbytes.trans (Options.bytes_passText accepted seed pass hname)⟩
  | error fault =>
    -- A fault stopped the attempt at its goal, and with it the run.
    rw [hend] at hresult
    obtain ⟨io, rfl, hattempt⟩ := hresult
    refine ⟨?_, ⟨?_, fun h => absurd h hattempt.2.not_faultless⟩, io, rfl, hattempt.2⟩
    · rw [stored_eq_taken, ← Options.filterMap_passEffects]
      exact hattempt.taken_prefix
    · rintro ⟨report, h⟩
      cases h

/-- A device that takes one byte at a time gets the whole text of five rows in each of two statements. -/
theorem run_delivers_byte_by_byte :
    let o : Options :=
      { seed := some 7, upperBound := 4294967296, step := 1000000000, framing := .statements "a.b" "c" }
    (o.fault? = none ∧ o.seed = some 7) ∧
      (runInto Device.byteByByte () o .epoch).2.stored = utf8 (o.text 7) ∧
      ∃ report, (runInto Device.byteByByte () o .epoch).1 = .ok report ∧
        ∀ p ∈ report.passes, p.bytesWritten.toNat = (utf8 (o.passText 7 p.pass)).length := by
  intro o
  have accepted : o.fault? = none := by decide
  have hnames : ∀ pass table, o.framing.table? pass = some table → (utf8 table.toList).length < 2 ^ 63 := by
    intro pass table htable
    cases pass <;> cases htable <;> decide
  have h := run_delivers Device.byteByByte () .epoch accepted rfl
  have hfollows := follows_runInto accepted Device.byteByByte () .epoch
  obtain ⟨report, hreport⟩ := h.2.1.mpr (Device.faultFree_byteByByte.faultless hfollows)
  have hmatch := h.2.2
  rw [hreport] at hmatch
  exact ⟨⟨accepted, rfl⟩, hmatch.1, report, hreport, fun p hp => (hmatch.2.2.2 p hp).2.2 (hnames p.pass)⟩

end

end SyntheticRows
