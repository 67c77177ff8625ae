/-
# Comparing on the command line

A comparison of a record and a candidate that are loaded ends with the verdict on them, in success
or in an error, and touches no file (`compare_verdict`).
-/
import FilterReference.Proofs.Program.Ending
import FilterReference.Proofs.Record.Comparison
import FilterReference.Proofs.Record.RoundTrip
import FilterReference.Proofs.Signal.Loading

namespace FilterReference

open Binary

/-- The program says that a candidate passes. -/
def Ending.Passes (e : Ending) : Prop :=
  e.Succeeds ∧ ∃ before, e.output = before ++ "PASS\n"

namespace CompareRequest

variable {r : CompareRequest} {heading : String} {v : Verdict}

theorem outcome_fails (h : ¬ ∃ largest, v = .passes largest) :
    (r.outcome heading v).ending.Fails := by
  cases v with
  | tooLong candidate reference => exact Outcome.fails_of_failure_eq_some rfl
  | exceeds largest => exact Outcome.fails_of_failure_eq_some rfl
  | passes largest => exact absurd ⟨largest, rfl⟩ h

theorem outcome_passes_iff :
    (r.outcome heading v).ending.Passes ↔ ∃ largest, v = .passes largest := by
  constructor
  · intro hpasses
    by_contra h
    exact (outcome_fails h).not_succeeds hpasses.1
  · rintro ⟨largest, rfl⟩
    exact ⟨Outcome.succeeds_of_failure_eq_none rfl, heading ++ r.measured largest, rfl⟩

theorem runProgram_store [Trigonometry] {args : List String} {s : Store} {record : Record}
    {candidate : Signal} (hargs : Request.ofArguments args = .ok (.compare r))
    (hrecord : (Record.load r.reference : StateM Store (Except RecordReadError Record)) s =
      (.ok record, s))
    (hcandidate : (Signal.load r.candidate : StateM Store (Except MalformedInput Signal)) s =
      (.ok candidate, s)) :
    (runProgram args : StateM Store Ending) s =
      ((r.outcome (r.heading record candidate)
        (record.compare candidate r.tolerance)).ending, s) := by
  have hrun : (r.run : StateM Store Outcome) s =
      (r.outcome (r.heading record candidate) (record.compare candidate r.tolerance), s) := by
    unfold run
    simp only [bind, StateT.bind, hrecord, hcandidate]
    rfl
  rw [FilterReference.runProgram_store hargs]
  simp only [Request.run, hrun]

end CompareRequest

/-- **The verdict on a candidate** that is loaded, and a record that is.  The program says that the
candidate passes or ends with an error, and leaves the store as it is.  It passes exactly when it is
short enough and either within the tolerance or given a tolerance that nothing is above.  So the
verdict is that of `Within` except for a candidate that is short enough where the tolerance is not a
number, or infinite while some difference is not a number. -/
theorem compare_verdict [Trigonometry] {args : List String} {r : CompareRequest} {s : Store}
    {record : Record} {candidate : Signal}
    (hargs : Request.ofArguments args = .ok (.compare r))
    (hrecord : (Record.load r.reference : StateM Store (Except RecordReadError Record)) s =
      (.ok record, s))
    (hcandidate : (Signal.load r.candidate : StateM Store (Except MalformedInput Signal)) s =
      (.ok candidate, s)) :
    ∃ e, (runProgram args : StateM Store Ending) s = (e, s) ∧
      (e.Passes ∨ e.Fails) ∧
      (e.Passes ↔ candidate.length ≤ record.samples.length ∧
        (record.Within candidate r.tolerance ∨ isNaN r.tolerance = true ∨
          r.tolerance = infinity)) ∧
      ((e.Passes ↔ record.Within candidate r.tolerance) ↔
        (candidate.length ≤ record.samples.length →
          isNaN r.tolerance = false ∧
            ¬ (r.tolerance = infinity ∧ record.DiffersByNaN candidate))) := by
  have hopened : Signal.ofOpened r.candidate (s.openPath r.candidate) = .ok candidate :=
    congrArg Prod.fst hcandidate
  have hsome := (Signal.ofOpened_eq_ok_iff.mp hopened).2
  refine ⟨_, CompareRequest.runProgram_store hargs hrecord hcandidate, ?_, ?_, ?_⟩
  · by_cases hpasses : ∃ largest, record.compare candidate r.tolerance = .passes largest
    · exact Or.inl (CompareRequest.outcome_passes_iff.mpr hpasses)
    · exact Or.inr (CompareRequest.outcome_fails hpasses)
  · rw [CompareRequest.outcome_passes_iff]
    exact Record.exists_compare_eq_passes_iff hsome
  · rw [CompareRequest.outcome_passes_iff]
    exact Record.passes_iff_within_iff hsome

def zeroRecord : Record where
  down := 1
  up := 1
  denominator := [1]
  numerator := [1]
  isFir := true
  samples := [0]

/-- The record, a candidate that holds a one, and a wave file whose sample is not a number. -/
def comparisonFiles : Store where
  entries := [
    (["r.json"], .file zeroRecord.toJson.render.toUTF8 0o644),
    (["c.txt"], .file "1".toUTF8 0o644),
    (["c.wav"], .file Signal.notANumberWave 0o644)]

theorem load_zeroRecord :
    (Record.load "r.json" : StateM Store (Except RecordReadError Record)) comparisonFiles =
      (.ok zeroRecord, comparisonFiles) := by
  have hrender : zeroRecord.render = .ok zeroRecord.toJson.render :=
    Record.render_eq_ok_iff.mpr ⟨by decide +kernel, rfl⟩
  rw [Record.load_store rfl, Record.read_render (by decide) (by decide) hrender]
  rfl

theorem load_one :
    (Signal.load "c.txt" : StateM Store (Except MalformedInput Signal)) comparisonFiles =
      (.ok [1], comparisonFiles) := by
  have hload : Signal.ofOpened "c.txt" (.ok (.file "1".toUTF8)) = .ok [1] := by decide +kernel
  exact congrArg (·, comparisonFiles) hload

theorem load_notANumberWave :
    (Signal.load "c.wav" : StateM Store (Except MalformedInput Signal)) comparisonFiles =
      (.ok [notANumber], comparisonFiles) := by
  have hload : Signal.ofOpened "c.wav" (.ok (.file Signal.notANumberWave)) = .ok [notANumber] := by
    decide +kernel
  exact congrArg (·, comparisonFiles) hload

/-- A candidate at the very tolerance passes. -/
theorem compare_verdict_one :
    ∃ e, (runProgram ["compare", "r.json", "c.txt", "--tolerance", "1"] : StateM Store Ending)
      comparisonFiles = (e, comparisonFiles) ∧ e.Passes := by
  have hargs : Request.ofArguments ["compare", "r.json", "c.txt", "--tolerance", "1"] =
      .ok (.compare ⟨"r.json", "c.txt", 1⟩) := by decide +kernel
  obtain ⟨e, hrun, -, hpasses, -⟩ := compare_verdict hargs load_zeroRecord load_one
  refine ⟨e, hrun, hpasses.mpr ⟨by decide, Or.inl ⟨by decide, fun i x y hx hy => ?_⟩⟩⟩
  cases i with
  | zero =>
      cases hx
      cases hy
      exact ⟨by decide +kernel, by decide +kernel⟩
  | succ i => cases hx

/-- A candidate passes that is not within the tolerance: one that deviates by one, because nothing
is above a tolerance that is not a number, and one that is not a number itself, because infinity
stands in for its deviation and is not above the infinite tolerance. -/
theorem compare_passes_not_within :
    (((runProgram ["compare", "r.json", "c.txt", "--tolerance", "nan"] : StateM Store Ending)
        comparisonFiles).1.Passes ∧ ¬ zeroRecord.Within [1] notANumber) ∧
      ((runProgram ["compare", "r.json", "c.wav", "--tolerance", "inf"] : StateM Store Ending)
        comparisonFiles).1.Passes ∧ ¬ zeroRecord.Within [notANumber] infinity := by
  have hnan : Request.ofArguments ["compare", "r.json", "c.txt", "--tolerance", "nan"] =
      .ok (.compare ⟨"r.json", "c.txt", notANumber⟩) := by decide +kernel
  have hinf : Request.ofArguments ["compare", "r.json", "c.wav", "--tolerance", "inf"] =
      .ok (.compare ⟨"r.json", "c.wav", infinity⟩) := by decide +kernel
  rw [CompareRequest.runProgram_store hnan load_zeroRecord load_one,
    CompareRequest.runProgram_store hinf load_zeroRecord load_notANumberWave,
    CompareRequest.outcome_passes_iff, CompareRequest.outcome_passes_iff,
    Record.exists_compare_eq_passes_iff (by decide),
    Record.exists_compare_eq_passes_iff (by decide)]
  have hisNaN : isNaN notANumber = true := by decide +kernel
  refine ⟨⟨⟨by decide, Or.inr (Or.inl hisNaN)⟩, ?_⟩, ⟨by decide, Or.inr (Or.inr rfl)⟩, ?_⟩
  · exact Record.not_within_of_isNaN (by decide) hisNaN
  · rw [Record.within_infinity_iff (by decide), not_not]
    exact ⟨0, 0, notANumber, rfl, rfl, by decide +kernel⟩

end FilterReference
