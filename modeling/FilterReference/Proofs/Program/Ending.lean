/-
# How a run ends

A run on a store succeeds without a complaint or fails with one, as its outcome holds no failure or
one.
-/
import FilterReference.Files.Store
import FilterReference.Program.Execution

namespace FilterReference

namespace Ending

def Succeeds (e : Ending) : Prop := e.code = 0 ∧ e.complaint = ""

def Fails (e : Ending) : Prop := e.code = 1 ∧ ∃ text, e.complaint = "Error: " ++ text ++ "\n"

theorem Fails.not_succeeds {e : Ending} (h : e.Fails) : ¬ e.Succeeds := by
  rintro ⟨hzero, -⟩
  rw [h.1] at hzero
  cases hzero

theorem not_fails_of_code {e : Ending} (h : e.code = 0) : ¬ e.Fails := by
  rintro ⟨hone, -⟩
  rw [h] at hone
  cases hone

end Ending

theorem Outcome.succeeds_of_failure_eq_none {o : Outcome} (h : o.failure = none) :
    o.ending.Succeeds := by
  rw [Outcome.ending, h]
  exact ⟨rfl, rfl⟩

theorem ProgramError.exists_report_eq (e : ProgramError) :
    ∃ text, e.report = "Error: " ++ text := by
  unfold ProgramError.report
  exact ⟨_, String.append_assoc⟩

theorem Outcome.fails_of_failure_eq_some {o : Outcome} {e : ProgramError}
    (h : o.failure = some e) : o.ending.Fails := by
  obtain ⟨text, htext⟩ := e.exists_report_eq
  rw [Outcome.ending, h]
  exact ⟨rfl, text, congrArg (· ++ "\n") htext⟩

theorem runProgram_store [Trigonometry] {args : List String} {request : Request}
    (h : Request.ofArguments args = .ok request) (s : Store) :
    (runProgram args : StateM Store Ending) s =
      (((request.run : StateM Store Outcome) s).1.ending,
        ((request.run : StateM Store Outcome) s).2) := by
  simp only [runProgram, h]
  rfl

end FilterReference
