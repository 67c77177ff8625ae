/-
# The pipeline of one scenario

The signal is up-sampled, filtered, and every `down`-th sample kept.  Pure up-sampling shows the
interpolation stage by itself: its output is not filtered.
-/
import FilterReference.Signal.Resampling
import FilterReference.Signal.Filter

namespace FilterReference

/-- What a stage reports when it is done. -/
inductive StageEvent where
  | upsampled (input output up : Nat)
  | bypassed
  | decimated (filtered output down : Nat)
deriving DecidableEq, Repr

/-- Output of the pipeline, with the reports of its stages in order. -/
structure PipelineRun where
  output : Signal
  events : List StageEvent

def runPipeline (signal : Signal) (factors : Factors) (filter : Filter) :
    Except SignalError PipelineRun := do
  let dense ← upsample signal factors.up
  let first := StageEvent.upsampled signal.length dense.length factors.up
  if factors.filters then
    let filtered := filter.apply dense
    let output ← decimate factors.down filtered
    return ⟨output, [first, .decimated filtered.length output.length factors.down]⟩
  else
    return ⟨dense, [first, .bypassed]⟩

/-- The output of the pipeline. -/
def referenceOutput (signal : Signal) (factors : Factors) (filter : Filter) :
    Except SignalError Signal :=
  (·.output) <$> runPipeline signal factors filter

end FilterReference
