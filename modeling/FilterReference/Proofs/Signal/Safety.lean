/-
# No step of the pipeline goes wrong

`Watched` is the pipeline once more, on plain factors and coefficient lists, index by index: each
access to a sample or a coefficient, each difference of counts, each division, the stride of the
decimation and the room for the grid are looked at before they are used, and the run ends with a
`Misstep` where one of them fails.  On factors and filters that were checked, and those are all
there are (`Factors` and `Filter` hold the proofs, whichever way they were made), the watched run
never ends like that and answers what the pipeline answers (`Watched.run_without_misstep`).
-/
import FilterReference.Proofs.Binary.Order
import FilterReference.Proofs.Signal.Pipeline

namespace FilterReference

open Binary

/-- What no step of the pipeline may do. -/
inductive Misstep where
  /-- An element past the end was asked for. -/
  | missing (index len : Nat)
  /-- A count was taken from a smaller one. -/
  | belowZero (n m : Nat)
  | zeroDivisor
  | zeroStride
  | tooManyNumbers
deriving DecidableEq, Repr

namespace Watched

/-! ## The watched pipeline

Every step that could go wrong is made by a function that looks first.  The pipeline is written with
these by indices into arrays, which is where they could go wrong. -/

def fetch {α : Type} (xs : Array α) (i : Nat) : Except Misstep α :=
  match xs[i]? with
  | some x => .ok x
  | none => .error (.missing i xs.size)

def minus (n m : Nat) : Except Misstep Nat :=
  if n < m then .error (.belowZero n m) else .ok (n - m)

def quotient (x y : Float) : Except Misstep Float :=
  if y == 0 then .error .zeroDivisor else .ok (x / y)

def divMod (n d : Nat) : Except Misstep (Nat × Nat) :=
  if d = 0 then .error .zeroDivisor else .ok (n / d, n % d)

def gridLength (len up : Nat) : Except Misstep Nat :=
  if up ≤ 1 ∨ len < 2 then .ok len
  else do
    let step ← quotient 1 (ofCount up)
    let count ← minus len 1
    return ceilCount (← quotient (ofCount count) step)

def gridValue (samples : Array Float) (step : Float) (lastSegment up k : Nat) :
    Except Misstep Float := do
  let (q, r) ← divMod k up
  if r = 0 then fetch samples q
  else
    let position := ofCount k * step
    let i := min (floorCount position) lastSegment
    let lo ← fetch samples i
    let hi ← fetch samples (i + 1)
    return between lo hi (position - ofCount i)

def upsample (signal : Signal) (up : Nat) : Except Misstep (Except SignalError Signal) :=
  if up = 0 then .ok (.error (.invalidResampling 1 0))
  else if up = 1 then .ok (.ok signal)
  else if signal.length < 2 then .ok (.error (.insufficientSamples signal.length up))
  else do
    let lastSegment ← minus signal.length 2
    let step ← quotient 1 (ofCount up)
    let count ← gridLength signal.length up
    if maxNumbers < count then .error .tooManyNumbers
    else
      let values ← (List.range count).mapM (gridValue signal.toArray step lastSegment up)
      return .ok values

/-- Combines `acc` with the products of numbered coefficients and samples; coefficient `i` meets the
sample that is `i` before sample `n`. -/
def accumulate (combine : Float → Float → Float) (samples : Array Float) (n : Nat) (acc : Float)
    (terms : List (Float × Nat)) : Except Misstep Float :=
  terms.foldlM (fun acc (c, i) => do
    let x ← fetch samples (← minus n i)
    return combine acc (c * x)) acc

/-- Output `n`, from the input and the outputs before it. -/
def nextOutput (lead : Float) (denominator numerator : List Float) (input outputs : Array Float)
    (n : Nat) : Except Misstep Float := do
  let fed ← accumulate (· + ·) input n 0 (numerator.zipIdx.take (n + 1))
  let acc ← accumulate (· - ·) outputs n fed ((denominator.zipIdx.drop 1).take n)
  if lead == 1 then return acc else quotient acc lead

/-- The outputs up to number `n`, from those before it. -/
def extend (lead : Float) (denominator numerator : List Float) (input outputs : Array Float)
    (n : Nat) : Except Misstep (Array Float) := do
  let y ← nextOutput lead denominator numerator input outputs n
  return outputs.push y

def respond (denominator numerator : List Float) (input : Array Float) :
    Except Misstep (Array Float) := do
  let lead ← fetch denominator.toArray 0
  (List.range input.size).foldlM (extend lead denominator numerator input) #[]

def decimate (stride : Nat) (xs : List Float) : Except Misstep (List Float) :=
  if stride = 0 then .error .zeroStride else .ok (everyFrom stride 0 xs)

/-- The pipeline on factors and coefficients that need not have been checked. -/
def run (signal : Signal) (down up : Nat) (denominator numerator : List Float) :
    Except Misstep (Except SignalError Signal) := do
  match ← upsample signal up with
  | .error e => return .error e
  | .ok dense =>
    if 1 < down ∨ up = 1 then
      let filtered ← respond denominator numerator dense.toArray
      let output ← decimate down filtered.toList
      return .ok output
    else return .ok dense

/-! ## Steps that are right -/

theorem fetch_of_getElem? {α : Type} {xs : Array α} {i : Nat} {x : α} (h : xs[i]? = some x) :
    fetch xs i = .ok x := by
  rw [fetch, h]

theorem fetch_of_sampleAt {samples : Array Float} {i : Nat} {x : Float}
    (h : sampleAt samples i = .ok x) : fetch samples i = .ok x := by
  unfold sampleAt at h
  cases hx : samples[i]? with
  | none =>
      rw [hx] at h
      cases h
  | some y =>
      rw [hx] at h
      cases h
      exact fetch_of_getElem? hx

theorem minus_of_le {n m : Nat} (h : m ≤ n) : minus n m = .ok (n - m) := if_neg (Nat.not_lt.mpr h)

theorem quotient_of_ne {x y : Float} (h : (y == 0) = false) : quotient x y = .ok (x / y) := by
  rw [quotient, h]
  rfl

theorem divMod_of_pos {n d : Nat} (h : 0 < d) : divMod n d = .ok (n / d, n % d) :=
  if_neg (Nat.ne_of_gt h)

/-! ## Up-sampling goes right

The step of the grid is not zero, and the segment that is looked up begins before the last sample.
Both come from the bounds on the grid, and the rest from two samples being there. -/

variable {up : Nat}

theorem ofCount_ne_zero (h₀ : 0 < up) (h : up ≤ 2 ^ 50) : (ofCount up == 0) = false := by
  obtain ⟨-, -, hsize⟩ := ofCount_exact (n := up) (by omega)
  apply beq_zero_of_size_pos
  rw [hsize]
  exact_mod_cast h₀

theorem gridStep_ne_zero (h₀ : 0 < up) (h : up ≤ 2 ^ 50) : (gridStep up == 0) = false := by
  have hlow := (size_gridStep h₀ h).1
  have hup : (0 : ℚ) < up := by exact_mod_cast h₀
  exact beq_zero_of_size_pos (lt_of_lt_of_le (by positivity) hlow)

theorem gridLength_eq {len : Nat} (h : (len - 1) * up ≤ 2 ^ 50) :
    gridLength len up = .ok (FilterReference.gridLength len up) := by
  unfold gridLength FilterReference.gridLength
  split_ifs with hshort
  · rfl
  · have hup : up ≤ 2 ^ 50 := le_trans (Nat.le_mul_of_pos_left up (by omega)) h
    have hstep := quotient_of_ne (x := 1) (ofCount_ne_zero (by omega : 0 < up) hup)
    have hcount := minus_of_le (by omega : 1 ≤ len)
    exact bind_eq_ok_iff.mpr ⟨_, hstep, bind_eq_ok_iff.mpr ⟨_, hcount,
      bind_eq_ok_iff.mpr ⟨_, quotient_of_ne (gridStep_ne_zero (by omega) hup), rfl⟩⟩⟩

theorem gridValue_eq {samples : Array Float} {k : Nat} {y : Float} (hup : 0 < up)
    (h : FilterReference.gridValue samples up k = .ok y) :
    gridValue samples (gridStep up) (samples.size - 2) up k = .ok y := by
  refine bind_eq_ok_iff.mpr ⟨_, divMod_of_pos hup, ?_⟩
  unfold FilterReference.gridValue at h
  dsimp only
  split_ifs at h ⊢ with hmod
  · exact fetch_of_sampleAt h
  · obtain ⟨lo, hlo, h⟩ := bind_eq_ok_iff.mp h
    obtain ⟨hi, hhi, h⟩ := bind_eq_ok_iff.mp h
    cases h
    exact bind_eq_ok_iff.mpr ⟨lo, fetch_of_sampleAt hlo,
      bind_eq_ok_iff.mpr ⟨hi, fetch_of_sampleAt hhi, rfl⟩⟩

/-- **Up-sampling takes no misstep.** -/
theorem upsample_eq (x : Signal) (hup : 0 < up) (h : (x.length - 1) * up ≤ 2 ^ 50) :
    upsample x up = .ok (FilterReference.upsample x up) := by
  unfold upsample
  rw [if_neg (Nat.ne_of_gt hup)]
  split_ifs with hone hshort
  · rw [hone, upsample_one]
  · rw [upsample_of_short (by omega) hshort]
  · have hlt : 1 < up := by omega
    have hlen : 2 ≤ x.length := by omega
    have hle : up ≤ 2 ^ 50 := le_trans (Nat.le_mul_of_pos_left up (by omega)) h
    have hfits := gridLength_fits hlt hlen h
    obtain ⟨v, hv, -⟩ := upsample_eq_ok hup (Or.inr ⟨hlen, hfits⟩)
    rw [hv]
    rw [upsample_of_one_lt x hlt, if_neg hshort, if_neg (by omega)] at hv
    have hvalues : (List.range (FilterReference.gridLength x.length up)).mapM
        (gridValue x.toArray (gridStep up) (x.length - 2) up) = .ok v :=
      mapM_eq_ok_iff.mpr ((mapM_eq_ok_iff.mp hv).imp fun _ _ hk => gridValue_eq hup hk)
    refine bind_eq_ok_iff.mpr ⟨_, minus_of_le hlen, bind_eq_ok_iff.mpr
      ⟨_, quotient_of_ne (ofCount_ne_zero hup hle), bind_eq_ok_iff.mpr ⟨_, gridLength_eq h, ?_⟩⟩⟩
    rw [if_neg (by omega)]
    exact bind_eq_ok_iff.mpr ⟨v, hvalues, rfl⟩

/-! ## Filtering goes right

The watched sums go by indices into arrays, the others along histories.  The invariant is that the
outputs so far are as many as the inputs so far; then an index counted back from the present is a
place in the history. -/

theorem accumulate_eq (combine : Float → Float → Float) (samples : Array Float) (n : Nat) :
    ∀ (coefficients history : List Float) (first : Nat) (acc : Float),
      (∀ i (hi : i < history.length),
        first + i ≤ n ∧ samples[n - (first + i)]? = some history[i]) →
      accumulate combine samples n acc ((coefficients.zipIdx first).take history.length) =
        .ok (FilterReference.accumulate combine acc coefficients history) := by
  intro coefficients
  induction coefficients with
  | nil =>
      intro history first acc _
      cases history <;> rfl
  | cons c cs ih =>
      intro history first acc hhistory
      cases history with
      | nil => rfl
      | cons x history =>
          obtain ⟨hle, hx⟩ := hhistory 0 (Nat.zero_lt_succ _)
          have hrest : ∀ i (hi : i < history.length),
              first + 1 + i ≤ n ∧ samples[n - (first + 1 + i)]? = some history[i] := by
            intro i hi
            have := hhistory (i + 1) (Nat.succ_lt_succ hi)
            rwa [← Nat.add_assoc, Nat.add_right_comm] at this
          rw [List.zipIdx_cons, List.length_cons, List.take_succ_cons, accumulate,
            List.foldlM_cons]
          refine bind_eq_ok_iff.mpr ⟨combine acc (c * x), ?_, ih _ _ _ hrest⟩
          exact bind_eq_ok_iff.mpr ⟨_, minus_of_le hle, bind_eq_ok_iff.mpr
            ⟨x, fetch_of_getElem? hx, rfl⟩⟩

theorem getElem?_history {xs : Array Float} {history : List Float} (rest : List Float)
    (h : xs.toList = history.reverse ++ rest) {i : Nat} (hi : i < history.length) :
    xs[history.length - 1 - i]? = some history[i] := by
  have hlt : history.length - 1 - i < history.reverse.length := by
    rw [List.length_reverse]
    omega
  rw [← Array.getElem?_toList, h, List.getElem?_append_left hlt,
    List.getElem?_reverse (by omega), List.getElem?_eq_getElem (by omega)]
  congr 2
  omega

section Response

variable {lead : Float} (hlead : (lead == 0) = false) (feedback numerator : List Float)

include hlead

theorem nextOutput_eq {x : Float} {inputs ys rest : List Float} {input outputs : Array Float}
    (hinput : input.toList = inputs.reverse ++ x :: rest) (houtputs : outputs.toList = ys.reverse)
    (hlen : ys.length = inputs.length) :
    nextOutput lead (lead :: feedback) numerator input outputs inputs.length =
      .ok (FilterReference.nextOutput lead feedback numerator (x :: inputs) ys) := by
  have hforward := accumulate_eq (· + ·) input inputs.length numerator (x :: inputs) 0 0 (by
    intro i hi
    have hget := getElem?_history rest (by rw [hinput]; simp) hi
    rw [List.length_cons] at hi hget
    exact ⟨by omega, by rwa [Nat.zero_add]⟩)
  have hback := accumulate_eq (· - ·) outputs inputs.length feedback ys 1
    (FilterReference.accumulate (· + ·) 0 numerator (x :: inputs)) (by
      intro i hi
      have hget := getElem?_history [] (by rw [houtputs, List.append_nil]) hi
      rw [hlen, Nat.sub_sub] at hget
      exact ⟨by omega, hget⟩)
  rw [List.length_cons] at hforward
  rw [hlen] at hback
  refine bind_eq_ok_iff.mpr ⟨_, hforward, bind_eq_ok_iff.mpr ⟨_, hback, ?_⟩⟩
  unfold FilterReference.nextOutput
  dsimp only
  split_ifs
  · rfl
  · exact quotient_of_ne hlead

theorem foldlM_extend (input : Array Float) :
    ∀ (rest inputs ys : List Float) (outputs : Array Float),
      input.toList = inputs.reverse ++ rest → outputs.toList = ys.reverse →
      ys.length = inputs.length →
      (List.range' inputs.length rest.length).foldlM
          (extend lead (lead :: feedback) numerator input) outputs =
        .ok (outputs ++ respondFrom lead feedback numerator inputs ys rest) := by
  intro rest
  induction rest with
  | nil =>
      intro inputs ys outputs _ _ _
      simp [respondFrom, pure, Except.pure]
  | cons x rest ih =>
      intro inputs ys outputs hinput houtputs hlen
      have hnext := nextOutput_eq hlead feedback numerator hinput houtputs hlen
      rw [List.length_cons, List.range'_succ, List.foldlM_cons]
      refine bind_eq_ok_iff.mpr ⟨_, bind_eq_ok_iff.mpr ⟨_, hnext, rfl⟩, ?_⟩
      have hlater := ih (x :: inputs)
        (FilterReference.nextOutput lead feedback numerator (x :: inputs) ys :: ys)
        (outputs.push (FilterReference.nextOutput lead feedback numerator (x :: inputs) ys))
        (by rw [hinput]; simp) (by rw [Array.toList_push, houtputs]; simp) (by simp [hlen])
      rw [List.length_cons] at hlater
      rw [hlater, respondFrom]
      simp

/-- **Filtering takes no misstep** where the normalization term is not zero. -/
theorem respond_eq (xs : List Float) :
    respond (lead :: feedback) numerator xs.toArray =
      .ok (FilterReference.respond (lead :: feedback) numerator xs).toArray := by
  refine bind_eq_ok_iff.mpr ⟨lead, fetch_of_getElem? rfl, ?_⟩
  rw [List.range_eq_range', List.size_toArray]
  refine (foldlM_extend hlead feedback numerator xs.toArray xs [] [] #[] rfl rfl rfl).trans ?_
  simp [FilterReference.respond]

end Response

/-! ## The whole run goes right -/

theorem run_of_dense {x dense : Signal} (factors : Factors) (filter : Filter)
    (h : upsample x factors.up = .ok (.ok dense)) :
    run x factors.down factors.up filter.denominator filter.numerator =
      .ok (.ok (everyFrom factors.down 0 (factors.dense filter dense))) := by
  obtain ⟨lead, feedback, hdenominator, hlead⟩ := filter.exists_lead
  refine bind_eq_ok_iff.mpr ⟨_, h, ?_⟩
  have hdown := factors.down_pos
  have hup := factors.up_pos
  dsimp only
  split_ifs with hfilters
  · have hfiltered := respond_eq hlead feedback filter.numerator dense
    rw [← hdenominator] at hfiltered
    refine bind_eq_ok_iff.mpr ⟨_, hfiltered, bind_eq_ok_iff.mpr ⟨_, if_neg (by omega), ?_⟩⟩
    rw [Factors.dense, if_neg (by omega)]
    rfl
  · rw [Factors.dense, if_pos (by omega), (by omega : factors.down = 1), everyFrom_one]
    rfl

/-- **The pipeline takes no misstep.**  On any signal, with factors and a filter that were checked,
no access is out of range, no count is taken from a smaller one, no divisor is zero and the stride
is positive, as long as the grid has at most `2 ^ 50` steps; the answer is that of the pipeline, and
the one refusal in it is that of a signal too short to be up-sampled. -/
theorem run_without_misstep (x : Signal) (factors : Factors) (filter : Filter)
    (h : (x.length - 1) * factors.up ≤ 2 ^ 50) :
    run x factors.down factors.up filter.denominator filter.numerator =
        .ok (referenceOutput x factors filter) ∧
      ∀ e, referenceOutput x factors filter = .error e →
        1 < factors.up ∧ x.length < 2 ∧ e = .insufficientSamples x.length factors.up := by
  have hup := factors.up_pos
  have hdense := upsample_eq x hup h
  rw [referenceOutput_eq]
  by_cases hshort : 1 < factors.up ∧ x.length < 2
  · rw [upsample_of_short hshort.1 hshort.2] at hdense ⊢
    refine ⟨bind_eq_ok_iff.mpr ⟨_, hdense, rfl⟩, ?_⟩
    intro e he
    cases he
    exact ⟨hshort.1, hshort.2, rfl⟩
  · have hnone := factors.fault?_of_le h
    rw [if_neg hshort, factors.fault?_eq_none_iff] at hnone
    obtain ⟨v, hv, -⟩ := upsample_eq_ok hup hnone
    rw [hv] at hdense ⊢
    refine ⟨run_of_dense factors filter hdense, ?_⟩
    intro e he
    cases he

/-- Three samples on a grid whose step is rounded down, which gives it one point more, and a filter
with feedback. -/
theorem run_without_misstep_feedback :
    run [1, 2, 4] 2 49 [2, 1] [1] =
      .ok (referenceOutput [1, 2, 4] ⟨2, 49, by decide, by decide⟩
        ⟨[2, 1], [1], by decide +kernel⟩) :=
  (run_without_misstep [1, 2, 4] ⟨2, 49, by decide, by decide⟩ ⟨[2, 1], [1], by decide +kernel⟩
    (by decide)).1

-- Unchecked, a factor or a coefficient of zero leads astray.
example : run [1] 0 1 [1] [1] = .error .zeroStride := by decide +kernel

example : run [1] 1 1 [0] [1] = .error .zeroDivisor := by decide +kernel

end Watched

end FilterReference
