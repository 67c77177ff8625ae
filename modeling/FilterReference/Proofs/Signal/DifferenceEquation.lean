/-
# The response solves the difference equation

Over exact numbers `respond` is what the difference equation says it is: a sequence solves the
equation for an input if and only if it is the response (`solves_iff`).  The response is computed
from histories, latest first, so the equation is met with histories in place of indices first
(`eq_respondFrom_iff`), where each output depends on the one before it, and is then put back on
indices (`sum_zipWith_forward`, `sum_zipWith_feedback`).

What follows from the equation follows for the response, since there is one solution only: it is
linear in the input (`respond_combine`) and does not change when all coefficients are multiplied by
one number (`respond_scale`).
-/
import FilterReference.Proofs.Signal.Pipeline

namespace FilterReference

open Binary

section Exact

variable {K : Type} [Field K]

/-- The output solves the difference equation with denominator `a` and numerator `b` for the input
`x`, everything before the first sample being zero. -/
structure Solves (a b x y : List K) : Prop where
  length_eq : y.length = x.length
  equation : ∀ n < x.length,
    a.getD 0 0 * y.getD n 0 +
        ∑ j ∈ Finset.Icc 1 (min (a.length - 1) n), a.getD j 0 * y.getD (n - j) 0 =
      ∑ i ∈ Finset.Icc 0 (min (b.length - 1) n), b.getD i 0 * x.getD (n - i) 0

/-- Coefficients past the last one are zero, so that a sum need not stop there. -/
theorem sum_coefficients (c : List K) (m n : Nat) (f : Nat → K) :
    ∑ i ∈ Finset.Icc m (min (c.length - 1) n), c.getD i 0 * f i =
      ∑ i ∈ Finset.Icc m n, c.getD i 0 * f i := by
  refine Finset.sum_subset (Finset.Icc_subset_Icc_right (min_le_right _ _)) fun i hi hnot => ?_
  rw [Finset.mem_Icc] at hi hnot
  have hpast : c.length ≤ i := by omega
  rw [List.getD_eq_default _ _ hpast, zero_mul]

/-! ## Coefficients against histories

The equation pairs a coefficient with the sample as many places back, the response pairs it with a
history that begins with the latest sample.  A sum over the shorter of two lists is the same as one
where missing entries count as zero. -/

/-- Coefficients meet a history as long as there is any. -/
theorem sum_zipWith (cs hs : List K) :
    (List.zipWith (· * ·) cs hs).sum =
      ∑ i ∈ Finset.range hs.length, cs.getD i 0 * hs.getD i 0 := by
  induction cs generalizing hs with
  | nil => simp
  | cons c cs ih =>
      cases hs with
      | nil => simp
      | cons h hs =>
          rw [List.zipWith_cons_cons, List.sum_cons, ih, List.length_cons,
            Finset.sum_range_succ', add_comm]
          simp

/-- The history of a sequence up to number `n`, latest first. -/
theorem getD_history (xs : List K) {n i : Nat} (hn : n ≤ xs.length) (hi : i < n) :
    (xs.take n).reverse.getD i 0 = xs.getD (n - 1 - i) 0 := by
  rw [List.getD_eq_getElem?_getD, List.getD_eq_getElem?_getD, getElem?_reverse_take hn, if_pos hi]

theorem sum_zipWith_forward (b x : List K) {n : Nat} (hn : n < x.length) :
    (List.zipWith (· * ·) b (x.take (n + 1)).reverse).sum =
      ∑ i ∈ Finset.Icc 0 (min (b.length - 1) n), b.getD i 0 * x.getD (n - i) 0 := by
  rw [sum_coefficients b 0 n fun i => x.getD (n - i) 0, sum_zipWith, List.length_reverse,
    List.length_take_of_le (by omega), Nat.range_succ_eq_Icc_zero]
  refine Finset.sum_congr rfl fun i hi => ?_
  rw [Finset.mem_Icc] at hi
  rw [getD_history x (by omega) (by omega), Nat.add_sub_cancel]

theorem sum_zipWith_feedback (lead : K) (feedback y : List K) {n : Nat} (hn : n ≤ y.length) :
    (List.zipWith (· * ·) feedback (y.take n).reverse).sum =
      ∑ j ∈ Finset.Icc 1 (min ((lead :: feedback).length - 1) n),
        (lead :: feedback).getD j 0 * y.getD (n - j) 0 := by
  rw [sum_coefficients (lead :: feedback) 1 n fun j => y.getD (n - j) 0, sum_zipWith,
    List.length_reverse, List.length_take_of_le hn]
  refine Finset.sum_nbij' (· + 1) (· - 1) ?_ ?_ ?_ ?_ ?_
  · intro i hi
    rw [Finset.mem_range] at hi
    rw [Finset.mem_Icc]
    omega
  · intro j hj
    rw [Finset.mem_Icc] at hj
    rw [Finset.mem_range]
    omega
  · intro i _
    exact Nat.add_sub_cancel i 1
  · intro j hj
    rw [Finset.mem_Icc] at hj
    exact Nat.sub_add_cancel hj.1
  · intro i hi
    rw [Finset.mem_range] at hi
    rw [getD_history y hn hi, List.getD_cons_succ, Nat.sub_sub, Nat.add_comm 1 i]

theorem accumulate_add (acc : K) (cs hs : List K) :
    accumulate (· + ·) acc cs hs = acc + (List.zipWith (· * ·) cs hs).sum := by
  induction cs generalizing acc hs with
  | nil => simp [accumulate]
  | cons c cs ih =>
      cases hs with
      | nil => simp [accumulate]
      | cons h hs =>
          rw [accumulate, ih, List.zipWith_cons_cons, List.sum_cons, add_assoc]

theorem accumulate_sub (acc : K) (cs hs : List K) :
    accumulate (· - ·) acc cs hs = acc - (List.zipWith (· * ·) cs hs).sum := by
  induction cs generalizing acc hs with
  | nil => simp [accumulate]
  | cons c cs ih =>
      cases hs with
      | nil => simp [accumulate]
      | cons h hs =>
          rw [accumulate, ih, List.zipWith_cons_cons, List.sum_cons, sub_sub]

variable [BEq K] [LawfulBEq K]

/-- Leaving out the division by a leading one makes no difference. -/
theorem nextOutput_eq_div (lead : K) (feedback forward inputs outputs : List K) :
    nextOutput lead feedback forward inputs outputs =
      ((List.zipWith (· * ·) forward inputs).sum -
        (List.zipWith (· * ·) feedback outputs).sum) / lead := by
  rw [nextOutput, accumulate_add, accumulate_sub, zero_add]
  split_ifs with hone
  · rw [eq_of_beq hone, div_one]
  · rfl

/-- One output solves the equation, given the histories, and nothing else does. -/
theorem eq_nextOutput_iff {lead : K} (hlead : lead ≠ 0) {feedback forward inputs outputs : List K}
    {y : K} : y = nextOutput lead feedback forward inputs outputs ↔
      lead * y + (List.zipWith (· * ·) feedback outputs).sum =
        (List.zipWith (· * ·) forward inputs).sum := by
  rw [nextOutput_eq_div, eq_div_iff hlead, eq_sub_iff_add_eq, mul_comm]

/-! ## All outputs

The equation is asked of all outputs at once, and the recursion makes them one by one.  The
induction is on the inputs that are left, behind any histories; each step settles one output, by a
division. -/

/-- The outputs after given histories solve the equation on the histories, and nothing else does:
each output is determined by those before it. -/
theorem eq_respondFrom_iff {lead : K} (hlead : lead ≠ 0) (feedback forward : List K) :
    ∀ xs inputs outputs ys : List K,
      ys = respondFrom lead feedback forward inputs outputs xs ↔
        ys.length = xs.length ∧ ∀ n < xs.length,
          lead * ys.getD n 0 +
              (List.zipWith (· * ·) feedback ((ys.take n).reverse ++ outputs)).sum =
            (List.zipWith (· * ·) forward ((xs.take (n + 1)).reverse ++ inputs)).sum := by
  intro xs
  induction xs with
  | nil =>
      intro inputs outputs ys
      rw [respondFrom, List.length_nil, List.length_eq_zero_iff]
      exact ⟨fun h => ⟨h, fun n hn => absurd hn (Nat.not_lt_zero n)⟩, fun h => h.1⟩
  | cons x xs ih =>
      intro inputs outputs ys
      cases ys with
      | nil =>
          rw [respondFrom]
          exact iff_of_false (List.cons_ne_nil _ _).symm fun h => absurd h.1 (Nat.succ_ne_zero _).symm
      | cons y ys =>
          have hfirst : y = nextOutput lead feedback forward (x :: inputs) outputs ↔ _ :=
            eq_nextOutput_iff hlead
          have hrest := ih (x :: inputs) (y :: outputs) ys
          rw [respondFrom, List.cons.injEq, List.length_cons, List.length_cons, Nat.succ_inj]
          constructor
          · rintro ⟨hy, hys⟩
            rw [← hy] at hys
            obtain ⟨hlength, hequations⟩ := hrest.mp hys
            refine ⟨hlength, fun n hn => ?_⟩
            cases n with
            | zero => simpa using hfirst.mp hy
            | succ n => simpa using hequations n (by omega)
          · rintro ⟨hlength, hequations⟩
            have hy := hfirst.mpr (by simpa using hequations 0 (Nat.succ_pos _))
            rw [← hy]
            refine ⟨rfl, hrest.mpr ⟨hlength, fun n hn => ?_⟩⟩
            simpa using hequations (n + 1) (Nat.succ_lt_succ hn)

/-- **The response is the one solution of the difference equation.** -/
theorem solves_iff {lead : K} (hlead : lead ≠ 0) (feedback b x y : List K) :
    Solves (lead :: feedback) b x y ↔ y = respond (lead :: feedback) b x := by
  rw [respond, eq_respondFrom_iff hlead]
  simp only [List.append_nil]
  constructor
  · rintro ⟨hlength, hequation⟩
    refine ⟨hlength, fun n hn => ?_⟩
    rw [sum_zipWith_forward b x hn, sum_zipWith_feedback lead feedback y (by omega)]
    exact hequation n hn
  · rintro ⟨hlength, hequation⟩
    refine ⟨hlength, fun n hn => ?_⟩
    rw [← sum_zipWith_forward b x hn, ← sum_zipWith_feedback lead feedback y (by omega)]
    exact hequation n hn

/-! ## Linearity and scale

A combination of solutions is a solution, and a solution stays one if the equation is multiplied by
a number.  As there is only one, the response goes along, and no induction over the samples is
needed. -/

omit [BEq K] [LawfulBEq K]

/-- Two sequences of one length, each multiplied by a number of its own and added. -/
def combine (c d : K) (x x' : List K) : List K := List.zipWith (fun u v => c * u + d * v) x x'

theorem length_combine (c d : K) {x x' : List K} (h : x'.length = x.length) :
    (combine c d x x').length = x.length := by
  rw [combine, List.length_zipWith, h, Nat.min_self]

theorem getD_combine (c d : K) {x x' : List K} (h : x'.length = x.length) (n : Nat) :
    (combine c d x x').getD n 0 = c * x.getD n 0 + d * x'.getD n 0 := by
  rcases Nat.lt_or_ge n x.length with hlt | hge
  · rw [List.getD_eq_getElem _ _ (by rwa [length_combine c d h]), List.getD_eq_getElem _ _ hlt,
      List.getD_eq_getElem _ _ (by omega)]
    exact List.getElem_zipWith
  · rw [List.getD_eq_default _ _ (by rwa [length_combine c d h]), List.getD_eq_default _ _ hge,
      List.getD_eq_default _ _ (by omega), mul_zero, mul_zero, add_zero]

theorem sum_combine (c d : K) (s : Finset Nat) (g u v : Nat → K) :
    ∑ i ∈ s, g i * (c * u i + d * v i) = c * ∑ i ∈ s, g i * u i + d * ∑ i ∈ s, g i * v i := by
  rw [Finset.mul_sum, Finset.mul_sum, ← Finset.sum_add_distrib]
  exact Finset.sum_congr rfl fun i _ => by ring

theorem Solves.combine {a b x x' y y' : List K} (h : Solves a b x y) (h' : Solves a b x' y')
    (hlength : x'.length = x.length) (c d : K) :
    Solves a b (FilterReference.combine c d x x') (FilterReference.combine c d y y') := by
  have hlength' : y'.length = y.length := by rw [h.length_eq, h'.length_eq, hlength]
  refine ⟨?_, fun n hn => ?_⟩
  · rw [length_combine c d hlength, length_combine c d hlength', h.length_eq]
  · rw [length_combine c d hlength] at hn
    simp only [getD_combine c d hlength, getD_combine c d hlength', sum_combine]
    rw [← h.equation n hn, ← h'.equation n (by omega)]
    ring

theorem getD_map_mul (c : K) (cs : List K) (i : Nat) :
    (cs.map (c * ·)).getD i 0 = c * cs.getD i 0 := by
  rw [List.getD_eq_getElem?_getD, List.getD_eq_getElem?_getD, List.getElem?_map]
  cases cs[i]? with
  | none => exact (mul_zero c).symm
  | some x => rfl

theorem Solves.scale {a b x y : List K} (h : Solves a b x y) (c : K) :
    Solves (a.map (c * ·)) (b.map (c * ·)) x y where
  length_eq := h.length_eq
  equation n hn := by
    simp only [getD_map_mul, List.length_map, mul_assoc, ← Finset.mul_sum]
    rw [← h.equation n hn]
    ring

variable [BEq K] [LawfulBEq K]

theorem respond_combine {lead : K} (hlead : lead ≠ 0) (feedback b : List K) (c d : K)
    {x x' : List K} (hlength : x'.length = x.length) :
    respond (lead :: feedback) b (combine c d x x') =
      combine c d (respond (lead :: feedback) b x) (respond (lead :: feedback) b x') := by
  have h := (solves_iff hlead feedback b x _).mpr rfl
  have h' := (solves_iff hlead feedback b x' _).mpr rfl
  exact ((solves_iff hlead feedback b _ _).mp (h.combine h' hlength c d)).symm

theorem respond_scale {lead : K} (hlead : lead ≠ 0) (feedback b x : List K) {c : K} (hc : c ≠ 0) :
    respond ((lead :: feedback).map (c * ·)) (b.map (c * ·)) x =
      respond (lead :: feedback) b x := by
  have h := (solves_iff hlead feedback b x _).mpr rfl
  have hscaled := h.scale c
  rw [List.map_cons] at hscaled ⊢
  exact ((solves_iff (mul_ne_zero hc hlead) _ _ x _).mp hscaled).symm

end Exact

/-! ## Filters in exact arithmetic -/

namespace Filter

def exactDenominator (f : Filter) : List ℚ := f.denominator.map number

def exactNumerator (f : Filter) : List ℚ := f.numerator.map number

/-- The response of the filter, computed as in doubles but without rounding. -/
def exactResponse (f : Filter) (x : List ℚ) : List ℚ :=
  respond f.exactDenominator f.exactNumerator x

/-- **The exact response of a filter is the one solution of its difference equation.**  It is linear
in the input, and it does not change when all coefficients are multiplied by one number other than
zero. -/
theorem exactResponse_characterized (f : Filter) (x : List ℚ) :
    (∀ y, Solves f.exactDenominator f.exactNumerator x y ↔ y = f.exactResponse x) ∧
    (∀ (c d : ℚ) (x' : List ℚ), x'.length = x.length →
      f.exactResponse (combine c d x x') =
        combine c d (f.exactResponse x) (f.exactResponse x')) ∧
    ∀ c : ℚ, c ≠ 0 →
      respond (f.exactDenominator.map (c * ·)) (f.exactNumerator.map (c * ·)) x =
        f.exactResponse x := by
  obtain ⟨lead, feedback, hdenominator, hlead⟩ := f.exists_lead
  have hne : number lead ≠ 0 := number_ne_zero fun h => by
    rw [beq_zero_iff.mpr h] at hlead
    cases hlead
  have hexact : f.exactDenominator = number lead :: feedback.map number := by
    rw [exactDenominator, hdenominator, List.map_cons]
  unfold exactResponse
  rw [hexact]
  exact ⟨solves_iff hne _ _ x, fun c d x' hlength => respond_combine hne _ _ c d hlength,
    fun c hc => respond_scale hne _ _ x hc⟩

/-- A filter with feedback and a leading coefficient other than one. -/
theorem exactResponse_characterized_feedback :
    Solves [2, 1] [1, 3] [1, 0, 1] ([1 / 2, 5 / 4, -1 / 8] : List ℚ) ∧
      respond [2, 1] [1, 3] [2, -1, 2] =
        combine 2 (-1) [1 / 2, 5 / 4, -1 / 8] (respond [2, 1] [1, 3] ([0, 1, 0] : List ℚ)) ∧
      respond [6, 3] [3, 9] [1, 0, 1] = ([1 / 2, 5 / 4, -1 / 8] : List ℚ) := by
  let f : Filter := ⟨[2, 1], [1, 3], by decide +kernel⟩
  have hdenominator : f.exactDenominator = [2, 1] := by decide +kernel
  have hnumerator : f.exactNumerator = [1, 3] := by decide +kernel
  have hresponse : f.exactResponse [1, 0, 1] = [1 / 2, 5 / 4, -1 / 8] := by decide +kernel
  obtain ⟨hsolves, hcombine, hscale⟩ := exactResponse_characterized f [1, 0, 1]
  have hsolution := (hsolves _).mpr hresponse.symm
  have hlinear := hcombine 2 (-1) [0, 1, 0] rfl
  have hscaled := hscale 3 (by decide)
  have hinput : combine 2 (-1) [1, 0, 1] [0, 1, 0] = ([2, -1, 2] : List ℚ) := by decide +kernel
  have htriple : ([2, 1] : List ℚ).map (3 * ·) = [6, 3] ∧ ([1, 3] : List ℚ).map (3 * ·) = [3, 9] :=
    by decide +kernel
  rw [hdenominator, hnumerator] at hsolution hscaled
  rw [hinput, hresponse] at hlinear
  rw [htriple.1, htriple.2, hresponse] at hscaled
  unfold exactResponse at hlinear
  rw [hdenominator, hnumerator] at hlinear
  exact ⟨hsolution, hlinear, hscaled⟩

end Filter

end FilterReference
