/-
# The verdict on a candidate

The largest deviation is above a bound when one of the deviations is (`lt_largestDeviation_iff`),
and every deviation is a number, infinity standing in for what is none.  So a candidate passes when
it is short enough and no deviation is above the tolerance
(`Record.exists_compare_eq_passes_iff`).  For a tolerance that is a finite number, or infinite with
no difference that is not a number, this says that the candidate is `Within` the tolerance; nothing
is above a tolerance that is not a number.
The beginning of a record itself deviates nowhere (`Record.compare_of_initial`).
-/
import FilterReference.Proofs.Binary.Order
import FilterReference.Record.Comparison

namespace FilterReference

open Binary

/-! ## Single deviations

A deviation that is no number becomes infinity, which is above every tolerance but infinity itself
and one that is no number.  These are the two cases in which a verdict says something else than the
samples. -/

/-- The difference of two samples is a number and within a tolerance. -/
def Near (tolerance x y : Float) : Prop :=
  isNaN (abs (x - y)) = false ∧ abs (x - y) ≤ tolerance

theorem isNaN_deviation (x y : Float) : isNaN (deviation x y) = false := by
  unfold deviation
  dsimp only
  split_ifs with h
  · exact isNaN_infinity
  · exact Bool.not_eq_true _ ▸ h

theorem rank_deviation_nonneg (x y : Float) : 0 ≤ rank (deviation x y) := by
  unfold deviation
  dsimp only
  split_ifs with h
  · rw [rank_infinity]
    exact Int.natCast_nonneg _
  · rw [isNaN_abs, Bool.not_eq_true] at h
    rw [rank_abs h]
    exact Int.natCast_nonneg _

theorem not_lt_deviation_iff {tolerance x y : Float} :
    ¬ tolerance < deviation x y ↔
      Near tolerance x y ∨ isNaN tolerance = true ∨ tolerance = infinity := by
  rw [lt_iff_rank_lt, isNaN_deviation, Near, le_iff_rank_le]
  cases ht : isNaN tolerance with
  | true => simp
  | false =>
      unfold deviation
      dsimp only
      cases hd : isNaN (abs (x - y)) with
      | true =>
          have htop : rank infinity ≤ rank tolerance ↔ tolerance = infinity := by
            constructor
            · exact eq_infinity_of_rank_le ht
            · rintro rfl
              exact le_refl _
          simp [htop]
      | false =>
          have htop : tolerance = infinity → rank (abs (x - y)) ≤ rank tolerance := by
            rintro rfl
            exact rank_le_infinity hd
          simp only [true_and, not_lt, Bool.false_eq_true, if_false, false_or]
          exact ⟨Or.inl, fun h => h.elim id htop⟩

/-! ## The largest deviation

All that a verdict asks is whether the largest deviation is above the tolerance, which is whether
any deviation is.  Where it stands does not matter here. -/

/-- The larger of two deviations is above a bound when one of them is. -/
theorem lt_larger_iff {t d : Float} {best : Deviation} (index : Nat)
    (hbest : isNaN best.amount = false) (hd : isNaN d = false) :
    t < (best.larger index d).amount ↔ t < best.amount ∨ t < d := by
  have hbest_iff : ∀ {u : Float},
      u < best.amount ↔ isNaN u = false ∧ rank u < rank best.amount := by
    intro u
    simp [lt_iff_rank_lt, hbest]
  have hd_iff : ∀ {u : Float}, u < d ↔ isNaN u = false ∧ rank u < rank d := by
    intro u
    simp [lt_iff_rank_lt, hd]
  unfold Deviation.larger
  split_ifs with h
  · have hrank := (hd_iff.mp h).2
    rw [hbest_iff, hd_iff]
    constructor
    · exact Or.inr
    · rintro (⟨ht, hlt⟩ | hlt)
      · exact ⟨ht, hlt.trans hrank⟩
      · exact hlt
  · rw [hd_iff] at h
    rw [hbest_iff, hd_iff]
    constructor
    · exact Or.inl
    · rintro (hlt | ⟨ht, hlt⟩)
      · exact hlt
      · exact ⟨ht, hlt.trans_le (not_lt.mp fun hrank => h ⟨hbest, hrank⟩)⟩

theorem isNaN_larger {d : Float} {best : Deviation} (index : Nat)
    (hbest : isNaN best.amount = false) (hd : isNaN d = false) :
    isNaN (best.larger index d).amount = false := by
  unfold Deviation.larger
  split_ifs
  · exact hd
  · exact hbest

theorem lt_largestFrom_iff {t : Float} {index : Nat} {best : Deviation} {ds : List Float}
    (hbest : isNaN best.amount = false) (hds : ∀ d ∈ ds, isNaN d = false) :
    t < (largestFrom index best ds).amount ↔ t < best.amount ∨ ∃ d ∈ ds, t < d := by
  induction ds generalizing index best with
  | nil => simp [largestFrom]
  | cons d ds ih =>
      obtain ⟨hd, hds⟩ := List.forall_mem_cons.mp hds
      rw [largestFrom, ih (isNaN_larger index hbest hd) hds, lt_larger_iff index hbest hd]
      simp [or_assoc]

theorem mem_zipWith_deviation_iff {xs ys : List Float} {d : Float} :
    d ∈ List.zipWith deviation xs ys ↔
      ∃ (i : Nat) (x y : Float), xs[i]? = some x ∧ ys[i]? = some y ∧ deviation x y = d := by
  simp only [List.mem_iff_getElem?, List.getElem?_zipWith_eq_some]

/-- The largest deviation is above a bound when some sample deviates by more; deviations are not
below zero, from which the search starts. -/
theorem lt_largestDeviation_iff {t : Float} {xs ys : List Float}
    (h : List.zipWith deviation xs ys ≠ []) :
    t < (largestDeviation xs ys).amount ↔ ∃ d ∈ List.zipWith deviation xs ys, t < d := by
  have hzero : isNaN 0 = false := rfl
  have hrank : rank 0 = 0 := rfl
  have hdeviation : ∀ d ∈ List.zipWith deviation xs ys, isNaN d = false ∧ 0 ≤ rank d := by
    intro d hd
    obtain ⟨i, x, y, -, -, rfl⟩ := mem_zipWith_deviation_iff.mp hd
    exact ⟨isNaN_deviation x y, rank_deviation_nonneg x y⟩
  rw [largestDeviation, lt_largestFrom_iff hzero fun d hd => (hdeviation d hd).1]
  constructor
  · rintro (hlt | hd)
    · obtain ⟨d, hd⟩ := List.exists_mem_of_ne_nil _ h
      obtain ⟨hnumber, hnonneg⟩ := hdeviation d hd
      obtain ⟨ht, -, hlt⟩ := lt_iff_rank_lt.mp hlt
      exact ⟨d, hd, lt_iff_rank_lt.mpr ⟨ht, hnumber, (hrank ▸ hlt).trans_le hnonneg⟩⟩
    · exact hd
  · exact Or.inr

/-! ## Verdicts

`Within` is what a tolerance is for.  A verdict says something else only if the tolerance is not a
number, or if it is infinite and samples differ by what is not a number. -/

namespace Record

/-- A candidate is no longer than the record, and each of its samples is near the recorded one. -/
def Within (r : Record) (candidate : Signal) (tolerance : Float) : Prop :=
  candidate.length ≤ r.samples.length ∧
    ∀ (i : Nat) (x y : Float), r.samples[i]? = some x → candidate[i]? = some y → Near tolerance x y

/-- Some difference of a candidate from the record is not a number. -/
def DiffersByNaN (r : Record) (candidate : Signal) : Prop :=
  ∃ (i : Nat) (x y : Float), r.samples[i]? = some x ∧ candidate[i]? = some y ∧
    isNaN (abs (x - y)) = true

/-- No sample deviates by more than a tolerance when all are near, and when nothing is above it. -/
theorem not_exists_lt_deviation_iff {r : Record} {candidate : Signal} {t : Float}
    (hlength : candidate.length ≤ r.samples.length) :
    (¬ ∃ d ∈ List.zipWith deviation r.samples candidate, t < d) ↔
      r.Within candidate t ∨ isNaN t = true ∨ t = infinity := by
  constructor
  · intro hnone
    have hall : ∀ (i : Nat) (x y : Float), r.samples[i]? = some x → candidate[i]? = some y →
        Near t x y ∨ isNaN t = true ∨ t = infinity := by
      intro i x y hx hy
      refine not_lt_deviation_iff.mp fun hlt => hnone ⟨deviation x y, ?_, hlt⟩
      exact mem_zipWith_deviation_iff.mpr ⟨i, x, y, hx, hy, rfl⟩
    by_cases ht : isNaN t = true ∨ t = infinity
    · exact Or.inr ht
    · refine Or.inl ⟨hlength, fun i x y hx hy => ?_⟩
      exact (hall i x y hx hy).resolve_right ht
  · rintro hcases ⟨d, hd, hlt⟩
    obtain ⟨i, x, y, hx, hy, rfl⟩ := mem_zipWith_deviation_iff.mp hd
    refine not_lt_deviation_iff.mpr ?_ hlt
    rcases hcases with hwithin | ht
    · exact Or.inl (hwithin.2 i x y hx hy)
    · exact Or.inr ht

/-- **A candidate passes** when it is within the tolerance; or when it is short enough and the
tolerance is one that nothing is above. -/
theorem exists_compare_eq_passes_iff {r : Record} {candidate : Signal} {t : Float}
    (h : candidate ≠ []) :
    (∃ largest, r.compare candidate t = .passes largest) ↔
      candidate.length ≤ r.samples.length ∧
        (r.Within candidate t ∨ isNaN t = true ∨ t = infinity) := by
  have hcommon : candidate.length ≤ r.samples.length →
      List.zipWith deviation r.samples candidate ≠ [] := by
    intro hlength hempty
    have hzero := congrArg List.length hempty
    rw [List.length_zipWith, Nat.min_eq_right hlength] at hzero
    exact h (List.eq_nil_of_length_eq_zero hzero)
  unfold compare
  dsimp only
  split_ifs with hlong hexceeds
  · simp [Nat.not_le.mpr hlong]
  · have hlength := Nat.not_lt.mp hlong
    rw [lt_largestDeviation_iff (hcommon hlength)] at hexceeds
    rw [← not_exists_lt_deviation_iff hlength]
    simp [hlength, hexceeds]
  · have hlength := Nat.not_lt.mp hlong
    rw [lt_largestDeviation_iff (hcommon hlength)] at hexceeds
    rw [← not_exists_lt_deviation_iff hlength]
    simp only [hexceeds, hlength, not_false_iff, and_self, iff_true]
    exact ⟨_, rfl⟩

theorem within_infinity_iff {r : Record} {candidate : Signal}
    (hlength : candidate.length ≤ r.samples.length) :
    r.Within candidate infinity ↔ ¬ r.DiffersByNaN candidate := by
  constructor
  · rintro ⟨-, hnear⟩ ⟨i, x, y, hx, hy, hnan⟩
    rw [(hnear i x y hx hy).1] at hnan
    cases hnan
  · intro hnone
    refine ⟨hlength, fun i x y hx hy => ?_⟩
    have hnumber : isNaN (abs (x - y)) = false := by
      rw [← Bool.not_eq_true]
      exact fun hnan => hnone ⟨i, x, y, hx, hy, hnan⟩
    exact ⟨hnumber, le_iff_rank_le.mpr ⟨hnumber, isNaN_infinity, rank_le_infinity hnumber⟩⟩

theorem not_within_of_isNaN {r : Record} {candidate : Signal} {t : Float} (h : candidate ≠ [])
    (ht : isNaN t = true) : ¬ r.Within candidate t := by
  rintro ⟨hlength, hnear⟩
  obtain ⟨y, ys, rfl⟩ := List.exists_cons_of_ne_nil h
  rw [List.length_cons] at hlength
  have hx : r.samples[0]? = some r.samples[0] := List.getElem?_eq_getElem (by omega)
  have hle := (hnear 0 _ y hx rfl).2
  rw [(le_iff_rank_le.mp hle).2.1] at ht
  cases ht

/-- The verdict is that of `Within`, except for a candidate that is short enough where the tolerance
is not a number, or infinite while some difference is not a number. -/
theorem passes_iff_within_iff {r : Record} {candidate : Signal} {t : Float} (h : candidate ≠ []) :
    ((∃ largest, r.compare candidate t = .passes largest) ↔ r.Within candidate t) ↔
      (candidate.length ≤ r.samples.length →
        isNaN t = false ∧ ¬ (t = infinity ∧ r.DiffersByNaN candidate)) := by
  rw [exists_compare_eq_passes_iff h]
  constructor
  · intro hverdict hlength
    constructor
    · rw [← Bool.not_eq_true]
      intro ht
      exact not_within_of_isNaN h ht (hverdict.mp ⟨hlength, Or.inr (Or.inl ht)⟩)
    · rintro ⟨rfl, hdiffers⟩
      exact (within_infinity_iff hlength).mp
        (hverdict.mp ⟨hlength, Or.inr (Or.inr rfl)⟩) hdiffers
  · intro hsound
    constructor
    · rintro ⟨hlength, hwithin | ht | rfl⟩
      · exact hwithin
      · rw [(hsound hlength).1] at ht
        cases ht
      · exact (within_infinity_iff hlength).mpr fun hdiffers => (hsound hlength).2 ⟨rfl, hdiffers⟩
    · intro hwithin
      exact ⟨hwithin.1, Or.inl hwithin⟩

end Record

/-! ## Candidates that begin a record -/

theorem deviation_self {x : Float} (hx : isFinite x = true) : deviation x x = 0 := by
  have habs : Binary.abs 0 = 0 := rfl
  have hnumber : isNaN 0 = false := rfl
  unfold deviation
  rw [sub_self_of_isFinite hx]
  dsimp only
  rw [habs, hnumber, if_neg Bool.false_ne_true]

theorem zipWith_deviation_of_initial {xs ys : List Float} (hinitial : ys <+: xs)
    (hfinite : ∀ y ∈ ys, isFinite y = true) : ∀ d ∈ List.zipWith deviation xs ys, d = 0 := by
  intro d hd
  obtain ⟨i, x, y, hx, hy, rfl⟩ := mem_zipWith_deviation_iff.mp hd
  obtain ⟨hi, rfl⟩ := List.getElem?_eq_some_iff.mp hy
  rw [List.prefix_iff_getElem?.mp hinitial i hi] at hx
  cases hx
  exact deviation_self (hfinite _ (List.getElem_mem hi))

theorem largestFrom_of_zero {index : Nat} {ds : List Float} (h : ∀ d ∈ ds, d = 0) :
    largestFrom index {} ds = {} := by
  induction ds generalizing index with
  | nil => rfl
  | cons d ds ih =>
      obtain ⟨rfl, hds⟩ := List.forall_mem_cons.mp h
      have hlarger : Deviation.larger {} index 0 = {} := by
        unfold Deviation.larger
        rw [if_neg]
        rw [lt_iff_rank_lt]
        exact fun hlt => lt_irrefl _ hlt.2.2
      rw [largestFrom, hlarger]
      exact ih hds

/-- **A finite beginning of a record passes** with no deviation, whatever tolerance is not below
zero. -/
theorem Record.compare_of_initial {r : Record} {candidate : Signal} {t : Float}
    (hinitial : candidate <+: r.samples) (hfinite : ∀ x ∈ candidate, isFinite x = true)
    (ht : 0 ≤ t) : r.compare candidate t = .passes {} := by
  have hshort : ¬ r.samples.length < candidate.length := Nat.not_lt.mpr hinitial.length_le
  have hlargest : largestDeviation r.samples candidate = {} :=
    largestFrom_of_zero (zipWith_deviation_of_initial hinitial hfinite)
  have hwithin : ¬ t < 0 := fun hlt =>
    absurd (lt_iff_rank_lt.mp hlt).2.2 (Int.not_lt.mpr (le_iff_rank_le.mp ht).2.2)
  rw [Record.compare, if_neg hshort, hlargest]
  exact if_neg hwithin

end FilterReference
