/-
# The largest deviation

The search for the largest deviation looks at one sample after the other and keeps the best so far
until a larger one comes.  What it has found at any time is the first of the largest of what it has
looked at (`Deviation.IsFirstLargest`): one more sample keeps this (`IsFirstLargest.larger`), so it
holds of all samples that both signals have (`largestDeviation_first`).  The search does not begin
with a sample but with zero, which no deviation is below.
-/
import FilterReference.Proofs.Binary.Nearest
import FilterReference.Proofs.Record.Comparison

namespace FilterReference

open Binary

/-- What can be a deviation: a number without a sign. -/
def IsDistance (d : Float) : Prop := isNaN d = false ∧ negative d = false

theorem isDistance_zero : IsDistance 0 := ⟨rfl, rfl⟩

theorem isDistance_infinity : IsDistance infinity := ⟨rfl, rfl⟩

theorem isDistance_deviation (x y : Float) : IsDistance (deviation x y) := by
  refine ⟨isNaN_deviation x y, ?_⟩
  unfold deviation
  dsimp only
  split_ifs with hnan
  · exact isDistance_infinity.2
  · rw [isNaN_abs, isNaN, decide_eq_true_eq, not_lt] at hnan
    exact negative_ofParts false hnan

namespace IsDistance

variable {d e : Float}

theorem rank_eq (h : IsDistance d) : rank d = magnitude d := by
  rw [rank, h.2, if_neg Bool.false_ne_true]

theorem le_iff (hd : IsDistance d) (he : IsDistance e) : d ≤ e ↔ magnitude d ≤ magnitude e := by
  rw [le_iff_rank_le, hd.rank_eq, he.rank_eq, Nat.cast_le]
  simp [hd.1, he.1]

theorem lt_iff (hd : IsDistance d) (he : IsDistance e) : d < e ↔ magnitude d < magnitude e := by
  rw [lt_iff_rank_lt, hd.rank_eq, he.rank_eq, Nat.cast_lt]
  simp [hd.1, he.1]

theorem ext (hd : IsDistance d) (he : IsDistance e) (h : magnitude d = magnitude e) : d = e := by
  rw [← ofParts_magnitude hd.1, ← ofParts_magnitude he.1, hd.2, he.2, h]

end IsDistance

namespace Deviation

/-- A deviation is the largest in a list, and the first of its size.  In an empty list it is zero,
at the first sample. -/
structure IsFirstLargest (largest : Deviation) (ds : List Float) : Prop where
  upper : ∀ (i : Nat) (d : Float), ds[i]? = some d → d ≤ largest.amount
  first : ∀ (i : Nat) (d : Float), ds[i]? = some d → i < largest.index → d < largest.amount
  attained : ds[largest.index]? = some largest.amount ∨ ds = [] ∧ largest = {}

variable {best : Deviation} {ds : List Float} {d : Float}

theorem isFirstLargest_nil : IsFirstLargest {} [] where
  upper i d hd := by cases hd
  first i d hd := by cases hd
  attained := Or.inr ⟨rfl, rfl⟩

theorem IsFirstLargest.isDistance (h : best.IsFirstLargest ds) (hds : ∀ d ∈ ds, IsDistance d) :
    IsDistance best.amount := by
  rcases h.attained with hat | ⟨-, rfl⟩
  · exact hds _ (List.mem_of_getElem? hat)
  · exact isDistance_zero

theorem getElem?_concat_cases {i : Nat} {e : Float} (h : (ds ++ [d])[i]? = some e) :
    ds[i]? = some e ∨ i = ds.length ∧ e = d := by
  by_cases hi : i < ds.length
  · rw [List.getElem?_append_left hi] at h
    exact Or.inl h
  · rw [List.getElem?_append_right (not_lt.mp hi), List.getElem?_singleton] at h
    split_ifs at h with hlast
    cases h
    exact Or.inr ⟨by omega, rfl⟩

/-- A deviation that is larger than the largest before it is larger than all of them. -/
theorem IsFirstLargest.replace (h : best.IsFirstLargest ds) (hds : ∀ d ∈ ds, IsDistance d)
    (hd : IsDistance d) (hlt : best.amount < d) :
    IsFirstLargest ⟨ds.length, d⟩ (ds ++ [d]) := by
  have hbest := h.isDistance hds
  have hbefore : ∀ (i : Nat) (e : Float), ds[i]? = some e → e < d := by
    intro i e he
    have hdist := hds e (List.mem_of_getElem? he)
    have hle := (hdist.le_iff hbest).mp (h.upper i e he)
    exact (hdist.lt_iff hd).mpr (hle.trans_lt ((hbest.lt_iff hd).mp hlt))
  refine ⟨fun i e he => ?_, fun i e he hi => ?_, Or.inl (by simp)⟩
  · rcases getElem?_concat_cases he with he | ⟨-, rfl⟩
    · have hdist := hds e (List.mem_of_getElem? he)
      exact (hdist.le_iff hd).mpr ((hdist.lt_iff hd).mp (hbefore i e he)).le
    · exact (hd.le_iff hd).mpr (le_refl _)
  · rcases getElem?_concat_cases he with he | ⟨rfl, -⟩
    · exact hbefore i e he
    · exact absurd hi (lt_irrefl _)

/-- One that is not larger changes nothing; if it is the first, it is the zero that the search
starts from. -/
theorem IsFirstLargest.keep (h : best.IsFirstLargest ds) (hd : IsDistance d)
    (hle : d ≤ best.amount) : best.IsFirstLargest (ds ++ [d]) := by
  refine ⟨fun i e he => ?_, fun i e he hi => ?_, Or.inl ?_⟩
  · rcases getElem?_concat_cases he with he | ⟨-, rfl⟩
    · exact h.upper i e he
    · exact hle
  · rcases getElem?_concat_cases he with he | ⟨rfl, -⟩
    · exact h.first i e he hi
    · rcases h.attained with hat | ⟨-, rfl⟩
      · exact absurd (List.getElem?_eq_some_iff.mp hat).1 (not_lt.mpr hi.le)
      · exact absurd hi (Nat.not_lt_zero _)
  · rcases h.attained with hat | ⟨rfl, rfl⟩
    · rw [List.getElem?_append_left (List.getElem?_eq_some_iff.mp hat).1, hat]
    · have hmagnitude : magnitude d = magnitude 0 := by
        refine le_antisymm ((hd.le_iff isDistance_zero).mp hle) ?_
        rw [magnitude_zero]
        exact Nat.zero_le _
      rw [hd.ext isDistance_zero hmagnitude]
      rfl

/-- **One more deviation** leaves the first of the largest found. -/
theorem IsFirstLargest.larger (h : best.IsFirstLargest ds) (hds : ∀ d ∈ ds, IsDistance d)
    (hd : IsDistance d) : (best.larger ds.length d).IsFirstLargest (ds ++ [d]) := by
  unfold Deviation.larger
  split_ifs with hlt
  · exact h.replace hds hd hlt
  · have hbest := h.isDistance hds
    rw [hbest.lt_iff hd, not_lt] at hlt
    exact h.keep hd ((hd.le_iff hbest).mpr hlt)

end Deviation

theorem largestFrom_isFirstLargest {best : Deviation} (seen : List Float) {ds : List Float}
    (h : best.IsFirstLargest seen) (hseen : ∀ d ∈ seen, IsDistance d) (hds : ∀ d ∈ ds, IsDistance d) :
    (largestFrom seen.length best ds).IsFirstLargest (seen ++ ds) := by
  induction ds generalizing best seen with
  | nil => rwa [largestFrom, List.append_nil]
  | cons d ds ih =>
      obtain ⟨hd, hds⟩ := List.forall_mem_cons.mp hds
      have hnext : ∀ e ∈ seen ++ [d], IsDistance e := by
        intro e he
        rcases List.mem_append.mp he with he | he
        · exact hseen e he
        · rwa [List.mem_singleton.mp he]
      have hstep := ih _ (h.larger hseen hd) hnext hds
      rwa [List.length_append, List.length_singleton, List.append_assoc] at hstep

/-- **The largest deviation** of two signals, over the samples that both have.  No sample deviates
by more than the amount that is found, and none before the place that is found by as much; if there
are samples, the one at that place deviates by that amount.  Where there is no deviation above zero,
the first place and zero are found. -/
theorem largestDeviation_first (xs ys : List Float) :
    (∀ (i : Nat) (x y : Float), xs[i]? = some x → ys[i]? = some y →
      deviation x y ≤ (largestDeviation xs ys).amount ∧
      (i < (largestDeviation xs ys).index → deviation x y < (largestDeviation xs ys).amount)) ∧
    (xs ≠ [] → ys ≠ [] → ∃ x y, xs[(largestDeviation xs ys).index]? = some x ∧
      ys[(largestDeviation xs ys).index]? = some y ∧
      deviation x y = (largestDeviation xs ys).amount) ∧
    ((∀ (i : Nat) (x y : Float), xs[i]? = some x → ys[i]? = some y → deviation x y = 0) →
      largestDeviation xs ys = {}) := by
  have hds : ∀ d ∈ List.zipWith deviation xs ys, IsDistance d := by
    intro d hd
    obtain ⟨i, x, y, -, -, rfl⟩ := mem_zipWith_deviation_iff.mp hd
    exact isDistance_deviation x y
  have hfound : (largestDeviation xs ys).IsFirstLargest (List.zipWith deviation xs ys) :=
    largestFrom_isFirstLargest [] Deviation.isFirstLargest_nil (by simp) hds
  refine ⟨fun i x y hx hy => ?_, fun hxs hys => ?_, fun hzero => ?_⟩
  · have hentry : (List.zipWith deviation xs ys)[i]? = some (deviation x y) :=
      List.getElem?_zipWith_eq_some.mpr ⟨x, y, hx, hy, rfl⟩
    exact ⟨hfound.upper i _ hentry, hfound.first i _ hentry⟩
  · rcases hfound.attained with hat | ⟨hnil, -⟩
    · exact List.getElem?_zipWith_eq_some.mp hat
    · exact absurd (List.zipWith_eq_nil_iff.mp hnil) (by simp [hxs, hys])
  · refine largestFrom_of_zero fun d hd => ?_
    obtain ⟨i, x, y, hx, hy, rfl⟩ := mem_zipWith_deviation_iff.mp hd
    exact hzero i x y hx hy

example : largestDeviation [0, 1, 2, 3] [0, notANumber, infinity] = ⟨1, infinity⟩ := by
  decide +kernel

end FilterReference
