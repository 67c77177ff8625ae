/-
# Up-sampling

What `upsample` answers, for every signal and every factor: the values at all grid points
(`upsample_eq_ok`), or the reason why there are none.  A longer signal has the same values at the
grid points of a shorter one (`gridValue_append`), since a point between two samples never reaches
for samples past them.
-/
import FilterReference.Proofs.Traversal
import FilterReference.Proofs.Signal.Grid

namespace FilterReference

open Binary

variable {up k : Nat}

theorem sampleAt_of_lt (samples : Array Float) {i : Nat} (h : i < samples.size) :
    sampleAt samples i = .ok samples[i] := by
  rw [sampleAt, Array.getElem?_eq_getElem h]

theorem sampleAt_of_le (samples : Array Float) {i : Nat} (h : samples.size ≤ i) :
    sampleAt samples i = .error (.missingSample i samples.size) := by
  rw [sampleAt, Array.getElem?_eq_none h]

theorem gridValue_sample (samples : Array Float) (h : k % up = 0) :
    gridValue samples up k = sampleAt samples (k / up) := by
  rw [gridValue, if_pos h]

theorem gridValue_between (samples : Array Float) {i : Nat} (h : k % up ≠ 0)
    (hi : segmentOf samples.size (gridPosition up k) = i) (hlt : i + 1 < samples.size) :
    gridValue samples up k =
      .ok (between samples[i] samples[i + 1] (gridPosition up k - ofCount i)) := by
  have hleft := sampleAt_of_lt samples (i := i) (by omega)
  have hright := sampleAt_of_lt samples hlt
  subst hi
  rw [gridValue, if_neg h]
  simp only [hleft, hright, bind, Except.bind, pure, Except.pure]

theorem segmentOf_lt {len : Nat} (hlen : 2 ≤ len) (position : Float) :
    segmentOf len position + 1 < len := by
  unfold segmentOf
  omega

theorem gridValue_isOk {samples : Array Float} (hup : 0 < up) (hlen : up = 1 ∨ 2 ≤ samples.size)
    (hk : k < samples.size * up) : ∃ y, gridValue samples up k = .ok y := by
  by_cases h : k % up = 0
  · rw [gridValue_sample samples h]
    exact ⟨_, sampleAt_of_lt samples ((Nat.div_lt_iff_lt_mul hup).mpr hk)⟩
  · have hne : up ≠ 1 := by
      rintro rfl
      exact h (Nat.mod_one k)
    exact ⟨_, gridValue_between samples h rfl (segmentOf_lt (hlen.resolve_left hne) _)⟩

theorem gridValue_past (samples : Array Float) (hup : 0 < up) :
    gridValue samples up (samples.size * up) =
      .error (.missingSample samples.size samples.size) := by
  rw [gridValue_sample samples (Nat.mul_mod_left _ _), Nat.mul_div_cancel _ hup]
  exact sampleAt_of_le samples (le_refl _)

/-! ## Whole signals

A grid that is longer than it should be asks for the sample behind the last.  No point before that
one fails, so it is known which error comes of it. -/

theorem upsample_one (x : Signal) : upsample x 1 = .ok x := by
  rw [upsample, if_neg Nat.one_ne_zero, if_pos rfl]

theorem upsample_of_one_lt (x : Signal) (hup : 1 < up) :
    upsample x up =
      if x.length < 2 then .error (.insufficientSamples x.length up)
      else if maxNumbers < gridLength x.length up then .error .tooManyNumbers
      else (List.range (gridLength x.length up)).mapM (gridValue x.toArray up) := by
  rw [upsample, if_neg (by omega), if_neg (by omega)]

theorem upsample_of_short {x : Signal} (hup : 1 < up) (h : x.length < 2) :
    upsample x up = .error (.insufficientSamples x.length up) := by
  rw [upsample_of_one_lt x hup, if_pos h]

theorem upsample_of_tooMany {x : Signal} (hup : 1 < up) (hlen : 2 ≤ x.length)
    (h : maxNumbers < gridLength x.length up) : upsample x up = .error .tooManyNumbers := by
  rw [upsample_of_one_lt x hup, if_neg (by omega), if_pos h]

/-- A grid that leads on to where the next sample would be asks for that sample. -/
theorem upsample_of_missing {x : Signal} (hup : 1 < up) (hlen : 2 ≤ x.length)
    (hmax : gridLength x.length up ≤ maxNumbers) (h : x.length * up < gridLength x.length up) :
    upsample x up = .error (.missingSample x.length x.length) := by
  rw [upsample_of_one_lt x hup, if_neg (by omega), if_neg (by omega)]
  exact mapM_range_eq_error h
    (fun j hj => gridValue_isOk (by omega) (Or.inr hlen) hj) (gridValue_past x.toArray (by omega))

/-- **The up-sampled signal** has a value for each grid point, that of the point. -/
theorem upsample_eq_ok {x : Signal} (hup : 0 < up)
    (h : up = 1 ∨ 2 ≤ x.length ∧ gridLength x.length up ≤ maxNumbers ∧
      gridLength x.length up ≤ x.length * up) :
    ∃ v, upsample x up = .ok v ∧ v.length = gridLength x.length up ∧
      ∀ k (hk : k < v.length), gridValue x.toArray up k = .ok v[k] := by
  rcases Nat.lt_or_ge 1 up with hlt | hle
  · obtain ⟨hlen, hmax, hcover⟩ := h.resolve_left (by omega)
    rw [upsample_of_one_lt x hlt, if_neg (by omega), if_neg (by omega)]
    exact mapM_range_eq_ok fun k hk => gridValue_isOk hup (Or.inr hlen) (hk.trans_le hcover)
  · obtain rfl : up = 1 := by omega
    refine ⟨x, upsample_one x, by rw [gridLength, if_pos (Or.inl (le_refl 1))], fun k hk => ?_⟩
    rw [gridValue_sample _ (Nat.mod_one k), Nat.div_one]
    exact sampleAt_of_lt x.toArray hk

/-- A grid of at most `2 ^ 50` steps can be held, and has no point past the last sample. -/
theorem gridLength_fits {len : Nat} (hup : 1 < up) (hlen : 2 ≤ len)
    (h : (len - 1) * up ≤ 2 ^ 50) :
    gridLength len up ≤ maxNumbers ∧ gridLength len up ≤ len * up := by
  obtain ⟨-, hle⟩ := gridLength_bounds (by omega : 0 < up) (by omega) (Or.inr hlen) h
  have hmax : 2 ^ 50 + 1 ≤ maxNumbers := by decide
  obtain ⟨n, rfl⟩ : ∃ n, len = n + 1 := ⟨len - 1, by omega⟩
  rw [Nat.add_sub_cancel] at h hle
  rw [Nat.succ_mul]
  omega

/-! ## Longer signals

The segment is held within the signal, so it could differ for a longer one.  It does not, because
between two samples of the shorter one there is nothing to hold back. -/

theorem sampleAt_append {x : Signal} (t : Signal) {i : Nat} (h : i < x.length) :
    sampleAt (x ++ t).toArray i = sampleAt x.toArray i := by
  rw [sampleAt, sampleAt, List.getElem?_toArray, List.getElem?_toArray,
    List.getElem?_append_left h, List.getElem?_eq_getElem h]

/-- The left neighbour of a point between two samples depends on the point alone. -/
theorem segmentOf_gridPosition {len len' : Nat} (hmod : k % up ≠ 0) (hk : k ≤ (len - 1) * up)
    (hsize : (len - 1) * up ≤ 2 ^ 50) (hle : len ≤ len') :
    k / up + 1 < len ∧ segmentOf len' (gridPosition up k) = k / up := by
  have hpos : 0 < k := Nat.pos_of_ne_zero (fun h => hmod (by rw [h, Nat.zero_mod]))
  have hup : 0 < up := Nat.pos_of_mul_pos_left (hpos.trans_le hk)
  have hsteps : up ≤ (len - 1) * up :=
    Nat.le_mul_of_pos_left up (Nat.pos_of_mul_pos_right (hpos.trans_le hk))
  have hlt : k < (len - 1) * up :=
    lt_of_le_of_ne hk (fun h => hmod (by rw [h, Nat.mul_mod_left]))
  have hquotient : k / up < len - 1 := (Nat.div_lt_iff_lt_mul hup).mpr hlt
  have hfloor := floorCount_gridPosition hup (hsteps.trans hsize) (hk.trans hsize) hmod
  rw [segmentOf, hfloor]
  omega

/-- A point up to the last sample has its value whatever samples follow. -/
theorem gridValue_append {x : Signal} (t : Signal) (hlen : 0 < x.length)
    (hk : k ≤ (x.length - 1) * up) (hsize : (x.length - 1) * up ≤ 2 ^ 50) :
    gridValue (x ++ t).toArray up k = gridValue x.toArray up k := by
  by_cases hmod : k % up = 0
  · have hquotient : k / up < x.length := by
      have := Nat.div_le_of_le_mul (hk.trans_eq (Nat.mul_comm _ _))
      omega
    rw [gridValue_sample _ hmod, gridValue_sample _ hmod, sampleAt_append t hquotient]
  · -- The segment is clipped at the end of the signal, which here it never reaches.
    obtain ⟨hlt, hsegment⟩ := segmentOf_gridPosition hmod hk hsize (le_refl x.length)
    obtain ⟨-, hsegment'⟩ := segmentOf_gridPosition hmod hk hsize
      (by rw [List.length_append]; omega : x.length ≤ (x ++ t).length)
    have hlt' : k / up + 1 < (x ++ t).length := by
      rw [List.length_append]
      omega
    rw [gridValue_between x.toArray hmod hsegment hlt,
      gridValue_between (x ++ t).toArray hmod hsegment' hlt']
    simp only [List.getElem_toArray]
    rw [List.getElem_append_left hlt, List.getElem_append_left (by omega)]

/-- **Up-sampling keeps prefixes.** -/
theorem upsample_append {x t v : Signal} (hup : 0 < up)
    (hsize : ((x ++ t).length - 1) * up ≤ 2 ^ 50) (hv : upsample x up = .ok v) :
    ∃ v', upsample (x ++ t) up = .ok v' ∧ v <+: v' := by
  rcases Nat.lt_or_ge 1 up with hlt | hle
  · have hlen : 2 ≤ x.length := by
      by_contra hshort
      rw [upsample_of_short hlt (by omega)] at hv
      cases hv
    have hlonger : x.length ≤ (x ++ t).length := by
      rw [List.length_append]
      omega
    have hsize' : (x.length - 1) * up ≤ 2 ^ 50 :=
      le_trans (Nat.mul_le_mul_right up (by omega)) hsize
    have hgrid := gridLength_fits hlt hlen hsize'
    have hgrid' := gridLength_fits hlt (hlen.trans hlonger) hsize
    obtain ⟨w, hw, hwlen, hwget⟩ := upsample_eq_ok hup (Or.inr ⟨hlen, hgrid⟩)
    obtain ⟨v', hv', hlen', hget'⟩ := upsample_eq_ok hup (Or.inr ⟨hlen.trans hlonger, hgrid'⟩)
    rw [hv] at hw
    cases hw
    have hmono : v.length ≤ v'.length := by
      rw [hwlen, hlen']
      exact gridLength_mono hup (by omega) (Or.inr hlen) hlonger hsize
    refine ⟨v', hv', List.prefix_iff_getElem?.mpr fun k hk => ?_⟩
    have hbound := (gridLength_bounds hup (by omega) (Or.inr hlen) hsize').2
    have hvalue := hget' k (by omega)
    rw [gridValue_append t (by omega) (by omega) hsize', hwget k hk] at hvalue
    rw [List.getElem?_eq_getElem (by omega), Except.ok.inj hvalue]
  · obtain rfl : up = 1 := by omega
    rw [upsample_one] at hv
    cases hv
    exact ⟨x ++ t, upsample_one _, List.prefix_append x t⟩

end FilterReference
