/-
# The up-sampled signal holds the samples

The grid has one point for each step between the first sample and the last, and one more at the last
sample only where its step was rounded down (`upsample_grid`).  Whatever the rounding of the points,
those whose number is a multiple of the factor are samples, so keeping them undoes up-sampling, up
to the last sample of an exact grid (`decimate_upsample`).
-/
import FilterReference.Proofs.Signal.Pipeline

namespace FilterReference

open Binary

variable {up : Nat}

theorem getElem?_of_sampleAt {x : Signal} {i : Nat} {y : Float}
    (h : sampleAt x.toArray i = .ok y) : x[i]? = some y := by
  unfold sampleAt at h
  rw [List.getElem?_toArray] at h
  cases hx : x[i]? with
  | none =>
      rw [hx] at h
      cases h
  | some s =>
      rw [hx] at h
      cases h
      rfl

theorem exists_upsample {x : Signal} (hup : 1 < up) (hlen : 2 ≤ x.length)
    (hsize : (x.length - 1) * up ≤ 2 ^ 50) :
    ∃ v, upsample x up = .ok v ∧ v.length = gridLength x.length up ∧
      ∀ k (hk : k < v.length), gridValue x.toArray up k = .ok v[k] := by
  have hfits := gridLength_fits hup hlen hsize
  exact upsample_eq_ok (by omega) (Or.inr ⟨hlen, hfits⟩)

/-- A grid point whose number is a multiple of the factor is a sample. -/
theorem getElem?_multiple {x v : Signal} (hup : 0 < up)
    (hvalues : ∀ k (hk : k < v.length), gridValue x.toArray up k = .ok v[k]) {i : Nat}
    (hi : i * up < v.length) : v[i * up]? = x[i]? := by
  have hvalue := hvalues (i * up) hi
  rw [gridValue_sample _ (Nat.mul_mod_left i up), Nat.mul_div_cancel i hup] at hvalue
  rw [getElem?_of_sampleAt hvalue, List.getElem?_eq_getElem hi]

/-- **The grid of the up-sampler.**  Its length is the rounded quotient of the length of the signal
and the rounded step, taken upwards.  That is the exact number of steps or one more, and one more
only where the step was rounded down; the further point is the last sample. -/
theorem upsample_grid {len up : Nat} (hlen : 2 ≤ len) (hup : 2 ≤ up)
    (hsize : (len - 1) * up ≤ 2 ^ 50) :
    (Nearest (gridStep up) (1 / up) ∧
      Nearest (ofCount (len - 1) / gridStep up) ((len - 1 : Nat) / number (gridStep up)) ∧
      gridLength len up = ⌈number (ofCount (len - 1) / gridStep up)⌉₊) ∧
    (gridLength len up = up * (len - 1) ∨ gridLength len up = up * (len - 1) + 1) ∧
    (1 / up ≤ number (gridStep up) → gridLength len up = up * (len - 1)) ∧
    ∀ x : Signal, x.length = len → ∃ v, upsample x up = .ok v ∧ v.length = gridLength len up ∧
      (v.length = up * (len - 1) + 1 → v.getLast? = x.getLast?) := by
  have hup₀ : 0 < up := by omega
  have hcount₀ : 0 < len - 1 := by omega
  have hup' : up ≤ 2 ^ 50 := le_trans (Nat.le_mul_of_pos_left up hcount₀) hsize
  have hcount : len - 1 ≤ 2 ^ 50 := le_trans (Nat.le_mul_of_pos_right (len - 1) hup₀) hsize
  obtain ⟨hlow, hhigh⟩ := gridLength_bounds hup₀ (by omega) (Or.inr hlen) hsize
  rw [Nat.mul_comm up]
  refine ⟨⟨nearest_gridStep hup₀ hup', nearest_gridEnd hup₀ hup' (by omega), ?_⟩, by omega, ?_, ?_⟩
  · obtain ⟨hfinite, hpositive, -⟩ := gridEnd_error hup₀ hcount₀ hsize
    have hlength := gridLength_of_one_lt (by omega : 1 < up) hlen
    rw [ceilCount_eq hfinite hpositive] at hlength
    have hmax : 2 ^ 50 + 1 < maxCount := by decide
    rw [number_of_positive hpositive]
    omega
  · exact gridLength_of_le_gridStep (by omega) hlen hsize
  · rintro x rfl
    obtain ⟨v, hv, hlength, hvalues⟩ := exists_upsample (by omega) hlen hsize
    refine ⟨v, hv, hlength, fun hlonger => ?_⟩
    have hlast := getElem?_multiple hup₀ hvalues (i := x.length - 1) (by omega)
    rw [List.getLast?_eq_getElem?, List.getLast?_eq_getElem?, ← hlast, hlonger,
      Nat.add_sub_cancel]

/-- Six samples up-sampled by 49: one point more than steps, and it is the last sample. -/
theorem upsample_grid_fortyNine :
    ∃ v, upsample [0.1, 0.7, -0.3, 0.9, 0.2, -0.8] 49 = .ok v ∧ v.length = 49 * 5 + 1 ∧
      v.getLast? = some (-0.8) := by
  obtain ⟨-, -, -, hsignals⟩ :=
    upsample_grid (by decide : 2 ≤ 6) (by decide : 2 ≤ 49) (by decide)
  obtain ⟨v, hv, hlength, hlast⟩ := hsignals [0.1, 0.7, -0.3, 0.9, 0.2, -0.8] rfl
  have hlonger : gridLength 6 49 = 49 * 5 + 1 := by decide +kernel
  rw [hlonger] at hlength
  exact ⟨v, hv, hlength, hlast hlength⟩

/-- **Keeping every `up`-th point of the up-sampled signal gives the samples back**: all of them
where the grid has a point more than steps, and all but the last on an exact grid.  Every sample but
the last stands at its multiple of the factor. -/
theorem decimate_upsample {x : Signal} {up : Nat} (hlen : 2 ≤ x.length) (hup : 2 ≤ up)
    (hsize : (x.length - 1) * up ≤ 2 ^ 50) :
    ∃ v, upsample x up = .ok v ∧
      decimate up v =
        .ok (if gridLength x.length up = up * (x.length - 1) then x.dropLast else x) ∧
      ∀ i, i + 2 ≤ x.length → v[i * up]? = x[i]? := by
  have hup₀ : 0 < up := by omega
  obtain ⟨v, hv, hlength, hvalues⟩ := exists_upsample (by omega) hlen hsize
  obtain ⟨hlow, hhigh⟩ := gridLength_bounds hup₀ (by omega) (Or.inr hlen) hsize
  have hreach : ∀ i, i + 2 ≤ x.length → i * up < v.length := by
    intro i hi
    have : (i + 1) * up ≤ (x.length - 1) * up := Nat.mul_le_mul_right up (by omega)
    rw [Nat.add_mul] at this
    omega
  have hkept : everyFrom up 0 v =
      if gridLength x.length up = up * (x.length - 1) then x.dropLast else x := by
    refine List.ext_getElem? fun k => ?_
    rw [everyFrom_getElem? hup₀, Nat.zero_add]
    rw [Nat.mul_comm up]
    rcases Nat.lt_or_ge (k * up) v.length with hlt | hge
    · rw [getElem?_multiple hup₀ hvalues hlt]
      split_ifs with hexact
      · have hk : k < x.length - 1 := Nat.lt_of_mul_lt_mul_right (a := up) (by omega)
        rw [List.getElem?_dropLast, if_pos hk]
      · rfl
    · rw [List.getElem?_eq_none hge]
      split_ifs with hexact
      · have hk : x.length - 1 ≤ k := Nat.le_of_mul_le_mul_right (by omega) hup₀
        rw [List.getElem?_dropLast, if_neg (by omega)]
      · have hk : x.length - 1 < k := Nat.lt_of_mul_lt_mul_right (a := up) (by omega)
        rw [List.getElem?_eq_none (by omega)]
  refine ⟨v, hv, ?_, fun i hi => getElem?_multiple hup₀ hvalues (hreach i hi)⟩
  rw [decimate, if_neg (by omega), hkept]

/-- Samples that are no numbers are given back as well, and so is the sign of a zero at the end. -/
theorem decimate_upsample_special :
    ∃ v, upsample [notANumber, infinity, -0.0] 49 = .ok v ∧
      decimate 49 v = .ok [notANumber, infinity, -0.0] := by
  obtain ⟨v, hv, hkept, -⟩ := decimate_upsample
    (x := [notANumber, infinity, -0.0]) (by decide) (by decide : 2 ≤ 49) (by decide)
  have hlonger : gridLength 3 49 ≠ 49 * 2 := by decide +kernel
  exact ⟨v, hv, hkept.trans (congrArg _ (if_neg hlonger))⟩

end FilterReference
