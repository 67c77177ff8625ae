/-
# What the checks of factors, coefficients and designs let through

Positive factors are accepted.  A pair of coefficient lists is accepted when it has no fault, and
refused with its first one; when the denominator is sound, that is the first coefficient of the
numerator that is not finite (`filterFault?_of_denominator`).  A design is refused if it has no taps
or its cutoff is not between zero and one (`Lowpass.design_eq`).
-/
import FilterReference.Signal.Filter
import FilterReference.Signal.Lowpass
import Mathlib.Tactic

namespace FilterReference

open Binary

theorem Factors.make_eq_ok {down up : Nat} (hdown : 0 < down) (hup : 0 < up) :
    Factors.make down up = .ok ⟨down, up, hdown, hup⟩ := dif_pos ⟨hdown, hup⟩

theorem Factors.pos_of_make {down up : Nat} {factors : Factors}
    (h : Factors.make down up = .ok factors) : 0 < down ∧ 0 < up := by
  unfold Factors.make at h
  split_ifs at h with hpos
  exact hpos

theorem firstNonFinite?_eq_none_iff {xs : List Float} :
    firstNonFinite? xs = none ↔ ∀ x ∈ xs, isFinite x = true := by
  simp [firstNonFinite?]

theorem firstNonFinite?_eq_some_iff {xs : List Float} {i : Nat} :
    firstNonFinite? xs = some i ↔
      ∃ h : i < xs.length, isFinite xs[i] = false ∧ ∀ x ∈ xs.take i, isFinite x = true := by
  rw [firstNonFinite?, List.findIdx?_eq_some_iff_getElem]
  refine exists_congr fun h => and_congr (by simp) ?_
  constructor
  · intro hbefore x hx
    obtain ⟨j, hj, rfl⟩ := List.mem_take_iff_getElem.mp hx
    simpa using hbefore j (by omega)
  · intro hbefore j hj
    simpa using hbefore xs[j] (List.mem_take_iff_getElem.mpr ⟨j, by omega, rfl⟩)

theorem filterFault?_eq_none_iff {denominator numerator : List Float} :
    filterFault? denominator numerator = none ↔
      (∃ lead feedback, denominator = lead :: feedback ∧ (lead == 0) = false) ∧ numerator ≠ [] ∧
        (∀ c ∈ denominator, isFinite c = true) ∧ ∀ c ∈ numerator, isFinite c = true := by
  cases denominator with
  | nil => simp [filterFault?]
  | cons lead feedback =>
      have hlead : (∃ lead' feedback', lead :: feedback = lead' :: feedback' ∧ (lead' == 0) = false) ↔
          (lead == 0) = false := by simp
      rw [hlead, ← firstNonFinite?_eq_none_iff, ← firstNonFinite?_eq_none_iff]
      unfold filterFault?
      cases numerator with
      | nil => simp
      | cons c cs =>
          cases hzero : lead == 0 with
          | true => simp [hzero]
          | false => cases firstNonFinite? (lead :: feedback) <;> simp [hzero]

theorem Filter.make_eq_ok {denominator numerator : List Float}
    (h : filterFault? denominator numerator = none) :
    Filter.make denominator numerator = .ok ⟨denominator, numerator, h⟩ := by
  unfold Filter.make
  split
  · rename_i hfault
    rw [h] at hfault
    cases hfault
  · rfl

theorem Filter.make_eq_error {denominator numerator : List Float} {fault : FilterFault}
    (h : filterFault? denominator numerator = some fault) :
    Filter.make denominator numerator = .error (.invalidFilter fault) := by
  unfold Filter.make
  split
  · rename_i hfault
    rw [h] at hfault
    cases hfault
    rfl
  · rename_i hfault
    rw [h] at hfault
    cases hfault

theorem Filter.exists_make_iff {denominator numerator : List Float} :
    (∃ filter, Filter.make denominator numerator = .ok filter) ↔
      filterFault? denominator numerator = none := by
  constructor
  · rintro ⟨filter, h⟩
    cases hfault : filterFault? denominator numerator with
    | none => rfl
    | some fault =>
        rw [Filter.make_eq_error hfault] at h
        cases h
  · intro h
    exact ⟨_, Filter.make_eq_ok h⟩

theorem Filter.coefficients_of_make {denominator numerator : List Float} {filter : Filter}
    (h : Filter.make denominator numerator = .ok filter) :
    (∃ lead feedback, denominator = lead :: feedback ∧ (lead == 0) = false) ∧ numerator ≠ [] := by
  cases hfault : filterFault? denominator numerator with
  | some fault =>
      rw [Filter.make_eq_error hfault] at h
      cases h
  | none =>
      obtain ⟨hlead, hnumerator, -⟩ := filterFault?_eq_none_iff.mp hfault
      exact ⟨hlead, hnumerator⟩

/-- With a sound denominator only the numerator can have a coefficient that is not finite. -/
theorem filterFault?_of_denominator {lead : Float} {feedback numerator : List Float}
    (hlead : (lead == 0) = false) (hfinite : firstNonFinite? (lead :: feedback) = none)
    (hnumerator : numerator.isEmpty = false) :
    filterFault? (lead :: feedback) numerator =
      (firstNonFinite? numerator).map (.nonFinite .numerator) := by
  simp only [filterFault?, hnumerator, hlead, hfinite, Bool.false_eq_true, if_false]

theorem Filter.exists_fir_iff {taps : List Float} (h : taps ≠ []) :
    (∃ filter, Filter.fir taps = .ok filter) ↔ ∀ tap ∈ taps, isFinite tap = true := by
  have hone : (∃ lead feedback, [(1 : Float)] = lead :: feedback ∧ (lead == 0) = false) ∧
      ∀ x ∈ [(1 : Float)], isFinite x = true := ⟨⟨1, [], rfl, rfl⟩, by decide⟩
  rw [Filter.fir, Filter.exists_make_iff, filterFault?_eq_none_iff]
  tauto

theorem Lowpass.design_eq [Trigonometry] {count : Nat} (hcount : count ≠ 0) (cutoff : Float) :
    Lowpass.design count cutoff =
      if 0 < cutoff ∧ cutoff < 1 then
        if maxNumbers < count then .error .tooManyNumbers
        else .ok (Lowpass.taps Lowpass.floatCircular cutoff count)
      else .error (.invalidDesign (.cutoffOutOfRange cutoff)) := by
  rw [Lowpass.design, Lowpass.designFault?, if_neg hcount]
  by_cases hrange : 0 < cutoff ∧ cutoff < 1
  · rw [if_pos hrange, if_pos hrange]
  · rw [if_neg hrange, if_neg hrange]

theorem Lowpass.length_taps [Trigonometry] (count : Nat) (cutoff : Float) :
    (Lowpass.taps Lowpass.floatCircular cutoff count).length = count := by
  rw [Lowpass.taps, List.length_map, Lowpass.response, List.length_map, List.length_range]

theorem Lowpass.taps_isEmpty [Trigonometry] {count : Nat} (hcount : count ≠ 0) (cutoff : Float) :
    (Lowpass.taps Lowpass.floatCircular cutoff count).isEmpty = false := by
  rw [List.isEmpty_eq_false_iff, ← List.length_pos_iff, Lowpass.length_taps]
  exact Nat.pos_of_ne_zero hcount

end FilterReference
