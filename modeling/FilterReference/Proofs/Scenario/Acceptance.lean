/-
# Validation accepts what can be constructed

A scenario that spells out its numerator is checked twice: validation collects all that is wrong
with it, and construction of its factors and its filter stops at the first fault.  The two let the
same scenarios through (`Scenario.validate_explicit_iff`), so such a scenario is resolved exactly if
it is valid, and what is wrong with it is always found by validation (`Scenario.resolve_explicit`).
-/
import FilterReference.Proofs.Scenario.Placement

namespace FilterReference

open Binary

theorem isValidName_iff {name : String} : isValidName name = true ↔ Path.IsPlainName name := by
  simp only [isValidName, Bool.and_eq_true, bne_iff_ne, Bool.not_eq_true', List.any_eq_false,
    Bool.or_eq_true, beq_iff_eq, not_or, Bool.not_eq_true]
  constructor
  · rintro ⟨⟨⟨hempty, hdot⟩, hdots⟩, hchars⟩
    exact ⟨⟨hempty, hdot, hdots, fun h => (hchars _ h).1.1 rfl⟩, fun h => (hchars _ h).1.2 rfl,
      fun c hc => (hchars c hc).2⟩
  · rintro ⟨⟨hempty, hdot, hdots, hslash⟩, hbackslash, hcontrol⟩
    refine ⟨⟨⟨hempty, hdot⟩, hdots⟩, fun c hc => ⟨⟨?_, ?_⟩, hcontrol c hc⟩⟩
    · rintro rfl
      exact hslash hc
    · rintro rfl
      exact hbackslash hc

theorem Factors.exists_make_iff {down up : Nat} :
    (∃ factors, Factors.make down up = .ok factors) ↔ 0 < down ∧ 0 < up := by
  constructor
  · rintro ⟨factors, h⟩
    exact Factors.pos_of_make h
  · rintro ⟨hdown, hup⟩
    exact ⟨_, Factors.make_eq_ok hdown hup⟩

namespace Scenario

variable {c : Scenario}

/-! ## What validation lets through

The lists of faults are collected without an end, and construction takes the first fault there is.
Both are empty under the same conditions, list by list, and these conditions are all that is
compared. -/

theorem factorFaults_eq_nil_iff : c.factorFaults = [] ↔ 0 < c.down ∧ 0 < c.up := by
  rw [factorFaults, List.append_eq_nil_iff, Nat.pos_iff_ne_zero, Nat.pos_iff_ne_zero]
  refine and_congr ?_ ?_
  · split_ifs with h <;> simp [h]
  · split_ifs with h <;> simp [h]

theorem denominatorFaults_eq_nil_iff : c.denominatorFaults = [] ↔
    (∃ lead feedback, c.denominator = lead :: feedback ∧ (lead == 0) = false) ∧
      ∀ x ∈ c.denominator, isFinite x = true := by
  constructor
  · intro h
    obtain ⟨lead, feedback, hlist, hlead, hfinite⟩ := denominator_of_valid h
    exact ⟨⟨lead, feedback, hlist, hlead⟩, firstNonFinite?_eq_none_iff.mp hfinite⟩
  · rintro ⟨⟨lead, feedback, hlist, hlead⟩, hfinite⟩
    have hany : c.denominator.any (!isFinite ·) = false :=
      List.any_eq_false.mpr fun x hx => by rw [hfinite x hx]; exact Bool.false_ne_true
    rw [denominatorFaults, hany, hlist]
    simp only [hlead, Bool.false_eq_true, if_false, List.append_nil]

theorem coefficientFaults_eq_nil_iff {numerator : List Float} :
    coefficientFaults numerator = [] ↔ numerator ≠ [] ∧ ∀ x ∈ numerator, isFinite x = true := by
  cases numerator with
  | nil => simp [coefficientFaults]
  | cons x xs =>
      by_cases hany : (x :: xs).any (!isFinite ·) = true
      · obtain ⟨y, hy, hnot⟩ := List.any_eq_true.mp hany
        refine iff_of_false (fun h => ?_) fun h => ?_
        · rw [coefficientFaults, if_neg (by simp), if_pos hany] at h
          cases h
        · rw [h.2 y hy] at hnot
          cases hnot
      · have hall : ∀ y ∈ x :: xs, isFinite y = true := by simpa using hany
        refine iff_of_true ?_ ⟨List.cons_ne_nil _ _, hall⟩
        rw [coefficientFaults, if_neg (by simp), if_neg hany]

theorem violations_eq_nil_iff : c.violations = [] ↔
    isValidName c.name = true ∧ c.factorFaults = [] ∧ c.denominatorFaults = [] ∧
      c.numeratorFaults = [] := by
  rw [violations, List.append_eq_nil_iff, List.map_eq_nil_iff, List.append_eq_nil_iff,
    List.append_eq_nil_iff, and_assoc]
  refine and_congr_left fun _ => ?_
  split_ifs with h <;> simp [h]

section Explicit

variable {numerator : List Float}

/-- The coefficients of a scenario have nothing wrong with them exactly if they make a filter. -/
theorem coefficients_faultless_iff (hn : c.numerator = some numerator) (hd : c.design = none) :
    c.denominatorFaults = [] ∧ c.numeratorFaults = [] ↔
    filterFault? c.denominator numerator = none := by
  have hnumerator : c.numeratorFaults = coefficientFaults numerator := by
    rw [numeratorFaults, hn, hd]
  rw [hnumerator, denominatorFaults_eq_nil_iff, coefficientFaults_eq_nil_iff,
    filterFault?_eq_none_iff]
  tauto

/-- **Validation and construction** accept the same scenarios. -/
theorem validate_explicit_iff (hn : c.numerator = some numerator) (hd : c.design = none) :
    c.validate = .ok () ↔
    Path.IsPlainName c.name ∧ (∃ factors, Factors.make c.down c.up = .ok factors) ∧
      ∃ filter, Filter.make c.denominator numerator = .ok filter := by
  rw [validate, Violations.check_eq_ok_iff, violations_eq_nil_iff, isValidName_iff,
    factorFaults_eq_nil_iff, coefficients_faultless_iff hn hd, Factors.exists_make_iff,
    Filter.exists_make_iff]

end Explicit

section Resolution

variable [Trigonometry] (directory : String)

theorem exists_resolve_of_valid (hd : c.design = none) (h : c.validate = .ok ()) :
    ∃ job, c.resolve directory = .ok job ∧ c.Yields directory job := by
  have hlatent : c.latentFault? = none := by rw [latentFault?, hd]
  have hresolve := resolveWarned_of_valid directory (Violations.check_eq_ok_iff.mp h)
  rw [hlatent] at hresolve
  obtain ⟨job, warnings, hjob, hyields⟩ := hresolve
  exact ⟨job, by rw [resolve, hjob]; rfl, hyields⟩

theorem resolve_of_invalid {violations : Violations} (h : c.validate = .error violations) :
    c.resolve directory = .error (.invalid violations) := by
  rw [resolve, resolveWarned, h]
  rfl

/-- **A scenario with a numerator of its own** is valid exactly if its name is a plain file name,
its factors are accepted and its coefficients make a filter; exactly then it is resolved, and
otherwise the error says what validation found. -/
theorem resolve_explicit {numerator : List Float} (hn : c.numerator = some numerator)
    (hd : c.design = none) :
    (c.validate = .ok () ↔
      Path.IsPlainName c.name ∧ (∃ factors, Factors.make c.down c.up = .ok factors) ∧
        ∃ filter, Filter.make c.denominator numerator = .ok filter) ∧
    ((∃ job, c.resolve directory = .ok job) ↔
      Path.IsPlainName c.name ∧ (∃ factors, Factors.make c.down c.up = .ok factors) ∧
        ∃ filter, Filter.make c.denominator numerator = .ok filter) ∧
    (∀ job, c.resolve directory = .ok job → c.Yields directory job) ∧
    ∀ e, c.resolve directory = .error e →
      ∃ violations, e = .invalid violations ∧ c.validate = .error violations := by
  have hvalid := validate_explicit_iff hn hd
  refine ⟨hvalid, ?_⟩
  rw [← hvalid]
  cases hvalidate : c.validate with
  | error violations =>
      rw [resolve_of_invalid directory hvalidate]
      refine ⟨⟨?_, ?_⟩, ?_, ?_⟩
      · rintro ⟨_, ⟨⟩⟩
      · rintro ⟨⟩
      · rintro _ ⟨⟩
      · rintro _ ⟨⟩
        exact ⟨violations, rfl, rfl⟩
  | ok valid =>
      obtain ⟨job, hjob, hyields⟩ := exists_resolve_of_valid directory hd hvalidate
      rw [hjob]
      refine ⟨⟨fun _ => rfl, fun _ => ⟨job, rfl⟩⟩, ?_, ?_⟩
      · rintro _ ⟨⟩
        exact hyields
      · rintro _ ⟨⟩

end Resolution

/-- A filter with feedback at every other sample: it is resolved with a negative number in front of
its denominator, and refused with the zero that has a sign there. -/
theorem resolve_explicit_signedZero :
    let accepted : Scenario :=
      { name := "echo", down := 2, denominator := [-1, 0.5], numerator := some [1, 3] }
    let refused : Scenario := { accepted with denominator := [-0, 0.5] }
    (∃ job, accepted.resolve "out" = .ok job ∧ job.factors.down = 2 ∧
      job.filter.denominator = [-1, 0.5] ∧ job.filter.numerator = [1, 3] ∧
      job.output = "out/echo.json") ∧
    refused.resolve "out" =
      .error (.invalid (.one (.invalidScenario "echo" .zeroNormalization))) := by
  intro accepted refused
  constructor
  · obtain ⟨hvalid, hresolve, hyields, -⟩ := resolve_explicit "out" (c := accepted) rfl rfl
    have haccepted : accepted.validate = .ok () := by decide +kernel
    obtain ⟨job, hjob⟩ := hresolve.mpr (hvalid.mp haccepted)
    have hjob' := hyields job hjob
    have houtput : Path.join "out" accepted.fileName = "out/echo.json" := by decide +kernel
    exact ⟨job, hjob, hjob'.down, hjob'.denominator, hjob'.numerator, hjob'.output.trans houtput⟩
  · obtain ⟨-, hresolve, -, herror⟩ := resolve_explicit "out" (c := refused) rfl rfl
    have hrefused : refused.validate =
        .error (.one (.invalidScenario "echo" .zeroNormalization)) := by decide +kernel
    have hfault : filterFault? [-0, 0.5] [1, 3] = some .zeroNormalization := by decide +kernel
    cases hresult : refused.resolve "out" with
    | ok job =>
        obtain ⟨-, -, hfilter⟩ := hresolve.mp ⟨job, hresult⟩
        rw [Filter.exists_make_iff] at hfilter
        exact absurd (hfault.symm.trans hfilter) (by decide)
    | error e =>
        obtain ⟨violations, rfl, hviolations⟩ := herror e hresult
        rw [hrefused] at hviolations
        cases hviolations
        rfl

end Scenario

end FilterReference
