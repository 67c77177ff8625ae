/-
# Scenarios are resolved one by one

A manifest is resolved exactly if it has scenarios, no two of one name, and each of them is resolved
by itself; its jobs are those of its scenarios, in order (`Manifest.resolve_eq_ok_iff`).  What a
scenario is turned into does not depend on the directory but for the file it writes to
(`Scenario.Yields.sameRun`).
-/
import FilterReference.Proofs.Scenario.Outputs

namespace FilterReference

/-- Nothing is wrong with scenarios that are valid, of different names, and of none that was seen.
-/
theorem violationsAfter_eq_nil_iff {seen : List String} {cs : List Scenario} :
    violationsAfter seen cs = [] ↔
      (∀ c ∈ cs, c.violations = []) ∧ (∀ c ∈ cs, c.name ∉ seen) ∧ (cs.map (·.name)).Nodup := by
  constructor
  · intro h
    exact ⟨violations_of_violationsAfter h, nodup_of_violationsAfter h⟩
  · rintro ⟨hvalid, hnew, hnodup⟩
    induction cs generalizing seen with
    | nil => rfl
    | cons c cs ih =>
        obtain ⟨hc, hcs⟩ := List.forall_mem_cons.mp hvalid
        obtain ⟨hseen, hnew⟩ := List.forall_mem_cons.mp hnew
        obtain ⟨hfirst, hnodup⟩ := List.nodup_cons.mp hnodup
        have hrest : violationsAfter (c.name :: seen) cs = [] := by
          refine ih hcs (fun d hd hmem => ?_) hnodup
          rcases List.mem_cons.mp hmem with heq | hmem
          · exact hfirst (List.mem_map.mpr ⟨d, hd, heq⟩)
          · exact hnew d hd hmem
        rw [violationsAfter, hc, hrest, if_neg (by simpa using hseen)]
        rfl

theorem Manifest.validate_eq_ok_iff {m : Manifest} :
    m.validate = .ok () ↔
      m.scenarios ≠ [] ∧ (m.scenarios.map (·.name)).Nodup ∧ ∀ c ∈ m.scenarios, c.violations = [] := by
  constructor
  · intro h
    obtain ⟨hsome, hnodup⟩ := Manifest.names_of_validate h
    exact ⟨hsome, hnodup, violations_of_validate h⟩
  · rintro ⟨hsome, hnodup, hvalid⟩
    have hviolations : violationsAfter [] m.scenarios = [] :=
      violationsAfter_eq_nil_iff.mpr ⟨hvalid, fun _ _ => List.not_mem_nil, hnodup⟩
    rw [validate, validateAll, List.isEmpty_eq_false_iff.mpr hsome, hviolations]
    rfl

/-! ## Single scenarios

Resolving a scenario in another directory gives another job, but one that runs the same.  That the
names of the files differ is all that `Job.SameRun` leaves out. -/

/-- Two jobs run alike: they have the same factors, filter and flag. -/
structure Job.SameRun (j k : Job) : Prop where
  factors : j.factors = k.factors
  filter : j.filter = k.filter
  isFir : j.isFir = k.isFir

theorem Job.SameRun.build_eq {j k : Job} (h : j.SameRun k) (signal : Signal) :
    j.build signal = k.build signal := by
  rw [Job.build, Job.build, h.factors, h.filter, h.isFir]

section

variable [Trigonometry] {directory : String}

theorem Scenario.yields_of_resolve {c : Scenario} {j : Job} (h : c.resolve directory = .ok j) :
    c.violations = [] ∧ c.Yields directory j := by
  unfold resolve at h
  cases hwarned : c.resolveWarned directory with
  | error e =>
      rw [hwarned] at h
      cases h
  | ok made =>
      rw [hwarned] at h
      cases h
      have hvalid : c.violations = [] := by
        unfold resolveWarned at hwarned
        split at hwarned
        · cases hwarned
        · exact Violations.check_eq_ok_iff.mp ‹_›
      have hyields := Scenario.resolveWarned_of_valid directory hvalid
      refine ⟨hvalid, ?_⟩
      split at hyields
      · rw [hwarned] at hyields
        cases hyields
      · obtain ⟨job, warnings, hjob, hyields⟩ := hyields
        rw [hwarned] at hjob
        cases hjob
        exact hyields

/-- The jobs of one scenario run alike, whatever directories they write into. -/
theorem Scenario.Yields.sameRun {c : Scenario} {j k : Job} {other : String}
    (hj : c.Yields directory j) (hk : c.Yields other k) : j.SameRun k := by
  have hdown := hj.down.trans hk.down.symm
  have hup := hj.up.trans hk.up.symm
  have hdenominator := hj.denominator.trans hk.denominator.symm
  have hnumerator := hj.numerator.trans hk.numerator.symm
  obtain ⟨_, ⟨down, up, _, _⟩, ⟨denominator, numerator, _⟩, _, _⟩ := j
  obtain ⟨_, ⟨down', up', _, _⟩, ⟨denominator', numerator', _⟩, _, _⟩ := k
  dsimp only at hdown hup hdenominator hnumerator
  subst hdown hup hdenominator hnumerator
  exact ⟨rfl, rfl, hj.isFir.trans hk.isFir.symm⟩

/-! ## Whole manifests -/

theorem resolveEach_jobs (cs : List Scenario) :
    (·.1) <$> resolveEach directory cs = cs.mapM (·.resolve directory) := by
  induction cs with
  | nil => rfl
  | cons c cs ih =>
      rw [List.mapM_cons, ← ih, resolveEach, Scenario.resolve]
      cases c.resolveWarned directory with
      | error e => rfl
      | ok made =>
          cases resolveEach directory cs with
          | error e => rfl
          | ok others => rfl

/-- **A manifest is resolved** exactly if it has scenarios, of different names, and each of them is
resolved; its jobs are theirs. -/
theorem Manifest.resolve_eq_ok_iff {m : Manifest} {jobs : List Job} :
    m.resolve directory = .ok jobs ↔
      m.scenarios ≠ [] ∧ (m.scenarios.map (·.name)).Nodup ∧
        List.Forall₂ (fun c j => c.resolve directory = .ok j) m.scenarios jobs := by
  have hresolve : m.validate = .ok () →
      m.resolve directory = m.scenarios.mapM (·.resolve directory) := by
    intro hvalid
    rw [resolve, resolveWarned, hvalid]
    exact resolveEach_jobs m.scenarios
  constructor
  · intro h
    have hvalid := (Manifest.scenarios_of_resolve h).1
    obtain ⟨hsome, hnodup, -⟩ := Manifest.validate_eq_ok_iff.mp hvalid
    rw [hresolve hvalid] at h
    exact ⟨hsome, hnodup, mapM_eq_ok_iff.mp h⟩
  · rintro ⟨hsome, hnodup, hjobs⟩
    have hviolations : ∀ c ∈ m.scenarios, c.violations = [] := by
      intro c hc
      obtain ⟨j, hj⟩ := exists_mapM_eq_ok_iff.mp ⟨jobs, mapM_eq_ok_iff.mpr hjobs⟩ c hc
      exact (Scenario.yields_of_resolve hj).1
    rw [hresolve (Manifest.validate_eq_ok_iff.mpr ⟨hsome, hnodup, hviolations⟩)]
    exact mapM_eq_ok_iff.mpr hjobs

end

end FilterReference
