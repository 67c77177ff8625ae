/-
# What the validation of a manifest reports

A manifest is gone through once, with the names seen so far, and what is wrong is collected.  The
report is that of the scenarios one after the other, each preceded by a duplicate name if an earlier
scenario has its name (`violationsAfter_eq_flatMap`), so a name is reported once less often than it
occurs (`count_duplicateName`).  One violation is reported as itself and several as a list, of which
none is a list again, since only single violations are ever collected (`Manifest.validate_reports`).
-/
import FilterReference.Proofs.Scenario.Jobs

namespace FilterReference

/-! ## Reports

A report is compared by its entries, where it is not seen whether there is one or a list of one.
That there never is a list of one, or a list within a list, is said apart from that, and so is that
its text tells one kind from the other. -/

namespace Violations

/-- The reports of a validation, one by one; none if nothing is wrong. -/
def reported : Except Violations Unit → List Violations
  | .ok () => []
  | .error violations => violations.parts

theorem reported_check (found : List Violation) : reported (check found) = found.map one := by
  match found with
  | [] => rfl
  | [_] => rfl
  | _ :: _ :: _ => rfl

theorem toListAll_map_one (found : List Violation) : toListAll (found.map one) = found := by
  induction found with
  | nil => rfl
  | cons v found ih => rw [List.map_cons, toListAll, ih, toList, List.singleton_append]

theorem toList_of_check {found : List Violation} {violations : Violations}
    (h : check found = .error violations) : violations.toList = found := by
  match found with
  | [] => cases h
  | [_] =>
      cases h
      rfl
  | first :: second :: rest =>
      cases h
      exact toListAll_map_one (first :: second :: rest)

theorem several_of_check_iff {found : List Violation} {violations : Violations}
    (h : check found = .error violations) :
    (∃ reports, violations = several reports) ↔ 2 ≤ found.length := by
  match found with
  | [] => cases h
  | [_] =>
      cases h
      refine iff_of_false ?_ (by simp)
      rintro ⟨_, heq⟩
      cases heq
  | _ :: _ :: _ =>
      cases h
      exact iff_of_true ⟨_, rfl⟩ (by simp)

end Violations

/-- How the wording of one violation begins, by its kind. -/
def Violation.openings : List String :=
  ["manifest", "duplicate scenario name: ", "invalid scenario name '", "scenario '"]

theorem Violation.exists_opening (v : Violation) :
    ∃ opening ∈ openings, ∃ rest, v.message = opening ++ rest := by
  cases v with
  | emptyManifest =>
      exact ⟨"manifest", by simp [openings], " contains no scenarios", by decide +kernel⟩
  | duplicateName name =>
      exact ⟨"duplicate scenario name: ", by simp [openings], name, rfl⟩
  | invalidName name =>
      exact ⟨"invalid scenario name '", by simp [openings],
        name ++ "': must be a non-empty file stem", String.append_assoc⟩
  | invalidScenario scenario fault =>
      refine ⟨"scenario '", by simp [openings], scenario ++ "': " ++ fault.message, ?_⟩
      rw [← String.append_assoc, ← String.append_assoc]
      rfl

theorem Violation.not_heading (v : Violation) :
    ¬ Violations.heading.toList <+: v.message.toList := by
  obtain ⟨opening, hopening, rest, hmessage⟩ := v.exists_opening
  intro h
  rw [hmessage, String.toList_append] at h
  -- The heading parts from each opening within the first two characters.
  have hparts : ∀ opening ∈ openings, 2 ≤ opening.toList.length ∧
      ¬ Violations.heading.toList.take 2 <+: opening.toList := by
    decide +kernel
  obtain ⟨hlength, hnot⟩ := hparts opening hopening
  have htwo : Violations.heading.toList.take 2 <+: opening.toList ++ rest.toList :=
    (List.take_prefix 2 _).trans h
  refine hnot (List.prefix_of_prefix_length_le htwo (List.prefix_append _ _) ?_)
  exact (List.length_take_le 2 _).trans hlength

/-- Several reports are worded as such, and one is not. -/
theorem Violations.heading_iff {violations : Violations} :
    heading.toList <+: violations.message.toList ↔ ∃ reports, violations = several reports := by
  cases violations with
  | one v =>
      refine iff_of_false v.not_heading ?_
      rintro ⟨_, heq⟩
      cases heq
  | several reports =>
      refine iff_of_true ?_ ⟨reports, rfl⟩
      rw [message, String.toList_append]
      exact List.prefix_append _ _

/-! ## Scenarios

The names seen so far are the names of the earlier scenarios, so the state of the loop can be
replaced by what stands before a scenario.  After that the loop is gone: each scenario has its own
part of the report. -/

theorem Scenario.reported_validate (c : Scenario) :
    Violations.reported c.validate = c.violations.map .one := Violations.reported_check _

theorem Scenario.mem_violations {c : Scenario} {v : Violation} (h : v ∈ c.violations) :
    v = .invalidName c.name ∨ ∃ fault, v = .invalidScenario c.name fault := by
  rw [violations, List.mem_append] at h
  rcases h with h | h
  · split_ifs at h
    · cases h
    · exact Or.inl (List.mem_singleton.mp h)
  · obtain ⟨fault, -, rfl⟩ := List.mem_map.mp h
    exact Or.inr ⟨fault, rfl⟩

theorem Scenario.count_duplicateName (c : Scenario) (name : String) :
    c.violations.count (.duplicateName name) = 0 := by
  refine List.count_eq_zero_of_not_mem fun h => ?_
  rcases Scenario.mem_violations h with heq | ⟨fault, heq⟩ <;> cases heq

/-- **Violations in order**: those of the scenarios, one after the other, and before those of each
one a duplicate name if it was seen or an earlier scenario has it.  By induction on the scenarios,
the first of which joins the names seen. -/
theorem violationsAfter_eq_flatMap (seen : List String) (cs : List Scenario) :
    violationsAfter seen cs = (List.finRange cs.length).flatMap fun i =>
      (if cs[i].name ∈ seen ∨ ∃ j < i, cs[j].name = cs[i].name then [.duplicateName cs[i].name]
        else []) ++ cs[i].violations := by
  induction cs generalizing seen with
  | nil => rfl
  | cons c cs ih =>
      have hearlier : ∀ i : Fin cs.length, (cs[i].name ∈ c.name :: seen ∨
          ∃ j < i, cs[j].name = cs[i].name) ↔
          cs[i].name ∈ seen ∨ ∃ j < i.succ, (c :: cs)[j].name = cs[i].name := by
        intro i
        rw [Fin.exists_fin_succ, List.mem_cons]
        simp only [Fin.succ_lt_succ_iff, Fin.succ_pos, true_and]
        change _ ↔ _ ∨ c.name = _ ∨ ∃ j < i, cs[j].name = _
        tauto
      have hrange : List.finRange (c :: cs).length = 0 :: (List.finRange cs.length).map Fin.succ :=
        List.finRange_succ
      rw [violationsAfter, ih, hrange, List.flatMap_cons, List.flatMap_map]
      congr 1
      · simp
      · refine List.flatMap_congr fun i _ => ?_
        simp only [hearlier]
        rfl

/-- A name that was not seen is reported once less often than it occurs. -/
theorem count_duplicateName (name : String) (seen : List String) (cs : List Scenario) :
    (violationsAfter seen cs).count (.duplicateName name) =
      (cs.map (·.name)).count name - if name ∈ seen then 0 else 1 := by
  induction cs generalizing seen with
  | nil => simp [violationsAfter]
  | cons c cs ih =>
      rw [violationsAfter, List.count_append, List.count_append, Scenario.count_duplicateName, ih,
        List.map_cons, List.count_cons]
      by_cases hname : c.name = name
      · by_cases hseen : name ∈ seen
        · simp [hname, hseen, Nat.add_comm]
        · simp [hname, hseen]
      · have hmem : name ∈ c.name :: seen ↔ name ∈ seen := by
          simp [Ne.symm hname]
        have hnone : (if seen.contains c.name then [Violation.duplicateName c.name] else []).count
            (.duplicateName name) = 0 := by
          split_ifs
          · simp [hname]
          · rfl
        rw [hnone]
        simp [hname, hmem]

/-! ## Manifests -/

theorem Manifest.validate_eq_check {m : Manifest} (h : m.scenarios ≠ []) :
    m.validate = Violations.check (violationsAfter [] m.scenarios) := by
  rw [validate, validateAll, List.isEmpty_eq_false_iff.mpr h]
  rfl

theorem Manifest.reported_validate {m : Manifest} (h : m.scenarios ≠ []) :
    Violations.reported m.validate = (violationsAfter [] m.scenarios).map .one := by
  rw [validate_eq_check h, Violations.reported_check]

/-- **The report on a manifest** with scenarios.  It goes through them in order and says of each
whether an earlier one has its name, then what validating it by itself says.  So nothing is reported
exactly if names differ and every scenario is valid; a name that occurs `k` times is reported
`k - 1` times; no entry of the report is a report of several, so that going through it to the bottom
finds the same entries; and the report is one of several, and worded so, exactly if it has two
entries or more. -/
theorem Manifest.validate_reports {m : Manifest} (h : m.scenarios ≠ []) :
    (Violations.reported m.validate = (List.finRange m.scenarios.length).flatMap fun i =>
      (if ∃ j < i, m.scenarios[j].name = m.scenarios[i].name then
        [.one (.duplicateName m.scenarios[i].name)] else []) ++
        Violations.reported m.scenarios[i].validate) ∧
    (m.validate = .ok () ↔
      (m.scenarios.map (·.name)).Nodup ∧ ∀ c ∈ m.scenarios, c.validate = .ok ()) ∧
    (∀ name, (Violations.reported m.validate).count (.one (.duplicateName name)) =
      (m.scenarios.map (·.name)).count name - 1) ∧
    (∀ report ∈ Violations.reported m.validate,
      (∀ reports, report ≠ .several reports) ∧
      ¬ Violations.heading.toList <+: report.message.toList) ∧
    ∀ violations, m.validate = .error violations →
      violations.toList.map .one = Violations.reported m.validate ∧
      ((∃ reports, violations = .several reports) ↔
        2 ≤ (Violations.reported m.validate).length) ∧
      (Violations.heading.toList <+: violations.message.toList ↔
        2 ≤ (Violations.reported m.validate).length) := by
  refine ⟨?_, ?_, fun name => ?_, fun report hreport => ?_, fun violations hinvalid => ?_⟩
  · rw [Manifest.reported_validate h, violationsAfter_eq_flatMap, List.map_flatMap]
    refine List.flatMap_congr fun i _ => ?_
    rw [List.map_append, Scenario.reported_validate, apply_ite (List.map Violations.one)]
    simp only [List.not_mem_nil, false_or, List.map_cons, List.map_nil]
  · have hvalid : ∀ c : Scenario, c.validate = .ok () ↔ c.violations = [] := fun _ =>
      Violations.check_eq_ok_iff
    simp only [Manifest.validate_eq_ok_iff, hvalid]
    exact and_iff_right h
  · have hcount := count_duplicateName name [] m.scenarios
    rw [if_neg List.not_mem_nil] at hcount
    rw [Manifest.reported_validate h, ← hcount]
    exact List.count_map_of_injective _ _ (fun v w heq => Violations.one.inj heq) _
  · rw [Manifest.reported_validate h] at hreport
    obtain ⟨v, -, rfl⟩ := List.mem_map.mp hreport
    refine ⟨fun _ heq => ?_, v.not_heading⟩
    cases heq
  · rw [Manifest.reported_validate h, List.length_map]
    rw [validate_eq_check h] at hinvalid
    have hseveral := Violations.several_of_check_iff hinvalid
    exact ⟨congrArg _ (Violations.toList_of_check hinvalid), hseveral,
      Violations.heading_iff.trans hseveral⟩

/-- One name three times, and between them a scenario with two faults; the second scenario of the
name has one, too. -/
theorem Manifest.validate_reports_repeated :
    let m : Manifest := { scenarios := [.passThrough "a",
      { name := "", down := 0, numerator := some [1] }, { name := "a" }, .passThrough "a"] }
    m.scenarios ≠ [] ∧ Violations.reported m.validate =
      [.one (.invalidName ""), .one (.invalidScenario "" .zeroDown), .one (.duplicateName "a"),
        .one (.invalidScenario "a" .noNumerator), .one (.duplicateName "a")] := by
  intro m
  have hsome : m.scenarios ≠ [] := List.cons_ne_nil _ _
  refine ⟨hsome, ?_⟩
  rw [(Manifest.validate_reports hsome).1]
  decide +kernel

end FilterReference
