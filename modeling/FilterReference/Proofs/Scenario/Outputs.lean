/-
# The files of resolved scenarios

The jobs that a manifest is resolved to write to files of one directory, each of its own name
(`Manifest.outputs_of_resolve`): a valid name makes a file name, and no two scenarios of a valid
manifest have the same.
-/
import FilterReference.Proofs.Files.Path
import FilterReference.Proofs.Scenario.Resolution

namespace FilterReference

theorem Scenario.isValidName_of_violations {c : Scenario} (h : c.violations = []) :
    isValidName c.name = true := by
  unfold Scenario.violations at h
  obtain ⟨hname, -⟩ := List.append_eq_nil_iff.mp h
  split_ifs at hname with hvalid
  exact hvalid

theorem Scenario.toList_fileName (c : Scenario) :
    c.fileName.toList = c.name.toList ++ ['.', 'j', 's', 'o', 'n'] := by
  rw [fileName, String.toList_append]
  rfl

theorem Scenario.isFileName {c : Scenario} (h : isValidName c.name = true) :
    Path.IsFileName c.fileName := by
  have hlength : 5 ≤ c.fileName.toList.length := by
    rw [c.toList_fileName, List.length_append]
    exact Nat.le_add_left _ _
  refine ⟨?_, ?_, ?_, ?_⟩
  · intro hempty
    rw [hempty] at hlength
    exact absurd hlength (by decide)
  · intro hdot
    rw [hdot] at hlength
    exact absurd hlength (by decide)
  · intro hdots
    rw [hdots] at hlength
    exact absurd hlength (by decide)
  · rw [c.toList_fileName, List.mem_append, not_or]
    constructor
    · intro hslash
      unfold isValidName at h
      rw [Bool.and_eq_true, Bool.not_eq_true', List.any_eq_false] at h
      exact h.2 '/' hslash rfl
    · decide

theorem extension_injective : Function.Injective fun name : String => name ++ ".json" := by
  intro name other h
  have hchars := congrArg String.toList h
  rw [String.toList_append, String.toList_append] at hchars
  exact String.toList_inj.mp (List.append_cancel_right hchars)

theorem nodup_of_violationsAfter {seen : List String} {cs : List Scenario}
    (h : violationsAfter seen cs = []) :
    (∀ c ∈ cs, c.name ∉ seen) ∧ (cs.map (·.name)).Nodup := by
  induction cs generalizing seen with
  | nil => exact ⟨fun c hc => absurd hc List.not_mem_nil, List.nodup_nil⟩
  | cons c cs ih =>
      rw [violationsAfter] at h
      obtain ⟨hfirst, hrest⟩ := List.append_eq_nil_iff.mp h
      obtain ⟨hnew, -⟩ := List.append_eq_nil_iff.mp hfirst
      split_ifs at hnew with hseen
      obtain ⟨hnames, hnodup⟩ := ih hrest
      constructor
      · intro d hd
        rcases List.mem_cons.mp hd with rfl | hd
        · simpa using hseen
        · intro hmem
          exact hnames d hd (List.mem_cons_of_mem _ hmem)
      · rw [List.map_cons, List.nodup_cons]
        refine ⟨fun hmem => ?_, hnodup⟩
        obtain ⟨d, hd, hname⟩ := List.mem_map.mp hmem
        exact hnames d hd (hname ▸ List.mem_cons_self)

theorem Manifest.names_of_validate {m : Manifest} (h : m.validate = .ok ()) :
    m.scenarios ≠ [] ∧ (m.scenarios.map (·.name)).Nodup := by
  unfold Manifest.validate validateAll at h
  split_ifs at h with hempty
  constructor
  · intro hnil
    rw [hnil] at hempty
    exact hempty rfl
  · exact (nodup_of_violationsAfter (Violations.check_eq_ok_iff.mp h)).2

/-! ## Outputs

Different names give different files, since the extension is the same for all.  That these stand at
different places too takes more: one path could lead through what another one writes.  Here both
lead to one directory. -/

section

variable [Trigonometry]

theorem Scenario.output_of_resolveWarned {c : Scenario} {directory : String} {j : Job}
    {warnings : List FlagWarning} (h : c.resolveWarned directory = .ok (j, warnings)) :
    j.output = Path.join directory c.fileName := by
  unfold resolveWarned at h
  split at h
  · cases h
  · split at h
    · cases h
    · obtain ⟨numerator, -, hrest⟩ := bind_eq_ok_iff.mp h
      dsimp only at hrest
      split at hrest
      · cases hrest
      · cases hrest
        rfl

theorem outputs_of_resolveEach {directory : String} {cs : List Scenario} {jobs : List Job}
    {warnings : List FlagWarning} (h : resolveEach directory cs = .ok (jobs, warnings)) :
    jobs.map (·.output) = cs.map fun c => Path.join directory c.fileName := by
  induction cs generalizing jobs warnings with
  | nil =>
      cases h
      rfl
  | cons c cs ih =>
      obtain ⟨⟨j, ws⟩, hj, hrest⟩ := bind_eq_ok_iff.mp h
      obtain ⟨⟨js, others⟩, hjs, heq⟩ := bind_eq_ok_iff.mp hrest
      cases heq
      rw [List.map_cons, List.map_cons, Scenario.output_of_resolveWarned hj, ih hjs]

theorem Manifest.scenarios_of_resolve {m : Manifest} {directory : String} {jobs : List Job}
    (h : m.resolve directory = .ok jobs) :
    m.validate = .ok () ∧
      jobs.map (·.output) = m.scenarios.map fun c => Path.join directory c.fileName := by
  unfold resolve resolveWarned at h
  split at h
  · cases h
  · rename_i hvalid
    cases heach : resolveEach directory m.scenarios with
    | error e =>
        rw [heach] at h
        cases h
    | ok made =>
        obtain ⟨made, warnings⟩ := made
        rw [heach] at h
        cases h
        exact ⟨hvalid, outputs_of_resolveEach heach⟩

/-- **The jobs of a manifest** write to files of the directory, each of its own name. -/
theorem Manifest.outputs_of_resolve {m : Manifest} {directory : String} {jobs : List Job}
    (h : m.resolve directory = .ok jobs) :
    jobs ≠ [] ∧ ∃ names : List String, names.Nodup ∧ (∀ name ∈ names, Path.IsFileName name) ∧
      jobs.map (·.output) = names.map (Path.join directory) := by
  obtain ⟨hvalid, houtputs⟩ := Manifest.scenarios_of_resolve h
  obtain ⟨hsome, hnodup⟩ := Manifest.names_of_validate hvalid
  refine ⟨?_, m.scenarios.map Scenario.fileName, ?_, ?_, ?_⟩
  · rintro rfl
    rw [List.map_nil, eq_comm, List.map_eq_nil_iff] at houtputs
    exact hsome houtputs
  · have hfiles : m.scenarios.map Scenario.fileName =
        (m.scenarios.map (·.name)).map fun name => name ++ ".json" := by
      rw [List.map_map]
      rfl
    rw [hfiles]
    exact hnodup.map extension_injective
  · intro name hname
    obtain ⟨c, hc, rfl⟩ := List.mem_map.mp hname
    have hviolations := violations_of_validate hvalid c hc
    exact Scenario.isFileName (Scenario.isValidName_of_violations hviolations)
  · rw [houtputs, List.map_map]
    rfl

end

/-- Two jobs write to files of different names in one directory. -/
def Job.Apart (j k : Job) : Prop :=
  ∃ directory name other, Path.IsFileName name ∧ Path.IsFileName other ∧ name ≠ other ∧
    j.output = Path.join directory name ∧ k.output = Path.join directory other

theorem pairwise_apart {directory : String} {names : List String} {jobs : List Job}
    (hnodup : names.Nodup) (hnames : ∀ name ∈ names, Path.IsFileName name)
    (houtputs : jobs.map (·.output) = names.map (Path.join directory)) :
    jobs.Pairwise Job.Apart := by
  induction names generalizing jobs with
  | nil =>
      rw [List.map_nil, List.map_eq_nil_iff] at houtputs
      rw [houtputs]
      exact .nil
  | cons name names ih =>
      cases jobs with
      | nil => exact .nil
      | cons j jobs =>
          obtain ⟨hnew, hnodup⟩ := List.nodup_cons.mp hnodup
          obtain ⟨hname, hnames⟩ := List.forall_mem_cons.mp hnames
          rw [List.map_cons, List.map_cons] at houtputs
          obtain ⟨hj, hjobs⟩ := List.cons.inj houtputs
          refine .cons (fun k hk => ?_) (ih hnodup hnames hjobs)
          have hmem : k.output ∈ names.map (Path.join directory) := by
            rw [← hjobs]
            exact List.mem_map_of_mem hk
          obtain ⟨other, hother, hk⟩ := List.mem_map.mp hmem
          refine ⟨directory, name, other, hname, hnames other hother, ?_, hj, hk.symm⟩
          rintro rfl
          exact hnew hother

end FilterReference
