/-
# Where resolved scenarios write

Every job of a manifest writes to a file right in the output directory, whose name is one plain
component, and no two jobs write to the same path, nor to the same place of a file system
(`Manifest.resolve_places`).
-/
import FilterReference.Proofs.Files.Components
import FilterReference.Proofs.Files.Store
import FilterReference.Proofs.Scenario.Jobs

namespace FilterReference

/-- A plain file name: one component of a path, without backslashes and control characters. -/
structure Path.IsPlainName (name : String) : Prop extends Path.IsFileName name where
  noBackslash : '\\' ∉ name.toList
  noControl : ∀ c ∈ name.toList, Text.isControl c = false

theorem Scenario.isPlainName {c : Scenario} (h : isValidName c.name = true) :
    Path.IsPlainName c.fileName := by
  have hchars : ∀ x ∈ c.name.toList, x ≠ '\\' ∧ Text.isControl x = false := by
    intro x hx
    unfold isValidName at h
    rw [Bool.and_eq_true, Bool.not_eq_true', List.any_eq_false] at h
    have hx := h.2 x hx
    simp only [Bool.or_eq_true, beq_iff_eq, not_or, Bool.not_eq_true] at hx
    exact ⟨hx.1.2, hx.2⟩
  have hextension : ∀ x ∈ ['.', 'j', 's', 'o', 'n'], x ≠ '\\' ∧ Text.isControl x = false := by
    simp [Text.isControl]
  have hall : ∀ x ∈ c.fileName.toList, x ≠ '\\' ∧ Text.isControl x = false := by
    intro x hx
    rw [c.toList_fileName] at hx
    exact (List.mem_append.mp hx).elim (hchars x) (hextension x)
  exact ⟨Scenario.isFileName h, fun hmem => (hall _ hmem).1 rfl, fun x hx => (hall x hx).2⟩

/-- A job writes right into a directory: its path is that of the directory with one more component,
the plain name of the job with its extension. -/
structure Job.WritesInto (directory : String) (j : Job) : Prop where
  plain : Path.IsPlainName (j.name ++ ".json")
  output : j.output = Path.join directory (j.name ++ ".json")
  components : Path.components j.output = Path.components directory ++ [j.name ++ ".json"]

section

variable [Trigonometry] {directory : String}

theorem Scenario.writesInto_of_resolve {c : Scenario} {j : Job} (h : c.resolve directory = .ok j) :
    j.WritesInto directory := by
  obtain ⟨hvalid, hyields⟩ := Scenario.yields_of_resolve h
  have hfile : c.fileName = j.name ++ ".json" := by rw [hyields.name, fileName]
  have hplain := Scenario.isPlainName (Scenario.isValidName_of_violations hvalid)
  have houtput := hyields.output
  rw [hfile] at hplain houtput
  refine ⟨hplain, houtput, ?_⟩
  rw [houtput, Path.components_join hplain.toIsFileName]

theorem names_of_forall₂ {cs : List Scenario} {jobs : List Job}
    (h : List.Forall₂ (fun c j => c.resolve directory = .ok j) cs jobs) :
    jobs.map (·.name) = cs.map (·.name) ∧ ∀ j ∈ jobs, j.WritesInto directory := by
  induction h with
  | nil => exact ⟨rfl, List.forall_mem_nil _⟩
  | cons hj _ ih =>
      refine ⟨?_, List.forall_mem_cons.mpr ⟨Scenario.writesInto_of_resolve hj, ih.2⟩⟩
      rw [List.map_cons, List.map_cons, ih.1, (Scenario.yields_of_resolve hj).2.name]

/-- **No job escapes the output directory, and none writes where another does.**  The jobs have the
names of the scenarios, in order; each writes to the one plain component `name.json` behind the
directory; their paths are all different, and lead to different places in every file system. -/
theorem Manifest.resolve_places {m : Manifest} {jobs : List Job}
    (h : m.resolve directory = .ok jobs) :
    jobs.map (·.name) = m.scenarios.map (·.name) ∧
      (∀ j ∈ jobs, j.WritesInto directory) ∧
      (jobs.map fun j => Path.components j.output).Nodup ∧
      ∀ s : Store, jobs.Pairwise fun j k =>
        ∀ p q, s.locate j.output = .ok p → s.locate k.output = .ok q → p ≠ q := by
  obtain ⟨-, hnodup, hjobs⟩ := Manifest.resolve_eq_ok_iff.mp h
  obtain ⟨hnames, hinto⟩ := names_of_forall₂ hjobs
  rw [← hnames] at hnodup
  have hapart : jobs.Pairwise fun j k => j.name ≠ k.name ∧ j.WritesInto directory ∧
      k.WritesInto directory := by
    have hdifferent : jobs.Pairwise fun j k => j.name ≠ k.name := List.pairwise_map.mp hnodup
    exact hdifferent.imp_of_mem fun hj hk hne => ⟨hne, hinto _ hj, hinto _ hk⟩
  refine ⟨hnames, hinto, List.pairwise_map.mpr (hapart.imp ?_), fun s => hapart.imp ?_⟩
  · rintro j k ⟨hne, hj, hk⟩ hsame
    rw [hj.components, hk.components] at hsame
    exact hne (extension_injective (List.singleton_inj.mp (List.append_cancel_left hsame)))
  · rintro j k ⟨hne, hj, hk⟩ p q hp hq
    rw [hj.output] at hp
    rw [hk.output] at hq
    exact Store.locate_join_ne hj.plain.toIsFileName hk.plain.toIsFileName
      (fun hsame => hne (extension_injective hsame)) hp hq

end

/-- Two scenarios of one directory, which is given with a slash at its end; one of them is named by
dots alone. -/
theorem Manifest.resolve_places_dots :
    ∃ j k : Job, { scenarios := [.passThrough "...", .passThrough "a b"] : Manifest }.resolve "out/" =
        .ok [j, k] ∧ j.output = "out/....json" ∧ k.output = "out/a b.json" ∧
      Path.components j.output ≠ Path.components k.output := by
  obtain ⟨j, k, hresolve, hj, hk⟩ : ∃ j k : Job,
      { scenarios := [.passThrough "...", .passThrough "a b"] : Manifest }.resolve "out/" =
        .ok [j, k] ∧ j.output = "out/....json" ∧ k.output = "out/a b.json" := ⟨_, _, rfl, rfl, rfl⟩
  obtain ⟨-, -, hnodup, -⟩ := Manifest.resolve_places hresolve
  refine ⟨j, k, hresolve, hj, hk, ?_⟩
  simpa using hnodup

end FilterReference
