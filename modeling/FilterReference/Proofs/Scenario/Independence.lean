/-
# Selecting and rearranging scenarios

Since scenarios are resolved one by one, the jobs of some scenarios of a manifest are some of its
jobs (`Manifest.resolve_filter`), and those of its scenarios in another order are its jobs in that
order (`Manifest.resolve_permute`).
-/
import FilterReference.Proofs.Scenario.Jobs
import Mathlib.Data.List.FinRange

namespace FilterReference

variable {m : Manifest} {names : List String}

/-- The manifest with the scenarios that have one of the names. -/
def Manifest.restrict (m : Manifest) (names : List String) : Manifest :=
  { m with scenarios := m.scenarios.filter (·.name ∈ names) }

theorem Manifest.not_any_name_iff {name : String} :
    (!m.scenarios.any (·.name = name)) = true ↔ name ∉ m.scenarios.map (·.name) := by
  simp

theorem Manifest.select_eq_error {before after : List String} {missing : String}
    (hbefore : ∀ name ∈ before, name ∈ m.scenarios.map (·.name))
    (hmissing : missing ∉ m.scenarios.map (·.name)) :
    m.select (before ++ missing :: after) = .error (.unknownScenario missing) := by
  have hfind : (before ++ missing :: after).find? (fun n => !m.scenarios.any (·.name = n)) =
      some missing := by
    refine List.find?_eq_some_iff_append.mpr
      ⟨not_any_name_iff.mpr hmissing, before, after, rfl, fun name hname => ?_⟩
    simpa using hbefore name hname
  rw [select, hfind]

theorem Manifest.select_eq_ok (h : ∀ name ∈ names, name ∈ m.scenarios.map (·.name)) :
    m.select names = .ok (m.restrict names) := by
  have hfind : names.find? (fun n => !m.scenarios.any (·.name = n)) = none := by
    rw [List.find?_eq_none]
    intro name hname hnot
    exact not_any_name_iff.mp hnot (h name hname)
  rw [select, hfind]
  simp only [restrict, List.contains_eq_mem]

section

variable [Trigonometry] {directory : String} {jobs : List Job}

/-- **The jobs of selected scenarios** are the jobs of their names, in order. -/
theorem Manifest.resolve_filter (h : m.resolve directory = .ok jobs)
    (hknown : ∃ name ∈ names, name ∈ m.scenarios.map (·.name)) :
    (m.restrict names).resolve directory = .ok (jobs.filter (·.name ∈ names)) := by
  obtain ⟨-, hnodup, hjobs⟩ := Manifest.resolve_eq_ok_iff.mp h
  refine Manifest.resolve_eq_ok_iff.mpr ⟨?_, ?_, ?_⟩
  · obtain ⟨name, hname, hmem⟩ := hknown
    obtain ⟨c, hc, rfl⟩ := List.mem_map.mp hmem
    exact List.ne_nil_of_mem (List.mem_filter.mpr ⟨hc, decide_eq_true hname⟩)
  · exact hnodup.sublist (List.filter_sublist.map _)
  · refine List.rel_filter (fun c j hj => ?_) hjobs
    dsimp only
    rw [(Scenario.yields_of_resolve hj).2.name]

/-- **The jobs of rearranged scenarios** are the jobs in the same arrangement. -/
theorem Manifest.resolve_permute (h : m.resolve directory = .ok jobs) :
    ∃ hlength : m.scenarios.length = jobs.length, ∀ σ : Equiv.Perm (Fin m.scenarios.length),
      { m with scenarios := List.ofFn fun i => m.scenarios.get (σ i) }.resolve directory =
        .ok (List.ofFn fun i => jobs.get (Fin.cast hlength (σ i))) := by
  obtain ⟨hsome, hnodup, hjobs⟩ := Manifest.resolve_eq_ok_iff.mp h
  obtain ⟨hlength, hget⟩ := List.forall₂_iff_get.mp hjobs
  refine ⟨hlength, fun σ => ?_⟩
  have hperm : (List.ofFn fun i => m.scenarios.get (σ i)).Perm m.scenarios := by
    refine (σ.ofFn_comp_perm m.scenarios.get).trans ?_
    rw [List.ofFn_get]
  refine Manifest.resolve_eq_ok_iff.mpr ⟨?_, ?_, ?_⟩
  · intro hnil
    exact hsome (List.nil_perm.mp (hnil ▸ hperm))
  · exact (hperm.map _).nodup_iff.mpr hnodup
  · refine List.forall₂_iff_get.mpr ⟨by rw [List.length_ofFn, List.length_ofFn], fun i hi _ => ?_⟩
    rw [List.get_ofFn, List.get_ofFn]
    exact hget _ _ _

end

end FilterReference
