/-
# Records reproduce themselves

A record that was built holds the configuration it was built with, and its factors and coefficients
are accepted again (`Record.configuration_of_build`).  Since the text of a record is read as the
record, bit for bit, running the pipeline once more with what was read gives the same record and the
same text (`Record.rebuild_load`).
-/
import FilterReference.Proofs.Record.RoundTrip

namespace FilterReference.Record

open Binary

/-- Runs the pipeline on a signal with the configuration that a record holds. -/
def rebuild (r : Record) (signal : Signal) : Except SignalError Record := do
  let factors ← r.factors
  let filter ← r.filter
  build signal factors filter r.isFir

variable {signal : Signal} {factors : Factors} {filter : Filter} {isFir : Bool} {r : Record}

theorem build_eq_ok (h : build signal factors filter isFir = .ok r) :
    ∃ output, r = ofRun factors filter isFir output := by
  unfold build at h
  cases hrun : referenceOutput signal factors filter with
  | error e =>
      rw [hrun] at h
      cases h
  | ok output =>
      rw [hrun] at h
      cases h
      exact ⟨output, rfl⟩

theorem factors_ofRun (output : Signal) :
    (ofRun factors filter isFir output).factors = .ok factors :=
  Factors.make_eq_ok factors.down_pos factors.up_pos

theorem filter_ofRun (output : Signal) :
    (ofRun factors filter isFir output).filter = .ok filter :=
  Filter.make_eq_ok filter.faultless

/-- **The configuration of a record that was built** is accepted, and leads to the record again. -/
theorem configuration_of_build (h : build signal factors filter isFir = .ok r) :
    r.factors = .ok factors ∧ r.filter = .ok filter ∧ r.isFir = isFir ∧
      r.rebuild signal = .ok r := by
  obtain ⟨output, rfl⟩ := build_eq_ok h
  refine ⟨factors_ofRun output, filter_ofRun output, rfl, ?_⟩
  rw [rebuild, factors_ofRun, filter_ofRun]
  exact h

/-- **A stored record reproduces itself.**  From a file that holds the text of a record that was
built, a record is loaded with the same configuration; running the pipeline on the same signal with
what was loaded gives the loaded record again, and its text is that of the file. -/
theorem rebuild_load (hdown : factors.down < 2 ^ 64) (hup : factors.up < 2 ^ 64)
    (hbuild : build signal factors filter isFir = .ok r) {text : String}
    (hrender : r.render = .ok text) (s : Store) (path : String)
    (hs : s.openPath path = .ok (.file text.toUTF8)) :
    ∃ loaded, (load path : StateM Store (Except RecordReadError Record)) s = (.ok loaded, s) ∧
      loaded = r ∧ loaded.factors = .ok factors ∧ loaded.filter = .ok filter ∧
      loaded.isFir = isFir ∧ loaded.rebuild signal = .ok loaded ∧ loaded.render = .ok text := by
  obtain ⟨hfactors, hfilter, hflag, hrebuild⟩ := configuration_of_build hbuild
  obtain ⟨output, hr⟩ := build_eq_ok hbuild
  have hdown' : r.down < 2 ^ 64 := by
    rw [hr]
    exact hdown
  have hup' : r.up < 2 ^ 64 := by
    rw [hr]
    exact hup
  have hread := read_render hdown' hup' hrender
  rw [hfactors, hfilter] at hread
  refine ⟨r, ?_, rfl, hfactors, hfilter, hflag, hrebuild, hrender⟩
  rw [load_store hs, hread]
  rfl

/-- A filter with feedback, and a negative zero among its coefficients. -/
def echo : Filter := ⟨[1, 0.1], [0.3, -0], by decide +kernel⟩

/-- The record of an echo at three halves of the rate is loaded and built again. -/
theorem rebuild_load_echo :
    ∃ (r loaded : Record) (text : String) (s : Store),
      build [0.1, 0.2, 0.7] ⟨2, 3, by decide, by decide⟩ echo false = .ok r ∧
        r.samples.length = 3 ∧ r.render = .ok text ∧
        (load "r.json" : StateM Store (Except RecordReadError Record)) s = (.ok loaded, s) ∧
        loaded.rebuild [0.1, 0.2, 0.7] = .ok loaded ∧ loaded.render = .ok text := by
  have hrun : (build [0.1, 0.2, 0.7] ⟨2, 3, by decide, by decide⟩ echo false).toOption.any
      (fun r => r.samples.length == 3 && decide r.AllFinite) = true := by decide +kernel
  cases hbuild : build [0.1, 0.2, 0.7] ⟨2, 3, by decide, by decide⟩ echo false with
  | error e =>
      rw [hbuild] at hrun
      cases hrun
  | ok r =>
      rw [hbuild] at hrun
      obtain ⟨hlength, hfinite⟩ : r.samples.length = 3 ∧ r.AllFinite := by
        simpa [Except.toOption] using hrun
      have hrender : r.render = .ok r.toJson.render := render_eq_ok_iff.mpr ⟨hfinite, rfl⟩
      obtain ⟨loaded, hload, -, -, -, -, hrebuild, hagain⟩ :=
        rebuild_load (by decide) (by decide) hbuild hrender
          ⟨[(["r.json"], .file r.toJson.render.toUTF8 0o644)]⟩ "r.json" rfl
      exact ⟨r, loaded, _, _, rfl, hlength, hrender, hload, hrebuild, hagain⟩

end FilterReference.Record
