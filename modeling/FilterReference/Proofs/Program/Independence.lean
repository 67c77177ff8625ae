/-
# Scenarios do not depend on each other

A scenario that a successful run keeps has its record in its file, and that record is built from the
scenario and the signal alone (`SuiteRun.recorded`).  Which other scenarios the manifest has, in
which order they stand, and which of them are kept, is not seen in it (`scenarios_independent`).
-/
import FilterReference.Proofs.Program.Suite
import FilterReference.Proofs.Scenario.Independence

namespace FilterReference

section

variable [Trigonometry]

/-! ## Successful runs

A run that succeeded is taken with all that it went through: the request, the manifest that was
loaded, and the plan.  Two runs can then be compared by what they have in common. -/

/-- A run of the program that carries out a suite with success. -/
structure SuiteRun where
  args : List String
  request : SuiteRequest
  before : Store
  after : Store
  ending : Ending
  /-- The whole manifest, before scenarios are selected. -/
  loaded : Manifest
  plan : Plan
  requested : Request.ofArguments args = .ok (.suite request)
  loads : request.Loads before loaded
  planned : request.Planned before plan
  ran : (runProgram args : StateM Store Ending) before = (ending, after)
  succeeds : ending.Succeeds

omit [Trigonometry] in
theorem SuiteRequest.Loads.unique {r : SuiteRequest} {s : Store} {m n : Manifest}
    (hm : r.Loads s m) (hn : r.Loads s n) : m = n := by
  unfold SuiteRequest.Loads at hm hn
  cases hpath : r.manifest with
  | none =>
      rw [hpath] at hm hn
      exact hm.trans hn.symm
  | some path =>
      rw [hpath] at hm hn
      cases hm.symm.trans hn
      rfl

theorem SuiteRequest.run_store_of_plan {args : List String} {r : SuiteRequest}
    (hargs : Request.ofArguments args = .ok (.suite r)) (s : Store) :
    ∃ e t, (runProgram args : StateM Store Ending) s = (e, t) ∧
      (e.Fails ∨ ∃ p, r.Planned s p) ∧
      ∀ p, r.Planned s p → ∃ done rest,
        p.Carried (s.makeDirectories p.outputDirectory).2 t e done rest := by
  obtain ⟨result, hplan, hplanned⟩ := r.plan_store s
  rw [runProgram_store hargs]
  simp only [Request.run, SuiteRequest.run, bind, StateT.bind, hplan]
  cases result with
  | error e =>
      refine ⟨_, s, rfl, Or.inl (Outcome.fails_of_failure_eq_some rfl), fun p hp => ?_⟩
      cases (hplanned p).mpr hp
  | ok p =>
      have hp : r.Planned s p := (hplanned p).mp rfl
      obtain ⟨manifest, -, -, -, -, hresolve⟩ := id hp
      obtain ⟨o, t, done, rest, hrun, hcarried⟩ := p.run_store hresolve s
      refine ⟨o.ending, t, by simp only [hrun], Or.inr ⟨p, hp⟩, fun q hq => ?_⟩
      cases (hplanned q).mpr hq
      exact ⟨done, rest, hcarried⟩

theorem SuiteRequest.Planned.succeeds {args : List String} {r : SuiteRequest} {s t : Store}
    {p : Plan} {e : Ending} (hp : r.Planned s p)
    (hargs : Request.ofArguments args = .ok (.suite r))
    (hran : (runProgram args : StateM Store Ending) s = (e, t)) (he : ¬ e.Fails) : e.Succeeds := by
  obtain ⟨_, _, hran', -, hcarried⟩ := SuiteRequest.run_store_of_plan hargs s
  cases hran.symm.trans hran'
  obtain ⟨done, rest, hcarried⟩ := hcarried p hp
  rcases hcarried.ending with ⟨-, hsucceeds⟩ | ⟨k, later, -, hfails, -⟩
  · exact hsucceeds
  · exact absurd hfails he

namespace SuiteRun

/-- Every run of the program that is asked for a suite and does not fail is such a run. -/
theorem exists_of_ran {args : List String} {r : SuiteRequest} {s t : Store} {e : Ending}
    (hargs : Request.ofArguments args = .ok (.suite r))
    (hran : (runProgram args : StateM Store Ending) s = (e, t)) (he : ¬ e.Fails) :
    ∃ u : SuiteRun, u.args = args ∧ u.before = s ∧ u.after = t := by
  obtain ⟨_, _, hran', hsettled, -⟩ := SuiteRequest.run_store_of_plan hargs s
  cases hran.symm.trans hran'
  obtain ⟨p, hp⟩ := hsettled.resolve_left he
  obtain ⟨manifest, ⟨loaded, hloads, -⟩, -⟩ := id hp
  exact ⟨⟨args, r, s, t, e, loaded, p, hargs, hloads, hp, hran, hp.succeeds hargs hran he⟩,
    rfl, rfl, rfl⟩

/-- The run of a settled suite that ends with code zero. -/
def ofCode {args : List String} {r : SuiteRequest} {s : Store} {m : Manifest} {p : Plan}
    (hargs : Request.ofArguments args = .ok (.suite r)) (hloads : r.Loads s m)
    (hp : r.Planned s p) (hcode : ((runProgram args : StateM Store Ending) s).1.code = 0) :
    SuiteRun where
  args := args
  request := r
  before := s
  after := ((runProgram args : StateM Store Ending) s).2
  ending := ((runProgram args : StateM Store Ending) s).1
  loaded := m
  plan := p
  requested := hargs
  loads := hloads
  planned := hp
  ran := rfl
  succeeds := hp.succeeds hargs rfl (Ending.not_fails_of_code hcode)

@[simp] theorem ofCode_plan {args : List String} {r : SuiteRequest} {s : Store} {m : Manifest}
    {p : Plan} (hargs : Request.ofArguments args = .ok (.suite r)) (hloads : r.Loads s m)
    (hp : r.Planned s p) (hcode : ((runProgram args : StateM Store Ending) s).1.code = 0) :
    (ofCode hargs hloads hp hcode).plan = p := rfl

theorem recorded_jobs (u : SuiteRun) : ∀ j ∈ u.plan.jobs, j.Recorded u.plan.signal u.after := by
  obtain ⟨_, _, hran, -, hcarried⟩ := SuiteRequest.run_store_of_plan u.requested u.before
  cases u.ran.symm.trans hran
  obtain ⟨done, rest, hcarried⟩ := hcarried u.plan u.planned
  rcases hcarried.ending with ⟨rfl, -⟩ | ⟨k, later, -, hfails, -⟩
  · rw [hcarried.jobs, List.append_nil]
    exact hcarried.recorded
  · exact absurd u.succeeds hfails.not_succeeds

/-- **A scenario that is kept** is turned into a job, whose record is in its file. -/
theorem recorded (u : SuiteRun) {c : Scenario} (hc : c ∈ u.loaded.scenarios)
    (hkeeps : u.request.Keeps c) :
    ∃ j, c.Yields u.plan.outputDirectory j ∧ j.Recorded u.plan.signal u.after := by
  obtain ⟨manifest, ⟨loaded, hloads, hselect⟩, -, -, -, hresolve⟩ := u.planned
  cases hloads.unique u.loads
  obtain ⟨-, -, hjobs⟩ := Manifest.resolve_eq_ok_iff.mp hresolve
  rw [SuiteRequest.scenarios_of_selectNamed hselect] at hjobs
  have hmem : c ∈ u.loaded.scenarios.filter (u.request.Keeps ·) :=
    List.mem_filter.mpr ⟨hc, decide_eq_true hkeeps⟩
  obtain ⟨i, hi, rfl⟩ := List.mem_iff_getElem.mp hmem
  obtain ⟨hlength, hget⟩ := List.forall₂_iff_get.mp hjobs
  have hj : i < u.plan.jobs.length := hlength ▸ hi
  exact ⟨u.plan.jobs.get ⟨i, hj⟩, (Scenario.yields_of_resolve (hget i hi hj)).2,
    u.recorded_jobs _ (List.get_mem _ _)⟩

end SuiteRun

/-! ## Independence -/

/-- **Scenarios are independent of each other.**  For a manifest that is resolved, a selection fails
with the first name that no scenario has; otherwise it leaves the paths as they are and is resolved
to the jobs of the names that are given; and the manifest with its scenarios rearranged is resolved
to its jobs in the same arrangement.  The file of a scenario holds the same text after all
successful runs on one signal that keep it, of whatever manifests. -/
theorem scenarios_independent {m : Manifest} {directory : String} {jobs : List Job}
    (h : m.resolve directory = .ok jobs) :
    (∀ before missing after, (∀ name ∈ before, name ∈ m.scenarios.map (·.name)) →
      missing ∉ m.scenarios.map (·.name) →
        m.select (before ++ missing :: after) = .error (.unknownScenario missing)) ∧
    (∀ names, names ≠ [] → (∀ name ∈ names, name ∈ m.scenarios.map (·.name)) →
      ∃ selected, m.select names = .ok selected ∧ selected.inputPath = m.inputPath ∧
        selected.outputPath = m.outputPath ∧
        selected.resolve directory = .ok (jobs.filter (·.name ∈ names))) ∧
    (∃ hlength : m.scenarios.length = jobs.length, ∀ σ : Equiv.Perm (Fin m.scenarios.length),
      { m with scenarios := List.ofFn fun i => m.scenarios.get (σ i) }.resolve directory =
        .ok (List.ofFn fun i => jobs.get (Fin.cast hlength (σ i)))) ∧
    ∀ u v : SuiteRun, u.plan.signal = v.plan.signal →
      ∀ c ∈ u.loaded.scenarios, c ∈ v.loaded.scenarios →
        u.request.Keeps c → v.request.Keeps c → ∃ text : String,
          u.after.openPath (Path.join u.plan.outputDirectory c.fileName) = .ok (.file text.toUTF8) ∧
          v.after.openPath (Path.join v.plan.outputDirectory c.fileName) =
            .ok (.file text.toUTF8) := by
  refine ⟨fun _ _ _ => Manifest.select_eq_error, fun names hsome hknown => ?_,
    Manifest.resolve_permute h, fun u v hsignal c hcu hcv hku hkv => ?_⟩
  · obtain ⟨name, hname⟩ := List.exists_mem_of_ne_nil names hsome
    exact ⟨m.restrict names, Manifest.select_eq_ok hknown, rfl, rfl,
      Manifest.resolve_filter h ⟨name, hname, hknown name hname⟩⟩
  · obtain ⟨j, hj, record, text, hbuild, hrender, hu⟩ := u.recorded hcu hku
    obtain ⟨k, hk, record', text', hbuild', hrender', hv⟩ := v.recorded hcv hkv
    -- Both jobs build the same record.
    rw [hsignal, (hj.sameRun hk).build_eq, hbuild'] at hbuild
    cases hbuild
    rw [hrender'] at hrender
    cases hrender
    rw [hj.output] at hu
    rw [hk.output] at hv
    exact ⟨_, hu, hv⟩

end

/-- A manifest of one scenario, and a signal of one sample. -/
def suiteFiles : Store where
  entries := [
    (["m.toml"], .file "[[scenario]]\nname = \"p\"\nb = [1.0]\n".toUTF8 0o644),
    (["x.txt"], .file "1".toUTF8 0o644)]

theorem load_suiteFiles :
    (Manifest.load "m.toml" : StateM Store (Except ManifestError Manifest)) suiteFiles =
      (.ok { scenarios := [.passThrough "p"], base := some "" }, suiteFiles) :=
  Manifest.load_eq (by decide +kernel)

/-- The scenario of `suiteFiles` behind another one, and the same signal. -/
def pairFiles : Store where
  entries := [
    (["m.toml"], .file
      "[[scenario]]\nname = \"q\"\nb = [2.0]\n[[scenario]]\nname = \"p\"\nb = [1.0]\n".toUTF8 0o644),
    (["x.txt"], .file "1".toUTF8 0o644)]

def pairManifest : Manifest where
  scenarios := [{ name := "q", numerator := some [2] }, .passThrough "p"]
  base := some ""

theorem load_pairFiles :
    (Manifest.load "m.toml" : StateM Store (Except ManifestError Manifest)) pairFiles =
      (.ok pairManifest, pairFiles) :=
  Manifest.load_eq (by decide +kernel)

/-- The two scenarios of `pairFiles` are resolved.  The record of the second is the same when it is
selected from them as when it stands alone in the manifest, as in `suiteFiles`. -/
theorem scenarios_independent_passThrough :
    ∃ j k, pairManifest.resolve "out" = .ok [j, k] ∧
      pairManifest.select ["p", "r", "s"] = .error (.unknownScenario "r") ∧
      (∃ selected, pairManifest.select ["p", "p"] = .ok selected ∧
        selected.resolve "out" = .ok [k]) ∧
      ∃ u v : SuiteRun, u.args = ["generate", "x.txt", "-m", "m.toml", "-o", "out"] ∧
        u.before = suiteFiles ∧
        v.args = ["generate", "x.txt", "-m", "m.toml", "-o", "out", "--only", "p"] ∧
        v.before = pairFiles ∧ ∃ text : String,
          u.after.openPath "out/p.json" = .ok (.file text.toUTF8) ∧
          v.after.openPath "out/p.json" = .ok (.file text.toUTF8) := by
  obtain ⟨j, k, hresolve, hj, hk, hselected⟩ : ∃ j k,
      pairManifest.resolve "out" = .ok [j, k] ∧ j.name = "q" ∧ k.name = "p" ∧
        (pairManifest.restrict ["p"]).resolve "out" = .ok [k] := ⟨_, _, rfl, rfl, rfl, rfl⟩
  obtain ⟨hunknown, hselect, -, hruns⟩ := scenarios_independent hresolve
  refine ⟨j, k, hresolve, hunknown ["p"] "r" ["s"] (by decide) (by decide), ?_, ?_⟩
  · obtain ⟨selected, hselected, -, -, hjobs⟩ := hselect ["p", "p"] (by decide) (by decide)
    refine ⟨selected, hselected, ?_⟩
    simpa [hj, hk] using hjobs
  · have hargs : Request.ofArguments ["generate", "x.txt", "-m", "m.toml", "-o", "out"] =
        .ok (.suite ⟨some "x.txt", some "m.toml", some "out", []⟩) := by decide +kernel
    have hargs' :
        Request.ofArguments ["generate", "x.txt", "-m", "m.toml", "-o", "out", "--only", "p"] =
          .ok (.suite ⟨some "x.txt", some "m.toml", some "out", ["p"]⟩) := by decide +kernel
    have hcode : ((runProgram ["generate", "x.txt", "-m", "m.toml", "-o", "out"] :
        StateM Store Ending) suiteFiles).1.code = 0 := by decide +kernel
    have hcode' : ((runProgram ["generate", "x.txt", "-m", "m.toml", "-o", "out", "--only", "p"] :
        StateM Store Ending) pairFiles).1.code = 0 := by decide +kernel
    have hsignal : Signal.ofOpened "x.txt" (suiteFiles.openPath "x.txt") = .ok [1] := by
      decide +kernel
    have hsignal' : Signal.ofOpened "x.txt" (pairFiles.openPath "x.txt") = .ok [1] := by
      decide +kernel
    have hloads : SuiteRequest.Loads ⟨some "x.txt", some "m.toml", some "out", []⟩ suiteFiles
        { scenarios := [.passThrough "p"], base := some "" } := load_suiteFiles
    have hloads' : SuiteRequest.Loads ⟨some "x.txt", some "m.toml", some "out", ["p"]⟩ pairFiles
        pairManifest := load_pairFiles
    have hplanned : SuiteRequest.Planned ⟨some "x.txt", some "m.toml", some "out", []⟩ suiteFiles
        ⟨"x.txt", [1], "out", [k]⟩ :=
      ⟨_, ⟨_, hloads, rfl⟩, rfl, congrArg (·, suiteFiles) hsignal, rfl, hselected⟩
    have hplanned' : SuiteRequest.Planned ⟨some "x.txt", some "m.toml", some "out", ["p"]⟩ pairFiles
        ⟨"x.txt", [1], "out", [k]⟩ :=
      ⟨_, ⟨_, hloads', rfl⟩, rfl, congrArg (·, pairFiles) hsignal', rfl, hselected⟩
    have hpath : Path.join "out" (Scenario.passThrough "p").fileName = "out/p.json" := rfl
    have htext := hruns (.ofCode hargs hloads hplanned hcode)
      (.ofCode hargs' hloads' hplanned' hcode') rfl (.passThrough "p") (List.mem_singleton.mpr rfl)
      (List.mem_cons_of_mem _ (List.mem_singleton.mpr rfl)) (Or.inl rfl)
      (Or.inr (List.mem_singleton.mpr rfl))
    simp only [SuiteRun.ofCode_plan, hpath] at htext
    exact ⟨_, _, rfl, rfl, rfl, rfl, htext⟩

end FilterReference
