/-
# What a suite leaves behind

Planning touches no file.  The jobs of a plan are run one after the other, each of them replaces its
file or fails without a trace, and the first that fails is the last (`runJobs_store`).  Since no two
jobs write to one place, every file that was replaced holds its record at the end and everything
else is as it was (`WritesAll.wrote`).  `suite_discipline` puts the phases of a run together.
-/
import FilterReference.Proofs.Files.Directories
import FilterReference.Proofs.Program.Ending
import FilterReference.Proofs.Scenario.Outputs
import FilterReference.Proofs.Signal.Loading

namespace FilterReference

variable {s t u : Store} {signal : Signal} {j k : Job} {jobs done rest : List Job}

/-! ## Jobs

A job writes its file or fails, and either is said of the store before it alone.  A failed job need
not name the store behind it, since that is the same. -/

/-- The record of a job is built and rendered, and the store becomes `t` with it in its file. -/
def Job.Writes (signal : Signal) (s : Store) (j : Job) (t : Store) : Prop :=
  ∃ record text, j.build signal = .ok record ∧ record.render = .ok text ∧
    (replaceText j.output text : StateM Store (Except ReplaceError Unit)) s = (.ok (), t)

/-- The record of a job cannot be built, rendered or written. -/
inductive Job.Fails (signal : Signal) (s : Store) (j : Job) : Prop
  | build {e : SignalError} (h : j.build signal = .error e)
  | render {record : Record} {e : NonFinite} (hbuild : j.build signal = .ok record)
      (h : record.render = .error e)
  | write {record : Record} {text : String} {e : ReplaceError}
      (hbuild : j.build signal = .ok record) (hrender : record.render = .ok text)
      (h : (replaceText j.output text : StateM Store (Except ReplaceError Unit)) s = (.error e, s))

/-- The file of a job holds the whole text of its record. -/
def Job.Recorded (signal : Signal) (s : Store) (j : Job) : Prop :=
  ∃ record text, j.build signal = .ok record ∧ record.render = .ok text ∧
    s.openPath j.output = .ok (.file text.toUTF8)

/-- **A job** writes its record or fails and leaves the store as it is. -/
theorem Job.run_store (j : Job) (signal : Signal) (s : Store) :
    (∃ record t, j.Writes signal s t ∧
      (j.run signal : StateM Store (Except ProgramError Record)) s = (.ok record, t)) ∨
    ∃ e, j.Fails signal s ∧
      (j.run signal : StateM Store (Except ProgramError Record)) s = (.error e, s) := by
  unfold Job.run
  cases hbuild : j.build signal with
  | error e => exact Or.inr ⟨_, .build hbuild, rfl⟩
  | ok record =>
      cases hrender : record.render with
      | error e =>
          refine Or.inr ⟨.writeRecord (.nonFinite e), .render hbuild hrender, ?_⟩
          simp only [Record.write, hrender]
          rfl
      | ok text =>
          rcases Store.replaceText_store j.output text s with ⟨t, -, -, hreplace⟩ | ⟨e, hreplace⟩
          · refine Or.inl ⟨record, t, ⟨record, text, hbuild, hrender, hreplace⟩, ?_⟩
            simp only [Record.write, hrender, bind, StateT.bind, hreplace]
            rfl
          · refine Or.inr ⟨.writeRecord (.replace j.output e), .write hbuild hrender hreplace, ?_⟩
            simp only [Record.write, hrender, bind, StateT.bind, hreplace]
            rfl

theorem Job.Fails.not_writes (h : j.Fails signal s) : ¬ j.Writes signal s t := by
  rintro ⟨record, text, hbuild, hrender, hreplace⟩
  cases h with
  | build h => cases h.symm.trans hbuild
  | render hbuild' h =>
      cases hbuild'.symm.trans hbuild
      cases h.symm.trans hrender
  | write hbuild' hrender' h =>
      cases hbuild'.symm.trans hbuild
      cases hrender'.symm.trans hrender
      cases h.symm.trans hreplace

/-- A job fails whose file cannot be replaced, whatever its record. -/
theorem Job.fails_of_replaceText
    (h : ∀ text, ∃ e, (replaceText j.output text :
      StateM Store (Except ReplaceError Unit)) s = (.error e, s)) : j.Fails signal s := by
  cases hbuild : j.build signal with
  | error e => exact .build hbuild
  | ok record =>
      cases hrender : record.render with
      | error e => exact .render hbuild hrender
      | ok text =>
          obtain ⟨e, hreplace⟩ := h text
          exact .write hbuild hrender hreplace

theorem Job.fails_of_makeDirectories {directory : String} {names : List String} {e : FileError}
    (h : (s.makeDirectories directory).1 = .error e)
    (hnames : ∀ name ∈ names, Path.IsFileName name)
    (houtputs : jobs.map (·.output) = names.map (Path.join directory)) :
    ∀ k ∈ jobs, k.Fails signal (s.makeDirectories directory).2 := by
  intro k hk
  have hmem : k.output ∈ names.map (Path.join directory) := by
    rw [← houtputs]
    exact List.mem_map_of_mem hk
  obtain ⟨name, hname, houtput⟩ := List.mem_map.mp hmem
  refine Job.fails_of_replaceText fun text => ?_
  rw [← houtput]
  exact Store.replaceText_of_makeDirectories h (hnames name hname) text

/-- Jobs write their records one after the other. -/
inductive WritesAll (signal : Signal) : Store → List Job → Store → Prop
  | nil {s : Store} : WritesAll signal s [] s
  | cons {s t u : Store} {j : Job} {jobs : List Job} (h : j.Writes signal s t)
      (hrest : WritesAll signal t jobs u) : WritesAll signal s (j :: jobs) u

/-- **Jobs are run up to the first that fails**, and those before it have written their records. -/
theorem runJobs_store (signal : Signal) (jobs : List Job) (s : Store) :
    ∃ done rest t, jobs = done ++ rest ∧ WritesAll signal s done t ∧
      ((rest = [] ∧ ∃ records, (runJobs signal jobs :
          StateM Store (Except ProgramError (List (Job × Record)))) s = (.ok records, t)) ∨
        ∃ k later e, rest = k :: later ∧ k.Fails signal t ∧ (runJobs signal jobs :
          StateM Store (Except ProgramError (List (Job × Record)))) s = (.error e, t)) := by
  induction jobs generalizing s with
  | nil => exact ⟨[], [], s, rfl, .nil, Or.inl ⟨rfl, [], rfl⟩⟩
  | cons j jobs ih =>
      rcases j.run_store signal s with ⟨record, t, hwrites, hrun⟩ | ⟨e, hfails, hrun⟩
      · obtain ⟨done, rest, u, hjobs, hall, hend⟩ := ih t
        refine ⟨j :: done, rest, u, by rw [hjobs, List.cons_append], .cons hwrites hall, ?_⟩
        rcases hend with ⟨hrest, records, hrecords⟩ | ⟨k, later, e, hrest, hfails, herror⟩
        · refine Or.inl ⟨hrest, (j, record) :: records, ?_⟩
          simp only [runJobs, bind, StateT.bind, hrun, hrecords]
          rfl
        · refine Or.inr ⟨k, later, e, hrest, hfails, ?_⟩
          simp only [runJobs, bind, StateT.bind, hrun, herror]
          rfl
      · refine ⟨[], j :: jobs, s, rfl, .nil, Or.inr ⟨j, jobs, e, rfl, hfails, ?_⟩⟩
        simp only [runJobs, bind, StateT.bind, hrun]
        rfl

/-! ## Files

The jobs write one after the other, and each sees the files of those before it.  It makes no
difference: the outputs are at different places, and a path leads to the same place before and
after. -/

theorem Job.Apart.locate_ne (h : j.Apart k) {p q : List String} (hp : s.locate j.output = .ok p)
    (hq : s.locate k.output = .ok q) : p ≠ q := by
  obtain ⟨directory, name, other, hname, hother, hne, hj, hk⟩ := h
  rw [hj] at hp
  rw [hk] at hq
  exact Store.locate_join_ne hname hother hne hp hq

/-- What jobs that wrote their records have done to a store. -/
structure Wrote (signal : Signal) (s : Store) (done : List Job) (t : Store) : Prop where
  kept : s.KeepsDirectories t
  kept_back : t.KeepsDirectories s
  others : ∀ place, (∀ j ∈ done, s.locate j.output ≠ .ok place) → t.find? place = s.find? place
  recorded : ∀ j ∈ done, j.Recorded signal t

/-- **Jobs apart that write their records** leave them all behind, and all else as it was. -/
theorem WritesAll.wrote (h : WritesAll signal s done t) (hapart : done.Pairwise Job.Apart) :
    Wrote signal s done t := by
  induction h with
  | nil => exact ⟨.refl _, .refl _, fun _ _ => rfl, fun j hj => absurd hj List.not_mem_nil⟩
  | @cons s t u j jobs hwrites _ ih =>
      obtain ⟨hj, hjobs⟩ := List.pairwise_cons.mp hapart
      obtain ⟨hkept, hkept_back, hothers, hrecorded⟩ := ih hjobs
      obtain ⟨record, text, hbuild, hrender, hreplace⟩ := hwrites
      obtain ⟨place, hplace⟩ := Store.replaced_of_replaceText hreplace
      refine ⟨hplace.kept.trans hkept, hkept_back.trans hplace.kept_back, fun q hq => ?_,
        fun k hk => ?_⟩
      · obtain ⟨hqj, hqjobs⟩ := List.forall_mem_cons.mp hq
        rw [hothers q fun k hk hlocate => hqjobs k hk (hplace.kept_back.locate hlocate)]
        refine hplace.others q ?_
        rintro rfl
        exact hqj hplace.located
      · rcases List.mem_cons.mp hk with rfl | hk
        · -- The jobs behind it write to other places.
          have hlocated := hplace.kept.locate hplace.located
          refine ⟨record, text, hbuild, hrender, ?_⟩
          rw [← hplace.opened]
          refine Store.openPath_congr ?_ fun q hq => hothers q fun i hi hlocate => ?_
          · rw [hkept.locate hlocated, hlocated]
          · exact (hj i hi).locate_ne hq hlocate rfl
        · exact hrecorded k hk

/-- The files of the jobs that are left are looked for where they were, and are not changed. -/
theorem WritesAll.openPath_eq (h : WritesAll signal s done t)
    (hapart : (done ++ rest).Pairwise Job.Apart) :
    ∀ k ∈ rest, t.openPath k.output = s.openPath k.output := by
  intro k hk
  obtain ⟨hdone, -, hcross⟩ := List.pairwise_append.mp hapart
  have hwrote := h.wrote hdone
  cases h with
  | nil => rfl
  | @cons _ t' _ j jobs hwrites hrest =>
      obtain ⟨record, text, -, -, hreplace⟩ := hwrites
      obtain ⟨place, hplace⟩ := Store.replaced_of_replaceText hreplace
      obtain ⟨directory, name, other, hname, hother, -, hj, hk'⟩ := hcross j List.mem_cons_self k hk
      have hlocated := hplace.located
      rw [hj] at hlocated
      refine Store.openPath_congr ?_ fun q hq => hwrote.others q fun i hi hlocate => ?_
      · rw [hk']
        exact Store.locate_join_congr hwrote.kept hname hother hlocated
      · exact (hcross i hi k hk).locate_ne hlocate hq rfl

/-! ## Plans

Which scenarios are run, on which signal and to which directory is read off the store before the run
(`SuiteRequest.Planned`).  There is at most one plan, and the rest is said of any. -/

section Plans

variable [Trigonometry]

/-- The manifest is loaded, or is that of the factory scenarios. -/
def SuiteRequest.Loads (r : SuiteRequest) (s : Store) (loaded : Manifest) : Prop :=
  match r.manifest with
  | none => loaded = Factory.manifest
  | some path =>
    (Manifest.load path : StateM Store (Except ManifestError Manifest)) s = (.ok loaded, s)

/-- The named scenarios are selected from the manifest. -/
def SuiteRequest.Selects (r : SuiteRequest) (s : Store) (manifest : Manifest) : Prop :=
  ∃ loaded, r.Loads s loaded ∧ loaded.selectNamed r.only = .ok manifest

/-- The named scenarios; all of them, if none is named. -/
def SuiteRequest.Keeps (r : SuiteRequest) (c : Scenario) : Prop := r.only = [] ∨ c.name ∈ r.only

instance (r : SuiteRequest) (c : Scenario) : Decidable (r.Keeps c) :=
  inferInstanceAs (Decidable (_ ∨ _))

/-- The jobs of a plan write to the files of the scenarios that are kept, in the order of the
manifest. -/
def SuiteRequest.InOrder (r : SuiteRequest) (s : Store) (p : Plan) : Prop :=
  ∃ loaded, r.Loads s loaded ∧ p.jobs.map (·.output) =
    (loaded.scenarios.filter (r.Keeps ·)).map fun c => Path.join p.outputDirectory c.fileName

omit [Trigonometry] in
theorem SuiteRequest.scenarios_of_selectNamed {r : SuiteRequest} {loaded manifest : Manifest}
    (h : loaded.selectNamed r.only = .ok manifest) :
    manifest.scenarios = loaded.scenarios.filter (r.Keeps ·) := by
  unfold Manifest.selectNamed at h
  split_ifs at h with hempty
  · cases h
    rw [List.isEmpty_iff] at hempty
    rw [eq_comm, List.filter_eq_self]
    intro c _
    exact decide_eq_true (Or.inl hempty)
  · rw [List.isEmpty_iff] at hempty
    unfold Manifest.select at h
    split at h
    · cases h
    · cases h
      refine List.filter_congr fun c _ => ?_
      rw [List.contains_eq_mem]
      exact decide_eq_decide.mpr (or_iff_right hempty).symm

/-- A suite is settled: the scenarios are selected, the signal is loaded, and every scenario is
resolved. -/
def SuiteRequest.Planned (r : SuiteRequest) (s : Store) (p : Plan) : Prop :=
  ∃ manifest, r.Selects s manifest ∧
    r.input.or manifest.inputPath = some p.input ∧
    (Signal.load p.input : StateM Store (Except MalformedInput Signal)) s = (.ok p.signal, s) ∧
    p.outputDirectory = r.directory manifest ∧
    manifest.resolve p.outputDirectory = .ok p.jobs

omit [Trigonometry] in
theorem Manifest.load_store (path : String) (s : Store) :
    ∃ result, (Manifest.load path : StateM Store (Except ManifestError Manifest)) s =
      (result, s) := by
  have hread : ∃ text, (readTextFile path : StateM Store (Except FileError String)) s = (text, s) :=
    ⟨_, rfl⟩
  obtain ⟨text, hread⟩ := hread
  unfold Manifest.load
  simp only [bind, StateT.bind, hread]
  cases text with
  | error e => exact ⟨_, rfl⟩
  | ok text =>
      dsimp only
      cases Manifest.parse text with
      | error e => exact ⟨_, rfl⟩
      | ok manifest => exact ⟨_, rfl⟩

omit [Trigonometry] in
theorem Manifest.load_eq {path : String} {result : Except ManifestError Manifest}
    (h : ((Manifest.load path : StateM Store (Except ManifestError Manifest)) s).1 = result) :
    (Manifest.load path : StateM Store (Except ManifestError Manifest)) s = (result, s) := by
  obtain ⟨loaded, hload⟩ := Manifest.load_store path s
  rw [hload] at h ⊢
  rw [show loaded = result from h]

namespace SuiteRequest

omit [Trigonometry] in
theorem selectedManifest_store (r : SuiteRequest) (s : Store) :
    ∃ result, (r.selectedManifest : StateM Store (Except ManifestError Manifest)) s = (result, s) ∧
      ∀ manifest, result = .ok manifest ↔ r.Selects s manifest := by
  unfold selectedManifest Selects Loads
  cases r.manifest with
  | none =>
      refine ⟨_, rfl, fun manifest => ?_⟩
      simp
  | some path =>
      obtain ⟨result, hload⟩ := Manifest.load_store path s
      simp only [bind, StateT.bind, hload]
      cases result with
      | error e =>
          refine ⟨_, rfl, error_eq_ok_iff e ?_⟩
          rintro manifest ⟨loaded, h, -⟩
          cases h
      | ok loaded =>
          refine ⟨_, rfl, fun manifest => ?_⟩
          constructor
          · intro h
            exact ⟨loaded, rfl, h⟩
          · rintro ⟨_, h, hselect⟩
            cases h
            exact hselect

theorem planned_iff {r : SuiteRequest} {manifest : Manifest}
    (hselects : ∀ other, Except.ok manifest = (.ok other : Except ManifestError Manifest) ↔
      r.Selects s other) (p : Plan) :
    r.Planned s p ↔
      r.input.or manifest.inputPath = some p.input ∧
      Signal.ofOpened p.input (s.openPath p.input) = .ok p.signal ∧
      p.outputDirectory = r.directory manifest ∧
      manifest.resolve p.outputDirectory = .ok p.jobs := by
  have hload : (Signal.load p.input : StateM Store (Except MalformedInput Signal)) s =
      (.ok p.signal, s) ↔ Signal.ofOpened p.input (s.openPath p.input) = .ok p.signal := by
    rw [Signal.load_store, Prod.mk.injEq]
    exact and_iff_left rfl
  unfold Planned
  simp only [hload]
  constructor
  · rintro ⟨other, hother, hrest⟩
    cases (hselects other).mpr hother
    exact hrest
  · intro hrest
    exact ⟨manifest, (hselects manifest).mp rfl, hrest⟩

/-- **Planning** leaves a store as it is, and gives a plan when the suite is settled. -/
theorem plan_store (r : SuiteRequest) (s : Store) :
    ∃ result, (r.plan : StateM Store (Except ProgramError Plan)) s = (result, s) ∧
      ∀ p, result = .ok p ↔ r.Planned s p := by
  obtain ⟨result, hselected, hiff⟩ := r.selectedManifest_store s
  unfold plan
  simp only [bind, StateT.bind, hselected]
  cases result with
  | error e =>
      refine ⟨_, rfl, error_eq_ok_iff _ ?_⟩
      rintro p ⟨manifest, hselects, -⟩
      cases (hiff manifest).mpr hselects
  | ok manifest =>
      simp only [planned_iff hiff]
      cases hinput : r.input.or manifest.inputPath with
      | none =>
          refine ⟨_, rfl, error_eq_ok_iff _ ?_⟩
          rintro p ⟨h, -⟩
          cases h
      | some input =>
          simp only [StateT.bind, Signal.load_store]
          cases hsignal : Signal.ofOpened input (s.openPath input) with
          | error e =>
              refine ⟨_, rfl, error_eq_ok_iff _ ?_⟩
              rintro p ⟨h, hloaded, -⟩
              cases h
              rw [hsignal] at hloaded
              cases hloaded
          | ok signal =>
              cases hresolve : manifest.resolve (r.directory manifest) with
              | error e =>
                  refine ⟨_, rfl, error_eq_ok_iff _ ?_⟩
                  rintro p ⟨-, -, hdirectory, hresolved⟩
                  rw [hdirectory, hresolve] at hresolved
                  cases hresolved
              | ok jobs =>
                  refine ⟨_, rfl, fun p => ?_⟩
                  constructor
                  · intro h
                    cases h
                    exact ⟨rfl, hsignal, rfl, hresolve⟩
                  · rintro ⟨h, hloaded, hdirectory, hresolved⟩
                    obtain ⟨_, _, _, _⟩ := p
                    cases h
                    dsimp only at hloaded hdirectory hresolved
                    rw [hsignal] at hloaded
                    rw [hdirectory, hresolve] at hresolved
                    cases hloaded
                    cases hresolved
                    rw [hdirectory]

end SuiteRequest

theorem SuiteRequest.inOrder_of_planned {r : SuiteRequest} {p : Plan} (h : r.Planned s p) :
    r.InOrder s p := by
  obtain ⟨manifest, ⟨loaded, hloads, hselect⟩, -, -, -, hresolve⟩ := h
  refine ⟨loaded, hloads, ?_⟩
  rw [(Manifest.scenarios_of_resolve hresolve).2, scenarios_of_selectNamed hselect]

/-- How far a plan was carried out, from a store in which its directory was made: the first jobs
have their records in their files, nothing else is changed, the files of the jobs that are left
among it, and the run ended in success when there are none, and in an error when the first of them
fails. -/
structure Plan.Carried (p : Plan) (s t : Store) (e : Ending) (done rest : List Job) : Prop where
  jobs : p.jobs = done ++ rest
  recorded : ∀ j ∈ done, j.Recorded p.signal t
  others : ∀ place, (∀ j ∈ done, s.locate j.output ≠ .ok place) → t.find? place = s.find? place
  pending : ∀ j ∈ rest, t.openPath j.output = s.openPath j.output
  ending : (rest = [] ∧ e.Succeeds) ∨
    ∃ k later, rest = k :: later ∧ e.Fails ∧ k.Fails p.signal t

/-- **Running a plan** carries it out up to the first job that fails. -/
theorem Plan.run_store {p : Plan} {manifest : Manifest}
    (hresolve : manifest.resolve p.outputDirectory = .ok p.jobs) (s : Store) :
    ∃ o t done rest, (p.run : StateM Store Outcome) s = (o, t) ∧
      p.Carried (s.makeDirectories p.outputDirectory).2 t o.ending done rest := by
  obtain ⟨hsome, names, hnodup, hnames, houtputs⟩ := Manifest.outputs_of_resolve hresolve
  have hapart := pairwise_apart hnodup hnames houtputs
  unfold Plan.run
  simp only [bind, StateT.bind, FileAccess.makeDirectories]
  cases hmake : s.makeDirectories p.outputDirectory with
  | mk result s₀ =>
      cases result with
      | error e =>
          obtain ⟨k, later, hjobs⟩ := List.exists_cons_of_ne_nil hsome
          have hfails : k.Fails p.signal (s.makeDirectories p.outputDirectory).2 :=
            Job.fails_of_makeDirectories (congrArg Prod.fst hmake) hnames houtputs k
              (by rw [hjobs]; exact List.mem_cons_self)
          rw [hmake] at hfails
          refine ⟨_, s₀, [], p.jobs, rfl, rfl, ?_, fun _ _ => rfl, fun _ _ => rfl, Or.inr ?_⟩
          · intro j hj
            exact absurd hj List.not_mem_nil
          · exact ⟨k, later, hjobs, Outcome.fails_of_failure_eq_some rfl, hfails⟩
      | ok _ =>
          obtain ⟨done, rest, t, hjobs, hwrites, hend⟩ := runJobs_store p.signal p.jobs s₀
          rw [hjobs] at hapart
          have hwrote := hwrites.wrote (List.pairwise_append.mp hapart).1
          have hpending := hwrites.openPath_eq hapart
          rcases hend with ⟨hrest, records, hrun⟩ | ⟨k, later, e, hrest, hfails, hrun⟩
          · refine ⟨_, t, done, rest, by simp only [StateT.bind, hrun]; rfl, hjobs,
              hwrote.recorded, hwrote.others, hpending, Or.inl ?_⟩
            exact ⟨hrest, Outcome.succeeds_of_failure_eq_none rfl⟩
          · refine ⟨_, t, done, rest, by simp only [StateT.bind, hrun]; rfl, hjobs,
              hwrote.recorded, hwrote.others, hpending, Or.inr ?_⟩
            exact ⟨k, later, hrest, Outcome.fails_of_failure_eq_some rfl, hfails⟩

/-- **What a suite leaves behind.**  Unless the suite is settled, the run fails and the store is
what it was.  Once it is, the output directory is made, which adds directories where nothing stood
and nothing else, and the plan is carried out from there, in the order of the manifest: the files of
the jobs before the first that fails hold the whole text of their records, and all else is as it
was. -/
theorem suite_discipline {args : List String} {r : SuiteRequest}
    (hargs : Request.ofArguments args = .ok (.suite r)) (s : Store) :
    ∃ e t, (runProgram args : StateM Store Ending) s = (e, t) ∧
      ((∀ p, ¬ r.Planned s p) → e.Fails ∧ t = s) ∧
      ∀ p, r.Planned s p → r.InOrder s p ∧
        s.MakesWay (s.makeDirectories p.outputDirectory).2 p.outputDirectory ∧
          ∃ done rest, p.Carried (s.makeDirectories p.outputDirectory).2 t e done rest := by
  obtain ⟨result, hplan, hplanned⟩ := r.plan_store s
  rw [runProgram_store hargs]
  simp only [Request.run, SuiteRequest.run, bind, StateT.bind, hplan]
  cases result with
  | error e =>
      refine ⟨_, s, rfl, fun _ => ⟨Outcome.fails_of_failure_eq_some rfl, rfl⟩, fun p hp => ?_⟩
      cases (hplanned p).mpr hp
  | ok p =>
      have hp : r.Planned s p := (hplanned p).mp rfl
      obtain ⟨manifest, -, -, -, -, hresolve⟩ := hp
      obtain ⟨o, t, done, rest, hrun, hcarried⟩ := p.run_store hresolve s
      refine ⟨o.ending, t, by simp only [hrun], fun hnone => ?_, fun p' hp' => ?_⟩
      · exact absurd ((hplanned p).mp rfl) (hnone p)
      · cases (hplanned p').mpr hp'
        exact ⟨SuiteRequest.inOrder_of_planned hp', (s.attempt_makeDirectories _).makesWay, done,
          rest, hcarried⟩

end Plans

/-- A manifest of three scenarios, the second of which needs more samples than the signal has, and
former files where the records go. -/
def haltedFiles : Store where
  entries := [
    (["m.toml"], .file
      ("[[scenario]]\nname = \"p\"\nb = [1.0]\n" ++
        "[[scenario]]\nname = \"q\"\nup_sampling_factor = 2\nb = [1.0]\n" ++
        "[[scenario]]\nname = \"r\"\nb = [2.0]\n").toUTF8 0o644),
    (["x.txt"], .file "1".toUTF8 0o644),
    (["out"], .directory 0o755),
    (["out", "p.json"], .file "former p".toUTF8 0o600),
    (["out", "q.json"], .file "former q".toUTF8 0o644),
    (["out", "r.json"], .file "former r".toUTF8 0o644)]

def haltedManifest : Manifest where
  scenarios := [.passThrough "p", { name := "q", up := 2, numerator := some [1] },
    { name := "r", numerator := some [2] }]
  base := some ""

theorem load_haltedFiles :
    (Manifest.load "m.toml" : StateM Store (Except ManifestError Manifest)) haltedFiles =
      (.ok haltedManifest, haltedFiles) :=
  Manifest.load_eq (by decide +kernel)

/-- The second of three scenarios cannot be run: the file of the first is replaced, and those of the
second and the third are what they were. -/
theorem suite_discipline_halted :
    ∃ (e : Ending) (t : Store) (j : Job),
      (runProgram ["generate", "x.txt", "-m", "m.toml", "-o", "out"] :
        StateM Store Ending) haltedFiles = (e, t) ∧ e.Fails ∧
      j.output = "out/p.json" ∧ j.Recorded [1] t ∧
      t.openPath "out/q.json" = .ok (.file "former q".toUTF8) ∧
      t.openPath "out/r.json" = .ok (.file "former r".toUTF8) := by
  have hargs : Request.ofArguments ["generate", "x.txt", "-m", "m.toml", "-o", "out"] =
      .ok (.suite ⟨some "x.txt", some "m.toml", some "out", []⟩) := by decide +kernel
  have hsignal : Signal.ofOpened "x.txt" (haltedFiles.openPath "x.txt") = .ok [1] := by
    decide +kernel
  have hmade : haltedFiles.makeDirectories "out" = (.ok (), haltedFiles) :=
    Store.makeDirectories_of_leads (by decide +kernel)
  obtain ⟨j, k, l, hresolve, hj, hk, hl, hruns, hhalts⟩ : ∃ j k l,
      haltedManifest.resolve "out" = .ok [j, k, l] ∧ j.output = "out/p.json" ∧
        k.output = "out/q.json" ∧ l.output = "out/r.json" ∧
        ((j.run [1] : StateM Store (Except ProgramError Record))
          ((runProgram ["generate", "x.txt", "-m", "m.toml", "-o", "out"] :
            StateM Store Ending) haltedFiles).2).1.isOk = true ∧
        (k.build [1]).isOk = false := by
    refine ⟨_, _, _, rfl, rfl, rfl, rfl, ?_, ?_⟩ <;> decide +kernel
  have hplanned : SuiteRequest.Planned ⟨some "x.txt", some "m.toml", some "out", []⟩ haltedFiles
      ⟨"x.txt", [1], "out", [j, k, l]⟩ :=
    ⟨_, ⟨_, load_haltedFiles, rfl⟩, rfl, congrArg (·, haltedFiles) hsignal, rfl, hresolve⟩
  obtain ⟨e, t, hrun, -, hcarried⟩ := suite_discipline hargs haltedFiles
  have hfirst : ¬ j.Fails [1] t := by
    rw [hrun] at hruns
    rcases j.run_store [1] t with ⟨record, u, hwrites, -⟩ | ⟨e, -, herror⟩
    · exact fun hfails => hfails.not_writes hwrites
    · rw [herror] at hruns
      cases hruns
  have hsecond : ¬ k.Recorded [1] t := by
    rintro ⟨record, text, hbuild, -⟩
    rw [hbuild] at hhalts
    cases hhalts
  obtain ⟨-, -, done, rest, hjobs, hrecorded, -, hpending, hend⟩ := hcarried _ hplanned
  rw [hmade] at hpending
  obtain ⟨rfl, rfl, hfails⟩ : done = [j] ∧ rest = [k, l] ∧ e.Fails := by
    match done, hjobs with
    | [], hjobs =>
        cases hjobs
        obtain ⟨hnone, -⟩ | ⟨_, _, hrest, -, hfails⟩ := hend
        · cases hnone
        · cases hrest
          exact absurd hfails hfirst
    | [_], hjobs =>
        cases hjobs
        obtain ⟨hnone, -⟩ | ⟨_, _, -, hfails, -⟩ := hend
        · cases hnone
        · exact ⟨rfl, rfl, hfails⟩
    | _ :: _ :: _, hjobs =>
        obtain ⟨-, htail⟩ := List.cons.inj hjobs
        obtain ⟨rfl, -⟩ := List.cons.inj htail
        exact absurd (hrecorded k (List.mem_cons_of_mem _ List.mem_cons_self)) hsecond
  have hq := hpending k List.mem_cons_self
  have hr := hpending l (List.mem_cons_of_mem _ List.mem_cons_self)
  rw [hk] at hq
  rw [hl] at hr
  refine ⟨e, t, j, hrun, hfails, hj, hrecorded j List.mem_cons_self, hq.trans ?_, hr.trans ?_⟩
  all_goals rfl

end FilterReference
