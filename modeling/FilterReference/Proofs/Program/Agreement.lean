/-
# One scenario, asked for in two ways

A scenario can be asked for by the options of a single run, and by a manifest that holds nothing
else.  Both ways it comes to the same: the scenario is resolved, the signal is loaded, the record is
built and takes the place of its file (`Scenario.Records`), or one of these fails and the store
stays as it is.  That is said of each of the two by itself (`SingleRequest.attempted`,
`SuiteRequest.attempted`), and the agreement follows, because there is only one store that a record
can leave behind (`single_agrees_with_suite`).
-/
import FilterReference.Proofs.Files.Components
import FilterReference.Proofs.Program.Arguments
import FilterReference.Proofs.Program.Independence

namespace FilterReference

variable {s t u : Store} {c : Scenario} {input directory : String}

/-! ## Recording a scenario

What becomes of a scenario is described without saying who asked.  `Scenario.Attempted` leaves open
what the program prints, but neither how it ends nor the store, so two attempts from one store have
to agree. -/

section

variable [Trigonometry]

/-- The directory that a scenario is resolved for has no other effect than on the path of the file.
-/
theorem Scenario.resolve_elsewhere (c : Scenario) (directory other : String) :
    c.resolve other =
      (fun j => { j with output := Path.join other c.fileName }) <$> c.resolve directory := by
  unfold resolve resolveWarned
  cases c.validate with
  | error violations => rfl
  | ok _ =>
      dsimp only
      cases Factors.make c.down c.up with
      | error e => rfl
      | ok factors =>
          dsimp only
          cases c.resolveNumerator factors with
          | error e => rfl
          | ok numerator =>
              dsimp only [bind, Except.bind]
              cases Filter.make c.denominator numerator with
              | error e => rfl
              | ok filter => rfl

/-- A scenario is resolved, the signal of a file is loaded, and the store becomes `t` with the
record in its file. -/
def Scenario.Records (c : Scenario) (input directory : String) (s t : Store) : Prop :=
  ∃ j signal, c.resolve directory = .ok j ∧
    Signal.ofOpened input (s.openPath input) = .ok signal ∧ j.Writes signal s t

theorem Scenario.Records.unique (h : c.Records input directory s t)
    (h' : c.Records input directory s u) : t = u := by
  obtain ⟨j, signal, hj, hsignal, record, text, hbuild, hrender, hreplace⟩ := h
  obtain ⟨j', signal', hj', hsignal', record', text', hbuild', hrender', hreplace'⟩ := h'
  cases hj.symm.trans hj'
  cases hsignal.symm.trans hsignal'
  cases hbuild.symm.trans hbuild'
  cases hrender.symm.trans hrender'
  cases hreplace.symm.trans hreplace'
  rfl

theorem Scenario.Records.opened (h : c.Records input directory s t) :
    ∃ text : String, t.openPath (Path.join directory c.fileName) = .ok (.file text.toUTF8) := by
  obtain ⟨j, signal, hj, -, record, text, -, -, hreplace⟩ := h
  obtain ⟨place, hplace⟩ := Store.replaced_of_replaceText hreplace
  rw [← (Scenario.yields_of_resolve hj).2.output]
  exact ⟨text, hplace.opened⟩

/-- A run that is to record a scenario ends in success with the record written, or without success
and with nothing written, where no record can be. -/
inductive Scenario.Attempted (c : Scenario) (input directory : String) (s : Store) :
    Ending × Store → Prop
  | recorded {e : Ending} {t : Store} (hend : e.Succeeds) (h : c.Records input directory s t) :
      Attempted c input directory s (e, t)
  | refused {e : Ending} (hend : ¬ e.Succeeds) (h : ∀ t, ¬ c.Records input directory s t) :
      Attempted c input directory s (e, s)

/-- **Two attempts at one scenario** succeed alike, and leave one store behind. -/
theorem Scenario.Attempted.agree {r r' : Ending × Store} (h : c.Attempted input directory s r)
    (h' : c.Attempted input directory s r') :
    (r.1.Succeeds ↔ r'.1.Succeeds) ∧ r'.2 = r.2 ∧
      (r.1.Succeeds → ∃ text : String,
        r.2.openPath (Path.join directory c.fileName) = .ok (.file text.toUTF8)) ∧
      (¬ r.1.Succeeds → r.2 = s) := by
  cases h with
  | recorded hend h =>
      cases h' with
      | recorded hend' h' =>
          exact ⟨iff_of_true hend hend', h'.unique h, fun _ => h.opened, fun hnot => absurd hend hnot⟩
      | refused _ hnone => exact absurd h (hnone _)
  | refused hend hnone =>
      cases h' with
      | recorded _ h' => exact absurd h' (hnone _)
      | refused hend' _ =>
          exact ⟨iff_of_false hend hend', rfl, fun hsucceeds => absurd hsucceeds hend, fun _ => rfl⟩

theorem Scenario.not_records_of_resolve {e : ManifestError} (h : c.resolve directory = .error e) :
    ∀ t, ¬ c.Records input directory s t := by
  rintro t ⟨j, signal, hj, -, -⟩
  cases h.symm.trans hj

theorem Scenario.not_records_of_signal {e : MalformedInput}
    (h : Signal.ofOpened input (s.openPath input) = .error e) :
    ∀ t, ¬ c.Records input directory s t := by
  rintro t ⟨j, signal, -, hsignal, -⟩
  cases h.symm.trans hsignal

theorem Scenario.not_records_of_fails {j : Job} {signal : Signal}
    (hj : c.resolve directory = .ok j)
    (hsignal : Signal.ofOpened input (s.openPath input) = .ok signal) (h : j.Fails signal s) :
    ∀ t, ¬ c.Records input directory s t := by
  rintro t ⟨j', signal', hj', hsignal', hwrites⟩
  cases hj.symm.trans hj'
  cases hsignal.symm.trans hsignal'
  exact h.not_writes hwrites

/-! ## By the options of a single run -/

namespace SingleRequest

omit [Trigonometry] in
theorem runOn_store (r : SingleRequest) {j : Job} {signal : Signal}
    {result : Except ProgramError Record}
    (h : (j.run signal : StateM Store (Except ProgramError Record)) s = (result, t)) :
    ∃ result', (r.runOn j signal : StateM Store (Except ProgramError String)) s = (result', t) ∧
      ((∃ record, result = .ok record ∧ result' = .ok (r.closing record)) ∨
        ∃ e e', result = .error e ∧ result' = .error e') := by
  unfold Job.run at h
  unfold runOn
  cases hbuild : j.build signal with
  | error e =>
      rw [hbuild] at h
      cases h
      exact ⟨_, rfl, Or.inr ⟨_, _, rfl, rfl⟩⟩
  | ok record =>
      rw [hbuild] at h
      obtain ⟨written, v, hwrite⟩ : ∃ written v,
          (record.write j.output : StateM Store (Except RecordWriteError Unit)) s = (written, v) :=
        ⟨_, _, rfl⟩
      simp only [bind, StateT.bind, hwrite] at h ⊢
      cases written with
      | error e =>
          cases h
          exact ⟨_, rfl, Or.inr ⟨_, _, rfl, rfl⟩⟩
      | ok _ =>
          cases h
          exact ⟨_, rfl, Or.inl ⟨record, rfl, rfl⟩⟩

theorem job_eq {r : SingleRequest} (hname : isValidName c.name = true)
    (hscenario : r.scenario c.name = c) (houtput : r.output = Path.join directory c.fileName) :
    r.job = liftError .manifest (c.resolve directory) := by
  have hne : c.name.toList ≠ [] := by
    intro hnil
    rw [show c.name = "" from String.toList_inj.mp hnil] at hname
    cases hname
  have hstem : Path.fileStem? r.output = some c.name := by
    rw [Path.fileStem?, houtput, Path.fileName?_join (Scenario.isFileName hname), Option.map_some,
      c.toList_fileName, Path.splitName_append hne (by decide), String.ofList_toList]
  rw [job, hstem]
  dsimp only
  rw [hscenario, c.resolve_elsewhere directory (Path.directory r.output)]
  cases hresolve : c.resolve directory with
  | error e => rfl
  | ok j =>
      have hjob : j.output = r.output :=
        houtput ▸ (Scenario.yields_of_resolve hresolve).2.output
      rw [← hjob]
      rfl

/-- **A single run** attempts to record its scenario. -/
theorem attempted {args : List String} {r : SingleRequest}
    (hargs : Request.ofArguments args = .ok (.single r)) (hname : isValidName c.name = true)
    (hscenario : r.scenario c.name = c) (hinput : r.input = input)
    (houtput : r.output = Path.join directory c.fileName) (s : Store) :
    c.Attempted input directory s ((runProgram args : StateM Store Ending) s) := by
  rw [runProgram_store hargs]
  simp only [Request.run, run, job_eq hname hscenario houtput]
  cases hresolve : c.resolve directory with
  | error e =>
      exact .refused (Outcome.fails_of_failure_eq_some rfl).not_succeeds
        (Scenario.not_records_of_resolve hresolve)
  | ok j =>
      simp only [liftError, bind, StateT.bind, Signal.load_store, hinput]
      cases hsignal : Signal.ofOpened input (s.openPath input) with
      | error e =>
          exact .refused (Outcome.fails_of_failure_eq_some rfl).not_succeeds
            (Scenario.not_records_of_signal hsignal)
      | ok signal =>
          dsimp only
          rcases j.run_store signal s with ⟨record, t, hwrites, hrun⟩ | ⟨e, hfails, hrun⟩
          · obtain ⟨result, hrunOn, ⟨_, -, rfl⟩ | ⟨_, _, hnot, -⟩⟩ := r.runOn_store hrun
            · simp only [StateT.bind, hrunOn]
              exact .recorded (Outcome.succeeds_of_failure_eq_none rfl)
                ⟨j, signal, hresolve, hsignal, hwrites⟩
            · cases hnot
          · obtain ⟨result, hrunOn, ⟨_, hnot, -⟩ | ⟨_, _, -, rfl⟩⟩ := r.runOn_store hrun
            · cases hnot
            · simp only [StateT.bind, hrunOn]
              exact .refused (Outcome.fails_of_failure_eq_some rfl).not_succeeds
                (Scenario.not_records_of_fails hresolve hsignal hfails)

end SingleRequest

/-! ## By a manifest that holds nothing else

A suite makes its output directory first, which could change the store where a single run would not.
So the directory is there from the start. -/

namespace SuiteRequest

omit [Trigonometry] in
theorem ok_eq_iff_selects {r : SuiteRequest} {m : Manifest} (honly : r.only = [])
    (hloads : r.Loads s m) (other : Manifest) :
    Except.ok m = (.ok other : Except ManifestError Manifest) ↔ r.Selects s other := by
  unfold Selects
  rw [honly]
  constructor
  · intro h
    exact ⟨m, hloads, h⟩
  · rintro ⟨loaded, hloaded, h⟩
    cases hloaded.unique hloads
    exact h

theorem resolve_singleton_iff {m : Manifest} (hscenarios : m.scenarios = [c]) (jobs : List Job) :
    m.resolve directory = .ok jobs ↔ ∃ j, c.resolve directory = .ok j ∧ jobs = [j] := by
  rw [Manifest.resolve_eq_ok_iff, hscenarios]
  constructor
  · rintro ⟨-, -, h⟩
    obtain ⟨j, rest, hj, hrest, rfl⟩ := List.forall₂_cons_left_iff.mp h
    rw [List.forall₂_nil_left_iff.mp hrest]
    exact ⟨j, hj, rfl⟩
  · rintro ⟨j, hj, rfl⟩
    exact ⟨List.cons_ne_nil _ _, List.nodup_singleton _, .cons hj .nil⟩

theorem planned_singleton_iff {r : SuiteRequest} {m : Manifest} (hinput : r.input = some input)
    (honly : r.only = []) (hloads : r.Loads s m) (hscenarios : m.scenarios = [c])
    (hdirectory : r.directory m = directory) (p : Plan) :
    r.Planned s p ↔ ∃ j signal, c.resolve directory = .ok j ∧
      Signal.ofOpened input (s.openPath input) = .ok signal ∧
      p = ⟨input, signal, directory, [j]⟩ := by
  rw [planned_iff (ok_eq_iff_selects honly hloads), hinput, hdirectory, Option.some_or]
  obtain ⟨planInput, signal, outputDirectory, jobs⟩ := p
  constructor
  · rintro ⟨h, hsignal, rfl, hjobs⟩
    cases h
    obtain ⟨j, hj, rfl⟩ := (resolve_singleton_iff hscenarios jobs).mp hjobs
    exact ⟨j, signal, hj, hsignal, rfl⟩
  · rintro ⟨j, signal', hj, hsignal, h⟩
    cases h
    exact ⟨rfl, hsignal, rfl, (resolve_singleton_iff hscenarios [j]).mpr ⟨j, hj, rfl⟩⟩

omit [Trigonometry] in
/-- Running a plan of one job in a directory that is there is running the job. -/
theorem run_singleton (input : String) {signal : Signal} {j : Job}
    {result : Except ProgramError Record} (hdirectory : s.leadsToDirectory directory = true)
    (h : (j.run signal : StateM Store (Except ProgramError Record)) s = (result, t)) :
    ∃ o, ((⟨input, signal, directory, [j]⟩ : Plan).run : StateM Store Outcome) s = (o, t) ∧
      ((∃ record, result = .ok record ∧ o.failure = none) ∨
        ∃ e, result = .error e ∧ o.failure = some e) := by
  unfold Plan.run
  simp only [bind, StateT.bind, FileAccess.makeDirectories,
    Store.makeDirectories_of_leads hdirectory, runJobs, h]
  cases result with
  | error e => exact ⟨_, rfl, Or.inr ⟨e, rfl, rfl⟩⟩
  | ok record => exact ⟨_, rfl, Or.inl ⟨record, rfl, rfl⟩⟩

/-- **A suite of one scenario** attempts to record it. -/
theorem attempted {args : List String} {r : SuiteRequest} {m : Manifest}
    (hargs : Request.ofArguments args = .ok (.suite r)) (hinput : r.input = some input)
    (honly : r.only = []) (hloads : r.Loads s m) (hscenarios : m.scenarios = [c])
    (hdirectory : r.directory m = directory) (hleads : s.leadsToDirectory directory = true) :
    c.Attempted input directory s ((runProgram args : StateM Store Ending) s) := by
  obtain ⟨result, hplan, hplanned⟩ := r.plan_store s
  simp only [planned_singleton_iff hinput honly hloads hscenarios hdirectory] at hplanned
  rw [runProgram_store hargs]
  simp only [Request.run, run, bind, StateT.bind, hplan]
  cases result with
  | error e =>
      refine .refused (Outcome.fails_of_failure_eq_some rfl).not_succeeds ?_
      rintro t ⟨j, signal, hj, hsignal, -⟩
      cases (hplanned _).mpr ⟨j, signal, hj, hsignal, rfl⟩
  | ok p =>
      obtain ⟨j, signal, hj, hsignal, rfl⟩ := (hplanned p).mp rfl
      rcases j.run_store signal s with ⟨record, t, hwrites, hrun⟩ | ⟨e, hfails, hrun⟩
      · obtain ⟨o, hrunPlan, ⟨_, -, hnone⟩ | ⟨_, hnot, -⟩⟩ :=
          run_singleton input hleads hrun
        · simp only [hrunPlan]
          exact .recorded (Outcome.succeeds_of_failure_eq_none hnone) ⟨j, signal, hj, hsignal, hwrites⟩
        · cases hnot
      · obtain ⟨o, hrunPlan, ⟨_, hnot, -⟩ | ⟨_, -, hsome⟩⟩ :=
          run_singleton input hleads hrun
        · cases hnot
        · simp only [hrunPlan]
          exact .refused (Outcome.fails_of_failure_eq_some hsome).not_succeeds
            (Scenario.not_records_of_fails hj hsignal hfails)

end SuiteRequest

/-! ## Agreement

The scenario may be spelled out in full, or asked for in any way that comes to the same request.
Spelled out, it can be refused as misuse, but only where no record could be made of it anyway. -/

/-- Arguments of the single command that ask for a scenario: its options spelled out, or any others
that make a request for it. -/
inductive Scenario.IsAskedBy (c : Scenario) (input output : String) : List String → Prop
  | spelled : IsAskedBy c input output (c.arguments input output)
  | requested {args : List String} {r : SingleRequest}
      (hargs : Request.ofArguments args = .ok (.single r)) (hinput : r.input = input)
      (houtput : r.output = output) (hscenario : r.scenario c.name = c) :
      IsAskedBy c input output args

omit [Trigonometry] in
theorem Signal.not_ofOpened_empty (s : Store) (xs : Signal) :
    ofOpened "" (s.openPath "") ≠ .ok xs := by
  have hopen : s.openPath "" = .error .notFound := rfl
  have hname : isWaveName "" = false := by decide +kernel
  rw [hopen, ofOpened, hname]
  intro h
  cases h

theorem Scenario.not_records_of_unspeakable
    (h : ¬ (c.denominator ≠ [] ∧ c.numerator ≠ some [] ∧ input ≠ "" ∧
      Path.join directory c.fileName ≠ "")) (hname : isValidName c.name = true) :
    ∀ t, ¬ c.Records input directory s t := by
  rintro t ⟨j, signal, hj, hsignal, -⟩
  obtain ⟨-, -, hdenominator, hnumerator⟩ :=
    violations_eq_nil (Scenario.yields_of_resolve hj).1
  refine h ⟨?_, ?_, ?_, ?_⟩
  · obtain ⟨lead, feedback, hcons, -⟩ := denominator_of_valid hdenominator
    rw [hcons]
    exact List.cons_ne_nil _ _
  · intro hempty
    rcases numerator_of_valid hnumerator with ⟨numerator, hsome, -, hne, -⟩ | ⟨d, hnone, -⟩
    · cases hempty.symm.trans hsome
      cases hne
    · cases hempty.symm.trans hnone
  · rintro rfl
    exact Signal.not_ofOpened_empty s signal hsignal
  · intro hempty
    have hcomponents : Path.components (Path.join directory c.fileName) = _ :=
      Path.components_join (Scenario.isFileName hname)
    rw [hempty] at hcomponents
    have hlength := congrArg List.length hcomponents
    rw [List.length_append] at hlength
    have hnone : (Path.components "").length = 0 := rfl
    rw [hnone, List.length_singleton] at hlength
    omega

theorem Scenario.IsAskedBy.attempted {args : List String} (hname : isValidName c.name = true)
    (hcounts : c.CountsFit) (hone : c.HasOneNumerator)
    (hargs : c.IsAskedBy input (Path.join directory c.fileName) args) (s : Store) :
    c.Attempted input directory s ((runProgram args : StateM Store Ending) s) := by
  cases hargs with
  | requested hargs hinput houtput hscenario =>
      exact SingleRequest.attempted hargs hname hscenario hinput houtput s
  | spelled =>
      have hargs := ofArguments_arguments hcounts hone input (Path.join directory c.fileName)
      split_ifs at hargs with hspeakable
      · exact SingleRequest.attempted hargs hname (scenario_request hone _ _) rfl rfl s
      · have hrun : (runProgram (c.arguments input (Path.join directory c.fileName)) :
            StateM Store Ending) s = (⟨2, "", usage⟩, s) := by
          simp only [runProgram, hargs]
          rfl
        rw [hrun]
        refine .refused ?_ (not_records_of_unspeakable hspeakable hname)
        rintro ⟨hzero, -⟩
        cases hzero

/-- **A single run and a suite agree.**  For a scenario with a valid name and either a numerator or
a design, a single run that is asked for it, and a suite of a manifest that holds nothing else, on
one signal and into one directory that is there: the one succeeds exactly if the other does, they
leave the same store behind, with the text of the record in the file of the scenario, and where they
do not succeed the store is as it was. -/
theorem single_agrees_with_suite {args args' : List String} {q : SuiteRequest} {m : Manifest}
    (hname : isValidName c.name = true) (hcounts : c.CountsFit) (hone : c.HasOneNumerator)
    (hleads : s.leadsToDirectory directory = true)
    (hargs : c.IsAskedBy input (Path.join directory c.fileName) args)
    (hargs' : Request.ofArguments args' = .ok (.suite q)) (hinput : q.input = some input)
    (honly : q.only = []) (hloads : q.Loads s m) (hscenarios : m.scenarios = [c])
    (hdirectory : q.directory m = directory) :
    let single := (runProgram args : StateM Store Ending) s
    let suite := (runProgram args' : StateM Store Ending) s
    (single.1.Succeeds ↔ suite.1.Succeeds) ∧ suite.2 = single.2 ∧
      (single.1.Succeeds → ∃ text : String,
        single.2.openPath (Path.join directory c.fileName) = .ok (.file text.toUTF8)) ∧
      (¬ single.1.Succeeds → single.2 = s) :=
  (hargs.attempted hname hcounts hone s).agree
    (SuiteRequest.attempted hargs' hinput honly hloads hscenarios hdirectory hleads)

end

/-- A filter with feedback, at every other sample. -/
def feedbackScenario : Scenario where
  name := "p.q"
  down := 2
  isFir := some false
  denominator := [1, -0.5]
  numerator := some [0.25]

/-- The scenario in a manifest, a signal, and a former file where the record goes. -/
def agreementFiles : Store where
  entries := [
    (["m.toml"], .file
      ("[[scenario]]\nname = \"p.q\"\ndown_sampling_factor = 2\nis_fir = false\n" ++
        "a = [1.0, -0.5]\nb = [0.25]\n").toUTF8 0o644),
    (["x.txt"], .file "1\n-2\n3\n".toUTF8 0o644),
    (["out"], .directory 0o755),
    (["out", "p.q.json"], .file "former".toUTF8 0o600)]

theorem load_agreementFiles :
    (Manifest.load "m.toml" : StateM Store (Except ManifestError Manifest)) agreementFiles =
      (.ok { scenarios := [feedbackScenario], base := some "" }, agreementFiles) :=
  Manifest.load_eq (by decide +kernel)

/-- The scenario is spelled out and recorded both ways, in the place of the former file. -/
theorem single_agrees_with_suite_feedback :
    feedbackScenario.arguments "x.txt" "out/p.q.json" =
        ["run", "--down=2", "--up=1", "--a=1,-0.5", "--b=0.25", "--fir=false", "--", "x.txt",
          "out/p.q.json"] ∧
      ∃ (t : Store) (text : String),
        ((runProgram (feedbackScenario.arguments "x.txt" "out/p.q.json") :
          StateM Store Ending) agreementFiles).2 = t ∧
        ((runProgram ["generate", "x.txt", "-m", "m.toml", "-o", "out"] :
          StateM Store Ending) agreementFiles).2 = t ∧
        t.openPath "out/p.q.json" = .ok (.file text.toUTF8) := by
  have hspelled : feedbackScenario.arguments "x.txt" "out/p.q.json" =
      ["run", "--down=2", "--up=1", "--a=1,-0.5", "--b=0.25", "--fir=false", "--", "x.txt",
        "out/p.q.json"] := by decide +kernel
  have hargs : Request.ofArguments ["generate", "x.txt", "-m", "m.toml", "-o", "out"] =
      .ok (.suite ⟨some "x.txt", some "m.toml", some "out", []⟩) := by decide +kernel
  have hloads : SuiteRequest.Loads ⟨some "x.txt", some "m.toml", some "out", []⟩ agreementFiles
      { scenarios := [feedbackScenario], base := some "" } := load_agreementFiles
  have hname : isValidName feedbackScenario.name = true := by decide +kernel
  have hcounts : feedbackScenario.CountsFit := ⟨by decide, by decide, fun d hd => by cases hd⟩
  have hleads : agreementFiles.leadsToDirectory "out" = true := by decide +kernel
  have hcode : ((runProgram ["generate", "x.txt", "-m", "m.toml", "-o", "out"] :
      StateM Store Ending) agreementFiles).1.code = 0 := by decide +kernel
  have hcomplaint : ((runProgram ["generate", "x.txt", "-m", "m.toml", "-o", "out"] :
      StateM Store Ending) agreementFiles).1.complaint = "" := by decide +kernel
  obtain ⟨hiff, hsame, htext, -⟩ := single_agrees_with_suite hname hcounts rfl hleads
    (.spelled : feedbackScenario.IsAskedBy "x.txt" _ _) hargs rfl rfl hloads rfl rfl
  obtain ⟨text, htext⟩ := htext (hiff.mpr ⟨hcode, hcomplaint⟩)
  exact ⟨hspelled, _, text, rfl, hsame, htext⟩

end FilterReference
