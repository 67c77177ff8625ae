/-
# What validation leaves for resolution to find

A valid scenario has nothing wrong with its factors, its denominator and a numerator it gives.  A
design it gives is checked in what it spells out only: its defaults, and the taps that come out of
it, are not looked at before it is resolved.  `Scenario.latentFault?` is what can be wrong with
those, and a valid manifest is resolved exactly if no scenario has such a fault
(`Manifest.resolve_of_valid`).  The default cutoff is one of them whenever a scenario does not lower
the rate (`defaultCutoff_admissible_iff`).
-/
import FilterReference.Proofs.Binary.Counts
import FilterReference.Proofs.Signal.Checks
import FilterReference.Proofs.Signal.Designs
import FilterReference.Proofs.Traversal
import FilterReference.Manifest.Basic

namespace FilterReference

open Binary

theorem Violations.check_eq_ok_iff {vs : List Violation} : Violations.check vs = .ok () ↔ vs = [] := by
  match vs with
  | [] => exact ⟨fun _ => rfl, fun _ => rfl⟩
  | [_] | _ :: _ :: _ => constructor <;> (intro h; cases h)

namespace Scenario

theorem denominator_of_valid {c : Scenario} (h : c.denominatorFaults = []) :
    ∃ lead feedback, c.denominator = lead :: feedback ∧ (lead == 0) = false ∧
      firstNonFinite? c.denominator = none := by
  unfold denominatorFaults at h
  obtain ⟨hlead, hfinite⟩ := List.append_eq_nil_iff.mp h
  split at hlead
  · cases hlead
  · rename_i lead feedback heq
    split_ifs at hlead hfinite with hzero hany
    refine ⟨lead, feedback, heq, ?_, firstNonFinite?_eq_none_iff.mpr (by simpa using hany)⟩
    simpa using hzero

theorem numerator_of_valid {c : Scenario} (h : c.numeratorFaults = []) :
    (∃ numerator, c.numerator = some numerator ∧ c.design = none ∧ numerator.isEmpty = false ∧
        firstNonFinite? numerator = none) ∨
      ∃ d, c.numerator = none ∧ c.design = some d ∧ d.taps ≠ some 0 := by
  unfold numeratorFaults at h
  split at h
  · cases h
  · cases h
  · rename_i numerator hnumerator hdesign
    unfold coefficientFaults at h
    split_ifs at h with hempty hany
    exact Or.inl ⟨numerator, hnumerator, hdesign, by simpa using hempty,
      firstNonFinite?_eq_none_iff.mpr (by simpa using hany)⟩
  · rename_i d hnumerator hdesign
    unfold designFaults at h
    obtain ⟨htaps, -⟩ := List.append_eq_nil_iff.mp h
    split_ifs at htaps with hzero
    exact Or.inr ⟨d, hnumerator, hdesign, hzero⟩

theorem violations_eq_nil {c : Scenario} (h : c.violations = []) :
    0 < c.down ∧ 0 < c.up ∧ c.denominatorFaults = [] ∧ c.numeratorFaults = [] := by
  unfold violations at h
  obtain ⟨-, hfaults⟩ := List.append_eq_nil_iff.mp h
  obtain ⟨hpair, hnumerator⟩ := List.append_eq_nil_iff.mp (List.map_eq_nil_iff.mp hfaults)
  obtain ⟨hfactors, hdenominator⟩ := List.append_eq_nil_iff.mp hpair
  unfold factorFaults at hfactors
  obtain ⟨hdown, hup⟩ := List.append_eq_nil_iff.mp hfactors
  split_ifs at hdown hup
  exact ⟨by omega, by omega, hdenominator, hnumerator⟩

end Scenario

/-! ## Designs with their defaults

A design is completed by the resolution: the number of taps by a constant, the cutoff by the ratio
of the factors.  The completed design is what is checked last, and what a valid scenario can still
fail by. -/

def LowpassDesign.count (d : LowpassDesign) : Nat := d.taps.getD Lowpass.defaultTaps

def Scenario.cutoffOf (c : Scenario) (d : LowpassDesign) : Float :=
  d.cutoff.getD (ofCount c.up / ofCount c.down)

/-- What can be wrong with a scenario that is valid: the cutoff of its design, which may be the
default, is out of range, its taps are too many, or one of them is not finite. -/
def Scenario.latentFault? [Trigonometry] (c : Scenario) : Option SignalError :=
  match c.design with
  | none => none
  | some d =>
    if 0 < c.cutoffOf d ∧ c.cutoffOf d < 1 then
      if maxNumbers < d.count then some .tooManyNumbers
      else
        (firstNonFinite? (Lowpass.taps Lowpass.floatCircular (c.cutoffOf d) d.count)).map
          fun i => .invalidFilter (.nonFinite .numerator i)
    else some (.invalidDesign (.cutoffOutOfRange (c.cutoffOf d)))

/-- The coefficients that a scenario without faults is run with. -/
def Scenario.coefficients [Trigonometry] (c : Scenario) : List Float :=
  match c.numerator, c.design with
  | some numerator, _ => numerator
  | none, some d => Lowpass.taps Lowpass.floatCircular (c.cutoffOf d) d.count
  | none, none => []

theorem ratio_eq {factors : Factors} (hdown : factors.down ≤ 2 ^ 53) (hup : factors.up ≤ 2 ^ 53) :
    factors.ratio = ofQuotient false factors.up factors.down := by
  obtain ⟨hfinite, hpositive, hsize⟩ := ofCount_exact hup
  obtain ⟨hfinite', hpositive', hsize'⟩ := ofCount_exact hdown
  have hne : magnitude (ofCount factors.down) ≠ 0 := by
    intro hzero
    rw [size_eq_zero hzero] at hsize'
    exact (Nat.ne_of_gt factors.down_pos) (by exact_mod_cast hsize'.symm)
  rw [Factors.ratio, div_eq hfinite hfinite' hne (Nat.ne_of_gt factors.down_pos)
    (by rw [hsize, hsize']), hpositive, hpositive']
  rfl

/-- **The default cutoff** can be used exactly if the rate is lowered. -/
theorem defaultCutoff_admissible_iff {factors : Factors} (hdown : factors.down ≤ 2 ^ 53)
    (hup : factors.up ≤ 2 ^ 53) :
    (0 < Lowpass.defaultCutoff factors ∧ Lowpass.defaultCutoff factors < 1) ↔
      factors.up < factors.down := by
  have hd : (1 : ℚ) ≤ factors.down := by exact_mod_cast factors.down_pos
  have hu : (1 : ℚ) ≤ factors.up := by exact_mod_cast factors.up_pos
  have hd' : (factors.down : ℚ) ≤ 2 ^ 53 := by exact_mod_cast hdown
  have hu' : (factors.up : ℚ) ≤ 2 ^ 53 := by exact_mod_cast hup
  have hne : factors.down ≠ 0 := Nat.ne_of_gt factors.down_pos
  have hlow : (1 / 2 ^ 53 : ℚ) ≤ factors.up / factors.down :=
    div_le_div₀ (by linarith) hu (by linarith) hd'
  have hhigh : (factors.up / factors.down : ℚ) ≤ 2 ^ 53 := by
    rw [div_le_iff₀ (by linarith)]
    linarith
  have hratio := rounds_ofQuotient hne rfl
    (ordinary_of_bounds (by linarith) (by linarith) : Ordinary (factors.up / factors.down))
  obtain ⟨hzero, hzero', hzerosize⟩ := ofCount_exact (n := 0) (by norm_num)
  obtain ⟨hone, hone', honesize⟩ := ofCount_exact (n := 1) (by norm_num)
  rw [Lowpass.defaultCutoff, ratio_eq hdown hup, show (0 : Float) = ofCount 0 from rfl,
    show (1 : Float) = ofCount 1 from rfl,
    lt_iff_size_lt hzero hratio.finite hzero' hratio.positive,
    lt_iff_size_lt hratio.finite hone hratio.positive hone', hzerosize, honesize, Nat.cast_zero,
    Nat.cast_one]
  constructor
  · rintro ⟨-, hlt⟩
    by_contra hge
    have hle : ((1 : Nat) : ℚ) ≤ factors.up / factors.down := by
      rw [Nat.cast_one, one_le_div (by linarith)]
      exact_mod_cast Nat.not_lt.mp hge
    have := natCast_le_size false hne (by norm_num) hle
    rw [Nat.cast_one] at this
    linarith
  · intro hlt
    obtain ⟨hbelow, habove⟩ := abs_le.mp hratio.error
    refine ⟨by linarith, ?_⟩
    -- A quotient below one is so by at least the `2 ^ 53`rd part, which rounding does not make up.
    have hquotient : (factors.up / factors.down : ℚ) ≤ 1 - 1 / 2 ^ 53 := by
      have hstep : (factors.up : ℚ) + 1 ≤ factors.down := by exact_mod_cast hlt
      rw [div_le_iff₀ (by linarith), sub_mul, one_mul]
      linarith
    linarith

/-- What a scenario is turned into: a job with its factors, its coefficients and its file. -/
structure Scenario.Yields [Trigonometry] (directory : String) (c : Scenario) (j : Job) : Prop where
  name : j.name = c.name
  down : j.factors.down = c.down
  up : j.factors.up = c.up
  denominator : j.filter.denominator = c.denominator
  numerator : j.filter.numerator = c.coefficients
  isFir : j.isFir = c.flag
  output : j.output = Path.join directory c.fileName

/-! ## Parts of the resolution

A numerator is given or designed, and from there on the resolution is the same.  So it is taken
apart at the coefficients. -/

namespace Scenario

variable [Trigonometry] {c : Scenario} {d : LowpassDesign} {numerator : List Float}

theorem resolveNumerator_of_numerator (factors : Factors) (hn : c.numerator = some numerator)
    (hd : c.design = none) : c.resolveNumerator factors = .ok numerator := by
  rw [resolveNumerator, hn, hd]

theorem resolveNumerator_of_design (factors : Factors) (hn : c.numerator = none)
    (hd : c.design = some d) (hcount : d.count ≠ 0)
    (hcutoff : Lowpass.defaultCutoff factors = ofCount c.up / ofCount c.down) :
    c.resolveNumerator factors =
      if 0 < c.cutoffOf d ∧ c.cutoffOf d < 1 then
        if maxNumbers < d.count then c.fail .tooManyNumbers
        else .ok (Lowpass.taps Lowpass.floatCircular (c.cutoffOf d) d.count)
      else c.fail (.invalidDesign (.cutoffOutOfRange (c.cutoffOf d))) := by
  have hdesign := Lowpass.design_eq hcount (c.cutoffOf d)
  rw [LowpassDesign.count, cutoffOf] at hdesign ⊢
  rw [resolveNumerator, hn, hd, hcutoff]
  dsimp only
  rw [hdesign]
  split_ifs <;> rfl

theorem resolveWarned_of_error (directory : String) {cause : SignalError} (hvalid : c.violations = [])
    (hdown : 0 < c.down) (hup : 0 < c.up)
    (hn : c.resolveNumerator ⟨c.down, c.up, hdown, hup⟩ = c.fail cause) :
    c.resolveWarned directory = .error (.scenario c.name cause) := by
  have hvalidate : c.validate = .ok () := Violations.check_eq_ok_iff.mpr hvalid
  rw [resolveWarned, hvalidate, Factors.make_eq_ok hdown hup]
  simp only [hn]
  rfl

theorem resolveWarned_of_parts (directory : String) (hvalid : c.violations = [])
    (hdown : 0 < c.down) (hup : 0 < c.up)
    (hn : c.resolveNumerator ⟨c.down, c.up, hdown, hup⟩ = .ok numerator) :
    (∀ fault, filterFault? c.denominator numerator = some fault →
      c.resolveWarned directory = .error (.scenario c.name (.invalidFilter fault))) ∧
    (filterFault? c.denominator numerator = none → numerator = c.coefficients →
      ∃ job warnings, c.resolveWarned directory = .ok (job, warnings) ∧
        c.Yields directory job) := by
  have hvalidate : c.validate = .ok () := Violations.check_eq_ok_iff.mpr hvalid
  constructor
  · intro fault hfault
    rw [resolveWarned, hvalidate, Factors.make_eq_ok hdown hup]
    simp only [hn, bind, Except.bind, Filter.make_eq_error hfault]
    rfl
  · intro hnone hcoefficients
    rw [resolveWarned, hvalidate, Factors.make_eq_ok hdown hup]
    simp only [hn, bind, Except.bind, Filter.make_eq_ok hnone]
    exact ⟨_, _, rfl, rfl, rfl, rfl, rfl, hcoefficients, rfl, rfl⟩

/-- **A valid scenario** is resolved, or it has a latent fault and fails with it. -/
theorem resolveWarned_of_valid (directory : String) (hvalid : c.violations = []) :
    match c.latentFault? with
    | some cause => c.resolveWarned directory = .error (.scenario c.name cause)
    | none => ∃ job warnings, c.resolveWarned directory = .ok (job, warnings) ∧
        c.Yields directory job := by
  obtain ⟨hdown, hup, hdenominator, hnumerator⟩ := violations_eq_nil hvalid
  obtain ⟨lead, feedback, hlist, hlead, hfinite⟩ := denominator_of_valid hdenominator
  have hfault : ∀ xs : List Float, xs.isEmpty = false → filterFault? c.denominator xs =
      (firstNonFinite? xs).map (.nonFinite .numerator) := by
    intro xs hxs
    rw [hlist] at hfinite ⊢
    exact filterFault?_of_denominator hlead hfinite hxs
  rcases numerator_of_valid hnumerator with ⟨numerator, hn, hd, hempty, hall⟩ | ⟨d, hn, hd, htaps⟩
  · have hlatent : c.latentFault? = none := by rw [latentFault?, hd]
    have hresolve :=
      resolveNumerator_of_numerator (c := c) ⟨c.down, c.up, hdown, hup⟩ hn hd
    rw [hlatent]
    refine (resolveWarned_of_parts directory hvalid hdown hup hresolve).2 ?_ ?_
    · rw [hfault numerator hempty, hall]
      rfl
    · rw [coefficients, hn]
  · have hcount : d.count ≠ 0 := by
      unfold LowpassDesign.count
      cases ht : d.taps with
      | none => exact (by decide : Lowpass.defaultTaps ≠ 0)
      | some n => exact fun hzero => htaps (by rw [ht, show n = 0 from hzero])
    have hresolve :=
      resolveNumerator_of_design ⟨c.down, c.up, hdown, hup⟩ hn hd hcount rfl
    rw [latentFault?, hd]
    by_cases hrange : 0 < c.cutoffOf d ∧ c.cutoffOf d < 1
    · by_cases hmany : maxNumbers < d.count
      · simp only [if_pos hrange, if_pos hmany] at hresolve ⊢
        exact resolveWarned_of_error directory hvalid hdown hup hresolve
      · simp only [if_pos hrange, if_neg hmany] at hresolve ⊢
        have hparts := resolveWarned_of_parts directory hvalid hdown hup hresolve
        rw [hfault _ (Lowpass.taps_isEmpty hcount _)] at hparts
        cases hfirst : firstNonFinite? (Lowpass.taps Lowpass.floatCircular (c.cutoffOf d) d.count) with
        | some i => exact hparts.1 _ (by rw [hfirst]; rfl)
        | none => exact hparts.2 (by rw [hfirst]; rfl) (by rw [coefficients, hn, hd])
    · simp only [if_neg hrange] at hresolve ⊢
      exact resolveWarned_of_error directory hvalid hdown hup hresolve

end Scenario

/-! ## Whole manifests

The first scenario that cannot be resolved ends the resolution of a manifest.  In a valid manifest
that is the first with a latent fault. -/

theorem violations_of_violationsAfter {seen : List String} {cs : List Scenario}
    (h : violationsAfter seen cs = []) : ∀ c ∈ cs, c.violations = [] := by
  induction cs generalizing seen with
  | nil => exact fun c hc => absurd hc List.not_mem_nil
  | cons c cs ih =>
      rw [violationsAfter] at h
      obtain ⟨hfirst, hrest⟩ := List.append_eq_nil_iff.mp h
      exact List.forall_mem_cons.mpr ⟨(List.append_eq_nil_iff.mp hfirst).2, ih hrest⟩

theorem violations_of_validate {m : Manifest} (h : m.validate = .ok ()) :
    ∀ c ∈ m.scenarios, c.violations = [] := by
  unfold Manifest.validate validateAll at h
  split_ifs at h
  exact violations_of_violationsAfter (Violations.check_eq_ok_iff.mp h)

section

variable [Trigonometry]

/-- The error that the latent fault of a scenario leads to. -/
def Scenario.latentError? (c : Scenario) : Option ManifestError :=
  c.latentFault?.map (.scenario c.name)

/-- Valid scenarios are resolved up to the first latent fault. -/
theorem resolveEach_of_valid (directory : String) {cs : List Scenario}
    (h : ∀ c ∈ cs, c.violations = []) :
    match cs.findSome? Scenario.latentError? with
    | some e => resolveEach directory cs = .error e
    | none => ∃ jobs warnings, resolveEach directory cs = .ok (jobs, warnings) ∧
        List.Forall₂ (Scenario.Yields directory) cs jobs := by
  induction cs with
  | nil => exact ⟨[], [], rfl, .nil⟩
  | cons c cs ih =>
      obtain ⟨hc, hcs⟩ := List.forall_mem_cons.mp h
      have hfirst := Scenario.resolveWarned_of_valid directory hc
      specialize ih hcs
      rw [List.findSome?_cons, Scenario.latentError?]
      cases hlatent : c.latentFault? with
      | some cause =>
          rw [hlatent] at hfirst
          simp only [Option.map_some]
          rw [resolveEach, hfirst]
          rfl
      | none =>
          rw [hlatent] at hfirst
          obtain ⟨job, warnings, hjob, hyields⟩ := hfirst
          simp only [Option.map_none]
          cases hrest : cs.findSome? Scenario.latentError? with
          | some e =>
              rw [hrest] at ih
              simp only at ih ⊢
              rw [resolveEach, hjob]
              simp only [bind, Except.bind, ih]
          | none =>
              rw [hrest] at ih
              obtain ⟨jobs, others, hjobs, hall⟩ := ih
              refine ⟨job :: jobs, warnings ++ others, ?_, .cons hyields hall⟩
              rw [resolveEach, hjob]
              simp only [bind, Except.bind, hjobs]
              rfl

/-- **Resolution of a valid manifest** succeeds exactly if no scenario has a latent fault, with one
job for each scenario, in order; otherwise it fails with the first latent fault. -/
theorem Manifest.resolve_of_valid {m : Manifest} (directory : String) (h : m.validate = .ok ()) :
    ((∃ jobs, m.resolve directory = .ok jobs) ↔ ∀ c ∈ m.scenarios, c.latentFault? = none) ∧
    (∀ jobs, m.resolve directory = .ok jobs →
      List.Forall₂ (Scenario.Yields directory) m.scenarios jobs) ∧
    (∀ e, m.resolve directory = .error e → m.scenarios.findSome? Scenario.latentError? = some e) := by
  have heach := resolveEach_of_valid directory (violations_of_validate h)
  have hresolve : m.resolve directory = (·.1) <$> resolveEach directory m.scenarios := by
    rw [Manifest.resolve, Manifest.resolveWarned, h]
  rw [hresolve]
  cases hfirst : m.scenarios.findSome? Scenario.latentError? with
  | some e =>
      rw [hfirst] at heach
      simp only at heach
      rw [heach]
      refine ⟨⟨?_, fun hnone => ?_⟩, ?_, ?_⟩
      · rintro ⟨_, hjobs⟩
        cases hjobs
      · obtain ⟨c, hc, herror⟩ := List.exists_of_findSome?_eq_some hfirst
        rw [Scenario.latentError?, hnone c hc] at herror
        cases herror
      · intro _ hjobs
        cases hjobs
      · intro e' he
        cases he
        rfl
  | none =>
      rw [hfirst] at heach
      obtain ⟨jobs, warnings, hjobs, hall⟩ := heach
      rw [hjobs]
      refine ⟨⟨fun _ c hc => ?_, fun _ => ⟨jobs, rfl⟩⟩, fun jobs' h' => ?_, fun _ he => ?_⟩
      · have := List.findSome?_eq_none_iff.mp hfirst c hc
        rwa [Scenario.latentError?, Option.map_eq_none_iff] at this
      · cases h'
        exact hall
      · cases he

end

/-- A design that leaves everything to its defaults has nothing wrong with it where the rate is
lowered. -/
theorem Scenario.latentFault?_of_defaults [Trigonometry] (h : Accurate) {c : Scenario}
    (hdesign : c.design = some {}) (hlowers : c.up < c.down) (hup : 0 < c.up)
    (hdown : c.down ≤ 2 ^ 53) : c.latentFault? = none := by
  have hrange : 0 < c.cutoffOf {} ∧ c.cutoffOf {} < 1 :=
    (@defaultCutoff_admissible_iff ⟨c.down, c.up, by omega, hup⟩ hdown
      (hlowers.le.trans hdown)).mpr hlowers
  have hcount : ({} : LowpassDesign).count = 30 := rfl
  have hfed : ¬ Lowpass.Starved 30 (c.cutoffOf {}) := fun hstarved =>
    absurd hstarved.1 (by decide)
  have hfinite := (Lowpass.taps_usable_iff h hrange.1 hrange.2 (by norm_num) (by norm_num)).1.mpr hfed
  rw [latentFault?, hdesign]
  dsimp only
  rw [if_pos hrange, hcount, if_neg (by decide), firstNonFinite?_eq_none_iff.mpr hfinite]
  rfl

/-- A scenario with a numerator, and one with a design that says neither how many taps it has nor
where it cuts off: their jobs, with a library that rounds. -/
theorem Manifest.resolve_of_valid_defaults :
    let _ := roundedTrigonometry
    let designed : Scenario := { name := "s", down := 3, up := 2, design := some {} }
    let m : Manifest := { scenarios := [.passThrough "p", designed] }
    m.validate = .ok () ∧ ∃ j k, m.resolve "out" = .ok [j, k] ∧
      j.filter.numerator = [1] ∧ j.output = "out/p.json" ∧
      k.filter.numerator = Lowpass.taps Lowpass.floatCircular (ofCount 2 / ofCount 3) 30 ∧
      k.output = "out/s.json" := by
  intro _ designed m
  have hvalid : m.validate = .ok () := by decide +kernel
  have hnone : ∀ c ∈ m.scenarios, c.latentFault? = none := by
    intro c hc
    rcases List.mem_pair.mp hc with rfl | rfl
    · rfl
    · exact Scenario.latentFault?_of_defaults accurate_rounded rfl (by decide) (by decide)
        (by norm_num)
  obtain ⟨hiff, hjobs, -⟩ := Manifest.resolve_of_valid "out" hvalid
  obtain ⟨jobs, hresolve⟩ := hiff.mpr hnone
  obtain ⟨j, rest, hj, hrest, rfl⟩ := List.forall₂_cons_left_iff.mp (hjobs jobs hresolve)
  obtain ⟨k, others, hk, hothers, rfl⟩ := List.forall₂_cons_left_iff.mp hrest
  obtain rfl := List.forall₂_nil_left_iff.mp hothers
  have houtput : Path.join "out" designed.fileName = "out/s.json" := by decide +kernel
  exact ⟨hvalid, j, k, hresolve, hj.numerator, hj.output, hk.numerator, hk.output.trans houtput⟩

/-- A design that leaves everything to its defaults, in a scenario that does not change the rate: it
is valid, and its default cutoff of one is refused. -/
theorem Manifest.resolve_design_defaults :
    { scenarios := [{ name := "s", design := some {} }] : Manifest }.validate = .ok () ∧
      { scenarios := [{ name := "s", design := some {} }] : Manifest }.resolve "out" =
        .error (.scenario "s" (.invalidDesign (.cutoffOutOfRange 1))) := by
  refine ⟨by decide +kernel, ?_⟩
  rfl

end FilterReference
