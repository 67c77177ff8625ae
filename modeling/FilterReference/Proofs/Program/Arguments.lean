/-
# Scenarios spelled out as arguments

Every scenario can be spelled out in options, each in one argument with its value, and what the
values of these options are read as are the fields of the scenario again.  Only an empty list of
coefficients has no value that stands for it, so that arguments with one are refused, as they are
where the input or the output has no name.  In all other cases the arguments ask for the very
scenario (`Scenario.ofArguments_arguments`).
-/
import FilterReference.Proofs.Decimal.Notation
import FilterReference.Program.Execution

namespace FilterReference

open Arguments

/-! ## Values

An argument is a text, and every value has one that it is read from again, except for the empty list
of numbers: its text would be empty, and an empty text is no number. -/

theorem toList_toString (n : Nat) : (toString n).toList = Nat.toDigits 10 n := by
  change (String.ofList (Nat.toDigits 10 n)).toList = _
  rw [String.toList_ofList]

theorem readCount?_toString {n : Nat} (h : n < 2 ^ 64) : readCount? (toString n) = some n := by
  have hmax : n ≤ Binary.maxCount := Nat.le_sub_one_of_lt h
  have hvalue := digitsValue_toDigits n
  have hall := allDigits_toDigits n
  obtain ⟨d, ds, hdigits⟩ := List.exists_cons_of_ne_nil
    (Nat.toDigits_ne_nil : Nat.toDigits 10 n ≠ [])
  rw [hdigits] at hvalue hall
  have hsign : d ≠ '+' := by
    rintro rfl
    cases hall '+' List.mem_cons_self
  have hdigit : (d :: ds).all Char.isDigit = true := List.all_eq_true.mpr hall
  rw [readCount?, toList_toString, hdigits]
  split
  · rename_i hplus
    exact absurd (List.cons.inj hplus).1 hsign
  · rw [hdigit, hvalue]
    exact if_pos hmax

theorem readTruth?_toString (b : Bool) : readTruth? (toString b) = some b := by
  cases b <;> rfl

theorem splitCommas_eq_splitOn (cs : List Char) : splitCommas cs = cs.splitOn ',' := by
  induction cs with
  | nil => rfl
  | cons c cs ih =>
      obtain ⟨part, parts, hparts⟩ := List.exists_cons_of_ne_nil
        (List.splitOnP_ne_nil (· == ',') cs)
      rw [List.splitOn, hparts] at ih
      rw [splitCommas, ih, List.splitOn, List.splitOnP_cons_eq_if_modifyHead, hparts]
      by_cases hc : c = ','
      · simp [hc]
      · simp [hc]

/-- Numbers in the notation of messages, separated by commas. -/
def numbersText (xs : List Float) : String :=
  String.ofList ([','].intercalate (xs.map Layout.plain.chars))

theorem mapM_readFloat? (xs : List Float) :
    (xs.map Layout.plain.chars).mapM readFloat? = some xs := by
  induction xs with
  | nil => rfl
  | cons x xs ih =>
      rw [List.map_cons, List.mapM_cons, readFloat?_plain, ih]
      rfl

theorem readFloats?_numbersText (xs : List Float) :
    readFloats? [numbersText xs] = if xs = [] then none else some xs := by
  split_ifs with hempty
  · rw [hempty]
    rfl
  · have hcomma : ∀ part ∈ xs.map Layout.plain.chars, ',' ∉ part := by
      intro part hpart hmem
      obtain ⟨x, -, rfl⟩ := List.mem_map.mp hpart
      exact (isNumberChar_plain x ',' hmem).bounds.2.2 rfl
    have hsome : xs.map Layout.plain.chars ≠ [] := mt List.map_eq_nil_iff.mp hempty
    rw [readFloats?, List.flatMap_singleton, numbersText, String.toList_ofList,
      splitCommas_eq_splitOn, List.splitOn_intercalate ',' hcomma hsome, mapM_readFloat?]

/-! ## Sorting spelled-out options

An option spelled with its value in one argument leaves nothing pending, so a list of such options
is sorted one by one, in any state.  The values are admitted up to the first that is not. -/

namespace Arguments

/-- An option by its long name, with its value in the same argument. -/
def spell (o : String × String) : String := "--" ++ o.1 ++ "=" ++ o.2

theorem splitEquals_append {name : List Char} (h : '=' ∉ name) (value : List Char) :
    splitEquals (name ++ '=' :: value) = (name, some value) := by
  induction name with
  | nil => rw [List.nil_append, splitEquals, if_pos rfl]
  | cons c name ih =>
      rw [List.mem_cons, not_or] at h
      rw [List.cons_append, splitEquals, if_neg (Ne.symm h.1), ih h.2]

theorem look_spell {o : String × String} (h : '=' ∉ o.1.toList) :
    look (spell o).toList = .long o.1.toList (some o.2.toList) := by
  have hchars : (spell o).toList = '-' :: '-' :: (o.1.toList ++ '=' :: o.2.toList) := by
    simp [spell]
  have hsplit := splitEquals_append h o.2.toList
  obtain ⟨c, cs, hcons⟩ := List.exists_cons_of_ne_nil
    (by simp : o.1.toList ++ '=' :: o.2.toList ≠ [])
  rw [hcons] at hsplit
  rw [hchars, hcons]
  simp only [look, hsplit]

/-- An option with a value is one of those that a command takes. -/
structure Known (forms : List OptionForm) (o : String × String) (f : OptionForm) : Prop where
  found : forms.find? (·.name = o.1) = some f
  arity : f.arity.admits 1 = true
  noEquals : '=' ∉ o.1.toList

theorem Known.name {forms : List OptionForm} {o : String × String} {f : OptionForm}
    (h : Known forms o f) : f.name = o.1 := by
  have hname := List.find?_some h.found
  exact of_decide_eq_true hname

theorem sortFrom_spell {form : CommandForm} {o : String × String} {f : OptionForm}
    (h : Known form.options o f) (s : Sorted) (rest : List String) :
    sortFrom form s none (spell o :: rest) =
      s.add f [o.2] >>= fun s => sortFrom form s none rest := by
  have harity : f.arity ≠ .none := by
    intro hnone
    have hadmits := h.arity
    rw [hnone] at hadmits
    cases hadmits
  rw [sortFrom, look_spell h.noEquals]
  simp only [close, takeLong, String.ofList_toList, h.found, takeOption, if_neg harity, bind,
    Except.bind]
  cases s.add f [o.2] <;> rfl

theorem Known.add {forms : List OptionForm} {o : String × String} {f : OptionForm}
    (h : Known forms o f) {s : Sorted} (hnew : s.has o.1 = false) :
    s.add f [o.2] =
      if f.kind.admits o.2 then .ok { s with options := s.options ++ [(o.1, [o.2])] }
      else .error .misuse := by
  have harity : f.arity.admits [o.2].length = true := h.arity
  unfold Sorted.add
  rw [h.name, hnew, harity]
  simp

/-- **Known options with admitted values** are sorted in the order that they come in. -/
theorem sortFrom_options {form : CommandForm} {opts : List (String × String)} {s : Sorted}
    (hopts : ∀ o ∈ opts, ∃ f, Known form.options o f ∧ f.kind.admits o.2 = true)
    (hnew : ∀ o ∈ opts, s.has o.1 = false) (hnodup : (opts.map (·.1)).Nodup)
    (rest : List String) :
    sortFrom form s none (opts.map spell ++ rest) =
      sortFrom form { s with options := s.options ++ opts.map fun o => (o.1, [o.2]) } none rest := by
  induction opts generalizing s with
  | nil => simp
  | cons o opts ih =>
      obtain ⟨⟨f, hf, hadmits⟩, hopts⟩ := List.forall_mem_cons.mp hopts
      obtain ⟨hfirst, hnew⟩ := List.forall_mem_cons.mp hnew
      obtain ⟨hnot, hnodup⟩ := List.nodup_cons.mp hnodup
      have hstep := hf.add hfirst
      rw [if_pos hadmits] at hstep
      have hagain : ∀ p ∈ opts,
          ({ s with options := s.options ++ [(o.1, [o.2])] } : Sorted).has p.1 = false := by
        intro p hp
        have hne : o.1 ≠ p.1 := fun heq => hnot (List.mem_map.mpr ⟨p, hp, heq.symm⟩)
        rw [Sorted.has, List.any_append, ← Sorted.has, hnew p hp]
        simp [hne]
      rw [List.map_cons, List.cons_append, sortFrom_spell hf, hstep]
      refine (ih hopts hagain hnodup).trans ?_
      simp

theorem sortFrom_refused {form : CommandForm} {before after : List (String × String)}
    {o : String × String} {f : OptionForm}
    (hbefore : ∀ o ∈ before, ∃ f, Known form.options o f ∧ f.kind.admits o.2 = true)
    (hnodup : ((before ++ [o]).map (·.1)).Nodup) (hf : Known form.options o f)
    (hrefused : f.kind.admits o.2 = false) (rest : List String) :
    sortFrom form {} none ((before ++ o :: after).map spell ++ rest) = .error .misuse := by
  rw [List.map_append, List.nodup_append] at hnodup
  have hnew : ({ options := before.map fun o => (o.1, [o.2]) } : Sorted).has o.1 = false := by
    rw [Sorted.has, List.any_eq_false]
    intro p hp
    obtain ⟨q, hq, rfl⟩ := List.mem_map.mp hp
    simpa using hnodup.2.2 q.1 (List.mem_map_of_mem hq) o.1 (by simp)
  have hstep := hf.add hnew
  rw [hrefused, if_neg Bool.false_ne_true] at hstep
  rw [List.map_append, List.append_assoc, sortFrom_options hbefore (fun _ _ => rfl) hnodup.1,
    List.map_cons, List.cons_append, List.nil_append, sortFrom_spell hf, hstep]
  rfl

end Arguments

/-! ## Scenarios

What is sorted is looked up again by name.  Each name occurs in one place of the list only, so the
fields come back one by one, whatever stands beside them. -/

namespace Scenario

/-- The options that spell a scenario out, with their values. -/
def options (c : Scenario) : List (String × String) :=
  [("down", toString c.down), ("up", toString c.up), ("a", numbersText c.denominator)] ++
    (c.numerator.map fun b => ("b", numbersText b)).toList ++
    ((c.design.bind (·.taps)).map fun n => ("taps", toString n)).toList ++
    ((c.design.bind (·.cutoff)).map fun x => ("cutoff", Layout.plain.write x)).toList ++
    (c.isFir.map fun flag => ("fir", toString flag)).toList

/-- The arguments that ask for a scenario, to be run on the signal of one file and recorded in
another. -/
def arguments (c : Scenario) (input output : String) : List String :=
  "run" :: (c.options.map spell ++ ["--", input, output])

/-- The counts of a scenario fit into a word. -/
structure CountsFit (c : Scenario) : Prop where
  down : c.down < 2 ^ 64
  up : c.up < 2 ^ 64
  taps : ∀ d ∈ c.design, ∀ n ∈ d.taps, n < 2 ^ 64

/-- A scenario has either a numerator or a design. -/
def HasOneNumerator (c : Scenario) : Prop := c.numerator.isSome = !c.design.isSome

/-- The names of these options, and what their values have to be. -/
def optionKinds : List (String × ValueKind) :=
  [("down", .count), ("up", .count), ("a", .numbers), ("b", .numbers), ("taps", .count),
    ("cutoff", .number), ("fir", .truth)]

theorem names_sublist {α : Type} (x : Option α) (name : String) (value : α → String) :
    ((x.map fun a => (name, value a)).toList.map (·.1)).Sublist [name] := by
  cases x with
  | none => exact List.nil_sublist _
  | some a => exact List.Sublist.refl _

theorem nodup_options (c : Scenario) : (c.options.map (·.1)).Nodup := by
  have hsublist : (c.options.map (·.1)).Sublist (optionKinds.map (·.1)) := by
    simp only [options, List.map_append]
    exact ((((List.Sublist.refl ["down", "up", "a"]).append (names_sublist _ "b" _)).append
      (names_sublist _ "taps" _)).append (names_sublist _ "cutoff" _)).append
      (names_sublist _ "fir" _)
  exact hsublist.nodup (by decide)

theorem exists_known {name : String} {kind : ValueKind} (h : (name, kind) ∈ optionKinds)
    (value : String) :
    ∃ f, Known SingleRequest.form.options (name, value) f ∧ f.kind = kind := by
  simp only [optionKinds, List.mem_cons, List.not_mem_nil, or_false, Prod.mk.injEq] at h
  obtain ⟨rfl, rfl⟩ | ⟨rfl, rfl⟩ | ⟨rfl, rfl⟩ | ⟨rfl, rfl⟩ | ⟨rfl, rfl⟩ | ⟨rfl, rfl⟩ | ⟨rfl, rfl⟩ := h
  all_goals exact ⟨_, ⟨rfl, rfl, by simp⟩, rfl⟩

def IsAdmitted (o : String × String) : Prop :=
  ∃ f, Known SingleRequest.form.options o f ∧ f.kind.admits o.2 = true

theorem isAdmitted_of_kind (kind : ValueKind) {name value : String}
    (h : (name, kind) ∈ optionKinds) (hvalue : kind.admits value = true) :
    IsAdmitted (name, value) := by
  obtain ⟨f, hf, rfl⟩ := exists_known h value
  exact ⟨f, hf, hvalue⟩

theorem admits_count {n : Nat} (h : n < 2 ^ 64) : ValueKind.count.admits (toString n) = true := by
  rw [ValueKind.admits, readCount?_toString h]
  rfl

theorem admits_numbers (xs : List Float) :
    ValueKind.numbers.admits (numbersText xs) = decide (xs ≠ []) := by
  rw [ValueKind.admits, readFloats?_numbersText]
  by_cases hempty : xs = []
  · simp [hempty]
  · simp [hempty]

theorem readFloat?_write (x : Float) : readFloat? (Layout.plain.write x).toList = some x := by
  rw [Layout.write, String.toList_ofList, readFloat?_plain]

theorem isAdmitted_factors {c : Scenario} (hcounts : c.CountsFit) :
    ∀ o ∈ [("down", toString c.down), ("up", toString c.up)], IsAdmitted o := by
  intro o ho
  simp only [List.mem_cons, List.not_mem_nil, or_false] at ho
  obtain rfl | rfl := ho
  · exact isAdmitted_of_kind .count (by decide) (admits_count hcounts.down)
  · exact isAdmitted_of_kind .count (by decide) (admits_count hcounts.up)

theorem isAdmitted_denominator {c : Scenario} (h : c.denominator ≠ []) :
    IsAdmitted ("a", numbersText c.denominator) :=
  isAdmitted_of_kind .numbers (by decide) (by rw [admits_numbers]; exact decide_eq_true h)

theorem isAdmitted_options {c : Scenario} (hcounts : c.CountsFit) (hdenominator : c.denominator ≠ [])
    (hnumerator : c.numerator ≠ some []) : ∀ o ∈ c.options, IsAdmitted o := by
  intro o ho
  simp only [options, List.mem_append, Option.mem_toList, Option.map_eq_some_iff,
    Option.bind_eq_some_iff] at ho
  rcases ho with (((ho | ⟨b, hb, rfl⟩) | ⟨n, ⟨d, hd, hn⟩, rfl⟩) | ⟨x, -, rfl⟩) | ⟨flag, -, rfl⟩
  · rcases List.mem_append.mp (show o ∈ [("down", toString c.down), ("up", toString c.up)] ++
      [("a", numbersText c.denominator)] from ho) with ho | ho
    · exact isAdmitted_factors hcounts o ho
    · rw [List.mem_singleton.mp ho]
      exact isAdmitted_denominator hdenominator
  · have hsome : b ≠ [] := by
      rintro rfl
      exact hnumerator hb
    refine isAdmitted_of_kind .numbers (by decide) ?_
    rw [admits_numbers]
    exact decide_eq_true hsome
  · exact isAdmitted_of_kind .count (by decide) (admits_count (hcounts.taps d hd n hn))
  · refine isAdmitted_of_kind .number (by decide) ?_
    rw [ValueKind.admits, readFloat?_write]
    rfl
  · refine isAdmitted_of_kind .truth (by decide) ?_
    rw [ValueKind.admits, readTruth?_toString]
    rfl

theorem sortFrom_paths {s : Sorted} (hs : s.positionals = []) (input output : String) :
    sortFrom SingleRequest.form s none ["--", input, output] =
      if input ≠ "" ∧ output ≠ "" then .ok { s with positionals := [input, output] }
      else .error .misuse := by
  obtain ⟨positionals, options⟩ := s
  subst hs
  have hlook : look "--".toList = .escape := rfl
  rw [sortFrom, hlook]
  by_cases hinput : input = ""
  · simp [close, SingleRequest.form, Sorted.addPositional, ValueKind.admits, readPath?, hinput,
      bind, Except.bind]
  · by_cases houtput : output = ""
    · simp [close, SingleRequest.form, Sorted.addPositional, ValueKind.admits, readPath?, hinput,
        houtput, bind, Except.bind]
    · simp [close, SingleRequest.form, Sorted.addPositional, ValueKind.admits, readPath?, hinput,
        houtput, bind, Except.bind, pure, Except.pure]

def sorted (c : Scenario) (input output : String) : Sorted where
  positionals := [input, output]
  options := c.options.map fun o => (o.1, [o.2])

def request (c : Scenario) (input output : String) : SingleRequest where
  input := input
  output := output
  down := c.down
  up := c.up
  denominator := some c.denominator
  numerator := c.numerator
  design := { taps := c.design.bind (·.taps), cutoff := c.design.bind (·.cutoff) }
  isFir := c.isFir

theorem scenario_request {c : Scenario} (hone : c.HasOneNumerator) (input output : String) :
    (c.request input output).scenario c.name = c := by
  obtain ⟨name, down, up, isFir, denominator, numerator, design⟩ := c
  cases numerator with
  | none =>
      cases design with
      | none => cases hone
      | some d => rfl
  | some b =>
      cases design with
      | none => rfl
      | some d => cases hone

theorem values_named {α : Type} (x : Option α) (name other : String) (value : α → String) :
    ((x.map fun a => (name, value a)).toList.filter (·.1 = other)).map (·.2) =
      if name = other then (x.map value).toList else [] := by
  cases x with
  | none => simp
  | some a => split_ifs with h <;> simp [h]

theorem values_sorted (c : Scenario) (input output name : String) :
    (c.sorted input output).values name = (c.options.filter (·.1 = name)).map (·.2) := by
  rw [Sorted.values, sorted]
  induction c.options with
  | nil => rfl
  | cons o opts ih =>
      by_cases h : o.1 = name
      · simpa [h] using ih
      · simpa [h] using ih

theorem values_options (c : Scenario) (input output name : String) :
    (c.sorted input output).values name =
      ([("down", toString c.down), ("up", toString c.up),
          ("a", numbersText c.denominator)].filter (·.1 = name)).map (·.2) ++
        (if "b" = name then (c.numerator.map numbersText).toList else []) ++
        (if "taps" = name then ((c.design.bind (·.taps)).map toString).toList else []) ++
        (if "cutoff" = name then
          ((c.design.bind (·.cutoff)).map Layout.plain.write).toList else []) ++
        (if "fir" = name then (c.isFir.map toString).toList else []) := by
  rw [values_sorted, options]
  simp only [List.filter_append, List.map_append, values_named]

theorem has_sorted (c : Scenario) (input output name : String) :
    (c.sorted input output).has name = !((c.sorted input output).values name).isEmpty := by
  rw [values_sorted, Sorted.has, sorted]
  induction c.options with
  | nil => rfl
  | cons o opts ih =>
      by_cases h : o.1 = name
      · simp [h]
      · simpa [h] using ih

theorem optional?_of_values {α : Type} (text : α → String) {s : Sorted} {name : String}
    {read : String → Option α} {x : Option α} (hvalues : s.values name = (x.map text).toList)
    (hread : ∀ a ∈ x, read (text a) = some a) : s.optional? name read = some x := by
  rw [Sorted.optional?, hvalues]
  cases x with
  | none => rfl
  | some a => exact congrArg (Option.map some) (hread a rfl)

theorem floats?_sorted {c : Scenario} {input output name : String} {x : Option (List Float)}
    (hvalues : (c.sorted input output).values name = (x.map numbersText).toList)
    (hne : x ≠ some []) : (c.sorted input output).floats? name = some x := by
  rw [Sorted.floats?, has_sorted, hvalues]
  cases x with
  | none => rfl
  | some xs =>
      have hnumbers : xs ≠ [] := by
        rintro rfl
        exact hne rfl
      change (if true then (readFloats? [numbersText xs]).map some else some none) = _
      rw [readFloats?_numbersText, if_neg hnumbers]
      rfl

theorem truth?_sorted {c : Scenario} {input output name : String} {x : Option Bool}
    (hvalues : (c.sorted input output).values name = (x.map toString).toList) :
    (c.sorted input output).truth? name = some x := by
  rw [Sorted.truth?, has_sorted, hvalues]
  cases x with
  | none => rfl
  | some flag => cases flag <;> rfl

/-- Where there is one numerator, it does not conflict with the options of a design. -/
theorem HasOneNumerator.not_conflicting {c : Scenario} (hone : c.HasOneNumerator) :
    (c.numerator.isSome &&
      ((c.design.bind (·.taps)).isSome || (c.design.bind (·.cutoff)).isSome)) = false := by
  cases hdesign : c.design with
  | none => simp
  | some d =>
      rw [HasOneNumerator, hdesign] at hone
      simp [hone]

theorem ofSorted?_sorted {c : Scenario} (hcounts : c.CountsFit) (hone : c.HasOneNumerator)
    (hdenominator : c.denominator ≠ []) (hnumerator : c.numerator ≠ some []) {input output : String}
    (hinput : input ≠ "") (houtput : output ≠ "") :
    SingleRequest.ofSorted? (c.sorted input output) = some (c.request input output) := by
  have hpaths : twoPaths? (c.sorted input output).positionals = some (input, output) := by
    simp [twoPaths?, sorted, readPath?, hinput, houtput]
  have hdown : (c.sorted input output).optional? "down" readCount? = some (some c.down) :=
    optional?_of_values toString (by simp [values_options])
      fun n hn => by cases hn; exact readCount?_toString hcounts.down
  have hup : (c.sorted input output).optional? "up" readCount? = some (some c.up) :=
    optional?_of_values toString (by simp [values_options])
      fun n hn => by cases hn; exact readCount?_toString hcounts.up
  have htaps : (c.sorted input output).optional? "taps" readCount? =
      some (c.design.bind (·.taps)) := by
    refine optional?_of_values toString (by simp [values_options]) fun n hn => ?_
    obtain ⟨d, hd, hn⟩ := Option.bind_eq_some_iff.mp hn
    exact readCount?_toString (hcounts.taps d hd n hn)
  have hcutoff : (c.sorted input output).optional? "cutoff" (readFloat? ·.toList) =
      some (c.design.bind (·.cutoff)) :=
    optional?_of_values Layout.plain.write (by simp [values_options])
      fun x _ => readFloat?_write x
  have ha : (c.sorted input output).floats? "a" = some (some c.denominator) := by
    refine floats?_sorted (by simp [values_options]) fun h => ?_
    exact hdenominator (Option.some.inj h)
  have hb : (c.sorted input output).floats? "b" = some c.numerator :=
    floats?_sorted (by simp [values_options]) hnumerator
  have hfir : (c.sorted input output).truth? "fir" = some c.isFir :=
    truth?_sorted (by simp [values_options])
  unfold SingleRequest.ofSorted?
  simp only [hpaths, hdown, hup, ha, hb, htaps, hcutoff, hfir, bind, Option.bind_some,
    hone.not_conflicting, Bool.false_eq_true, if_false]
  rfl

theorem ofArguments_eq (c : Scenario) (input output : String) :
    Request.ofArguments (c.arguments input output) =
      Request.ofCommand SingleRequest.form SingleRequest.ofSorted? .single
        (c.options.map spell ++ ["--", input, output]) :=
  rfl

/-- The arguments are refused where one of the options holds what its kind does not admit. -/
theorem ofArguments_refused {c : Scenario} {before after : List (String × String)}
    {name value : String} {kind : ValueKind} (hsplit : c.options = before ++ (name, value) :: after)
    (hbefore : ∀ o ∈ before, IsAdmitted o) (hkind : (name, kind) ∈ optionKinds)
    (hnot : kind.admits value = false) (input output : String) :
    Request.ofArguments (c.arguments input output) = .error .misuse := by
  obtain ⟨f, hf, rfl⟩ := exists_known hkind value
  have hnodup := c.nodup_options
  rw [hsplit, List.append_cons, List.map_append] at hnodup
  rw [ofArguments_eq, Request.ofCommand, sort, hsplit,
    sortFrom_refused hbefore (List.nodup_append.mp hnodup).1 hf hnot]
  rfl

theorem ofArguments_of_denominator {c : Scenario} (hcounts : c.CountsFit)
    (hdenominator : c.denominator = []) (input output : String) :
    Request.ofArguments (c.arguments input output) = .error .misuse := by
  have hsplit : ∃ after, c.options =
      [("down", toString c.down), ("up", toString c.up)] ++
        ("a", numbersText c.denominator) :: after := ⟨_, rfl⟩
  obtain ⟨after, hsplit⟩ := hsplit
  refine ofArguments_refused hsplit (isAdmitted_factors hcounts)
    (by decide : ("a", .numbers) ∈ optionKinds) ?_ input output
  rw [admits_numbers]
  exact decide_eq_false fun h => h hdenominator

theorem ofArguments_of_numerator {c : Scenario} (hcounts : c.CountsFit)
    (hdenominator : c.denominator ≠ []) (hnumerator : c.numerator = some [])
    (input output : String) :
    Request.ofArguments (c.arguments input output) = .error .misuse := by
  have hsplit : ∃ after, c.options =
      [("down", toString c.down), ("up", toString c.up), ("a", numbersText c.denominator)] ++
        ("b", numbersText []) :: after := by
    rw [options, hnumerator]
    exact ⟨_, rfl⟩
  obtain ⟨after, hsplit⟩ := hsplit
  refine ofArguments_refused hsplit ?_ (by decide : ("b", .numbers) ∈ optionKinds) ?_ input output
  · exact List.forall_mem_append.mpr ⟨isAdmitted_factors hcounts,
      List.forall_mem_singleton.mpr (isAdmitted_denominator hdenominator)⟩
  · rw [admits_numbers]
    rfl

/-- **The arguments that spell a scenario out** ask for it, unless there is an empty list of
coefficients or a file without a name; then they are refused. -/
theorem ofArguments_arguments {c : Scenario} (hcounts : c.CountsFit) (hone : c.HasOneNumerator)
    (input output : String) :
    Request.ofArguments (c.arguments input output) =
      if c.denominator ≠ [] ∧ c.numerator ≠ some [] ∧ input ≠ "" ∧ output ≠ "" then
        .ok (.single (c.request input output))
      else .error .misuse := by
  by_cases hdenominator : c.denominator = []
  · rw [if_neg fun h => h.1 hdenominator]
    exact ofArguments_of_denominator hcounts hdenominator input output
  by_cases hnumerator : c.numerator = some []
  · rw [if_neg fun h => h.2.1 hnumerator]
    exact ofArguments_of_numerator hcounts hdenominator hnumerator input output
  have hsort : sort SingleRequest.form (c.options.map spell ++ ["--", input, output]) =
      if input ≠ "" ∧ output ≠ "" then .ok (c.sorted input output) else .error .misuse := by
    rw [sort, sortFrom_options (isAdmitted_options hcounts hdenominator hnumerator)
      (fun _ _ => rfl) c.nodup_options, sortFrom_paths rfl]
    rfl
  rw [ofArguments_eq, Request.ofCommand, hsort]
  by_cases hpaths : input ≠ "" ∧ output ≠ ""
  · rw [if_pos hpaths, if_pos ⟨hdenominator, hnumerator, hpaths⟩]
    simp only [bind, Except.bind,
      ofSorted?_sorted hcounts hone hdenominator hnumerator hpaths.1 hpaths.2]
    rfl
  · rw [if_neg hpaths, if_neg fun h => hpaths h.2.2]
    rfl

end Scenario

end FilterReference
