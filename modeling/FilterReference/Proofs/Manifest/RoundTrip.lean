/-
# Manifests in TOML are read back

Every scenario of a manifest is an element of an array of tables, with its design as a table below
it.  The sections of the text make this array one element after the other
(`foldlM_scenarioSections`), and the manifest that is read has the paths and the scenarios that were
written (`toml_round_trip`).
-/
import FilterReference.Manifest.Text
import FilterReference.Program.Execution
import FilterReference.Proofs.Scenario.RoundTrip

namespace FilterReference

open Toml

namespace Manifest

variable {m : Manifest}

def entries (m : Manifest) : List (String × Toml) :=
  optionalEntry "input" .string m.input ++ optionalEntry "output_dir" .string m.outputDirectory

theorem lines_entries (m : Manifest) : Lines m.headLines m.entries := by
  refine .append (.optional (by decide +kernel) fun path _ => ?_)
    (.optional (by decide +kernel) fun path _ => ?_)
  · exact (scalar_string path).written
  · exact (scalar_string path).written

theorem keys_sublist (m : Manifest) :
    (m.entries.map (·.1)).Sublist (["input"] ++ ["output_dir"]) := by
  rw [entries, List.map_append]
  exact (keys_optionalEntry _ _ _).append (keys_optionalEntry _ _ _)

def scenarioSections (c : Scenario) : List Section :=
  ⟨.element [] "scenario", c.entries.map plain⟩ :: c.designSections ["scenario"]

theorem writtenHeader_scenario : WrittenHeader scenarioHeader (.element [] "scenario") := by
  have hchars : scenarioHeader = '[' :: '[' :: ("scenario".toList ++ [']', ']', '\n']) := by
    decide +kernel
  rw [hchars]
  exact writtenHeader_element (IsBareKey.written (by decide +kernel))

theorem writtenHeader_design : WrittenHeader ('[' :: ("scenario.design".toList ++ [']', '\n']))
    (.table ["scenario"] "design") := by
  have hchars : "scenario.design".toList = "scenario".toList ++ '.' :: "design".toList := by
    decide +kernel
  rw [hchars]
  exact writtenHeader_table (IsBareKey.written_dot (by decide +kernel) (by decide +kernel))

theorem sections_scenarios (atStart : Bool) {cs : List Scenario}
    (h : ∀ c ∈ cs, c.FitsInteger) :
    Sections (scenarioLines atStart cs) (cs.flatMap scenarioSections) := by
  induction cs generalizing atStart with
  | nil => exact .nil
  | cons c cs ih =>
      obtain ⟨hc, hcs⟩ := List.forall_mem_cons.mp h
      have hgap : (if atStart then [] else ['\n']) = [] ∨
          (if atStart then [] else ['\n']) = ['\n'] := by
        cases atStart <;> simp
      have hbelow := Scenario.sections_design hc writtenHeader_design (ih false hcs)
      have hsections :=
        Sections.cons hgap writtenHeader_scenario (Scenario.lines_entries hc) hbelow
      rw [scenarioLines, Scenario.lines_eq]
      simp only [List.append_assoc]
      exact hsections

/-! ## The table of the text

An array of tables grows by one element with each header, and a design below it goes to the last
element.  So the sections are followed with the elements that are done.  A manifest without
scenarios has no headers and is written with an empty array instead. -/

theorem foldlM_scenario {es : Entries} (hes : Unused "scenario" es) (done : List Entries)
    (c : Scenario) :
    (scenarioSections c).foldlM addSection (es ++ arrayEntry "scenario" done) =
      some (es ++ arrayEntry "scenario" (done ++ [c.tree])) := by
  rw [scenarioSections, List.foldlM_cons, addSection_element hes c.nodup_keys]
  simp only [Option.bind_eq_bind, Option.bind_some]
  unfold Scenario.designSections Scenario.tree
  cases c.design with
  | none =>
      rw [List.append_nil]
      rfl
  | some d =>
      rw [List.foldlM_cons,
        addSection_below hes (unused_leaves c.design_not_mem_keys) d.nodup_keys]
      rfl

/-- **The sections of scenarios** add them to the array, in order. -/
theorem foldlM_scenarioSections {es : Entries} (hes : Unused "scenario" es) (done : List Entries)
    (cs : List Scenario) :
    (cs.flatMap scenarioSections).foldlM addSection (es ++ arrayEntry "scenario" done) =
      some (es ++ arrayEntry "scenario" (done ++ cs.map (·.tree))) := by
  induction cs generalizing done with
  | nil =>
      rw [List.map_nil, List.append_nil]
      rfl
  | cons c cs ih =>
      rw [List.flatMap_cons, List.foldlM_append, foldlM_scenario hes]
      simp only [Option.bind_eq_bind, Option.bind_some, ih]
      rw [List.append_assoc, List.singleton_append, List.map_cons]

/-- The table that a manifest is read as. -/
def table (m : Manifest) : List (String × Toml) :=
  m.entries ++ [("scenario", .array (m.scenarios.map fun c => .table c.table))]

theorem entriesToToml_arrayEntry {cs : List Scenario} (h : cs ≠ []) :
    Tree.entriesToToml (arrayEntry "scenario" (cs.map (·.tree))) =
      [("scenario", .array (cs.map fun c => .table c.table))] := by
  obtain ⟨c, cs, rfl⟩ := List.exists_cons_of_ne_nil h
  rw [List.map_cons, arrayEntry, Tree.entriesToToml, Tree.toToml, elementsToToml_eq,
    Tree.entriesToToml, ← List.map_cons, List.map_map]
  simp only [Function.comp_def, Scenario.entriesToToml_tree]

theorem unused_scenario (m : Manifest) : Unused "scenario" (m.entries.map leafEntry) := by
  refine unused_leaves fun hmem => ?_
  exact absurd (m.keys_sublist.subset hmem) (by decide)

theorem parse?_sections (h : ∀ c ∈ m.scenarios, c.FitsInteger) (hsome : m.scenarios ≠ [])
    (atStart : Bool) :
    Toml.parse? (String.ofList (m.headLines ++ scenarioLines atStart m.scenarios)) =
      some m.table := by
  have hroot : addSection [] ⟨.root, m.entries.map plain⟩ = some (m.entries.map leafEntry) :=
    assign_plain (m.keys_sublist.nodup (by decide))
  have hscenarios := foldlM_scenarioSections m.unused_scenario [] m.scenarios
  rw [arrayEntry, List.append_nil, List.nil_append] at hscenarios
  rw [parse?_written m.lines_entries (sections_scenarios atStart h), assemble, List.foldlM_cons, hroot]
  simp only [Option.bind_eq_bind, Option.bind_some, hscenarios, Option.map_some,
    entriesToToml_append, entriesToToml_leaves, entriesToToml_arrayEntry hsome, table]

theorem parse?_empty (hnone : m.scenarios = []) :
    Toml.parse? (String.ofList (m.headLines ++ line "scenario" (arrayChars []))) =
      some m.table := by
  have hlines : Lines (m.headLines ++ line "scenario" (arrayChars [])) m.table := by
    rw [table, hnone]
    exact m.lines_entries.append (.single (by decide +kernel) (written_array .nil))
  have hroot : addSection [] ⟨.root, m.table.map plain⟩ = some (m.table.map leafEntry) := by
    refine assign_plain ?_
    rw [table, List.map_append]
    exact (m.keys_sublist.append (List.Sublist.refl ["scenario"])).nodup (by decide)
  have hparse := parse?_written hlines .nil
  rw [List.append_nil] at hparse
  rw [hparse, assemble, List.foldlM_cons, hroot]
  simp only [Option.bind_eq_bind, Option.bind_some, List.foldlM_nil, Option.pure_def,
    Option.map_some, entriesToToml_leaves]

/-! ## Reading -/

theorem step_scenarios (m : Manifest) (cs : List Scenario) :
    m.step "scenario" (.array (cs.map fun c => .table c.table)) = .ok { m with scenarios := cs } := by
  have hlist : readList Scenario.ofToml (.array (cs.map fun c => .table c.table)) = .ok cs := by
    refine mapM_eq_ok_iff.mpr ?_
    rw [List.forall₂_map_left_iff, List.forall₂_same]
    exact fun c _ => c.ofToml_table
  simp only [step, hlist]
  rfl

/-- **A manifest** is read from its entries. -/
theorem ofEntries_table (m : Manifest) : ofEntries m.table = .ok { m with base := none } := by
  have hinput (path : String) :
      step {} "input" (.string path) = .ok ({ input := some path } : Manifest) := rfl
  have houtput (path : String) : step { input := m.input } "output_dir" (.string path) =
      .ok ({ input := m.input, outputDirectory := some path } : Manifest) := rfl
  have hpaths := foldlM_append_ok
    (foldlM_optionalEntry (fun x => ({ input := x } : Manifest)) hinput m.input)
    (foldlM_optionalEntry (fun x => ({ input := m.input, outputDirectory := x } : Manifest)) houtput
      m.outputDirectory)
  exact foldlM_append_ok hpaths (foldlM_entry (step_scenarios _ m.scenarios))

theorem parse_render (h : ∀ c ∈ m.scenarios, c.FitsInteger) :
    ∃ text, m.render = .ok text ∧ Manifest.parse text = .ok { m with base := none } := by
  have hwritable : m.scenarios.all (·.isWritable) = true :=
    List.all_eq_true.mpr fun c hc => Scenario.isWritable_iff.mpr (h c hc)
  have htable : Toml.parse? (String.ofList m.chars) = some m.table := by
    unfold chars
    split_ifs with hempty
    · exact parse?_empty (List.isEmpty_iff.mp hempty)
    · exact parse?_sections h (fun hnone => hempty (List.isEmpty_iff.mpr hnone)) _
  refine ⟨String.ofList m.chars, ?_, ?_⟩
  · rw [render, if_pos hwritable]
  · simp only [Manifest.parse, htable, ofEntries_table]

end Manifest

/-! ## Round trips -/

theorem Factory.fitsInteger {c : Scenario} (h : c ∈ Factory.scenarios) : c.FitsInteger := by
  have hall : Factory.scenarios.all (·.isWritable) = true := by decide +kernel
  exact Scenario.isWritable_iff.mp (List.all_eq_true.mp hall c h)

/-- **What is written in TOML is read back.**  A manifest whose factors and taps fit into a signed
word of 64 bits has a text, from which a manifest with the same paths and the same scenarios is
read; so has a scenario by itself; and what the program prints of a factory scenario is read as that
scenario. -/
theorem toml_round_trip :
    (∀ m : Manifest, (∀ c ∈ m.scenarios, c.FitsInteger) →
      ∃ text, m.render = .ok text ∧ Manifest.parse text = .ok { m with base := none }) ∧
    (∀ c : Scenario, c.FitsInteger →
      ∃ text, c.render = .ok text ∧ Scenario.parse text = .ok c) ∧
    ∀ name c, Factory.find? name = some c →
      ∃ text, showFactory (some name) = .success text ∧ Scenario.parse text = .ok c := by
  refine ⟨fun m h => Manifest.parse_render h, fun c h => Scenario.parse_render h, ?_⟩
  intro name c hfind
  obtain ⟨text, hrender, hparse⟩ :=
    Scenario.parse_render (Factory.fitsInteger (List.mem_of_find?_eq_some hfind))
  refine ⟨text, ?_, hparse⟩
  simp only [showFactory, hfind, hrender]
  rfl

/-- A manifest with all kinds of characters in its paths and names, and with doubles and lists at
their limits. -/
def oddManifest : Manifest where
  input := some "a \"b\" \x27c\x27 \\d\n\x00\t\r\x7f"
  outputDirectory := some "\x27\x27\x27 \"\"\"\""
  scenarios := [
    { name := "", down := 0, up := 2 ^ 63 - 1, isFir := some false,
      denominator := [Binary.notANumber, Binary.ofParts true 0, Binary.ofParts false 1],
      numerator := some [], design := some {} },
    { name := "#[x]\n", denominator := [], design := some { taps := some 0, cutoff := some (1 / 3) } }]

/-- That manifest is read back from its text. -/
theorem toml_round_trip_odd :
    (∀ c ∈ oddManifest.scenarios, c.FitsInteger) ∧
      ∃ text, oddManifest.render = .ok text ∧ Manifest.parse text = .ok oddManifest := by
  have hall : oddManifest.scenarios.all (·.isWritable) = true := by decide +kernel
  have hfits : ∀ c ∈ oddManifest.scenarios, c.FitsInteger :=
    fun c hc => Scenario.isWritable_iff.mp (List.all_eq_true.mp hall c hc)
  exact ⟨hfits, toml_round_trip.1 oddManifest hfits⟩

end FilterReference
