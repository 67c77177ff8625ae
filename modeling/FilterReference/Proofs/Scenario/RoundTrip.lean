/-
# Scenarios in TOML are read back

The lines of a scenario assign its fields, one after the other, and its design is a table behind
them.  What is absent leaves no entry (`Scenario.table`), and the fields of these entries are those
of the scenario again (`Scenario.ofToml_table`).
-/
import FilterReference.Proofs.Toml.Table
import FilterReference.Proofs.Traversal
import FilterReference.Scenario.Text

namespace FilterReference

open Toml

/-- All integers of a scenario fit into a signed word of 64 bits. -/
@[mk_iff]
structure Scenario.FitsInteger (c : Scenario) : Prop where
  down : c.down < 2 ^ 63
  up : c.up < 2 ^ 63
  taps : ∀ d ∈ c.design, ∀ n ∈ d.taps, n < 2 ^ 63

theorem le_maxInteger_iff {n : Nat} : n ≤ maxInteger ↔ n < 2 ^ 63 := by
  have hmax : maxInteger = 2 ^ 63 - 1 := rfl
  omega

/-! ## Entries

The entries are what lines, table and fields have in common: each of the three goes through them in
this order and leaves out what is absent. -/

def floatArray (xs : List Float) : Toml := .array (xs.map .float)

def LowpassDesign.entries (d : LowpassDesign) : List (String × Toml) :=
  optionalEntry "taps" (fun n : Nat => .integer n) d.taps ++ optionalEntry "cutoff" .float d.cutoff

/-- The entries of a scenario, but for its design. -/
def Scenario.entries (c : Scenario) : List (String × Toml) :=
  [("name", .string c.name)] ++ [("down_sampling_factor", .integer c.down)] ++
    [("up_sampling_factor", .integer c.up)] ++ optionalEntry "is_fir" .boolean c.isFir ++
    [("a", floatArray c.denominator)] ++ optionalEntry "b" floatArray c.numerator

def Scenario.table (c : Scenario) : List (String × Toml) :=
  c.entries ++ optionalEntry "design" (fun d => .table d.entries) c.design

theorem keys_optionalEntry {α : Type} (key : String) (value : α → Toml) (x : Option α) :
    ((optionalEntry key value x).map (·.1)).Sublist [key] := by
  cases x with
  | none => exact List.nil_sublist _
  | some a => exact List.Sublist.refl _

theorem LowpassDesign.nodup_keys (d : LowpassDesign) : (d.entries.map (·.1)).Nodup := by
  have hkeys : (d.entries.map (·.1)).Sublist (["taps"] ++ ["cutoff"]) := by
    rw [entries, List.map_append]
    exact (keys_optionalEntry _ _ _).append (keys_optionalEntry _ _ _)
  exact hkeys.nodup (by decide)

theorem Scenario.keys_sublist (c : Scenario) : (c.entries.map (·.1)).Sublist
    (["name"] ++ ["down_sampling_factor"] ++ ["up_sampling_factor"] ++ ["is_fir"] ++ ["a"] ++
      ["b"]) := by
  simp only [entries, List.map_append]
  refine List.Sublist.append (List.Sublist.append (List.Sublist.append ?_ ?_) ?_) ?_
  · exact List.Sublist.refl _
  · exact keys_optionalEntry _ _ _
  · exact List.Sublist.refl _
  · exact keys_optionalEntry _ _ _

theorem Scenario.nodup_keys (c : Scenario) : (c.entries.map (·.1)).Nodup :=
  c.keys_sublist.nodup (by decide)

theorem Scenario.design_not_mem_keys (c : Scenario) : "design" ∉ c.entries.map (·.1) := by
  intro hmem
  exact absurd (c.keys_sublist.subset hmem) (by decide)

/-! ## Writing -/

theorem LowpassDesign.lines_entries {d : LowpassDesign} (h : ∀ n ∈ d.taps, n < 2 ^ 63) :
    Lines d.lines d.entries := by
  refine .append (.optional (by decide +kernel) fun n hn => ?_)
    (.optional (by decide +kernel) fun x _ => (scalar_float x).written)
  exact (scalar_count (le_maxInteger_iff.mpr (h n hn))).written

namespace Scenario

variable {c : Scenario}

/-- The lines of a scenario, but for its design. -/
def fieldLines (c : Scenario) : List Char :=
  line "name" (stringChars c.name.toList) ++
  line "down_sampling_factor" (countChars c.down) ++
  line "up_sampling_factor" (countChars c.up) ++
  optionalLine "is_fir" boolChars c.isFir ++
  line "a" (floatsChars c.denominator) ++
  optionalLine "b" floatsChars c.numerator

/-- The header and the lines of the design of a scenario, if it has one. -/
def designLines (designName : String) (c : Scenario) : List Char :=
  match c.design with
  | none => []
  | some d => headerLine designName ++ d.lines

theorem lines_eq (designName : String) (c : Scenario) :
    c.lines designName = c.fieldLines ++ c.designLines designName := rfl

theorem lines_entries (h : c.FitsInteger) : Lines c.fieldLines c.entries := by
  have hcount {n : Nat} (hn : n < 2 ^ 63) : WrittenValue (countChars n) (.integer n) :=
    (scalar_count (le_maxInteger_iff.mpr hn)).written
  refine .append (.append (.append (.append (.append ?_ ?_) ?_) ?_) ?_) ?_
  · exact .single (by decide +kernel) (scalar_string c.name).written
  · exact .single (by decide +kernel) (hcount h.down)
  · exact .single (by decide +kernel) (hcount h.up)
  · exact .optional (by decide +kernel) fun b _ => (scalar_bool b).written
  · exact .single (by decide +kernel) (written_floats c.denominator)
  · exact .optional (by decide +kernel) fun xs _ => written_floats xs

/-- The section of the design of a scenario, if it has one. -/
def designSections (path : List String) (c : Scenario) : List Section :=
  match c.design with
  | none => []
  | some d => [⟨.table path "design", d.entries.map plain⟩]

theorem sections_design (h : c.FitsInteger) {designName : String} {path : List String}
    (htop : WrittenHeader ('[' :: (designName.toList ++ [']', '\n'])) (.table path "design"))
    {rest : List Char} {sections : List Section} (hrest : Sections rest sections) :
    Sections (c.designLines designName ++ rest) (c.designSections path ++ sections) := by
  unfold designLines designSections
  cases hdesign : c.design with
  | none => exact hrest
  | some d =>
      have hlines := LowpassDesign.lines_entries (h.taps d hdesign)
      have hsections := Sections.cons (Or.inr rfl) htop hlines hrest
      simp only [List.append_assoc] at hsections ⊢
      exact hsections

theorem isWritable_iff : c.isWritable = true ↔ c.FitsInteger := by
  rw [isWritable, Scenario.fitsInteger_iff]
  simp only [Bool.and_eq_true, decide_eq_true_eq, le_maxInteger_iff, and_assoc]
  refine and_congr_right' (and_congr_right' ?_)
  rcases c.design with _ | ⟨_ | n, cutoff⟩ <;> simp

/-! ## The table of the text

The table of a design has its own header, so it is put together by itself and comes behind the
entries of the scenario. -/

/-- The table that a scenario is read as, under construction. -/
def tree (c : Scenario) : Entries :=
  c.entries.map leafEntry ++
    match c.design with
    | none => []
    | some d => [("design", .table .header (d.entries.map leafEntry))]

theorem entriesToToml_tree (c : Scenario) : Tree.entriesToToml c.tree = c.table := by
  rw [tree, table, entriesToToml_append, entriesToToml_leaves]
  cases c.design with
  | none => rw [Tree.entriesToToml, optionalEntry]
  | some d =>
      rw [Tree.entriesToToml, Tree.toToml, entriesToToml_leaves, Tree.entriesToToml, optionalEntry]

theorem foldlM_designSections (c : Scenario) :
    (c.designSections []).foldlM addSection (c.entries.map leafEntry) = some c.tree := by
  unfold designSections tree
  cases c.design with
  | none =>
      rw [List.append_nil]
      rfl
  | some d =>
      rw [List.foldlM_cons, addSection_table (unused_leaves c.design_not_mem_keys) d.nodup_keys]
      rfl

theorem parse?_lines (h : c.FitsInteger) :
    Toml.parse? (String.ofList (c.lines "design")) = some c.table := by
  have hdesign : WrittenHeader ('[' :: ("design".toList ++ [']', '\n'])) (.table [] "design") :=
    writtenHeader_table (IsBareKey.written (by decide +kernel))
  have hsections := sections_design h hdesign .nil
  rw [List.append_nil, List.append_nil] at hsections
  have hroot : addSection [] ⟨.root, c.entries.map plain⟩ = some (c.entries.map leafEntry) :=
    assign_plain c.nodup_keys
  rw [lines_eq, parse?_written (lines_entries h) hsections, assemble, List.foldlM_cons, hroot]
  simp only [Option.bind_eq_bind, Option.bind_some, foldlM_designSections, Option.map_some,
    entriesToToml_tree]

end Scenario

/-! ## Reading

The entries are folded over the fields, and an entry that is absent changes nothing.  So the fold is
taken field by field, and what each step sets is what the next ones leave alone. -/

theorem readList_floatArray (xs : List Float) : readList readFloat (floatArray xs) = .ok xs := by
  refine mapM_eq_ok_iff.mpr ?_
  rw [List.forall₂_map_left_iff, List.forall₂_same]
  exact fun x _ => rfl

theorem readCount_natCast (n : Nat) : readCount (.integer n) = .ok n := by
  rw [readCount, if_pos (Int.natCast_nonneg n), Int.toNat_natCast]

section Steps

variable {α σ ε : Type} {step : σ → String → Toml → Except ε σ} {s t u : σ}

theorem foldlM_append_ok {xs ys : List (String × Toml)}
    (hxs : xs.foldlM (fun s e => step s e.1 e.2) s = .ok t)
    (hys : ys.foldlM (fun s e => step s e.1 e.2) t = .ok u) :
    (xs ++ ys).foldlM (fun s e => step s e.1 e.2) s = .ok u := by
  rw [List.foldlM_append, bind_eq_ok_iff]
  exact ⟨t, hxs, hys⟩

theorem foldlM_entry {key : String} {v : Toml} (h : step s key v = .ok t) :
    [(key, v)].foldlM (fun s e => step s e.1 e.2) s = .ok t := by
  rw [List.foldlM_cons, bind_eq_ok_iff]
  exact ⟨t, h, rfl⟩

theorem foldlM_optionalEntry {key : String} {value : α → Toml} (set : Option α → σ)
    (hsome : ∀ a, step (set none) key (value a) = .ok (set (some a))) (x : Option α) :
    (optionalEntry key value x).foldlM (fun s e => step s e.1 e.2) (set none) = .ok (set x) := by
  cases x with
  | none => rfl
  | some a => exact foldlM_entry (hsome a)

end Steps

/-- **A design** is read from its entries. -/
theorem LowpassDesign.ofToml_entries (d : LowpassDesign) : ofToml (.table d.entries) = .ok d := by
  have htaps (n : Nat) :
      step {} "taps" (.integer n) = .ok ({ taps := some n } : LowpassDesign) := by
    rw [step, if_pos rfl, readCount_natCast]
    rfl
  have hcutoff (x : Float) : step { taps := d.taps } "cutoff" (.float x) =
      .ok ({ taps := d.taps, cutoff := some x } : LowpassDesign) := rfl
  exact foldlM_append_ok
    (foldlM_optionalEntry (fun x => ({ taps := x } : LowpassDesign)) htaps d.taps)
    (foldlM_optionalEntry (fun x => ({ taps := d.taps, cutoff := x } : LowpassDesign)) hcutoff
      d.cutoff)

namespace Scenario

/-- The fields of a scenario, when its entries were gone through. -/
def fields (c : Scenario) : Fields where
  name := some c.name
  down := some c.down
  up := some c.up
  isFir := c.isFir
  denominator := some c.denominator
  numerator := c.numerator
  design := c.design

section

variable (s : Fields)

theorem step_name (x : String) : s.step "name" (.string x) = .ok { s with name := some x } := rfl

theorem step_down (n : Nat) :
    s.step "down_sampling_factor" (.integer n) = .ok { s with down := some n } := by
  simp only [Fields.step, readCount_natCast]
  rfl

theorem step_up (n : Nat) :
    s.step "up_sampling_factor" (.integer n) = .ok { s with up := some n } := by
  simp only [Fields.step, readCount_natCast]
  rfl

theorem step_isFir (b : Bool) : s.step "is_fir" (.boolean b) = .ok { s with isFir := some b } := rfl

theorem step_denominator (xs : List Float) :
    s.step "a" (floatArray xs) = .ok { s with denominator := some xs } := by
  simp only [Fields.step, readList_floatArray]
  rfl

theorem step_numerator (xs : List Float) :
    s.step "b" (floatArray xs) = .ok { s with numerator := some xs } := by
  simp only [Fields.step, readList_floatArray]
  rfl

theorem step_design (d : LowpassDesign) :
    s.step "design" (.table d.entries) = .ok { s with design := some d } := by
  simp only [Fields.step, LowpassDesign.ofToml_entries]
  rfl

end

theorem foldlM_table (c : Scenario) :
    c.table.foldlM (fun s e => Fields.step s e.1 e.2) {} = .ok c.fields := by
  have hname := foldlM_entry (step_name {} c.name)
  have hdown := foldlM_append_ok hname (foldlM_entry (step_down _ c.down))
  have hup := foldlM_append_ok hdown (foldlM_entry (step_up _ c.up))
  have hisFir := foldlM_append_ok hup (foldlM_optionalEntry
    (fun x => (⟨some c.name, some c.down, some c.up, x, none, none, none⟩ : Fields))
    (step_isFir _) c.isFir)
  have hdenominator := foldlM_append_ok hisFir (foldlM_entry (step_denominator _ c.denominator))
  have hnumerator := foldlM_append_ok hdenominator (foldlM_optionalEntry
    (fun x => (⟨some c.name, some c.down, some c.up, c.isFir, some c.denominator, x, none⟩ : Fields))
    (step_numerator _) c.numerator)
  exact foldlM_append_ok hnumerator (foldlM_optionalEntry
    (fun x => (⟨some c.name, some c.down, some c.up, c.isFir, some c.denominator, c.numerator, x⟩ :
      Fields))
    (step_design _) c.design)

/-- **A scenario** is read from its entries. -/
theorem ofToml_table (c : Scenario) : ofToml (.table c.table) = .ok c := by
  rw [ofToml, readGroup, c.foldlM_table]
  rfl

theorem parse_render {c : Scenario} (h : c.FitsInteger) :
    ∃ text, c.render = .ok text ∧ Scenario.parse text = .ok c := by
  refine ⟨String.ofList (c.lines "design"), ?_, ?_⟩
  · rw [render, if_pos (isWritable_iff.mpr h)]
  · simp only [Scenario.parse, parse?_lines h, c.ofToml_table]

end Scenario

end FilterReference
