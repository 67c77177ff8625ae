/-
# Tables of plain assignments

Assignments without paths, of different keys, make a table of just these entries (`assign_plain`).
A section with a header adds its table behind the entries that are there, to the last element of an
array of tables, or as a further element.
-/
import FilterReference.Proofs.Toml.Lines

namespace FilterReference.Toml

variable {key : String} {es : Entries} {entries : List (String × Toml)}

/-- An entry of a table under construction that is a value. -/
def leafEntry (entry : String × Toml) : String × Tree := (entry.1, .leaf entry.2)

def Unused (key : String) (es : Entries) : Prop := ∀ e ∈ es, e.1 ≠ key

theorem lookUp?_eq_none (h : Unused key es) : lookUp? key es = none := by
  rw [lookUp?, List.find?_eq_none.mpr, Option.map_none]
  intro e he heq
  exact h e he (of_decide_eq_true heq)

theorem lookUp?_concat (h : Unused key es) (t : Tree) : lookUp? key (es ++ [(key, t)]) = some t := by
  have hnone : es.find? (·.1 = key) = none :=
    List.find?_eq_none.mpr fun e he heq => h e he (of_decide_eq_true heq)
  have hfirst : [(key, t)].find? (·.1 = key) = some (key, t) :=
    List.find?_cons_of_pos (decide_eq_true rfl)
  rw [lookUp?, List.find?_append, hnone, Option.none_or, hfirst, Option.map_some]

theorem replaceEntry_concat (h : Unused key es) (t u : Tree) :
    replaceEntry key u (es ++ [(key, t)]) = es ++ [(key, u)] := by
  have hkept : (es.map fun e => if e.1 = key then (key, u) else e) = es := by
    rw [List.map_congr_left fun e he => if_neg (h e he), List.map_id']
  rw [replaceEntry, List.map_append, hkept, List.map_singleton, if_pos rfl]

theorem unused_concat {other : String} (h : Unused key es) (hne : other ≠ key) (t : Tree) :
    Unused key (es ++ [(other, t)]) := by
  intro e he
  rcases List.mem_append.mp he with he | he
  · exact h e he
  · rw [List.mem_singleton.mp he]
    exact hne

theorem unused_leaves (h : key ∉ entries.map (·.1)) : Unused key (entries.map leafEntry) := by
  intro e he heq
  obtain ⟨entry, hentry, rfl⟩ := List.mem_map.mp he
  exact h (List.mem_map.mpr ⟨entry, hentry, heq⟩)

theorem changeLast?_concat {α : Type} (f : α → Option α) (xs : List α) (x : α) :
    changeLast? f (xs ++ [x]) = (f x).map fun y => xs ++ [y] := by
  induction xs with
  | nil => rfl
  | cons y xs ih =>
      cases xs with
      | nil =>
          rw [List.singleton_append, changeLast?, changeLast?]
          cases f x <;> rfl
      | cons z xs =>
          rw [List.cons_append, List.cons_append, changeLast?, ← List.cons_append, ih]
          cases f x <;> rfl

/-- **Assignments** of different new keys are added to a table, in order. -/
theorem assign_append (hnew : ∀ entry ∈ entries, Unused entry.1 es)
    (hnodup : (entries.map (·.1)).Nodup) :
    assign es (entries.map plain) = some (es ++ entries.map leafEntry) := by
  induction entries generalizing es with
  | nil =>
      rw [List.map_nil, List.map_nil, List.append_nil]
      rfl
  | cons entry entries ih =>
      obtain ⟨hentry, hnew⟩ := List.forall_mem_cons.mp hnew
      obtain ⟨hother, hnodup⟩ := List.nodup_cons.mp hnodup
      have hadd : addDotted entry.1 entry.2 [] true .header es = some (es ++ [leafEntry entry]) := by
        rw [addDotted, lookUp?_eq_none hentry]
        rfl
      have hunused : ∀ other ∈ entries, Unused other.1 (es ++ [leafEntry entry]) := by
        intro other hmem
        refine unused_concat (hnew other hmem) (fun heq => ?_) _
        exact hother (List.mem_map.mpr ⟨other, hmem, heq.symm⟩)
      have hrest := ih hunused hnodup
      rw [List.append_assoc, List.singleton_append] at hrest
      rw [List.map_cons, List.map_cons, ← hrest, assign, List.foldlM_cons]
      simp only [plain, hadd, Option.bind_eq_bind, Option.bind_some]
      rfl

theorem assign_plain (hnodup : (entries.map (·.1)).Nodup) :
    assign [] (entries.map plain) = some (entries.map leafEntry) := by
  have h : assign [] (entries.map plain) = some ([] ++ entries.map leafEntry) :=
    assign_append (fun _ _ e he => absurd he List.not_mem_nil) hnodup
  rwa [List.nil_append] at h

/-- The entry of an array of tables, which is only there if the array has elements. -/
def arrayEntry (key : String) : List Entries → Entries
  | [] => []
  | es :: rest => [(key, .tables (es :: rest))]

theorem arrayEntry_concat (key : String) (done : List Entries) (es : Entries) :
    arrayEntry key (done ++ [es]) = [(key, .tables (done ++ [es]))] := by
  cases done <;> rfl

theorem addSection_table (hkey : Unused key es) (hnodup : (entries.map (·.1)).Nodup) :
    addSection es ⟨.table [] key, entries.map plain⟩ =
      some (es ++ [(key, .table .header (entries.map leafEntry))]) := by
  rw [addSection]
  simp only [changeAt, lookUp?_eq_none hkey, assign_plain hnodup]
  rfl

theorem addSection_element (hkey : Unused key es) (hnodup : (entries.map (·.1)).Nodup)
    (done : List Entries) :
    addSection (es ++ arrayEntry key done) ⟨.element [] key, entries.map plain⟩ =
      some (es ++ arrayEntry key (done ++ [entries.map leafEntry])) := by
  rw [addSection, arrayEntry_concat]
  cases done with
  | nil =>
      simp only [arrayEntry, List.append_nil, changeAt, lookUp?_eq_none hkey, assign_plain hnodup]
      rfl
  | cons first done =>
      simp only [arrayEntry, changeAt, lookUp?_concat hkey, assign_plain hnodup,
        Option.bind_eq_bind, Option.bind_some, replaceEntry_concat hkey]
      rfl

theorem addSection_below {above : String} (habove : Unused above es) {last : Entries}
    (hkey : Unused key last) (hnodup : (entries.map (·.1)).Nodup) (done : List Entries) :
    addSection (es ++ arrayEntry above (done ++ [last])) ⟨.table [above] key, entries.map plain⟩ =
      some (es ++ arrayEntry above
        (done ++ [last ++ [(key, .table .header (entries.map leafEntry))]])) := by
  rw [addSection, arrayEntry_concat, arrayEntry_concat]
  simp only [changeAt, lookUp?_concat habove, changeLast?_concat, lookUp?_eq_none hkey,
    assign_plain hnodup, Option.bind_eq_bind, Option.bind_some, Option.pure_def, Option.map_some,
    replaceEntry_concat habove]

theorem entriesToToml_append (es fs : Entries) :
    Tree.entriesToToml (es ++ fs) = Tree.entriesToToml es ++ Tree.entriesToToml fs := by
  induction es with
  | nil => rw [List.nil_append, Tree.entriesToToml, List.nil_append]
  | cons e es ih => rw [List.cons_append, Tree.entriesToToml, Tree.entriesToToml, ih, List.cons_append]

theorem entriesToToml_leaves (entries : List (String × Toml)) :
    Tree.entriesToToml (entries.map leafEntry) = entries := by
  induction entries with
  | nil => rw [List.map_nil, Tree.entriesToToml]
  | cons e entries ih =>
      rw [List.map_cons, leafEntry, Tree.entriesToToml, Tree.toToml, ih]

theorem elementsToToml_eq (elements : List Entries) :
    Tree.elementsToToml elements = elements.map fun es => .table (Tree.entriesToToml es) := by
  induction elements with
  | nil => rw [Tree.elementsToToml, List.map_nil]
  | cons es elements ih => rw [Tree.elementsToToml, ih, List.map_cons]

end FilterReference.Toml
