/-
# Components of paths

Two paths are the same when their components are: the root or the dot at the beginning, and the
parts that count.  A file in a directory has the components of the directory and its name
(`components_join`), so that files of different names in one directory have different paths; and its
name is found at the end of its path (`fileName?_join`).
-/
import FilterReference.Proofs.Files.Path

namespace FilterReference.Path

/-- The parts that count. -/
def namedParts (cs : List Char) : List (List Char) := (split cs).filter (!isIdle ·)

/-- The head of a path, if it has one, and the parts behind it that count. -/
def componentsOf (cs : List Char) : List (List Char) :=
  (if head cs = [] then [] else [head cs]) ++ namedParts (cs.drop (head cs).length)

/-- What a path is compared by. -/
def components (path : String) : List String := (componentsOf path.toList).map String.ofList

theorem namedParts_append (cs rest : List Char) :
    namedParts (cs ++ '/' :: rest) = namedParts cs ++ namedParts rest := by
  rw [namedParts, split_append_slash, List.filter_append]
  rfl

/-- Whether a path has a head, its text before the first slash decides. -/
theorem head_append {cs : List Char} (hne : cs ≠ []) (rest : List Char) :
    head (cs ++ '/' :: rest) = head cs := by
  obtain ⟨c, cs, rfl⟩ := List.exists_cons_of_ne_nil hne
  by_cases hslash : c = '/'
  · rw [hslash]
    rfl
  by_cases hdot : c = '.'
  · rcases cs with _ | ⟨d, cs⟩
    · rw [hdot]
      rfl
    · by_cases hd : d = '/'
      · rw [hdot, hd]
        rfl
      · simp [head, hdot, hd]
  · simp [head, hslash, hdot]

theorem length_head_le (cs : List Char) : (head cs).length ≤ cs.length := by
  have hlength := congrArg List.length (head_append_drop cs)
  rw [List.length_append] at hlength
  omega

theorem componentsOf_append {cs : List Char} (hne : cs ≠ []) (rest : List Char) :
    componentsOf (cs ++ '/' :: rest) = componentsOf cs ++ namedParts rest := by
  rw [componentsOf, head_append hne, List.drop_append_of_le_length (length_head_le cs),
    namedParts_append, ← List.append_assoc]
  rfl

theorem componentsOf_root (rest : List Char) :
    componentsOf ('/' :: rest) = ['/'] :: namedParts rest := rfl

theorem IsFileName.ne_nil {name : String} (h : IsFileName name) : name.toList ≠ [] :=
  fun hnil => h.ne_empty (String.toList_inj.mp hnil)

theorem IsFileName.ne_singleton {name : String} (h : IsFileName name) : name.toList ≠ ['.'] :=
  fun hdot => h.ne_dot (String.toList_inj.mp hdot)

theorem IsFileName.namedParts {name : String} (h : IsFileName name) :
    Path.namedParts name.toList = [name.toList] := by
  rw [Path.namedParts, split_of_noSlash h.noSlash]
  simp [isIdle, h.ne_nil, h.ne_singleton]

theorem IsFileName.componentsOf {name : String} (h : IsFileName name) :
    Path.componentsOf name.toList = [name.toList] := by
  have hslash := h.noSlash
  have hhead : head name.toList = [] := by
    rcases head_cases name.toList with ⟨hhead, -⟩ | ⟨rest, -, hcs, -⟩ | ⟨-, hcs, -⟩ |
      ⟨rest, -, hcs, -⟩
    · exact hhead
    · rw [hcs] at hslash
      exact absurd List.mem_cons_self hslash
    · exact absurd hcs h.ne_singleton
    · rw [hcs] at hslash
      exact absurd (List.mem_cons_of_mem _ List.mem_cons_self) hslash
  rw [Path.componentsOf, hhead]
  exact h.namedParts

/-- **A file in a directory** has the components of the directory, and its name as one more. -/
theorem components_join {directory name : String} (h : IsFileName name) :
    components (join directory name) = components directory ++ [name] := by
  have hjoin : componentsOf (join directory name).toList =
      componentsOf directory.toList ++ [name.toList] := by
    unfold join
    rw [isAbsolute_of_isFileName h, if_neg Bool.false_ne_true]
    by_cases hempty : directory = ""
    · subst hempty
      rw [if_pos (by rfl), String.empty_append, h.componentsOf]
      rfl
    by_cases hends : endsInSlash directory = true
    · obtain ⟨cs, hcs⟩ := endsInSlash_iff.mp hends
      simp only [hends, Bool.or_true, if_true]
      rw [String.toList_append, hcs, List.append_assoc, List.singleton_append]
      by_cases hroot : cs = []
      · rw [hroot, List.nil_append, List.nil_append, componentsOf_root, componentsOf_root,
          h.namedParts]
        rfl
      · -- The slash at the end of the directory has nothing behind it that counts.
        rw [componentsOf_append hroot, componentsOf_append hroot, h.namedParts, List.append_assoc]
        rfl
    · have hne : directory.toList ≠ [] := fun hnil => hempty (String.toList_inj.mp hnil)
      have hslash : (directory ++ "/" ++ name).toList = directory.toList ++ '/' :: name.toList := by
        simp
      simp only [hends, beq_eq_false_iff_ne.mpr hempty, Bool.or_self, Bool.false_eq_true, if_false]
      rw [hslash, componentsOf_append hne, h.namedParts]
  rw [components, hjoin, List.map_append, List.map_singleton, String.ofList_toList]
  rfl

theorem getLast?_body {cs part : List Char} {before : List (List Char)}
    (h : split cs = before ++ [part]) (hpart : isIdle part = false) :
    (body cs).getLast? = some part := by
  have hlast : ∃ before', split (cs.drop (head cs).length) = before' ++ [part] := by
    rcases head_cases cs with ⟨-, hdrop⟩ | ⟨rest, -, hcs, hdrop⟩ | ⟨-, hcs, -⟩ |
      ⟨rest, -, hcs, hdrop⟩
    · exact ⟨before, by rw [hdrop, h]⟩
    · rw [hcs, split, if_pos rfl] at h
      cases before with
      | nil =>
          cases (List.cons.inj h).1
          cases hpart
      | cons first before => exact ⟨before, by rw [hdrop, (List.cons.inj h).2]; rfl⟩
    · rw [hcs, split_of_noSlash (by decide)] at h
      cases before with
      | nil =>
          cases (List.cons.inj h).1
          cases hpart
      | cons first before => exact absurd (List.cons.inj h).2 (by simp)
    · have hsplit : split cs = ['.'] :: split rest := by
        rw [hcs]
        exact split_append_slash ['.'] rest
      rw [hsplit] at h
      cases before with
      | nil =>
          cases (List.cons.inj h).1
          cases hpart
      | cons first before =>
          refine ⟨[] :: before, ?_⟩
          rw [hdrop, split, if_pos rfl, (List.cons.inj h).2]
          rfl
  obtain ⟨before', hlast⟩ := hlast
  rw [body, hlast, List.reverse_append, List.reverse_singleton, List.singleton_append,
    List.dropWhile_cons_of_neg (by simp [hpart]), List.getLast?_reverse, List.head?_cons]

/-- **The name of a file in a directory** is found again. -/
theorem fileName?_join {directory name : String} (h : IsFileName name) :
    fileName? (join directory name) = some name := by
  have hidle : isIdle name.toList = false := by simp [isIdle, h.ne_nil, h.ne_singleton]
  have hdots : name.toList ≠ ['.', '.'] := fun heq => h.ne_dots (String.toList_inj.mp heq)
  rw [fileName?, getLast?_body (split_join h) hidle]
  simp only [if_neg hdots, String.ofList_toList]

theorem splitName_append {name extension : List Char} (hname : name ≠ [])
    (hextension : '.' ∉ extension) :
    splitName (name ++ '.' :: extension) = (name, some extension) := by
  have hreverse : (name ++ '.' :: extension).reverse = extension.reverse ++ '.' :: name.reverse := by
    simp
  have htake : ∀ c ∈ extension.reverse, decide (c ≠ '.') = true := by
    intro c hc
    refine decide_eq_true ?_
    rintro rfl
    exact hextension (List.mem_reverse.mp hc)
  have hspan : (name ++ '.' :: extension).reverse.span (· ≠ '.') =
      (extension.reverse, '.' :: name.reverse) := by
    rw [List.span_eq_takeWhile_dropWhile, hreverse, List.takeWhile_append_of_pos htake,
      List.dropWhile_append_of_pos htake]
    simp
  obtain ⟨c, cs, hcons⟩ := List.exists_cons_of_ne_nil (mt List.reverse_eq_nil_iff.mp hname)
  have hback : (c :: cs).reverse = name := by rw [← hcons, List.reverse_reverse]
  rw [splitName, hspan, hcons]
  simp only [hback, List.reverse_reverse]

end FilterReference.Path
