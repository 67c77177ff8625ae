/-
# What operations do to a store

A path leads where it led as long as directories are kept (`KeepsDirectories.locate`).  What was put
at a place stands there and nothing else is changed (`find?_put`), and where nothing stood before,
taking it away again leaves the store as it was (`erase_put`).  Files of different names in one
directory stand at different places (`locate_join_ne`).
-/
import FilterReference.Files.Store
import FilterReference.Proofs.Files.Path
import FilterReference.Proofs.Traversal

namespace FilterReference.Store

variable {s t u : Store} {place q : List String} {part : String} {parts before after : List String}

/-! ## Places

A store lists what stands in it, except for the directories that are always there.  The operations
change the list; what they do to a store is said by `find?`. -/

/-- The node of the entry of a place. -/
def listed? (s : Store) (place : List String) : Option Node :=
  (s.entries.find? (·.1 = place)).map (·.2)

theorem find?_eq (s : Store) (place : List String) :
    s.find? place = (s.listed? place).or
      (if isAncestor place || place = ["/"] then some (.directory Node.newDirectoryMode)
        else none) := by
  unfold find? listed?
  cases s.entries.find? (·.1 = place) with
  | none => rfl
  | some e => rfl

theorem listed?_put (s : Store) (place : List String) (node : Node) (q : List String) :
    (s.put place node).listed? q = if q = place then some node else s.listed? q := by
  by_cases hany : s.entries.any (·.1 = place) = true
  · -- The entry of the place is exchanged, so every entry keeps its place.
    have hkey : (fun e : List String × Node =>
        decide ((if e.1 = place then (place, node) else e).1 = q)) = fun e => decide (e.1 = q) := by
      funext e
      split_ifs with he
      · rw [he]
      · rfl
    have hput : (s.put place node).listed? q =
        ((s.entries.find? (·.1 = q)).map fun e => if e.1 = place then (place, node) else e).map
          (·.2) := by
      rw [put, if_pos hany, listed?, List.find?_map]
      simp only [Function.comp_def, hkey]
    rw [hput, listed?]
    cases hfind : s.entries.find? (·.1 = q) with
    | none =>
        have hq : q ≠ place := by
          rintro rfl
          obtain ⟨e, he, hplace⟩ := List.any_eq_true.mp hany
          exact List.find?_eq_none.mp hfind e he hplace
        rw [if_neg hq]
        rfl
    | some e =>
        have hplace : e.1 = q := by simpa using List.find?_some hfind
        simp only [Option.map_some, hplace]
        split_ifs <;> rfl
  · have hnone : s.listed? place = none := by
      rw [Bool.not_eq_true, List.any_eq_false] at hany
      rw [listed?, List.find?_eq_none.mpr hany]
      rfl
    rw [put, if_neg hany, listed?, List.find?_append, Option.map_or]
    by_cases hq : q = place
    · subst hq
      rw [listed?] at hnone
      rw [hnone, if_pos rfl]
      simp
    · rw [if_neg hq, listed?]
      have hne : ¬ place = q := Ne.symm hq
      simp [hne]

/-- What was put at a place stands there, and nothing else is changed. -/
theorem find?_put (s : Store) (place : List String) (node : Node) (q : List String) :
    (s.put place node).find? q = if q = place then some node else s.find? q := by
  rw [find?_eq, listed?_put]
  by_cases hq : q = place
  · rw [if_pos hq, if_pos hq]
    rfl
  · rw [if_neg hq, if_neg hq, ← find?_eq]

theorem ne_place_of_free (h : s.find? place = none) : ∀ e ∈ s.entries, e.1 ≠ place := by
  intro e he hplace
  have hsome : (s.entries.find? (·.1 = place)).isSome = true :=
    List.find?_isSome.mpr ⟨e, he, decide_eq_true hplace⟩
  obtain ⟨found, hfound⟩ := Option.isSome_iff_exists.mp hsome
  rw [find?, hfound] at h
  cases h

theorem put_of_free (h : s.find? place = none) (node : Node) :
    s.put place node = ⟨s.entries ++ [(place, node)]⟩ := by
  have hany : ¬ s.entries.any (·.1 = place) = true := by
    rw [List.any_eq_true]
    rintro ⟨e, he, hplace⟩
    exact ne_place_of_free h e he (of_decide_eq_true hplace)
  rw [put, if_neg hany]

theorem put_put (h : s.find? place = none) (first second : Node) :
    (s.put place first).put place second = s.put place second := by
  have hkept : (s.entries.map fun e => if e.1 = place then (place, second) else e) =
      s.entries.map id :=
    List.map_congr_left fun e he => if_neg (ne_place_of_free h e he)
  rw [put_of_free h, put_of_free h, put]
  simp [hkept]

theorem erase_put (h : s.find? place = none) (node : Node) :
    (s.put place node).erase place = s := by
  have hkept : s.entries.filter (·.1 ≠ place) = s.entries :=
    List.filter_eq_self.mpr fun e he => decide_eq_true (ne_place_of_free h e he)
  rw [erase, put_of_free h, List.filter_append, hkept]
  simp

theorem isDirectory_iff :
    s.isDirectory place = true ↔ ∃ mode, s.find? place = some (.directory mode) := by
  unfold isDirectory
  split
  · rename_i mode h
    simp [h]
  · rename_i h
    simp only [Bool.false_eq_true, false_iff]
    rintro ⟨mode, hmode⟩
    exact h mode hmode

/-- Where there is a directory in the one store, there is one in the other. -/
def KeepsDirectories (s t : Store) : Prop :=
  ∀ place, s.isDirectory place = true → t.isDirectory place = true

theorem KeepsDirectories.refl (s : Store) : s.KeepsDirectories s := fun _ h => h

theorem KeepsDirectories.trans (h : s.KeepsDirectories t) (h' : t.KeepsDirectories u) :
    s.KeepsDirectories u := fun place hplace => h' place (h place hplace)

/-! ## Walking

Only directories can be passed, so a path leads where it led unless one of them is gone.  No
operation takes a directory away. -/

/-- Where a part leads to from a directory. -/
def enter (place : List String) (part : String) : Except FileError (List String) :=
  if part = "" ∨ part = "." then .ok place
  else if part = ".." then .ok (above place)
  else if Path.maxPartBytes < part.utf8ByteSize then .error .nameTooLong
  else .ok (place ++ [part])

theorem stepInto_of_isDirectory (h : s.isDirectory place = true) (part : String) :
    s.stepInto place part = enter place part := by
  obtain ⟨mode, hmode⟩ := isDirectory_iff.mp h
  rw [stepInto, hmode]
  rfl

theorem isDirectory_of_stepInto (h : s.stepInto place part = .ok q) :
    s.isDirectory place = true := by
  unfold stepInto at h
  split at h
  · cases h
  · cases h
  · rename_i mode hmode
    exact isDirectory_iff.mpr ⟨mode, hmode⟩

theorem KeepsDirectories.stepInto (hkeeps : s.KeepsDirectories t)
    (h : s.stepInto place part = .ok q) :
    t.stepInto place part = .ok q := by
  have hdirectory := isDirectory_of_stepInto h
  rw [stepInto_of_isDirectory hdirectory] at h
  rw [stepInto_of_isDirectory (hkeeps place hdirectory), h]

theorem KeepsDirectories.steps (hkeeps : s.KeepsDirectories t)
    (h : parts.foldlM s.stepInto place = .ok q) : parts.foldlM t.stepInto place = .ok q := by
  induction parts generalizing place with
  | nil => exact h
  | cons part parts ih =>
      rw [List.foldlM_cons] at h ⊢
      obtain ⟨next, hnext, hrest⟩ := bind_eq_ok_iff.mp h
      exact bind_eq_ok_iff.mpr ⟨next, hkeeps.stepInto hnext, ih hrest⟩

theorem KeepsDirectories.walk (hkeeps : s.KeepsDirectories t) (h : s.walk parts = .ok q) :
    t.walk parts = .ok q := by
  unfold Store.walk at h ⊢
  split at h
  · exact hkeeps.steps h
  · exact hkeeps.steps h

theorem KeepsDirectories.locate (hkeeps : s.KeepsDirectories t) {path : String}
    (h : s.locate path = .ok q) : t.locate path = .ok q := by
  obtain ⟨parts, hparts, hwalk⟩ := bind_eq_ok_iff.mp h
  exact bind_eq_ok_iff.mpr ⟨parts, hparts, hkeeps.walk hwalk⟩

theorem walk_of_ne {first : String} (h : first ≠ "/") (rest : List String) :
    s.walk (first :: rest) = (first :: rest).foldlM s.stepInto [] := by
  unfold walk
  split
  · rename_i heq
    exact absurd (List.cons.inj heq).1 h
  · rfl

theorem walk_append (h : before ≠ []) :
    s.walk (before ++ after) = s.walk before >>= fun place => after.foldlM s.stepInto place := by
  obtain ⟨first, rest, rfl⟩ := List.exists_cons_of_ne_nil h
  by_cases hroot : first = "/"
  · subst hroot
    rw [List.cons_append]
    change List.foldlM _ _ _ = List.foldlM _ _ _ >>= _
    rw [List.foldlM_append]
  · rw [List.cons_append, walk_of_ne hroot, walk_of_ne hroot, ← List.cons_append,
      List.foldlM_append]

theorem walk_concat (h : part ≠ "/") :
    s.walk (parts ++ [part]) = s.walk parts >>= fun place => s.stepInto place part := by
  have hone : ∀ place, [part].foldlM s.stepInto place = s.stepInto place part := by
    intro place
    rw [List.foldlM_cons]
    exact bind_pure _
  by_cases hparts : parts = []
  · subst hparts
    rw [List.nil_append, walk_of_ne h, hone]
    rfl
  · rw [walk_append hparts]
    simp only [hone]

/-! ## Parts of paths -/

/-- The parts of a path, behind the root if it starts there. -/
def rooted (path : String) (parts : List (List Char)) : List String :=
  if Path.isAbsolute path then "/" :: parts.map String.ofList else parts.map String.ofList

theorem partsOf_eq_ok_iff {path : String} :
    partsOf path = .ok parts ↔
      (Path.hasNul path = false ∧ path ≠ "" ∧ path.utf8ByteSize ≤ Path.maxBytes) ∧
        rooted path (Path.split path.toList) = parts := by
  have haccepted : Path.hasNul path = false → path ≠ "" → path.utf8ByteSize ≤ Path.maxBytes →
      partsOf path = .ok (rooted path (Path.split path.toList)) := by
    intro hnul hempty hlong
    rw [partsOf, hnul, if_neg Bool.false_ne_true, if_neg hempty, if_neg (Nat.not_lt.mpr hlong)]
    rfl
  constructor
  · intro h
    have hnul : Path.hasNul path = false := by
      by_contra hnul
      rw [Bool.not_eq_false] at hnul
      rw [partsOf, if_pos hnul] at h
      cases h
    have hempty : path ≠ "" := by
      rintro rfl
      cases h
    have hlong : path.utf8ByteSize ≤ Path.maxBytes := by
      by_contra hlong
      rw [partsOf, hnul, if_neg Bool.false_ne_true, if_neg hempty,
        if_pos (Nat.not_le.mp hlong)] at h
      cases h
    rw [haccepted hnul hempty hlong] at h
    exact ⟨⟨hnul, hempty, hlong⟩, Except.ok.inj h⟩
  · rintro ⟨⟨hnul, hempty, hlong⟩, rfl⟩
    exact haccepted hnul hempty hlong

/-- The last part of a path is empty where a slash is at its end, and only there. -/
theorem withoutEmptyEnd_of_partsOf {path : String} (h : partsOf path = .ok parts)
    (hends : Path.endsInSlash path = false) : withoutEmptyEnd parts = parts := by
  obtain ⟨⟨-, hempty, -⟩, rfl⟩ := partsOf_eq_ok_iff.mp h
  obtain ⟨before, last, hsplit⟩ := List.eq_nil_or_concat (Path.split path.toList) |>.resolve_left
    (Path.split_ne_nil _)
  have hlast : last ≠ [] := by
    rintro rfl
    by_cases hbefore : before = []
    · subst hbefore
      have hpath := Path.unsplit_split path.toList
      rw [hsplit] at hpath
      exact hempty (String.toList_eq_nil_iff.mp hpath.symm)
    · rw [Path.endsInSlash_of_split hbefore (by simpa using hsplit)] at hends
      cases hends
  have hname : ¬ String.ofList last = "" := by
    intro hempty
    have hchars := congrArg String.toList hempty
    rw [String.toList_ofList] at hchars
    exact hlast hchars
  have hconcat : ∃ front, rooted path (Path.split path.toList) = front ++ [String.ofList last] := by
    rw [hsplit, rooted]
    split_ifs
    · exact ⟨"/" :: before.map String.ofList, by simp⟩
    · exact ⟨before.map String.ofList, by simp⟩
  obtain ⟨front, hfront⟩ := hconcat
  rw [hfront, withoutEmptyEnd]
  simp [hname]

/-! ## Files of one directory

What a file name is joined to leads to the directory, whatever the slashes at its end.  Hence two
names in one directory lead to two places, and where one of them leads somewhere, the other does
too. -/

section Files

variable {directory name other : String}

/-- The parts that lead to what stands in a directory. -/
def wayInto (directory : String) : List String := rooted directory (Path.directoryParts directory)

theorem isAbsolute_join (h : Path.IsFileName name) :
    Path.isAbsolute (Path.join directory name) = Path.isAbsolute directory := by
  obtain ⟨between, hjoin, hbetween⟩ := Path.join_eq_append h
  by_cases hempty : directory = ""
  · rw [hjoin, hbetween hempty, hempty]
    exact Path.isAbsolute_of_isFileName h
  · obtain ⟨c, cs, hcs⟩ := List.exists_cons_of_ne_nil (mt String.toList_eq_nil_iff.mp hempty)
    rw [hjoin, Path.isAbsolute, Path.isAbsolute, String.toList_append, hcs]
    rfl

theorem partsOf_join (h : Path.IsFileName name)
    (hparts : partsOf (Path.join directory name) = .ok parts) :
    parts = wayInto directory ++ [name] := by
  obtain ⟨-, rfl⟩ := partsOf_eq_ok_iff.mp hparts
  rw [rooted, isAbsolute_join h, Path.split_join h, wayInto, rooted]
  split_ifs <;> simp

theorem locate_join_eq_ok (h : Path.IsFileName name)
    (hlocate : s.locate (Path.join directory name) = .ok place) :
    ∃ q, s.walk (wayInto directory) = .ok q ∧ s.isDirectory q = true ∧ place = q ++ [name] := by
  obtain ⟨parts, hparts, hwalk⟩ := bind_eq_ok_iff.mp hlocate
  rw [partsOf_join h hparts, walk_concat h.ne_root] at hwalk
  obtain ⟨q, hq, hstep⟩ := bind_eq_ok_iff.mp hwalk
  have hdirectory := isDirectory_of_stepInto hstep
  rw [stepInto_of_isDirectory hdirectory, enter] at hstep
  have hidle : ¬ (name = "" ∨ name = ".") := by
    rintro (hempty | hdot)
    · exact h.ne_empty hempty
    · exact h.ne_dot hdot
  rw [if_neg hidle, if_neg h.ne_dots] at hstep
  split_ifs at hstep
  exact ⟨q, hq, hdirectory, (Except.ok.inj hstep).symm⟩

/-- **Files of different names in one directory** stand at different places. -/
theorem locate_join_ne (h : Path.IsFileName name) (hother : Path.IsFileName other)
    (hne : name ≠ other) {p : List String} (hp : s.locate (Path.join directory name) = .ok p)
    (hq : s.locate (Path.join directory other) = .ok q) : p ≠ q := by
  obtain ⟨d, hd, -, rfl⟩ := locate_join_eq_ok h hp
  obtain ⟨d', hd', -, rfl⟩ := locate_join_eq_ok hother hq
  intro heq
  have hlast := congrArg List.getLast? heq
  simp only [List.getLast?_concat, Option.some.injEq] at hlast
  exact hne hlast

/-- Once one file in a directory is reached, all files in it are looked for at the same places as
long as directories are kept. -/
theorem locate_join_congr (hkeeps : s.KeepsDirectories t) (h : Path.IsFileName name)
    (hother : Path.IsFileName other) (hlocate : s.locate (Path.join directory name) = .ok place) :
    t.locate (Path.join directory other) = s.locate (Path.join directory other) := by
  obtain ⟨d, hd, hdirectory, -⟩ := locate_join_eq_ok h hlocate
  cases hparts : partsOf (Path.join directory other) with
  | error e =>
      rw [locate, locate, hparts]
      rfl
  | ok parts =>
      have hwalk : ∀ u : Store, u.locate (Path.join directory other) =
          u.walk (wayInto directory) >>= fun place => u.stepInto place other := by
        intro u
        rw [locate, hparts, partsOf_join hother hparts]
        exact walk_concat hother.ne_root
      rw [hwalk, hwalk, hd, hkeeps.walk hd]
      change t.stepInto d other = s.stepInto d other
      rw [stepInto_of_isDirectory hdirectory, stepInto_of_isDirectory (hkeeps d hdirectory)]

theorem openPath_congr {path : String} (hlocate : t.locate path = s.locate path)
    (hfind : ∀ place, s.locate path = .ok place → t.find? place = s.find? place) :
    t.openPath path = s.openPath path := by
  cases hs : s.locate path with
  | error e => rw [openPath, openPath, lookUp, lookUp, hlocate, hs]; rfl
  | ok place =>
      rw [openPath, openPath, lookUp, lookUp, hlocate, hs]
      simp only [bind, Except.bind, hfind place hs]

end Files

end FilterReference.Store
