/-
# Making directories

Making a directory and those above it adds directories where nothing stood, on the way along the
path, and does nothing else, whether it succeeds or fails (`MakesWay`).  When it fails, the path
leads to no directory, so that no file can be reached in it (`attempt_makeDirectories`).
-/
import FilterReference.Proofs.Files.Replacement

namespace FilterReference.Store

variable {s t u : Store} {place q : List String} {path above : String}
  {parts before after : List String}

/-! ## Trails

A directory is made at the place its parts lead to without the empty ones at their end.  The parts
of a path above it are the first of these, which is what lets the recursion go up the path. -/

/-- The parts that a directory is made by: those of its path without empty ones at the end. -/
def trail (path : String) : Except FileError (List String) := withoutEmptyEnd <$> partsOf path

theorem trail_eq_ok_iff :
    trail path = .ok parts ↔ ∃ all, partsOf path = .ok all ∧ withoutEmptyEnd all = parts := by
  unfold trail
  cases partsOf path with
  | error e => simp
  | ok all => simp

theorem exists_withoutEmptyEnd_append (parts : List String) :
    ∃ dropped, parts = withoutEmptyEnd parts ++ dropped ∧ ∀ part ∈ dropped, part = "" := by
  obtain ⟨dropped, hparts, hdropped⟩ := Path.exists_append_dropped (decide <| · = "") parts
  exact ⟨dropped, hparts, fun part hpart => by simpa using hdropped part hpart⟩

theorem withoutEmptyEnd_append (before : List String) (h : ∃ part ∈ after, part ≠ "") :
    withoutEmptyEnd (before ++ after) = before ++ withoutEmptyEnd after := by
  have hsome : (after.reverse.dropWhile (· = "")).isEmpty = false := by
    obtain ⟨part, hpart, hne⟩ := h
    rw [List.isEmpty_eq_false_iff]
    intro hnil
    rw [List.dropWhile_eq_nil_iff] at hnil
    exact hne (by simpa using hnil part (List.mem_reverse.mpr hpart))
  rw [withoutEmptyEnd, List.reverse_append, List.dropWhile_append, hsome, if_neg Bool.false_ne_true,
    List.reverse_append, List.reverse_reverse, withoutEmptyEnd]

theorem withoutEmptyEnd_ne_nil (h : ∃ part ∈ parts, part ≠ "") : withoutEmptyEnd parts ≠ [] := by
  intro hnil
  obtain ⟨dropped, hparts, hdropped⟩ := exists_withoutEmptyEnd_append parts
  obtain ⟨part, hpart, hne⟩ := h
  rw [hnil, List.nil_append] at hparts
  rw [hparts] at hpart
  exact hne (hdropped part hpart)

theorem withoutEmptyEnd_begins (parts : List String) : withoutEmptyEnd parts <+: parts := by
  obtain ⟨dropped, hparts, -⟩ := exists_withoutEmptyEnd_append parts
  exact ⟨dropped, hparts.symm⟩

theorem partsOf_of_append {rest : String} (h : partsOf (path ++ rest) = .ok parts)
    (hne : path ≠ "") :
    partsOf path = .ok (rooted path (Path.split path.toList)) := by
  obtain ⟨⟨hnul, -, hlong⟩, -⟩ := partsOf_eq_ok_iff.mp h
  refine partsOf_eq_ok_iff.mpr ⟨⟨?_, hne, ?_⟩, rfl⟩
  · rw [Path.hasNul, List.contains_eq_mem, decide_eq_false_iff_not] at hnul ⊢
    rw [String.toList_append, List.mem_append, not_or] at hnul
    exact hnul.1
  · rw [String.utf8ByteSize_append] at hlong
    omega

theorem isAbsolute_append (hne : path ≠ "") (rest : String) :
    Path.isAbsolute (path ++ rest) = Path.isAbsolute path := by
  obtain ⟨c, cs, hcs⟩ := List.exists_cons_of_ne_nil (mt String.toList_eq_nil_iff.mp hne)
  rw [Path.isAbsolute, Path.isAbsolute, String.toList_append, hcs]
  rfl

theorem ofList_ne_empty {cs : List Char} (h : cs ≠ []) : String.ofList cs ≠ "" := by
  intro hempty
  have hchars := congrArg String.toList hempty
  rw [String.toList_ofList] at hchars
  exact h hchars

theorem exists_part_ne_empty (hne : path ≠ "") :
    ∃ part ∈ rooted path (Path.split path.toList), part ≠ "" := by
  obtain ⟨c, cs, hcs⟩ := List.exists_cons_of_ne_nil (mt String.toList_eq_nil_iff.mp hne)
  unfold rooted
  split_ifs with habsolute
  · exact ⟨"/", List.mem_cons_self, by decide⟩
  · have hc : c ≠ '/' := by
      rintro rfl
      rw [Path.isAbsolute, hcs] at habsolute
      exact habsolute rfl
    obtain ⟨part, parts, hsplit⟩ := List.exists_cons_of_ne_nil (Path.split_ne_nil cs)
    rw [hcs, Path.split_cons hc hsplit]
    exact ⟨String.ofList (c :: part), List.mem_cons_self, ofList_ne_empty (List.cons_ne_nil _ _)⟩

theorem rooted_append (path : String) (xs ys : List (List Char)) :
    rooted path (xs ++ ys) = rooted path xs ++ ys.map String.ofList := by
  unfold rooted
  split_ifs <;> simp

/-- **The trail of the directory above** begins the trail of a path. -/
theorem trail_parent (hparent : Path.parent? path = some above) (hne : above ≠ "")
    (h : trail path = .ok parts) :
    above.length < path.length ∧
      ∃ before, trail above = .ok before ∧ before ≠ [] ∧ before <+: parts := by
  obtain ⟨all, hall, rfl⟩ := trail_eq_ok_iff.mp h
  obtain ⟨-, rfl⟩ := partsOf_eq_ok_iff.mp hall
  obtain ⟨rest, hpath, part, hpart, hsome⟩ := Path.parent?_eq_some hparent hne
  have hbehind : ∃ part ∈ (Path.split rest).map String.ofList, part ≠ "" :=
    ⟨_, List.mem_map_of_mem hpart, ofList_ne_empty hsome⟩
  rcases hpath with hpath | ⟨rfl, hpath⟩
  · have happend : path = above ++ String.ofList ('/' :: rest) := by
      rw [← String.toList_inj, String.toList_append, String.toList_ofList, hpath]
    constructor
    · rw [← String.length_toList, ← String.length_toList, hpath, List.length_append,
        List.length_cons]
      omega
    · have hparts : rooted path (Path.split path.toList) =
          rooted above (Path.split above.toList) ++ (Path.split rest).map String.ofList := by
        rw [hpath, Path.split_append_slash, rooted_append, rooted, happend, isAbsolute_append hne,
          rooted]
      rw [happend] at hall
      refine ⟨_, trail_eq_ok_iff.mpr ⟨_, partsOf_of_append hall hne, rfl⟩,
        withoutEmptyEnd_ne_nil (exists_part_ne_empty hne), ?_⟩
      rw [hparts, withoutEmptyEnd_append _ hbehind]
      exact (withoutEmptyEnd_begins _).trans (List.prefix_append _ _)
  · constructor
    · have hrest : rest ≠ [] := by
        rintro rfl
        exact hsome (List.mem_singleton.mp hpart)
      have hlength := List.length_pos_of_ne_nil hrest
      rw [← String.length_toList, ← String.length_toList, hpath]
      simpa using hlength
    · have hparts : rooted path (Path.split path.toList) =
          ["/", ""] ++ (Path.split rest).map String.ofList := by
        have habsolute : Path.isAbsolute path = true := by
          rw [Path.isAbsolute, hpath]
          rfl
        rw [rooted, if_pos habsolute, hpath]
        rfl
      refine ⟨["/"], rfl, List.cons_ne_nil _ _, ?_⟩
      rw [hparts, withoutEmptyEnd_append _ hbehind]
      exact ⟨"" :: withoutEmptyEnd ((Path.split rest).map String.ofList), rfl⟩

/-! ## Leading to a directory

Empty parts at the end of a path lead nowhere else, so a path leads to a directory exactly if its
trail does.  Then so does every beginning of the trail. -/

/-- Parts lead to a directory. -/
def Reaches (s : Store) (parts : List String) : Prop :=
  ∃ place, s.walk parts = .ok place ∧ s.isDirectory place = true

theorem isDirectory_of_steps {part : String}
    (h : (part :: parts).foldlM s.stepInto place = .ok q) : s.isDirectory place = true := by
  rw [List.foldlM_cons] at h
  obtain ⟨next, hnext, -⟩ := bind_eq_ok_iff.mp h
  exact isDirectory_of_stepInto hnext

theorem Reaches.of_prefix (h : s.Reaches parts) (hne : before ≠ []) (hinitial : before <+: parts) :
    s.Reaches before := by
  obtain ⟨after, rfl⟩ := hinitial
  obtain ⟨place, hwalk, hdirectory⟩ := h
  rw [walk_append hne] at hwalk
  obtain ⟨q, hq, hsteps⟩ := bind_eq_ok_iff.mp hwalk
  cases after with
  | nil =>
      cases hsteps
      exact ⟨place, hq, hdirectory⟩
  | cons part after => exact ⟨q, hq, isDirectory_of_steps hsteps⟩

theorem steps_of_empty (hdirectory : s.isDirectory place = true) (h : ∀ part ∈ parts, part = "") :
    parts.foldlM s.stepInto place = .ok place := by
  induction parts with
  | nil => rfl
  | cons part parts ih =>
      obtain ⟨hpart, hparts⟩ := List.forall_mem_cons.mp h
      have hstep : s.stepInto place part = .ok place := by
        rw [stepInto_of_isDirectory hdirectory, enter, if_pos (Or.inl hpart)]
      rw [List.foldlM_cons, hstep]
      exact ih hparts

theorem leadsToDirectory_iff_locate :
    s.leadsToDirectory path = true ↔
      ∃ place, s.locate path = .ok place ∧ s.isDirectory place = true := by
  unfold leadsToDirectory
  split
  · rename_i place hlocate
    simp [hlocate]
  · rename_i e hlocate
    simp [hlocate]

theorem leadsToDirectory_iff :
    s.leadsToDirectory path = true ↔ ∃ parts, trail path = .ok parts ∧ s.Reaches parts := by
  have htrail : ∀ all, partsOf path = .ok all →
      (s.Reaches all ↔ s.Reaches (withoutEmptyEnd all)) := by
    intro all hall
    obtain ⟨⟨-, hne, -⟩, rfl⟩ := partsOf_eq_ok_iff.mp hall
    have hsome := withoutEmptyEnd_ne_nil (exists_part_ne_empty hne)
    obtain ⟨dropped, hdropped, hempty⟩ :=
      exists_withoutEmptyEnd_append (rooted path (Path.split path.toList))
    constructor
    · intro h
      exact h.of_prefix hsome (withoutEmptyEnd_begins _)
    · rintro ⟨place, hwalk, hdirectory⟩
      refine ⟨place, ?_, hdirectory⟩
      rw [hdropped, walk_append hsome, hwalk]
      exact steps_of_empty hdirectory hempty
  rw [leadsToDirectory_iff_locate]
  constructor
  · rintro ⟨place, hlocate, hdirectory⟩
    obtain ⟨all, hall, hwalk⟩ := bind_eq_ok_iff.mp hlocate
    exact ⟨_, trail_eq_ok_iff.mpr ⟨all, hall, rfl⟩, (htrail all hall).mp ⟨place, hwalk, hdirectory⟩⟩
  · rintro ⟨parts, hparts, hreaches⟩
    obtain ⟨all, hall, rfl⟩ := trail_eq_ok_iff.mp hparts
    obtain ⟨place, hwalk, hdirectory⟩ := (htrail all hall).mpr hreaches
    exact ⟨place, bind_eq_ok_iff.mpr ⟨all, hall, hwalk⟩, hdirectory⟩

theorem leadsToDirectory_of_locate_join {directory name : String} (h : Path.IsFileName name)
    (hne : directory ≠ "") (hlocate : s.locate (Path.join directory name) = .ok place) :
    s.leadsToDirectory directory = true := by
  obtain ⟨q, hwalk, hdirectory, -⟩ := locate_join_eq_ok h hlocate
  obtain ⟨all, hall, -⟩ := bind_eq_ok_iff.mp hlocate
  obtain ⟨between, hjoin, -⟩ := Path.join_eq_append h
  rw [hjoin] at hall
  refine leadsToDirectory_iff_locate.mpr ⟨q, ?_, hdirectory⟩
  refine bind_eq_ok_iff.mpr ⟨_, partsOf_of_append hall hne, ?_⟩
  by_cases hends : Path.endsInSlash directory = true
  · obtain ⟨cs, hcs⟩ := Path.endsInSlash_iff.mp hends
    have hsplit : Path.split directory.toList = Path.directoryParts directory ++ [[]] := by
      rw [Path.directoryParts, if_neg hne, if_pos hends, hcs, Path.split_append_slash, Path.split,
        List.dropLast_concat]
    rw [hsplit, rooted_append]
    change s.walk (wayInto directory ++ [""]) = _
    rw [walk_concat (by decide), hwalk]
    exact (stepInto_of_isDirectory hdirectory "").trans (if_pos (Or.inl rfl))
  · rw [wayInto, Path.directoryParts, if_neg hne, if_neg hends] at hwalk
    exact hwalk

/-! ## Ways that are made

What was made is on the way to the path, but on the way through the new store: the places there are
only reached since the directories before them were made.  So the way is walked in the later of the
two stores, and goes on to be one while directories are only added. -/

/-- A place that a path leads past or to. -/
def IsOnWay (s : Store) (path : String) (place : List String) : Prop :=
  ∃ parts before, trail path = .ok parts ∧ before <+: parts ∧ s.walk before = .ok place

/-- One store is another with directories made on the way along a path, where nothing stood. -/
def MakesWay (s t : Store) (path : String) : Prop :=
  ∀ place, t.find? place = s.find? place ∨
    s.find? place = none ∧ t.find? place = some (.directory Node.newDirectoryMode) ∧
      t.IsOnWay path place

theorem MakesWay.refl (s : Store) (path : String) : s.MakesWay s path := fun _ => Or.inl rfl

theorem MakesWay.kept (h : s.MakesWay t path) : s.KeepsDirectories t := by
  intro place hplace
  rcases h place with hsame | ⟨hnone, -⟩
  · rwa [isDirectory, hsame]
  · rw [isDirectory, hnone] at hplace
    cases hplace

theorem IsOnWay.mono (hkeeps : s.KeepsDirectories t) (h : s.IsOnWay path place) :
    t.IsOnWay path place := by
  obtain ⟨parts, before, hparts, hinitial, hwalk⟩ := h
  exact ⟨parts, before, hparts, hinitial, hkeeps.walk hwalk⟩

theorem MakesWay.trans (h : s.MakesWay t path) (h' : t.MakesWay u path) : s.MakesWay u path := by
  intro place
  rcases h' place with hsame | ⟨hnone, hnew, hway⟩
  · rcases h place with hsame' | ⟨hnone', hnew', hway'⟩
    · exact Or.inl (hsame.trans hsame')
    · exact Or.inr ⟨hnone', hsame.trans hnew', hway'.mono h'.kept⟩
  · rcases h place with hsame' | ⟨-, hnew', -⟩
    · exact Or.inr ⟨hsame'.symm.trans hnone, hnew, hway⟩
    · rw [hnew'] at hnone
      cases hnone

theorem MakesWay.of_above (h : s.MakesWay t above) (hparent : Path.parent? path = some above)
    (hparts : trail path = .ok parts) : s.MakesWay t path := by
  intro place
  rcases h place with hsame | ⟨hnone, hnew, habove, before, htrail, hinitial, hwalk⟩
  · exact Or.inl hsame
  · have hne : above ≠ "" := by
      rintro rfl
      cases htrail
    obtain ⟨-, whole, hwhole, -, hbegins⟩ := trail_parent hparent hne hparts
    rw [hwhole] at htrail
    cases htrail
    exact Or.inr ⟨hnone, hnew, parts, before, hparts, hinitial.trans hbegins, hwalk⟩

/-! ## Making directories

When a step fails with anything but a missing directory, or fails again after those above were made,
the path is looked at once more.  So failure always means that it leads to no directory, and success
need not mean that one was made. -/

theorem makesWay_of_makeDirectory (h : s.makeDirectory path = .ok t) : s.MakesWay t path := by
  obtain ⟨all, hall, hrest⟩ := bind_eq_ok_iff.mp h
  obtain ⟨place, hwalk, hput⟩ := bind_eq_ok_iff.mp hrest
  split_ifs at hput with hsome
  cases hput
  rw [Bool.not_eq_true, Option.isSome_eq_false_iff, Option.isNone_iff_eq_none] at hsome
  have hkept : s.KeepsDirectories (s.put place (.directory Node.newDirectoryMode)) := by
    intro q hq
    rw [isDirectory, find?_put]
    split_ifs
    · rfl
    · exact hq
  intro q
  rw [find?_put]
  by_cases hq : q = place
  · subst hq
    rw [if_pos rfl]
    exact Or.inr ⟨hsome, rfl, withoutEmptyEnd all, withoutEmptyEnd all,
      trail_eq_ok_iff.mpr ⟨all, hall, rfl⟩, List.prefix_rfl, hkept.walk hwalk⟩
  · exact Or.inl (if_neg hq)

theorem partsOf_ne_notFound (hne : path ≠ "") : partsOf path ≠ .error .notFound := by
  intro h
  unfold partsOf at h
  split_ifs at h <;> cases h

/-- That something is missing is said of a path that leads to no directory. -/
theorem not_reaches_of_notFound (h : s.makeDirectory path = .error .notFound) (hne : path ≠ "") :
    ∃ parts, trail path = .ok parts ∧ ¬ s.Reaches parts := by
  rcases bind_eq_error_iff.mp h with hparts | ⟨all, hall, hrest⟩
  · exact absurd hparts (partsOf_ne_notFound hne)
  · refine ⟨withoutEmptyEnd all, trail_eq_ok_iff.mpr ⟨all, hall, rfl⟩, ?_⟩
    rcases bind_eq_error_iff.mp hrest with hwalk | ⟨place, -, hput⟩
    · rintro ⟨place, hreached, -⟩
      rw [hwalk] at hreached
      cases hreached
    · split_ifs at hput <;> cases hput

/-- Where a directory is reached, so is the one above it. -/
theorem leadsToDirectory_above (hparent : Path.parent? path = some above) (hne : above ≠ "")
    (h : s.leadsToDirectory path = true) : s.leadsToDirectory above = true := by
  obtain ⟨parts, hparts, hreaches⟩ := leadsToDirectory_iff.mp h
  obtain ⟨-, before, hbefore, hsome, hinitial⟩ := trail_parent hparent hne hparts
  exact leadsToDirectory_iff.mpr ⟨before, hbefore, hreaches.of_prefix hsome hinitial⟩

/-- An attempt to make the directories of a path: it makes way along the path, and if it fails the
path leads to no directory. -/
structure Attempt (s : Store) (path : String) (made : Except FileError Unit × Store) : Prop where
  makesWay : s.MakesWay made.2 path
  fails : ∀ e, made.1 = .error e → path ≠ "" ∧ made.2.leadsToDirectory path = false

theorem Attempt.of_leads (hway : s.MakesWay t path) (hne : path ≠ "") (e : FileError) :
    s.Attempt path (if t.leadsToDirectory path then .ok () else .error e, t) := by
  refine ⟨hway, fun e' he => ⟨hne, ?_⟩⟩
  dsimp only at he ⊢
  split_ifs at he with hleads
  exact Bool.eq_false_iff.mpr hleads

/-- What is left to do after an attempt on the directory above: the directory itself is made. -/
def finish (path : String) : Except FileError Unit × Store → Except FileError Unit × Store
  | (.error e, t) => (.error e, t)
  | (.ok (), t) =>
    match t.makeDirectory path with
    | .ok u => (.ok (), u)
    | .error e => (if t.leadsToDirectory path then .ok () else .error e, t)

theorem Attempt.finish {made : Except FileError Unit × Store} (h : s.Attempt above made)
    (hparent : Path.parent? path = some above) (hne : path ≠ "") (hparts : trail path = .ok parts) :
    s.Attempt path (finish path made) := by
  unfold Store.finish
  obtain ⟨result, t⟩ := made
  have hway : s.MakesWay t path := h.makesWay.of_above hparent hparts
  cases result with
  | error e =>
      obtain ⟨habove, hnone⟩ := h.fails e rfl
      refine ⟨hway, fun _ _ => ⟨hne, ?_⟩⟩
      dsimp only at hnone ⊢
      rw [← Bool.not_eq_true]
      intro hleads
      rw [leadsToDirectory_above hparent habove hleads] at hnone
      cases hnone
  | ok _ =>
      dsimp only
      cases hmake : t.makeDirectory path with
      | ok u =>
          refine ⟨hway.trans (makesWay_of_makeDirectory hmake), fun e he => ?_⟩
          cases he
      | error e => exact .of_leads hway hne e

/-- **Making the directories of a path** makes way along it, and fails only where the path leads to
no directory afterwards. -/
theorem attempt_makeDirectoriesFrom {fuel : Nat} (hfuel : path.length < fuel) (s : Store) :
    s.Attempt path (makeDirectoriesFrom fuel path s) := by
  induction fuel generalizing path s with
  | zero => omega
  | succ fuel ih =>
      unfold makeDirectoriesFrom
      by_cases hne : path = ""
      · rw [if_pos hne]
        refine ⟨.refl s path, fun e he => ?_⟩
        cases he
      · rw [if_neg hne]
        cases hmake : s.makeDirectory path with
        | ok t =>
            refine ⟨makesWay_of_makeDirectory hmake, fun e he => ?_⟩
            cases he
        | error e =>
            dsimp only
            by_cases hmissing : e ≠ .notFound
            · rw [if_pos hmissing]
              exact .of_leads (.refl s path) hne e
            · rw [if_neg hmissing]
              obtain rfl : e = .notFound := not_not.mp hmissing
              obtain ⟨parts, hparts, hnot⟩ := not_reaches_of_notFound hmake hne
              cases hparent : Path.parent? path with
              | none =>
                  refine ⟨.refl s path, fun e he => ⟨hne, ?_⟩⟩
                  rw [← Bool.not_eq_true, leadsToDirectory_iff]
                  rintro ⟨parts', hparts', hreaches⟩
                  rw [hparts] at hparts'
                  cases hparts'
                  exact hnot hreaches
              | some above =>
                  have habove : above.length < fuel := by
                    by_cases hempty : above = ""
                    · have hlength : path.length ≠ 0 := mt String.length_eq_zero_iff.mp hne
                      rw [hempty, String.length_empty]
                      omega
                    · have hshorter := (trail_parent hparent hempty hparts).1
                      omega
                  exact (ih habove s).finish hparent hne hparts

theorem attempt_makeDirectories (s : Store) (path : String) :
    s.Attempt path (s.makeDirectories path) :=
  attempt_makeDirectoriesFrom (Nat.lt_succ_self _) s

theorem makeDirectories_of_leads (h : s.leadsToDirectory path = true) :
    s.makeDirectories path = (.ok (), s) := by
  obtain ⟨parts, hparts, place, hwalk, hdirectory⟩ := leadsToDirectory_iff.mp h
  obtain ⟨all, hall, rfl⟩ := trail_eq_ok_iff.mp hparts
  have hne : path ≠ "" := (partsOf_eq_ok_iff.mp hall).1.2.1
  obtain ⟨mode, hplace⟩ := isDirectory_iff.mp hdirectory
  have hmake : s.makeDirectory path = .error .alreadyExists := by
    rw [makeDirectory, hall]
    simp only [bind, Except.bind, hwalk, hplace, Option.isSome_some, if_true]
  rw [makeDirectories, makeDirectoriesFrom, if_neg hne, hmake]
  simp only [h, if_true]
  rfl

/-- No file is put into a directory that could not be made. -/
theorem replaceText_of_makeDirectories {directory name : String} {e : FileError}
    (h : (s.makeDirectories directory).1 = .error e) (hname : Path.IsFileName name)
    (text : String) :
    ∃ e', (replaceText (Path.join directory name) text :
        StateM Store (Except ReplaceError Unit)) (s.makeDirectories directory).2 =
      (.error e', (s.makeDirectories directory).2) := by
  obtain ⟨hne, hnone⟩ := (attempt_makeDirectories s directory).fails e h
  rcases replaceText_store (Path.join directory name) text (s.makeDirectories directory).2 with
    ⟨t, place, hreplaced, -⟩ | hfails
  · have hleads := leadsToDirectory_of_locate_join hname hne hreplaced.located
    rw [hnone] at hleads
    cases hleads
  · exact hfails

end FilterReference.Store
