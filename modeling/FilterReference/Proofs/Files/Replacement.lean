/-
# Replacing a file

A text goes to a temporary file, which is then moved to the path of the file it replaces.  Up to the
move the store is what it was with one file more, at a place where nothing stood (`Beside`): every
step keeps this, and while it holds, removing the temporary file gives the store back.  The move is
the only step that changes anything else.  So a file is replaced as a whole, or the store is what it
was (`replaceText_store`).
-/
import FilterReference.Proofs.Files.Store

namespace FilterReference.Store

variable {s t u : Store} {path temporary directory : String} {place q : List String}
  {content : ByteArray} {mode : Nat}

theorem lookUp_eq_ok_iff {node : Node} :
    s.lookUp path = .ok (place, node) ↔
      s.locate path = .ok place ∧ s.find? place = some node := by
  unfold lookUp
  rw [bind_eq_ok_iff]
  constructor
  · rintro ⟨found, hlocate, hfind⟩
    cases hnode : s.find? found with
    | none =>
        rw [hnode] at hfind
        cases hfind
    | some other =>
        rw [hnode] at hfind
        cases hfind
        exact ⟨hlocate, hnode⟩
  · rintro ⟨hlocate, hfind⟩
    refine ⟨place, hlocate, ?_⟩
    rw [hfind]
    rfl

theorem mode?_eq_some_iff :
    s.mode? path = some mode ↔ ∃ place node, s.lookUp path = .ok (place, node) ∧ node.mode = mode := by
  unfold mode?
  cases hlookUp : s.lookUp path with
  | error e => simp
  | ok found =>
      obtain ⟨place, node⟩ := found
      simp

theorem isDirectory_put_file (h : s.isDirectory place = false) :
    (s.put place (.file content mode)).isDirectory q = s.isDirectory q := by
  unfold isDirectory
  rw [find?_put]
  by_cases hq : q = place
  · subst hq
    rw [if_pos rfl]
    exact h.symm
  · rw [if_neg hq]

theorem attempt_of_ok {ε : Type} {run : Store → Except ε Store} (h : run s = .ok t) :
    attempt run s = (.ok (), t) := by
  rw [attempt, h]

theorem attempt_of_error {ε : Type} {run : Store → Except ε Store} {e : ε} (h : run s = .error e) :
    attempt run s = (.error e, s) := by
  rw [attempt, h]

theorem bind_apply {α β : Type} {x : StateM Store α} {a : α} (h : x s = (a, t))
    (f : α → StateM Store β) : (x >>= f) s = f a t := by
  simp only [bind, StateT.bind, h]

/-- The permissions that a file gets when it takes the place of what a path leads to. -/
def handedOn (s : Store) (path : String) : Nat :=
  match s.mode? path with
  | some mode => mode % 0o1000
  | none => Node.newFileMode

/-- One store is another with a file replaced, or made, that a path leads to. -/
structure Replaced (s t : Store) (path : String) (content : ByteArray) (place : List String) :
    Prop where
  located : s.locate path = .ok place
  opened : t.openPath path = .ok (.file content)
  permissions : t.mode? path = some (s.handedOn path)
  others : ∀ q, q ≠ place → t.find? q = s.find? q
  kept : s.KeepsDirectories t
  kept_back : t.KeepsDirectories s

theorem replaced_put (hlocate : s.locate path = .ok place) (hplace : s.isDirectory place = false)
    (content : ByteArray) :
    s.Replaced (s.put place (.file content (s.handedOn path))) path content place := by
  have hkept : s.KeepsDirectories (s.put place (.file content (s.handedOn path))) := by
    intro q hq
    rwa [isDirectory_put_file hplace]
  have hlookUp : (s.put place (.file content (s.handedOn path))).lookUp path =
      .ok (place, .file content (s.handedOn path)) := by
    refine lookUp_eq_ok_iff.mpr ⟨hkept.locate hlocate, ?_⟩
    rw [find?_put, if_pos rfl]
  refine ⟨hlocate, ?_, ?_, fun q hq => ?_, hkept, fun q hq => ?_⟩
  · rw [openPath, hlookUp]
    rfl
  · rw [mode?, hlookUp]
    rfl
  · rw [find?_put, if_neg hq]
  · rwa [isDirectory_put_file hplace] at hq

/-! ## A temporary file

What stands at the place of the temporary file did not stand there before, so its steps cannot
change anything that is looked for otherwise, and taking it away leaves no trace. -/

/-- One store is another with a file more, at a place where nothing stood. -/
structure Beside (s t : Store) (temporary : String) (place : List String) (content : ByteArray)
    (mode : Nat) : Prop where
  located : s.locate temporary = .ok place
  free : s.find? place = none
  added : t = s.put place (.file content mode)

theorem beside_of_makeTemporaryFrom {tries n : Nat}
    (h : s.makeTemporaryFrom directory tries n = .ok (temporary, t)) :
    ∃ place, s.Beside t temporary place .empty Node.newFileMode := by
  induction tries generalizing n with
  | zero => cases h
  | succ tries ih =>
      obtain ⟨place, hlocate, hrest⟩ := bind_eq_ok_iff.mp h
      split_ifs at hrest with htaken
      · exact ih hrest
      · cases hrest
        exact ⟨place, hlocate, Option.not_isSome_iff_eq_none.mp htaken, rfl⟩

namespace Beside

variable (h : s.Beside t temporary place content mode)

include h

theorem isDirectory_place : s.isDirectory place = false := by
  rw [isDirectory, h.free]

theorem kept : s.KeepsDirectories t := by
  intro q hq
  rwa [h.added, isDirectory_put_file h.isDirectory_place]

theorem kept_back : t.KeepsDirectories s := by
  intro q hq
  rwa [h.added, isDirectory_put_file h.isDirectory_place] at hq

theorem lookUp : t.lookUp temporary = .ok (place, .file content mode) := by
  refine lookUp_eq_ok_iff.mpr ⟨h.kept.locate h.located, ?_⟩
  rw [h.added, find?_put, if_pos rfl]

theorem lookUp_of_lookUp {node : Node} (hs : s.lookUp path = .ok (q, node)) :
    t.lookUp path = .ok (q, node) := by
  obtain ⟨hlocate, hfind⟩ := lookUp_eq_ok_iff.mp hs
  have hne : q ≠ place := by
    rintro rfl
    rw [h.free] at hfind
    cases hfind
  refine lookUp_eq_ok_iff.mpr ⟨h.kept.locate hlocate, ?_⟩
  rw [h.added, find?_put, if_neg hne, hfind]

theorem lookUp_back {node : Node} (ht : t.lookUp path = .ok (q, node)) :
    (q = place ∧ node = .file content mode) ∨ s.lookUp path = .ok (q, node) := by
  obtain ⟨hlocate, hfind⟩ := lookUp_eq_ok_iff.mp ht
  rw [h.added, find?_put] at hfind
  by_cases hq : q = place
  · rw [if_pos hq] at hfind
    cases hfind
    exact Or.inl ⟨hq, rfl⟩
  · rw [if_neg hq] at hfind
    exact Or.inr (lookUp_eq_ok_iff.mpr ⟨h.kept_back.locate hlocate, hfind⟩)

theorem removeFile : t.removeFile temporary = .ok s := by
  rw [Store.removeFile, h.lookUp, ok_bind, h.added]
  exact congrArg Except.ok (erase_put h.free _)

theorem fillFile (text : ByteArray) :
    ∃ u, t.fillFile temporary text = .ok u ∧ s.Beside u temporary place text mode := by
  refine ⟨t.put place (.file text mode), ?_, h.located, h.free, ?_⟩
  · rw [Store.fillFile, h.lookUp, ok_bind]
    rfl
  · rw [h.added, put_put h.free]

theorem setMode (next : Nat) :
    ∃ u, t.setMode temporary next = .ok u ∧
      s.Beside u temporary place content (next % 0o1000) := by
  refine ⟨t.put place (.file content (next % 0o1000)), ?_, h.located, h.free, ?_⟩
  · rw [Store.setMode, h.lookUp, ok_bind]
    rfl
  · rw [h.added, put_put h.free]

/-- The temporary file shows itself at a path only where nothing was found before. -/
theorem mode?_cases (path : String) :
    t.mode? path = s.mode? path ∨ s.mode? path = none ∧ t.mode? path = some mode := by
  have hmode : ∀ found, s.mode? path = some found → t.mode? path = some found := by
    intro found hs
    obtain ⟨q, node, hlookUp, hnode⟩ := mode?_eq_some_iff.mp hs
    exact mode?_eq_some_iff.mpr ⟨q, node, h.lookUp_of_lookUp hlookUp, hnode⟩
  cases hs : s.mode? path with
  | some found => exact Or.inl (hmode found hs)
  | none =>
      cases ht : t.mode? path with
      | none => exact Or.inl rfl
      | some found =>
          obtain ⟨q, node, hlookUp, hnode⟩ := mode?_eq_some_iff.mp ht
          rcases h.lookUp_back hlookUp with ⟨-, rfl⟩ | hback
          · exact Or.inr ⟨rfl, congrArg some hnode.symm⟩
          · rw [mode?_eq_some_iff.mpr ⟨q, node, hback, hnode⟩] at hs
            cases hs

theorem handOnPermissions (hmode : mode = Node.newFileMode) (path : String) :
    ∃ u, (FilterReference.handOnPermissions path temporary :
        StateM Store (Except FileError Unit)) t = (.ok (), u) ∧
      s.Beside u temporary place content (s.handedOn path) := by
  have htold : (FileAccess.permissions? path : StateM Store (Option Nat)) t = (t.mode? path, t) :=
    rfl
  unfold FilterReference.handOnPermissions
  rw [bind_apply htold]
  cases ht : t.mode? path with
  | none =>
      refine ⟨t, rfl, ?_⟩
      rcases h.mode?_cases path with hsame | ⟨-, hfound⟩
      · rw [handedOn, ← hsame, ht, ← hmode]
        exact h
      · rw [ht] at hfound
        cases hfound
  | some found =>
      obtain ⟨u, hset, hbeside⟩ := h.setMode found
      refine ⟨u, attempt_of_ok hset, ?_⟩
      rcases h.mode?_cases path with hsame | ⟨hnone, hfound⟩
      · rw [handedOn, ← hsame, ht]
        exact hbeside
      · rw [ht] at hfound
        cases hfound
        rw [handedOn, hnone, ← Nat.mod_eq_of_lt (show Node.newFileMode < 0o1000 by decide), ← hmode]
        exact hbeside

/-- **The move** puts the temporary file in the place of what the path leads to. -/
theorem replaced_of_moveFile (hmode : mode = s.handedOn path)
    (hmove : t.moveFile temporary path = .ok u) : ∃ target, s.Replaced u path content target := by
  rw [moveFile, h.lookUp, ok_bind] at hmove
  obtain ⟨parts, hparts, hrest⟩ := bind_eq_ok_iff.mp hmove
  obtain ⟨target, hwalk, hput⟩ := bind_eq_ok_iff.mp hrest
  split_ifs at hput with hback hends hdirectory
  rw [Bool.not_eq_true] at hends hdirectory
  rw [withoutEmptyEnd_of_partsOf hparts hends] at hwalk
  have hlocate : s.locate path = .ok target :=
    h.kept_back.locate (bind_eq_ok_iff.mpr ⟨parts, hparts, hwalk⟩)
  have htarget : s.isDirectory target = false := by
    rwa [h.added, isDirectory_put_file h.isDirectory_place] at hdirectory
  cases hput
  rw [h.added, erase_put h.free, hmode]
  exact ⟨target, replaced_put hlocate htarget content⟩

end Beside

/-! ## The steps

A step that succeeds hands its store on, and the first that fails ends the run. -/

section Steps

variable {action : StateM Store (Except FileError Unit)} {step : ReplaceStep}
  {rest : List (ReplaceStep × StateM Store (Except FileError Unit))} {e : FileError}

theorem runSteps_of_ok (h : action s = (.ok (), t)) :
    runSteps ((step, action) :: rest) s = runSteps rest t :=
  bind_apply h _

theorem runSteps_of_error (h : action s = (.error e, t)) :
    runSteps ((step, action) :: rest) s = (.error ⟨step, e⟩, t) :=
  bind_apply h _

end Steps

/-- The steps that follow a temporary file replace the file, or it is still beside the others. -/
theorem runSteps_replaceSteps (h : s.Beside t temporary place .empty Node.newFileMode)
    (path text : String) :
    (∃ u target, s.Replaced u path text.toUTF8 target ∧
      (runSteps (replaceSteps temporary path text) :
        StateM Store (Except ReplaceError Unit)) t = (.ok (), u)) ∨
    ∃ e u, s.Beside u temporary place text.toUTF8 (s.handedOn path) ∧
      (runSteps (replaceSteps temporary path text) :
        StateM Store (Except ReplaceError Unit)) t = (.error e, u) := by
  obtain ⟨t₁, hpermissions, h₁⟩ := h.handOnPermissions rfl path
  obtain ⟨t₂, hfill, h₂⟩ := h₁.fillFile text.toUTF8
  have hcontent : (FileAccess.fill temporary text : StateM Store (Except FileError Unit)) t₁ =
      (.ok (), t₂) := attempt_of_ok hfill
  have hsync : (FileAccess.sync temporary : StateM Store (Except FileError Unit)) t₂ =
      (.ok (), t₂) := rfl
  rw [replaceSteps, runSteps_of_ok hpermissions, runSteps_of_ok hcontent, runSteps_of_ok hsync]
  cases hmove : t₂.moveFile temporary path with
  | error e =>
      have hfails : (FileAccess.move temporary path : StateM Store (Except FileError Unit)) t₂ =
          (.error e, t₂) := attempt_of_error hmove
      exact Or.inr ⟨_, t₂, h₂, runSteps_of_error hfails⟩
  | ok u =>
      have hmoves : (FileAccess.move temporary path : StateM Store (Except FileError Unit)) t₂ =
          (.ok (), u) := attempt_of_ok hmove
      obtain ⟨target, hreplaced⟩ := h₂.replaced_of_moveFile rfl hmove
      exact Or.inl ⟨u, target, hreplaced, runSteps_of_ok hmoves⟩

/-- **A file is replaced as a whole**: it has the new text, and permissions as before, or the store
is what it was. -/
theorem replaceText_store (path text : String) (s : Store) :
    (∃ t place, s.Replaced t path text.toUTF8 place ∧
      (replaceText path text : StateM Store (Except ReplaceError Unit)) s = (.ok (), t)) ∨
    ∃ e, (replaceText path text : StateM Store (Except ReplaceError Unit)) s = (.error e, s) := by
  unfold replaceText
  cases hmake : s.makeTemporary (Path.directory path) with
  | error cause =>
      have hmakes : (FileAccess.makeTemporary (Path.directory path) :
          StateM Store (Except FileError String)) s = (.error cause, s) := by
        simp only [FileAccess.makeTemporary, hmake]
      exact Or.inr ⟨_, bind_apply hmakes _⟩
  | ok made =>
      obtain ⟨temporary, t⟩ := made
      have hmakes : (FileAccess.makeTemporary (Path.directory path) :
          StateM Store (Except FileError String)) s = (.ok temporary, t) := by
        simp only [FileAccess.makeTemporary, hmake]
      obtain ⟨place, hbeside⟩ := beside_of_makeTemporaryFrom hmake
      rw [bind_apply hmakes]
      dsimp only
      rcases runSteps_replaceSteps hbeside path text with
        ⟨u, target, hreplaced, hrun⟩ | ⟨e, u, hleft, hrun⟩
      · exact Or.inl ⟨u, target, hreplaced, bind_apply hrun _⟩
      · have hremoves : (FileAccess.removeFile temporary :
            StateM Store (Except FileError Unit)) u = (.ok (), s) :=
          attempt_of_ok hleft.removeFile
        refine Or.inr ⟨e, ?_⟩
        rw [bind_apply hrun]
        exact bind_apply hremoves _

theorem replaced_of_replaceText {text : String}
    (h : (replaceText path text : StateM Store (Except ReplaceError Unit)) s = (.ok (), t)) :
    ∃ place, s.Replaced t path text.toUTF8 place := by
  rcases replaceText_store path text s with ⟨u, place, hreplaced, hrun⟩ | ⟨e, hrun⟩
  · rw [h] at hrun
    cases hrun
    exact ⟨place, hreplaced⟩
  · rw [h] at hrun
    cases hrun

end FilterReference.Store
