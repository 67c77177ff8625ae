/-
# Parts of paths

A path is split where its slashes are, and what was split is joined again without loss
(`unsplit_split`).  A path with a file name behind a directory has the parts of the directory and
the name (`split_join`); the directory above a path ends where a slash follows, and behind it there
is still a part that counts (`parent?_eq_some`).
-/
import FilterReference.Files.Path
import Mathlib.Data.List.TakeWhile
import Mathlib.Tactic

namespace FilterReference.Path

theorem split_ne_nil (cs : List Char) : split cs ≠ [] := by
  induction cs with
  | nil => exact List.cons_ne_nil _ _
  | cons c cs ih =>
      rw [split]
      split_ifs
      · exact List.cons_ne_nil _ _
      · split
        · exact List.cons_ne_nil _ _
        · exact List.cons_ne_nil _ _

theorem split_cons {c : Char} (hc : c ≠ '/') {cs part : List Char} {parts : List (List Char)}
    (h : split cs = part :: parts) : split (c :: cs) = (c :: part) :: parts := by
  rw [split, if_neg hc, h]

theorem split_append_slash (cs rest : List Char) :
    split (cs ++ '/' :: rest) = split cs ++ split rest := by
  induction cs with
  | nil => rfl
  | cons c cs ih =>
      by_cases hc : c = '/'
      · simp only [List.cons_append, split, if_pos hc, ih]
      · obtain ⟨part, parts, hsplit⟩ := List.exists_cons_of_ne_nil (split_ne_nil cs)
        rw [hsplit] at ih
        rw [split_cons hc hsplit, List.cons_append, split_cons hc ih]
        rfl

theorem split_of_noSlash {cs : List Char} (h : '/' ∉ cs) : split cs = [cs] := by
  induction cs with
  | nil => rfl
  | cons c cs ih =>
      rw [List.mem_cons, not_or] at h
      exact split_cons (Ne.symm h.1) (ih h.2)

theorem noSlash_of_mem_split {cs part : List Char} (h : part ∈ split cs) : '/' ∉ part := by
  induction cs generalizing part with
  | nil =>
      rw [List.mem_singleton.mp h]
      exact List.not_mem_nil
  | cons c cs ih =>
      by_cases hc : c = '/'
      · rw [split, if_pos hc] at h
        rcases List.mem_cons.mp h with rfl | h
        · exact List.not_mem_nil
        · exact ih h
      · obtain ⟨first, parts, hsplit⟩ := List.exists_cons_of_ne_nil (split_ne_nil cs)
        rw [split_cons hc hsplit] at h
        rcases List.mem_cons.mp h with rfl | h
        · rw [List.mem_cons, not_or]
          exact ⟨Ne.symm hc, ih (by rw [hsplit]; exact List.mem_cons_self)⟩
        · exact ih (by rw [hsplit]; exact List.mem_cons_of_mem _ h)

theorem unsplit_cons_cons (part next : List Char) (parts : List (List Char)) :
    unsplit (part :: next :: parts) = part ++ '/' :: unsplit (next :: parts) := rfl

theorem unsplit_append {before after : List (List Char)} (hbefore : before ≠ [])
    (hafter : after ≠ []) :
    unsplit (before ++ after) = unsplit before ++ '/' :: unsplit after := by
  induction before with
  | nil => exact absurd rfl hbefore
  | cons part before ih =>
      cases before with
      | nil =>
          obtain ⟨next, parts, rfl⟩ := List.exists_cons_of_ne_nil hafter
          rfl
      | cons next parts =>
          have hrest := ih (List.cons_ne_nil _ _)
          rw [List.cons_append] at hrest
          rw [List.cons_append, List.cons_append, unsplit_cons_cons, unsplit_cons_cons, hrest,
            List.append_assoc, List.cons_append]

theorem unsplit_split (cs : List Char) : unsplit (split cs) = cs := by
  induction cs with
  | nil => rfl
  | cons c cs ih =>
      by_cases hc : c = '/'
      · have hsplit : split (c :: cs) = [[]] ++ split cs := by rw [split, if_pos hc]; rfl
        rw [hsplit, unsplit_append (List.cons_ne_nil _ _) (split_ne_nil cs), ih, hc]
        rfl
      · obtain ⟨part, parts, hsplit⟩ := List.exists_cons_of_ne_nil (split_ne_nil cs)
        rw [hsplit] at ih
        rw [split_cons hc hsplit, ← ih]
        cases parts with
        | nil => rfl
        | cons next parts => exact unsplit_cons_cons (c :: part) next parts

theorem split_unsplit {parts : List (List Char)} (hne : parts ≠ [])
    (h : ∀ part ∈ parts, '/' ∉ part) : split (unsplit parts) = parts := by
  induction parts with
  | nil => exact absurd rfl hne
  | cons part parts ih =>
      obtain ⟨hpart, hparts⟩ := List.forall_mem_cons.mp h
      cases parts with
      | nil => exact split_of_noSlash hpart
      | cons next parts =>
          rw [unsplit_cons_cons, split_append_slash, ih (List.cons_ne_nil _ _) hparts]
          exact congrArg (· ++ _) (split_of_noSlash hpart)

theorem endsInSlash_of_split {path : String} {parts : List (List Char)} (hne : parts ≠ [])
    (h : split path.toList = parts ++ [[]]) : endsInSlash path = true := by
  have hpath := unsplit_split path.toList
  rw [h, unsplit_append hne (List.cons_ne_nil _ _)] at hpath
  rw [endsInSlash, ← hpath]
  simp [unsplit]

/-! ## A file in a directory -/

/-- A name that stands for a new part of a path. -/
structure IsFileName (name : String) : Prop where
  ne_empty : name ≠ ""
  ne_dot : name ≠ "."
  ne_dots : name ≠ ".."
  noSlash : '/' ∉ name.toList

theorem IsFileName.ne_root {name : String} (h : IsFileName name) : name ≠ "/" := by
  rintro rfl
  exact h.noSlash (by decide)

/-- The parts that lead to what stands in a directory. -/
def directoryParts (directory : String) : List (List Char) :=
  if directory = "" then []
  else if endsInSlash directory then (split directory.toList).dropLast
  else split directory.toList

theorem isAbsolute_of_isFileName {name : String} (h : IsFileName name) :
    isAbsolute name = false := by
  have hslash := h.noSlash
  rw [isAbsolute]
  cases hname : name.toList with
  | nil => rfl
  | cons c cs =>
      rw [hname, List.mem_cons, not_or] at hslash
      simpa using Ne.symm hslash.1

theorem join_eq_append {directory name : String} (h : IsFileName name) :
    ∃ between, join directory name = directory ++ (between ++ name) ∧
      (directory = "" → between = "") := by
  unfold join
  rw [isAbsolute_of_isFileName h, if_neg Bool.false_ne_true]
  split_ifs with hends
  · exact ⟨"", by simp, fun _ => rfl⟩
  · refine ⟨"/", by rw [String.append_assoc], fun hempty => ?_⟩
    rw [hempty] at hends
    exact absurd rfl hends

theorem endsInSlash_iff {path : String} :
    endsInSlash path = true ↔ ∃ cs, path.toList = cs ++ ['/'] := by
  rw [endsInSlash, beq_iff_eq, List.getLast?_eq_some_iff]

/-- **The parts of a file in a directory**: those of the directory, and the name. -/
theorem split_join {directory name : String} (h : IsFileName name) :
    split (join directory name).toList = directoryParts directory ++ [name.toList] := by
  have hname := split_of_noSlash h.noSlash
  unfold join directoryParts
  rw [isAbsolute_of_isFileName h, if_neg Bool.false_ne_true]
  by_cases hempty : directory = ""
  · subst hempty
    simpa using hname
  · by_cases hends : endsInSlash directory = true
    · obtain ⟨cs, hcs⟩ := endsInSlash_iff.mp hends
      have hdirectory : split directory.toList = split cs ++ [[]] := by
        rw [hcs, split_append_slash]
        rfl
      have hjoin : (directory ++ name).toList = cs ++ '/' :: name.toList := by
        rw [String.toList_append, hcs, List.append_assoc, List.singleton_append]
      simp only [hends, Bool.or_true, if_true, if_neg hempty]
      rw [hjoin, split_append_slash, hname, hdirectory, List.dropLast_concat]
    · have hjoin : (directory ++ "/" ++ name).toList = directory.toList ++ '/' :: name.toList := by
        simp
      simp only [Bool.not_eq_true] at hends
      simp only [hends, beq_eq_false_iff_ne.mpr hempty, Bool.or_self, Bool.false_eq_true, if_false,
        if_neg hempty]
      rw [hjoin, split_append_slash, hname]

/-! ## The directory above

What is above a path ends at some slash, and where exactly depends on how many slashes and dots
stand in between.  All that is used of it is that a part worth its name follows, since then the path
above is shorter and its parts come first. -/

theorem exists_append_dropped {α : Type} (p : α → Bool) (l : List α) :
    ∃ dropped, l = (l.reverse.dropWhile p).reverse ++ dropped ∧ ∀ x ∈ dropped, p x = true := by
  refine ⟨(l.reverse.takeWhile p).reverse, ?_, fun x hx => ?_⟩
  · rw [← List.reverse_append, List.takeWhile_append_dropWhile, List.reverse_reverse]
  · exact List.mem_takeWhile_imp (List.mem_reverse.mp hx)

/-- What comes before the parts of a path is nothing, the root, or the dot at its beginning. -/
theorem head_cases (cs : List Char) :
    (head cs = [] ∧ cs.drop (head cs).length = cs) ∨
      (∃ rest, head cs = ['/'] ∧ cs = '/' :: rest ∧ cs.drop (head cs).length = rest) ∨
      (head cs = ['.'] ∧ cs = ['.'] ∧ cs.drop (head cs).length = []) ∨
      ∃ rest, head cs = ['.'] ∧ cs = '.' :: '/' :: rest ∧
        cs.drop (head cs).length = '/' :: rest := by
  unfold head
  split
  · exact Or.inr (Or.inl ⟨_, rfl, rfl, rfl⟩)
  · exact Or.inr (Or.inr (Or.inl ⟨rfl, rfl, rfl⟩))
  · exact Or.inr (Or.inr (Or.inr ⟨_, rfl, rfl, rfl⟩))
  · exact Or.inl ⟨rfl, rfl⟩

/-- The parts of a path behind its head: those above its last part that counts, idle ones, that last
part, and idle ones again. -/
theorem split_of_body {cs last : List Char} {before : List (List Char)}
    (h : (body cs).reverse = last :: before) :
    ∃ after, split (cs.drop (head cs).length) = (before.dropWhile isIdle).reverse ++ after ∧
      last ∈ after ∧ isIdle last = false := by
  obtain ⟨dropped, hdropped, -⟩ := exists_append_dropped isIdle (split (cs.drop (head cs).length))
  obtain ⟨between, hbetween, -⟩ := exists_append_dropped isIdle before.reverse
  rw [body, List.reverse_reverse] at h
  rw [h, List.reverse_cons] at hdropped
  rw [List.reverse_reverse] at hbetween
  refine ⟨between ++ [last] ++ dropped, ?_, by simp, ?_⟩
  · rw [hdropped, hbetween]
    simp
  · have hlast := List.head_dropWhile_not isIdle (by rw [h]; exact List.cons_ne_nil _ _)
    simpa [h] using hlast

theorem head_append_drop (cs : List Char) : head cs ++ cs.drop (head cs).length = cs := by
  obtain ⟨hhead, hdrop⟩ | ⟨rest, hhead, hcs, hdrop⟩ | ⟨hhead, hcs, hdrop⟩ |
    ⟨rest, hhead, hcs, hdrop⟩ := head_cases cs
  · rw [hdrop, hhead]
    rfl
  · rw [hdrop, hhead, hcs]
    rfl
  · rw [hdrop, hhead, hcs]
    rfl
  · rw [hdrop, hhead, hcs]
    rfl

/-- A part with a character right behind a head that is there: a slash stands between them, or is
the head. -/
theorem exists_slash_behind_head {cs last : List Char} (hhead : head cs ≠ [])
    (hlast : last ∈ split (cs.drop (head cs).length)) (hsome : last ≠ []) :
    ∃ rest, (cs = head cs ++ '/' :: rest ∨ (head cs = ['/'] ∧ cs = '/' :: rest)) ∧
      last ∈ split rest := by
  rcases head_cases cs with ⟨hnil, -⟩ | ⟨rest, hroot, hcs, hdrop⟩ | ⟨-, -, hdrop⟩ |
    ⟨rest, hdot, hcs, hdrop⟩
  · exact absurd hnil hhead
  · rw [hdrop] at hlast
    exact ⟨rest, Or.inr ⟨hroot, hcs⟩, hlast⟩
  · rw [hdrop] at hlast
    exact absurd (List.mem_singleton.mp hlast) hsome
  · rw [hdrop, split, if_pos rfl] at hlast
    refine ⟨rest, Or.inl ?_, (List.mem_cons.mp hlast).resolve_left hsome⟩
    rw [hdot]
    exact hcs

/-- **The directory above a path** ends where a slash follows, or is the root; behind it there is
still a part with a character. -/
theorem parent?_eq_some {path above : String} (h : parent? path = some above) (hne : above ≠ "") :
    ∃ rest, (path.toList = above.toList ++ '/' :: rest ∨
        (above = "/" ∧ path.toList = '/' :: rest)) ∧
      ∃ part ∈ split rest, part ≠ [] := by
  unfold parent? at h
  dsimp only at h
  split at h
  · rename_i last before hbody
    obtain ⟨after, hsplit, hlast, hidle⟩ := split_of_body hbody
    have hsome : last ≠ [] := by
      rintro rfl
      cases hidle
    have habove := Option.some.inj h
    have hparts : ∀ part ∈ after, part ∈ split (path.toList.drop (head path.toList).length) := by
      intro part hpart
      rw [hsplit]
      exact List.mem_append_right _ hpart
    by_cases hempty : (before.dropWhile isIdle).reverse = []
    · rw [hempty, unsplit, List.append_nil] at habove
      have hhead : head path.toList ≠ [] := by
        intro hnil
        rw [hnil] at habove
        exact hne habove.symm
      obtain ⟨rest, hpath, hrest⟩ := exists_slash_behind_head hhead (hparts last hlast) hsome
      refine ⟨rest, ?_, last, hrest, hsome⟩
      rw [← habove, String.toList_ofList]
      refine hpath.imp_right ?_
      rintro ⟨hroot, hrooted⟩
      rw [hroot]
      exact ⟨rfl, hrooted⟩
    · have hafter : after ≠ [] := List.ne_nil_of_mem hlast
      have hjoined := unsplit_split (path.toList.drop (head path.toList).length)
      rw [hsplit, unsplit_append hempty hafter] at hjoined
      refine ⟨unsplit after, Or.inl ?_, last, ?_, hsome⟩
      · rw [← habove, String.toList_ofList, List.append_assoc, hjoined, head_append_drop]
      · rwa [split_unsplit hafter fun part hpart => noSlash_of_mem_split (hparts part hpart)]
  · split_ifs at h
    exact absurd (Option.some.inj h).symm hne

end FilterReference.Path
