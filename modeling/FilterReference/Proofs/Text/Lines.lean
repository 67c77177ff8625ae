/-
# The lines of a text

A line is ended by a line feed, by a carriage return or by both in this order; the last line of a
text is not ended.  A text is one line, or a line, its end and the lines of the rest
(`cut_induction`), and put together again the lines are the text (`flatMap_cut`).
-/
import Mathlib.Tactic

namespace FilterReference.Text

inductive LineEnd where
  | lineFeed
  | carriageReturn
  | both
deriving DecidableEq, Repr

def LineEnd.chars : LineEnd → List Char
  | .lineFeed => ['\n']
  | .carriageReturn => ['\r']
  | .both => ['\r', '\n']

/-- A line of a text, without its end; the last one has none. -/
structure Line where
  chars : List Char
  ending : Option LineEnd
deriving DecidableEq, Repr

def Line.text (l : Line) : List Char := l.chars ++ l.ending.elim [] LineEnd.chars

def cut : List Char → List Line
  | [] => [⟨[], none⟩]
  | '\n' :: rest => ⟨[], some .lineFeed⟩ :: cut rest
  | '\r' :: '\n' :: rest => ⟨[], some .both⟩ :: cut rest
  | '\r' :: rest => ⟨[], some .carriageReturn⟩ :: cut rest
  | c :: rest => (cut rest).modifyHead fun l => { l with chars := c :: l.chars }

def Unbroken (cs : List Char) : Prop := ∀ c ∈ cs, c ≠ '\n' ∧ c ≠ '\r'

theorem cut_cons {c : Char} (hfeed : c ≠ '\n') (hreturn : c ≠ '\r') (rest : List Char) :
    cut (c :: rest) = (cut rest).modifyHead fun l => { l with chars := c :: l.chars } := by
  rw [cut]
  · exact fun h => hfeed h
  · exact fun _ h => absurd h hreturn
  · exact hreturn

theorem cut_unbroken {line : List Char} (hline : Unbroken line) : cut line = [⟨line, none⟩] := by
  induction line with
  | nil => rfl
  | cons c line ih =>
      obtain ⟨⟨hfeed, hreturn⟩, hline⟩ := List.forall_mem_cons.mp hline
      rw [cut_cons hfeed hreturn, ih hline]
      rfl

/-- A carriage return before a line feed is no line end of its own. -/
def LineEnd.Separate (e : LineEnd) (rest : List Char) : Prop :=
  e = .carriageReturn → rest.head? ≠ some '\n'

theorem cut_end {e : LineEnd} {rest : List Char} (h : e.Separate rest) :
    cut (e.chars ++ rest) = ⟨[], some e⟩ :: cut rest := by
  cases e with
  | lineFeed => rfl
  | both => rfl
  | carriageReturn =>
      cases rest with
      | nil => rfl
      | cons c rest =>
          have hfeed : c ≠ '\n' := fun heq => h rfl (congrArg some heq)
          rw [LineEnd.chars, List.singleton_append, cut]
          exact fun _ heq => hfeed (List.cons.inj heq).1

theorem cut_append {line : List Char} (hline : Unbroken line) {e : LineEnd} {rest : List Char}
    (h : e.Separate rest) : cut (line ++ (e.chars ++ rest)) = ⟨line, some e⟩ :: cut rest := by
  induction line with
  | nil => exact cut_end h
  | cons c line ih =>
      obtain ⟨⟨hfeed, hreturn⟩, hline⟩ := List.forall_mem_cons.mp hline
      rw [List.cons_append, cut_cons hfeed hreturn, ih hline]
      rfl

theorem unbroken_or_exists_end (cs : List Char) :
    Unbroken cs ∨ ∃ line e rest, Unbroken line ∧ LineEnd.Separate e rest ∧
      cs = line ++ (e.chars ++ rest) := by
  induction cs with
  | nil => exact Or.inl fun c hc => absurd hc List.not_mem_nil
  | cons c cs ih =>
      have hempty : Unbroken [] := fun c hc => absurd hc List.not_mem_nil
      by_cases hfeed : c = '\n'
      · refine Or.inr ⟨[], .lineFeed, cs, hempty, fun h => (by cases h), by rw [hfeed]; rfl⟩
      by_cases hreturn : c = '\r'
      · right
        by_cases hboth : cs.head? = some '\n'
        · obtain ⟨rest, rfl⟩ := List.head?_eq_some_iff.mp hboth
          exact ⟨[], .both, rest, hempty, fun h => (by cases h), by rw [hreturn]; rfl⟩
        · exact ⟨[], .carriageReturn, cs, hempty, fun _ => hboth, by rw [hreturn]; rfl⟩
      · rcases ih with hunbroken | ⟨line, e, rest, hline, hseparate, rfl⟩
        · exact Or.inl (List.forall_mem_cons.mpr ⟨⟨hfeed, hreturn⟩, hunbroken⟩)
        · exact Or.inr ⟨c :: line, e, rest, List.forall_mem_cons.mpr ⟨⟨hfeed, hreturn⟩, hline⟩,
            hseparate, rfl⟩

/-- What holds of the last line, and of a line, its end and the lines behind it if it holds of
these, holds of all texts. -/
theorem cut_induction {motive : List Char → List Line → Prop}
    (last : ∀ line, Unbroken line → motive line [⟨line, none⟩])
    (ended : ∀ line e rest, Unbroken line → motive rest (cut rest) →
      motive (line ++ (LineEnd.chars e ++ rest)) (⟨line, some e⟩ :: cut rest))
    (cs : List Char) : motive cs (cut cs) := by
  induction hlength : cs.length using Nat.strong_induction_on generalizing cs with
  | _ n ih =>
      rcases unbroken_or_exists_end cs with hcs | ⟨line, e, rest, hline, hseparate, rfl⟩
      · rw [cut_unbroken hcs]
        exact last cs hcs
      · rw [cut_append hline hseparate]
        refine ended line e rest hline (ih rest.length ?_ rest rfl)
        rw [List.length_append, List.length_append] at hlength
        have hpos : 0 < e.chars.length := by cases e <;> exact Nat.succ_pos _
        omega

/-- **Nothing of a text is lost** when it is cut. -/
theorem flatMap_cut (cs : List Char) : (cut cs).flatMap Line.text = cs := by
  induction cs using cut_induction with
  | last line _ => simp [Line.text]
  | ended line e rest _ ih => simp [Line.text, ih]

theorem mem_of_mem_cut {cs : List Char} {l : Line} (hl : l ∈ cut cs) {c : Char} (hc : c ∈ l.chars) :
    c ∈ cs := by
  rw [← flatMap_cut cs]
  exact List.mem_flatMap.mpr ⟨l, hl, List.mem_append_left _ hc⟩

theorem cut_split (cs : List Char) : ∀ {before l after}, cut cs = before ++ l :: after →
    (∀ k ∈ before, Unbroken k.chars ∧ k.ending.isSome = true) ∧ Unbroken l.chars := by
  induction cs using cut_induction with
  | last line hline =>
      intro before l after h
      cases before with
      | nil =>
          cases h
          exact ⟨List.forall_mem_nil _, hline⟩
      | cons k before => cases before <;> cases h
  | ended line e rest hline ih =>
      intro before l after h
      cases before with
      | nil =>
          cases h
          exact ⟨List.forall_mem_nil _, hline⟩
      | cons k before =>
          obtain ⟨rfl, hrest⟩ := List.cons.inj h
          obtain ⟨hbefore, hl⟩ := ih hrest
          exact ⟨List.forall_mem_cons.mpr ⟨⟨hline, rfl⟩, hbefore⟩, hl⟩

end FilterReference.Text
