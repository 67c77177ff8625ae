/-
# Signals written one number to a line

A signal that is written in a legible notation, one number to a line, is read back to the same bits
(`Samples.ofText_lines`), whether or not the last line is ended.  The characters of numbers end no
line, so the lines of such a text are the numbers (`cut_joinLines`), and each of them reads as its
double: nothing of it is trimmed, and it is one cell.
-/
import FilterReference.Proofs.Decimal.Notation
import FilterReference.Proofs.Signal.Grammar
import FilterReference.Signal.Loading

namespace FilterReference

open Binary Text

/-- Lines with a line end between them, and behind the last one if it is `ended`. -/
def joinLines {α : Type} (feed : α) (ended : Bool) : List (List α) → List α
  | [] => []
  | [line] => if ended then line ++ [feed] else line
  | line :: next :: rest => line ++ feed :: joinLines feed ended (next :: rest)

theorem mem_joinLines {α : Type} {feed a : α} {ended : Bool} {lines : List (List α)}
    (h : a ∈ joinLines feed ended lines) : a = feed ∨ ∃ line ∈ lines, a ∈ line := by
  induction lines with
  | nil => cases h
  | cons line rest ih =>
      cases rest with
      | nil => cases ended <;> simp [joinLines] at h ⊢ <;> tauto
      | cons next rest =>
          rw [joinLines, List.mem_append, List.mem_cons] at h
          rcases h with h | h | h
          · exact Or.inr ⟨line, List.mem_cons_self, h⟩
          · exact Or.inl h
          · rcases ih h with h | ⟨l, hl, ha⟩
            · exact Or.inl h
            · exact Or.inr ⟨l, List.mem_cons_of_mem line hl, ha⟩

/-- The text of a signal, one number to a line. -/
def Signal.lines (l : Layout) (ended : Bool) (xs : Signal) : String :=
  String.ofList (joinLines '\n' ended (xs.map l.chars))

/-- Behind a last line that is ended there is one more, which is empty. -/
theorem cut_joinLines {lines : List (List Char)} (hlines : ∀ line ∈ lines, Unbroken line)
    (ended : Bool) : ∃ more, (cut (joinLines '\n' ended lines)).map Line.chars = lines ++ more ∧
      ∀ line ∈ more, line = [] := by
  have hlast : ∀ line ∈ [[]], line = ([] : List Char) := fun line h => List.mem_singleton.mp h
  induction lines with
  | nil => exact ⟨[[]], rfl, hlast⟩
  | cons line rest ih =>
      obtain ⟨hline, hrest⟩ := List.forall_mem_cons.mp hlines
      have hcut : ∀ more, cut (line ++ '\n' :: more) = ⟨line, some .lineFeed⟩ :: cut more :=
        fun more => cut_append hline (e := .lineFeed) fun h => by cases h
      cases rest with
      | nil =>
          cases ended with
          | true =>
              refine ⟨[[]], ?_, hlast⟩
              rw [joinLines, if_pos rfl, hcut]
              rfl
          | false =>
              refine ⟨[], ?_, List.forall_mem_nil _⟩
              rw [joinLines, if_neg Bool.false_ne_true, cut_unbroken hline]
              rfl
      | cons next rest =>
          obtain ⟨more, hmore, hempty⟩ := ih hrest
          refine ⟨more, ?_, hempty⟩
          rw [joinLines, hcut, List.map_cons, hmore]
          rfl

theorem unbroken_number {cs : List Char} (hcs : ∀ c ∈ cs, IsNumberChar c) : Unbroken cs := by
  intro c hc
  have hbounds := (hcs c hc).bounds
  constructor
  · rintro rfl
    exact absurd hbounds (by decide)
  · rintro rfl
    exact absurd hbounds (by decide)

theorem trim_number {cs : List Char} (hcs : ∀ c ∈ cs, IsNumberChar c) : trim cs = cs := by
  refine trim_eq_self fun c hc => ?_
  obtain ⟨hlow, hhigh, -⟩ := (hcs c hc).bounds
  simp only [isBlank, Bool.or_eq_false_iff, Bool.and_eq_false_iff, decide_eq_false_iff_not,
    beq_eq_false_iff_ne]
  omega

namespace Samples

theorem reads_chars {l : Layout} (hl : l.Legible) {x : Float} (hx : isFinite x = true) :
    Reads (l.chars x) (some x) := by
  have hchars := hl.isNumberChar_chars hx
  have hcomma : ',' ∉ l.chars x := fun h => (hchars ',' h).bounds.2.2 rfl
  exact .number hcomma (by rw [trim_number hchars]; exact hl.readFloat?_chars hx) hx

theorem exists_samples {l : Layout} (hl : l.Legible) {xs : Signal}
    (hfinite : ∀ x ∈ xs, isFinite x = true) {more : List (List Char)}
    (hmore : ∀ line ∈ more, line = []) :
    ∃ samples, List.Forall₂ Reads (xs.map l.chars ++ more) samples ∧ samples.reduceOption = xs := by
  induction xs with
  | nil =>
      refine ⟨more.map fun _ => none, ?_, ?_⟩
      · rw [List.map_nil, List.nil_append, List.forall₂_map_right_iff, List.forall₂_same]
        exact fun line hline => .blank (by rw [hmore line hline]; rfl)
      · simp [List.reduceOption]
  | cons x xs ih =>
      obtain ⟨hx, hxs⟩ := List.forall_mem_cons.mp hfinite
      obtain ⟨samples, hall, hsamples⟩ := ih hxs
      refine ⟨some x :: samples, .cons (reads_chars hl hx) hall, ?_⟩
      rw [List.reduceOption_cons_of_some, hsamples]

/-- **A signal written one number to a line is read back**, in any legible notation. -/
theorem ofText_lines {l : Layout} (hl : l.Legible) (ended : Bool) {xs : Signal}
    (hfinite : ∀ x ∈ xs, isFinite x = true) :
    ofText (Signal.lines l ended xs).toUTF8 = .ok xs := by
  have hnumbers : ∀ cs ∈ xs.map l.chars, ∀ c ∈ cs, IsNumberChar c := by
    intro cs hcs
    obtain ⟨x, hx, rfl⟩ := List.mem_map.mp hcs
    exact hl.isNumberChar_chars (hfinite x hx)
  have hchar : ∀ c ∈ joinLines '\n' ended (xs.map l.chars), c = '\n' ∨ IsNumberChar c := by
    intro c hc
    exact (mem_joinLines hc).imp_right fun ⟨cs, hcs, hc⟩ => hnumbers cs hcs c hc
  have hquote : '"' ∉ (Signal.lines l ended xs).toList := by
    intro h
    rw [Signal.lines, String.toList_ofList] at h
    rcases hchar _ h with heq | hnumber
    · cases heq
    · exact absurd hnumber.bounds (by decide)
  have hlines : linesOf (Signal.lines l ended xs) = cut (joinLines '\n' ended (xs.map l.chars)) := by
    rw [linesOf, Signal.lines, String.toList_ofList, Row.withoutMark_eq_self]
    intro h
    rcases hchar _ h with heq | hnumber
    · cases heq
    · exact absurd hnumber.bounds (by decide)
  obtain ⟨more, hmore, hempty⟩ :=
    cut_joinLines (fun cs hcs => unbroken_number (hnumbers cs hcs)) ended
  rw [ofText_eq_ofLines hquote, ofLines_eq_ok_iff, hlines, hmore]
  exact exists_samples hl hfinite hempty

end Samples

end FilterReference
