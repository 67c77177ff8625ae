/-
# The line that an error names

Bytes without quotes that are refused because of a cell are a text up to the end of the line of that
cell (`exists_stop`): the lines before it read, and it is at fault.  The error names a line, by the
count that the reader had where the row before ended.  That is the line of the cell exactly if the
line before it makes a row and is ended by a line feed alone, and no line is ended by a carriage
return alone (`Count.reported_eq_iff`); otherwise it is an earlier one (`ofText_line`).
-/
import FilterReference.Proofs.Signal.Grammar

namespace FilterReference

open Binary Text

/-- The line that the error of a cell names. -/
def SampleFault.line? : SampleFault → Option Nat
  | .encoding .. => none
  | .columns line _ => some line
  | .notNumber line _ => some line
  | .notFinite line _ => some line

namespace Samples

/-! ## The count

Two numbers are counted: the line a row is reported by, and the line that the reader has reached.
The first never overtakes the second, and the second never the line itself. -/

/-- A line whose end the reader counts: it has a line feed. -/
def Counted (l : Line) : Prop := l.ending = some .lineFeed ∨ l.ending = some .both

/-- Lines behind which the count is that of the next line: there are none, or all of them are
counted and the last is a row that is ended by a line feed alone. -/
def CountedOut (before : List Line) : Prop :=
  before = [] ∨ (∀ k ∈ before, Counted k) ∧
    ∃ k ∈ before.getLast?, k.chars ≠ [] ∧ k.ending = some .lineFeed

namespace Count

theorem reached_past (n : Count) (l : Line) :
    (Counted l ∧ (n.past l).reached = n.reached + 1) ∨
      (¬ Counted l ∧ (n.past l).reached = n.reached) := by
  obtain ⟨chars, ending⟩ := l
  rcases ending with _ | _ | _ | _ <;> simp [Counted, past, feeds]

/-- The reader counts at most the lines there are, and all of them if their ends are counted. -/
theorem reached_foldl (before : List Line) (n : Count) :
    (before.foldl past n).reached ≤ n.reached + before.length ∧
      ((before.foldl past n).reached = n.reached + before.length ↔ ∀ k ∈ before, Counted k) := by
  induction before generalizing n with
  | nil => exact ⟨le_refl _, fun _ => List.forall_mem_nil _, fun _ => rfl⟩
  | cons k before ih =>
      obtain ⟨hle, heq⟩ := ih (n.past k)
      rw [List.foldl_cons, List.length_cons, List.forall_mem_cons, ← heq]
      rcases reached_past n k with ⟨hk, hreached⟩ | ⟨hk, hreached⟩
      · rw [hreached] at hle ⊢
        simp only [hk, true_and]
        omega
      · rw [hreached] at hle ⊢
        simp only [hk, false_and, iff_false]
        omega

theorem reported_le_reached (before : List Line) {n : Count} (h : n.reported ≤ n.reached) :
    (before.foldl past n).reported ≤ (before.foldl past n).reached := by
  induction before generalizing n with
  | nil => exact h
  | cons k before ih =>
      refine ih ?_
      obtain ⟨chars, ending⟩ := k
      simp only [past]
      split_ifs
      · exact h.trans (Nat.le_add_right _ _)
      · rcases ending with _ | _ | _ | _ <;> simp [feeds, feedsFirst]

/-- **The line that is reported** is not behind the next line, and it is the next line exactly if
the lines are counted out. -/
theorem reported_eq_iff (before : List Line) :
    (before.foldl past start).reported ≤ before.length + 1 ∧
      ((before.foldl past start).reported = before.length + 1 ↔ CountedOut before) := by
  rcases List.eq_nil_or_concat' before with rfl | ⟨init, k, rfl⟩
  · exact ⟨le_refl _, fun _ => Or.inl rfl, fun _ => rfl⟩
  · obtain ⟨hle, heq⟩ := reached_foldl init start
    have hreported := reported_le_reached init (n := start) (le_refl _)
    have hout : CountedOut (init ++ [k]) ↔
        (∀ j ∈ init, Counted j) ∧ k.chars ≠ [] ∧ k.ending = some .lineFeed := by
      simp only [CountedOut, List.append_eq_nil_iff, List.cons_ne_nil, and_false, false_or,
        List.getLast?_append, List.getLast?_singleton, List.forall_mem_append, List.forall_mem_singleton]
      constructor
      · rintro ⟨⟨hinit, -⟩, _, ⟨⟩, hchars, hend⟩
        exact ⟨hinit, hchars, hend⟩
      · rintro ⟨hinit, hchars, hend⟩
        exact ⟨⟨hinit, Or.inl hend⟩, k, rfl, hchars, hend⟩
    rw [← heq] at hout
    rw [hout, List.foldl_append, List.foldl_cons, List.foldl_nil, List.length_append,
      List.length_singleton, past]
    have hstart : start.reached = 1 := rfl
    obtain ⟨chars, ending⟩ := k
    by_cases hchars : chars = []
    · -- An empty line leaves the report where it was.
      simp only [hchars, if_true, ne_eq, not_true_eq_false, false_and, and_false, iff_false]
      omega
    · rcases ending with _ | _ | _ | _ <;>
        simp only [hchars, if_false, ne_eq, not_false_eq_true, Option.elim, feedsFirst,
          reduceCtorEq, and_false, and_true, iff_false, Option.some.injEq] <;>
        omega

end Count

/-! ## Bytes up to the line at fault

The bytes need not be a text as a whole.  Those of a row are decoded when the row is read, so all up
to the fault are, and what follows is not looked at. -/

/-- Fields that are decoded are fields of a text: what is dropped in front of them is text, too. -/
theorem decodeFields_eq_ok {index : Nat} {fields : List (List UInt8)} {cs : List (List Char)}
    (h : decodeFields index fields = .ok cs) :
    ∃ cells : List (List Char), fields = cells.map encode := by
  induction fields generalizing index cs with
  | nil => exact ⟨[], rfl⟩
  | cons field fields ih =>
      rw [decodeFields] at h
      split at h
      · cases h
      · rename_i ds hds
        split at h
        · rename_i others hothers
          obtain ⟨cells, rfl⟩ := ih hothers
          have hplain : ∀ b ∈ field.takeWhile isPlainBlank, b.toNat < 128 := by
            intro b hb
            by_contra hlarge
            have hblank := List.all_eq_true.mp List.all_takeWhile b hb
            rw [isPlainBlank_of_le (Nat.not_lt.mp hlarge)] at hblank
            cases hblank
          obtain ⟨blanks, hblanks⟩ := exists_encode_of_lt hplain
          refine ⟨(blanks ++ ds) :: cells, ?_⟩
          rw [List.map_cons, encode_append, ← hblanks, ← eq_encode_of_decode hds,
            List.takeWhile_append_dropWhile]
        · cases h

theorem exists_line_of_cells {start : Position} {bytes : List UInt8} {number : Nat}
    {cs : List (List Char)} (h : Samples.cells ⟨start, bytes.splitOn Row.comma⟩ number = .ok cs) :
    ∃ line, bytes = encode line := by
  unfold Samples.cells at h
  split at h
  · rename_i fields hfields
    obtain ⟨cells, hcells⟩ := decodeFields_eq_ok hfields
    refine ⟨[','].intercalate cells, ?_⟩
    rw [Row.encode_intercalate, ← hcells, List.intercalate_splitOn]
  · cases h

section Stops

variable {n : Count} {bytes rest : List UInt8} {e : SampleFault} {m : Nat}

theorem exists_line (h : Reading n (bytes ++ rest) (.error e)) (he : e.line? = some m)
    (hbytes : ∀ b ∈ bytes, Row.isBreak b = false) (hquote : ∀ b ∈ bytes, b ≠ Row.quoteMark)
    (hrest : ∀ b ∈ rest.head?, Row.isBreak b = true) :
    ∃ line, bytes = encode line ∧ Unbroken line ∧ '"' ∉ line := by
  have htext : ∃ line, bytes = encode line := by
    by_cases hne : bytes = []
    · exact ⟨[], hne⟩
    obtain ⟨number, fuel, start, p, hfuel, -, -, hrows⟩ := h
    rw [List.length_append] at hfuel
    have hpos := List.length_pos_of_ne_nil hne
    obtain ⟨fuel, rfl⟩ : ∃ k, fuel = k + 1 := ⟨fuel - 1, by omega⟩
    obtain ⟨q, -, hline⟩ := Row.readFrom_line hbytes hquote hne hrest
      (by omega : bytes.length ≤ fuel) start p
    rw [hline, ofRows] at hrows
    cases hcells : Samples.cells ⟨start, bytes.splitOn Row.comma⟩ number with
    | ok cs => exact exists_line_of_cells hcells
    | error fault =>
        rw [hcells] at hrows
        cases hrows
        -- Only bytes that are no text are an error before the cells are looked at.
        unfold Samples.cells at hcells
        split at hcells <;> cases hcells
        cases he
  obtain ⟨line, rfl⟩ := htext
  refine ⟨line, rfl, fun c hc => ⟨?_, ?_⟩, fun hmem => ?_⟩
  · rintro rfl
    cases hbytes _ (code_mem (by decide) hc)
  · rintro rfl
    cases hbytes _ (code_mem (by decide) hc)
  · exact hquote _ (code_mem (by decide) hmem) rfl

end Stops

/-- A text ends with a line that is at fault, and the lines before it read. -/
structure StopsAt (text : List Char) (before : List Line) (line : List Char) (fault : LineFault) :
    Prop where
  cut_eq : cut text = before ++ [⟨line, none⟩]
  reads : ∀ k ∈ before, ∃ s, Reads k.chars s
  faulty : Faulty line fault

/-- **Bytes that are refused because of a cell** are a text up to the end of the line of that cell,
and the line is reported under the number that is counted before it.  By induction on the bytes,
line by line. -/
theorem exists_stop {bytes : List UInt8} (hquote : ∀ b ∈ bytes, b ≠ Row.quoteMark) {n : Count}
    {e : SampleFault} {m : Nat} (h : Reading n bytes (.error e)) (he : e.line? = some m) :
    ∃ text rest before line fault, bytes = encode text ++ rest ∧
      (∀ b ∈ rest.head?, Row.isBreak b = true) ∧ StopsAt text before line fault ∧
      e = fault.report (before.foldl Count.past n).reported := by
  induction hlength : bytes.length using Nat.strong_induction_on generalizing bytes n with
  | _ k ih =>
      rcases Row.unbroken_or_exists_end bytes with hbytes | ⟨bytes, ending, rest, hbytes, hend, rfl⟩
      · rw [← List.append_nil bytes] at h
        obtain ⟨line, rfl, hline, hlineQuote⟩ :=
          exists_line h he hbytes hquote fun b hb => by cases hb
        rw [List.append_nil] at h
        obtain ⟨before, l, after, fault, hsplit, -, hfaulty, heq⟩ :=
          ofLines_eq_error_iff.mp (reading_last hline hlineQuote h).symm
        cases before with
        | nil =>
            cases hsplit
            refine ⟨line, [], [], line, fault, (List.append_nil _).symm, ?_,
              ⟨cut_unbroken hline, List.forall_mem_nil _, hfaulty⟩, heq⟩
            intro b hb
            cases hb
        | cons k before => cases before <;> cases hsplit
      · obtain ⟨hfirst, hmore⟩ := List.forall_mem_append.mp hquote
        obtain ⟨line, rfl, hline, hlineQuote⟩ :=
          exists_line h he hbytes hfirst (isBreak_head ending)
        rw [← List.append_assoc, ← encode_append] at h
        obtain ⟨r, hr, herror⟩ := reading_ended ending hline hlineQuote h
        rcases bind_eq_error_iff.mp herror.symm with hl | ⟨s, hs, hafter⟩
        · obtain ⟨fault, hfaulty, heq⟩ := ofLine_eq_error_iff.mp hl
          exact ⟨line, encode ending.chars ++ rest, [], line, fault, rfl, isBreak_head ending,
            ⟨cut_unbroken hline, List.forall_mem_nil _, hfaulty⟩, heq⟩
        · have hr' : r = .error e := by
            rcases bind_eq_error_iff.mp hafter with hr' | ⟨_, _, hpure⟩
            · exact hr'
            · cases hpure
          subst hr'
          have hshorter : rest.length < k := by
            rw [List.length_append, List.length_append] at hlength
            have hpos : 0 < (encode ending.chars).length := by cases ending <;> decide
            omega
          obtain ⟨text, more, before, last, fault, rfl, hmore, hstops, heq⟩ :=
            ih _ hshorter (fun b hb => hquote b (by simp [hb])) hr rfl
          refine ⟨line ++ (ending.chars ++ text), more, ⟨line, some ending⟩ :: before, last, fault,
            ?_, hmore, ⟨?_, ?_, hstops.faulty⟩, heq⟩
          · simp only [encode_append, List.append_assoc]
          · have hseparate : ending.Separate text := by
              intro hreturn hfeed
              obtain ⟨cs, rfl⟩ := List.head?_eq_some_iff.mp hfeed
              exact hend hreturn rfl
            rw [cut_append hline hseparate, hstops.cut_eq]
            rfl
          · exact List.forall_mem_cons.mpr ⟨⟨s, ofLine_eq_ok_iff.mp hs⟩, hstops.reads⟩

/-! ## Files -/

theorem exists_reading (content : ByteArray) :
    ∃ bytes, Reading .start bytes (ofText content) ∧
      (content.toList = Row.byteOrderMark ++ bytes ∨
        content.toList = bytes ∧ ¬ Row.byteOrderMark <+: bytes) := by
  by_cases hmark : Row.byteOrderMark <+: content.toList
  · obtain ⟨bytes, hbytes⟩ := hmark
    refine ⟨bytes, ⟨1, content.toList.length, .start, ⟨Row.byteOrderMark.length, 1⟩, ?_, rfl, rfl, ?_⟩,
      Or.inl hbytes.symm⟩
    · rw [← hbytes, List.length_append]
      exact Nat.lt_add_of_pos_left (by decide)
    · rw [ofText, ← hbytes]
      rfl
  · refine ⟨content.toList, ⟨1, content.toList.length + 1, .start, .start, Nat.lt_succ_self _, rfl,
      rfl, ?_⟩, Or.inr ⟨rfl, hmark⟩⟩
    rw [ofText, Row.readAll, if_neg (fun h => hmark (List.isPrefixOf_iff_prefix.mp h))]

theorem message_report (fault : LineFault) (n : Nat) :
    ∃ text, (fault.report n).message = s!"line {n}: " ++ text := by
  have hsplit : ∀ text cell : String,
      "line " ++ toString n ++ (": " ++ text) ++ cell = s!"line {n}: " ++ (text ++ cell) := by
    intro text cell
    rw [← String.append_assoc, String.append_assoc]
    rfl
  have hbehind : ∀ text cell ending : String,
      "line " ++ toString n ++ (": " ++ text) ++ cell ++ ending =
        s!"line {n}: " ++ (text ++ cell ++ ending) := by
    intro text cell ending
    rw [hsplit, String.append_assoc]
  cases fault with
  | columns count => exact ⟨_, hsplit "expected one column, found " (toString count)⟩
  | notNumber cell => exact ⟨_, hbehind "'" cell "' is not a number"⟩
  | notFinite cell => exact ⟨_, hbehind "'" cell "' is not a finite number"⟩

/-- **The line that an error names.**  Bytes without quotes that are refused because of a cell begin
with a text whose last line is at fault, behind lines that read.  The error is that of this line,
and begins with a number.  It is not behind the line, and it is the number of the line, counted from
one, if and only if the lines before it are counted out. -/
theorem ofText_line {content : ByteArray} (hquote : Row.quoteMark ∉ content.toList) {e : SampleFault}
    (h : ofText content = .error e) {n : Nat} (hline : e.line? = some n) :
    (∃ text, e.message = s!"line {n}: " ++ text) ∧
      ∃ head rest before line fault, content.toList = encode head ++ rest ∧
        (∀ b ∈ rest.head?, Row.isBreak b = true) ∧
        StopsAt (Row.withoutMark head) before line fault ∧ e = fault.report n ∧
        n ≤ before.length + 1 ∧ (n = before.length + 1 ↔ CountedOut before) := by
  obtain ⟨bytes, hreading, hcontent⟩ := exists_reading content
  rw [h] at hreading
  have hbytes : ∀ b ∈ bytes, b ≠ Row.quoteMark := by
    rintro b hb rfl
    rcases hcontent with heq | ⟨heq, -⟩
    · exact hquote (heq ▸ List.mem_append_right _ hb)
    · exact hquote (heq ▸ hb)
  obtain ⟨text, rest, before, line, fault, rfl, hrest, hstops, rfl⟩ :=
    exists_stop hbytes hreading hline
  have hn : n = (before.foldl Count.past .start).reported := by
    cases fault <;> exact (Option.some.inj hline).symm
  subst hn
  refine ⟨message_report fault _, ?_⟩
  have hcount := Count.reported_eq_iff before
  rcases hcontent with hcontent | ⟨hcontent, hmark⟩
  · refine ⟨'\uFEFF' :: text, rest, before, line, fault, ?_, hrest, hstops, rfl, hcount⟩
    rw [hcontent, encode_cons, List.append_assoc]
    rfl
  · refine ⟨text, rest, before, line, fault, hcontent, hrest, ?_, rfl, hcount⟩
    -- A text without the bytes of a mark does not begin with one.
    have htext : Row.withoutMark text = text := by
      cases text with
      | nil => rfl
      | cons c text =>
          refine if_neg ?_
          rintro rfl
          rw [encode_cons, List.append_assoc] at hmark
          exact hmark (List.prefix_append _ _)
    rwa [htext]

/-- A text with both line ends, whose third line is at fault behind a line that is ended by a line
feed alone. -/
def thirdLineText : String := "1\r\n2\nx"

theorem ofText_thirdLineText : ofText thirdLineText.toUTF8 = .error (.notNumber 3 "x") := by
  rw [ofText_eq_ofLines (by decide +kernel)]
  decide +kernel

theorem ofText_line_third :
    ∃ head rest before line fault, thirdLineText.toUTF8.toList = encode head ++ rest ∧
      (∀ b ∈ rest.head?, Row.isBreak b = true) ∧ StopsAt (Row.withoutMark head) before line fault ∧
      SampleFault.notNumber 3 "x" = fault.report 3 ∧ 3 ≤ before.length + 1 ∧
      (3 = before.length + 1 ↔ CountedOut before) := by
  have hquote : Row.quoteMark ∉ thirdLineText.toUTF8.toList := by
    rw [toList_toUTF8]
    decide +kernel
  exact (ofText_line hquote ofText_thirdLineText rfl).2

/-- Behind an empty line, and behind a line that is ended by a carriage return and a line feed, the
error of the second line names the first. -/
theorem ofText_second_line :
    (ofText "\nabc\n".toUTF8 = .error (.notNumber 1 "abc") ∧
      linesOf "\nabc\n" =
        [⟨[], some .lineFeed⟩, ⟨['a', 'b', 'c'], some .lineFeed⟩, ⟨[], none⟩]) ∧
    ofText "1\r\nx\r\n".toUTF8 = .error (.notNumber 1 "x") ∧
      linesOf "1\r\nx\r\n" = [⟨['1'], some .both⟩, ⟨['x'], some .both⟩, ⟨[], none⟩] := by
  have hempty : '"' ∉ "\nabc\n".toList := by decide +kernel
  have hreturn : '"' ∉ "1\r\nx\r\n".toList := by decide +kernel
  rw [ofText_eq_ofLines hempty, ofText_eq_ofLines hreturn]
  decide +kernel

end Samples

end FilterReference
