/-
# The grammar of text signals

A text signal without quotes is read line by line.  Each line either reads as a sample, or as none
if it is blank (`Reads`), or it is at fault (`Faulty`); the samples of a text are those of its
lines, and its error is that of the first line at fault, whatever follows it (`ofText_grammar`).

An error names a line by the count that the reader keeps (`Count`).  The count is taken where the
row before ended, so the ends of empty lines in between, and the line feed behind a carriage return
that ended the row, are not in it yet.
-/
import FilterReference.Proofs.Signal.Rows
import FilterReference.Proofs.Traversal
import FilterReference.Signal.Text

namespace FilterReference

open Binary Text

namespace Samples

/-! ## Lines as samples

Whether a line reads does not depend on its number, which is only cited in errors.  A line reads or
it is at fault, never both, and its fault determines the error but for the number. -/

inductive Reads : List Char → Option Float → Prop
  | blank {line : List Char} : trim line = [] → Reads line none
  | number {line : List Char} {x : Float} : ',' ∉ line → readFloat? (trim line) = some x →
      isFinite x = true → Reads line (some x)

inductive LineFault where
  | columns (count : Nat)
  | notNumber (cell : String)
  | notFinite (cell : String)
deriving DecidableEq, Repr

/-- The error of a line, under the number that is reported for it. -/
def LineFault.report (number : Nat) : LineFault → SampleFault
  | .columns count => .columns number count
  | .notNumber cell => .notNumber number cell
  | .notFinite cell => .notFinite number cell

/-- A line that does not read: of several columns, or of one that is no finite number. -/
inductive Faulty : List Char → LineFault → Prop
  | columns {line : List Char} : ',' ∈ line → Faulty line (.columns (line.count ',' + 1))
  | notNumber {line : List Char} : ',' ∉ line → trim line ≠ [] → readFloat? (trim line) = none →
      Faulty line (.notNumber (String.ofList (trim line)))
  | notFinite {line : List Char} {x : Float} : ',' ∉ line → readFloat? (trim line) = some x →
      isFinite x = false → Faulty line (.notFinite (String.ofList (trim line)))

/-- The sample of a line, its cells being what stands between the commas. -/
def ofLine (number : Nat) (line : List Char) : Except SampleFault (Option Float) :=
  ofCells number ((line.splitOn ',').map trim)

theorem length_splitOn (line : List Char) : (line.splitOn ',').length = line.count ',' + 1 := by
  induction line with
  | nil => rfl
  | cons c line ih =>
      rw [List.splitOn_cons_eq_if_modifyHead, List.count_cons]
      split_ifs with hc
      · rw [List.length_cons, ih]
      · rw [List.length_modifyHead, ih]

theorem ofLine_single {line : List Char} (hcomma : ',' ∉ line) (number : Nat) :
    ofLine number line = ofCells number [trim line] := by
  rw [ofLine, List.splitOn_eq_singleton hcomma]
  rfl

theorem ofCells_columns {cells : List (List Char)} (h : cells.length ≠ 1) (number : Nat) :
    ofCells number cells = .error (.columns number cells.length) := by
  match cells with
  | [] => rfl
  | [_] => exact absurd rfl h
  | [] :: _ :: _ | (_ :: _) :: _ :: _ => rfl

theorem ofCells_cell {cell : List Char} (h : cell ≠ []) (number : Nat) :
    ofCells number [cell] = match readFloat? cell with
      | none => .error (.notNumber number (String.ofList cell))
      | some x =>
        if isFinite x then .ok (some x) else .error (.notFinite number (String.ofList cell)) := by
  obtain ⟨c, cs, rfl⟩ := List.exists_cons_of_ne_nil h
  rfl

theorem trim_ne_nil {line : List Char} {x : Float} (h : readFloat? (trim line) = some x) :
    trim line ≠ [] := by
  intro hnil
  rw [hnil] at h
  cases h

theorem Reads.ofLine {line : List Char} {s : Option Float} (h : Reads line s) (number : Nat) :
    Samples.ofLine number line = .ok s := by
  cases h with
  | blank hblank =>
      have hcomma : ',' ∉ line := by
        intro hmem
        have := mem_trim (by decide) hmem
        rw [hblank] at this
        cases this
      rw [ofLine_single hcomma, hblank]
      rfl
  | number hcomma hread hfinite =>
      rw [ofLine_single hcomma, ofCells_cell (trim_ne_nil hread), hread]
      exact if_pos hfinite

theorem Faulty.ofLine {line : List Char} {fault : LineFault} (h : Faulty line fault)
    (number : Nat) : Samples.ofLine number line = .error (fault.report number) := by
  cases h with
  | columns hcomma =>
      have hlength : ((line.splitOn ',').map trim).length = line.count ',' + 1 := by
        rw [List.length_map, length_splitOn]
      have hpos : 0 < line.count ',' := List.count_pos_iff.mpr hcomma
      rw [Samples.ofLine, ofCells_columns (by omega), hlength]
      rfl
  | notNumber hcomma hne hread =>
      rw [ofLine_single hcomma, ofCells_cell hne, hread]
      rfl
  | notFinite hcomma hread hfinite =>
      rw [ofLine_single hcomma, ofCells_cell (trim_ne_nil hread), hread]
      exact if_neg (by rw [hfinite]; exact Bool.false_ne_true)

theorem reads_or_faulty (line : List Char) : (∃ s, Reads line s) ∨ ∃ fault, Faulty line fault := by
  by_cases hcomma : ',' ∈ line
  · exact Or.inr ⟨_, .columns hcomma⟩
  by_cases hblank : trim line = []
  · exact Or.inl ⟨_, .blank hblank⟩
  cases hread : readFloat? (trim line) with
  | none => exact Or.inr ⟨_, .notNumber hcomma hblank hread⟩
  | some x =>
      cases hfinite : isFinite x with
      | false => exact Or.inr ⟨_, .notFinite hcomma hread hfinite⟩
      | true => exact Or.inl ⟨_, .number hcomma hread hfinite⟩

theorem ofLine_eq_ok_iff {number : Nat} {line : List Char} {s : Option Float} :
    ofLine number line = .ok s ↔ Reads line s := by
  refine ⟨fun h => ?_, fun h => h.ofLine number⟩
  rcases reads_or_faulty line with ⟨s', hreads⟩ | ⟨fault, hfaulty⟩
  · rw [hreads.ofLine] at h
    cases h
    exact hreads
  · rw [hfaulty.ofLine] at h
    cases h

theorem ofLine_eq_error_iff {number : Nat} {line : List Char} {e : SampleFault} :
    ofLine number line = .error e ↔ ∃ fault, Faulty line fault ∧ e = fault.report number := by
  constructor
  · intro h
    rcases reads_or_faulty line with ⟨s', hreads⟩ | ⟨fault, hfaulty⟩
    · rw [hreads.ofLine] at h
      cases h
    · rw [hfaulty.ofLine] at h
      cases h
      exact ⟨fault, hfaulty, rfl⟩
  · rintro ⟨fault, hfaulty, rfl⟩
    exact hfaulty.ofLine number

/-! ## Texts as signals

Only the number of a line is handed on from one line to the next, and only errors show it.  So the
samples of a text are those of its lines, whatever the counts are. -/

/-- How the reader counts lines: the number reported for the next row, which is that of the line
where the row before ended, and the number of the line reached. -/
structure Count where
  reported : Nat
  reached : Nat
deriving DecidableEq, Repr

/-- How many lines are counted at the first byte of a line end. -/
def feedsFirst : LineEnd → Nat
  | .lineFeed => 1
  | .carriageReturn => 0
  | .both => 0

/-- How many lines are counted at a line end. -/
def feeds : LineEnd → Nat
  | .lineFeed => 1
  | .carriageReturn => 0
  | .both => 1

namespace Count

def start : Count := ⟨1, 1⟩

/-- The count behind a line.  An empty line makes no row. -/
def past (n : Count) (l : Line) : Count where
  reported := if l.chars = [] then n.reported else n.reached + l.ending.elim 0 feedsFirst
  reached := n.reached + l.ending.elim 0 feeds

end Count

def ofLines : Count → List Line → Except SampleFault (List Float)
  | _, [] => .ok []
  | n, l :: rest => do
    let sample? ← ofLine n.reported l.chars
    let samples ← ofLines (n.past l) rest
    return sample?.toList ++ samples

theorem ofLines_eq_ok_iff {n : Count} {lines : List Line} {xs : List Float} :
    ofLines n lines = .ok xs ↔
      ∃ samples, List.Forall₂ Reads (lines.map Line.chars) samples ∧ samples.reduceOption = xs := by
  induction lines generalizing n xs with
  | nil =>
      constructor
      · intro h
        cases h
        exact ⟨[], .nil, rfl⟩
      · rintro ⟨samples, hall, rfl⟩
        cases hall
        rfl
  | cons l rest ih =>
      rw [ofLines, bind_eq_ok_iff, List.map_cons]
      constructor
      · rintro ⟨s, hs, hrest⟩
        obtain ⟨ys, hys, heq⟩ := bind_eq_ok_iff.mp hrest
        cases heq
        obtain ⟨samples, hall, rfl⟩ := ih.mp hys
        refine ⟨s :: samples, .cons (ofLine_eq_ok_iff.mp hs) hall, ?_⟩
        cases s <;> rfl
      · rintro ⟨samples, hall, rfl⟩
        obtain ⟨s, others, hs, hothers, rfl⟩ := List.forall₂_cons_left_iff.mp hall
        refine ⟨s, ofLine_eq_ok_iff.mpr hs, bind_eq_ok_iff.mpr ⟨_, ih.mpr ⟨others, hothers, rfl⟩, ?_⟩⟩
        cases s <;> rfl

theorem ofLines_eq_error_iff {n : Count} {lines : List Line} {e : SampleFault} :
    ofLines n lines = .error e ↔
      ∃ before l after fault, lines = before ++ l :: after ∧ (∀ k ∈ before, ∃ s, Reads k.chars s) ∧
        Faulty l.chars fault ∧ e = fault.report (before.foldl Count.past n).reported := by
  induction lines generalizing n with
  | nil =>
      constructor
      · intro h
        cases h
      · rintro ⟨before, l, after, fault, h, -⟩
        cases before <;> cases h
  | cons l rest ih =>
      rw [ofLines, bind_eq_error_iff]
      constructor
      · rintro (hl | ⟨s, hs, hrest⟩)
        · obtain ⟨fault, hfaulty, rfl⟩ := ofLine_eq_error_iff.mp hl
          exact ⟨[], l, rest, fault, rfl, List.forall_mem_nil _, hfaulty, rfl⟩
        · rcases bind_eq_error_iff.mp hrest with herror | ⟨_, _, h⟩
          · obtain ⟨before, k, after, fault, rfl, hbefore, hfaulty, rfl⟩ := ih.mp herror
            exact ⟨l :: before, k, after, fault, rfl,
              List.forall_mem_cons.mpr ⟨⟨s, ofLine_eq_ok_iff.mp hs⟩, hbefore⟩, hfaulty, rfl⟩
          · cases h
      · rintro ⟨before, k, after, fault, hsplit, hbefore, hfaulty, rfl⟩
        cases before with
        | nil =>
            cases hsplit
            exact Or.inl (hfaulty.ofLine _)
        | cons k' before =>
            cases hsplit
            obtain ⟨⟨s, hs⟩, hbefore⟩ := List.forall_mem_cons.mp hbefore
            have herror := ih.mpr ⟨before, k, after, fault, rfl, hbefore, hfaulty, rfl⟩
            exact Or.inr ⟨s, ofLine_eq_ok_iff.mpr hs, bind_eq_error_iff.mpr (Or.inl herror)⟩

/-! ## Cells

Cells are trimmed twice: as bytes, of blanks of the first block, and as text, of all white space.
The first makes no difference to what the second leaves. -/

theorem isBlank_of_isPlainBlank {c : Char} (hc : c.toNat < 128)
    (h : isPlainBlank (UInt8.ofNat c.toNat) = true) : isBlank c = true := by
  have hcode : (UInt8.ofNat c.toNat).toNat = c.toNat := by
    rw [UInt8.toNat_ofNat']
    omega
  simp only [isPlainBlank, Bool.or_eq_true, beq_iff_eq, ← UInt8.toNat_inj, hcode] at h
  simp only [isBlank, Bool.or_eq_true, Bool.and_eq_true, decide_eq_true_eq, beq_iff_eq]
  have hvalues : c.toNat = 32 ∨ c.toNat = 9 ∨ c.toNat = 10 ∨ c.toNat = 12 ∨ c.toNat = 13 := by
    tauto
  omega

theorem isPlainBlank_of_le {b : UInt8} (h : 128 ≤ b.toNat) : isPlainBlank b = false := by
  refine Bool.eq_false_iff.mpr fun hblank => ?_
  simp only [isPlainBlank, Bool.or_eq_true, beq_iff_eq] at hblank
  rcases hblank with (((rfl | rfl) | rfl) | rfl) | rfl <;> exact absurd h (by decide)

/-- What is dropped before a cell is decoded would be trimmed behind it. -/
theorem dropWhile_encode (cs : List Char) :
    ∃ ds, (encode cs).dropWhile isPlainBlank = encode ds ∧ trim ds = trim cs := by
  induction cs with
  | nil => exact ⟨[], rfl, rfl⟩
  | cons c cs ih =>
      rcases utf8EncodeChar_cases c with ⟨hlt, hbytes⟩ | ⟨-, hne, hbytes⟩
      · by_cases hblank : isPlainBlank (UInt8.ofNat c.toNat) = true
        · obtain ⟨ds, hds, htrim⟩ := ih
          refine ⟨ds, ?_, htrim.trans (trim_cons (isBlank_of_isPlainBlank hlt hblank) cs).symm⟩
          rw [encode_cons, hbytes, List.singleton_append, List.dropWhile_cons_of_pos hblank, hds]
        · refine ⟨c :: cs, ?_, rfl⟩
          rw [encode_cons, hbytes, List.singleton_append, List.dropWhile_cons_of_neg hblank]
      · obtain ⟨b, bs, hcons⟩ := List.exists_cons_of_ne_nil hne
        have hb : isPlainBlank b = false :=
          isPlainBlank_of_le (hbytes b (by rw [hcons]; exact List.mem_cons_self))
        refine ⟨c :: cs, ?_, rfl⟩
        rw [encode_cons, hcons, List.cons_append,
          List.dropWhile_cons_of_neg (by rw [hb]; exact Bool.false_ne_true)]

theorem decodeFields_encode (cells : List (List Char)) (index : Nat) :
    ∃ fields, decodeFields index (cells.map encode) = .ok fields ∧
      fields.map trim = cells.map trim := by
  induction cells generalizing index with
  | nil => exact ⟨[], rfl, rfl⟩
  | cons cell cells ih =>
      obtain ⟨ds, hds, htrim⟩ := dropWhile_encode cell
      obtain ⟨fields, hfields, hrest⟩ := ih (index + 1)
      refine ⟨ds :: fields, ?_, by rw [List.map_cons, List.map_cons, htrim, hrest]⟩
      rw [List.map_cons, decodeFields, hds, decode_encode]
      simp only [hfields]

theorem cells_encode {row : Row} {cells : List (List Char)} (h : row.fields = cells.map encode)
    (number : Nat) : Samples.cells row number = .ok (cells.map trim) := by
  obtain ⟨fields, hfields, htrim⟩ := decodeFields_encode cells 0
  rw [Samples.cells, h, hfields, ← htrim]

/-! ## Rows as lines

`Reading` says that the reader stands before these bytes with these counts.  Each line with its end
takes it to the next, which is the step of the induction over the lines.  A line that is at fault is
reported whatever its end is followed by, since the reader never gets there. -/

/-- What is read of bytes from a count of lines on. -/
def Reading (n : Count) (bytes : List UInt8) (r : Except SampleFault (List Float)) : Prop :=
  ∃ number fuel start p, bytes.length < fuel ∧ start.line = n.reported ∧ p.line = n.reached ∧
    r = ofRows number (Row.readFrom fuel start p bytes)

section Steps

variable {n : Count} {line : List Char} {bytes : List UInt8} {r : Except SampleFault (List Float)}

theorem reading_row (hline : Unbroken line) (hquote : '"' ∉ line) (hne : line ≠ [])
    (hbytes : ∀ b ∈ bytes.head?, Row.isBreak b = true) (h : Reading n (encode line ++ bytes) r) :
    ∃ number fuel q, bytes.length < fuel ∧ q.line = n.reached ∧
      r = (do
        let sample? ← ofLine n.reported line
        let samples ← ofRows number
          (Row.readFrom fuel (Row.behind q bytes).1 (Row.behind q bytes).1 (Row.behind q bytes).2)
        return sample?.toList ++ samples) := by
  obtain ⟨number, fuel, start, p, hfuel, hstart, hp, rfl⟩ := h
  have hpos := List.length_pos_of_ne_nil (encode_ne_nil hne)
  rw [List.length_append] at hfuel
  obtain ⟨fuel, rfl⟩ : ∃ k, fuel = k + 1 := ⟨fuel - 1, by omega⟩
  obtain ⟨q, hq, hrows⟩ := Row.readFrom_line (Row.isBreak_eq_false hline) (Row.ne_quoteMark hquote)
    (encode_ne_nil hne) hbytes (by omega : (encode line).length ≤ fuel) start p
  refine ⟨number + 1, fuel, q, by omega, hq.trans hp, ?_⟩
  rw [hrows, ofRows, cells_encode (Row.splitOn_encode line), ← hstart]
  rfl

theorem isBreak_end (e : LineEnd) : ∀ b ∈ encode e.chars, Row.isBreak b = true := by
  refine List.all_eq_true.mp ?_
  cases e <;> rfl

theorem line_end (e : LineEnd) (p : Position) :
    ((encode e.chars).foldl Position.step p).line = p.line + feeds e := by
  cases e <;> rfl

theorem reading_end (e : LineEnd) (h : Reading n (encode e.chars ++ bytes) r) :
    Reading ⟨n.reported, n.reached + feeds e⟩ bytes r := by
  obtain ⟨number, fuel, start, p, hfuel, hstart, hp, rfl⟩ := h
  rw [List.length_append] at hfuel
  refine ⟨number, fuel, start, (encode e.chars).foldl Position.step p, by omega, hstart, ?_, ?_⟩
  · rw [line_end, hp]
  · rw [Row.readFrom_breaks (isBreak_end e)]

theorem isBreak_head (e : LineEnd) :
    ∀ b ∈ (encode e.chars ++ bytes).head?, Row.isBreak b = true := by
  cases e <;>
  · rintro b ⟨⟩
    rfl

/-- **A line with its end**: the line is read under the number that the count has for it, and what
follows from the count behind it on. -/
theorem reading_ended (e : LineEnd) (hline : Unbroken line) (hquote : '"' ∉ line)
    (h : Reading n (encode (line ++ e.chars) ++ bytes) r) :
    ∃ r', Reading (n.past ⟨line, some e⟩) bytes r' ∧
      r = (do
        let sample? ← ofLine n.reported line
        let samples ← r'
        return sample?.toList ++ samples) := by
  by_cases hne : line = []
  · subst hne
    refine ⟨r, reading_end e h, ?_⟩
    rw [(Reads.blank rfl).ofLine]
    cases r <;> rfl
  · rw [encode_append, List.append_assoc] at h
    obtain ⟨number, fuel, q, hfuel, hq, rfl⟩ := reading_row hline hquote hne (isBreak_head e) h
    rw [List.length_append] at hfuel
    refine ⟨_, ?_, rfl⟩
    rw [Count.past, if_neg hne]
    cases e with
    | lineFeed =>
        refine ⟨number, fuel, q.step Row.lineFeed, q.step Row.lineFeed, by omega, ?_, ?_, rfl⟩
        · exact congrArg (· + 1) hq
        · exact congrArg (· + 1) hq
    | carriageReturn =>
        exact ⟨number, fuel, q.step Row.carriageReturn, q.step Row.carriageReturn, by omega, hq, hq,
          rfl⟩
    | both =>
        -- The line feed behind the carriage return is left to the next row.
        refine ⟨number, fuel, q.step Row.carriageReturn,
          (q.step Row.carriageReturn).step Row.lineFeed, by omega, hq, congrArg (· + 1) hq, ?_⟩
        exact congrArg (ofRows number) (Row.readFrom_break rfl _ _ _ _)

theorem reading_last (hline : Unbroken line) (hquote : '"' ∉ line) (h : Reading n (encode line) r) :
    r = ofLines n [⟨line, none⟩] := by
  by_cases hne : line = []
  · subst hne
    obtain ⟨number, fuel, start, p, hfuel, -, -, rfl⟩ := h
    obtain ⟨fuel, rfl⟩ : ∃ k, fuel = k + 1 := ⟨fuel - 1, by omega⟩
    rfl
  · rw [← List.append_nil (encode line)] at h
    obtain ⟨number, fuel, q, hfuel, -, rfl⟩ :=
      reading_row hline hquote hne (fun b hb => by cases hb) h
    obtain ⟨fuel, rfl⟩ : ∃ k, fuel = k + 1 := ⟨fuel - 1, by omega⟩
    rfl

/-- A line at fault ends the reading, whatever follows it. -/
theorem reading_faulty {fault : LineFault} (hline : Unbroken line) (hquote : '"' ∉ line)
    (hfault : Faulty line fault) (hbytes : ∀ b ∈ bytes.head?, Row.isBreak b = true)
    (h : Reading n (encode line ++ bytes) r) : r = .error (fault.report n.reported) := by
  have hne : line ≠ [] := by
    rintro rfl
    cases hfault with
    | columns hcomma => cases hcomma
    | notNumber _ hne _ => exact hne rfl
    | notFinite _ hread _ => cases hread
  obtain ⟨number, fuel, q, -, -, rfl⟩ := reading_row hline hquote hne hbytes h
  rw [hfault.ofLine]
  rfl

end Steps

theorem reading_cut (cs : List Char) : '"' ∉ cs → ∀ {n r}, Reading n (encode cs) r →
    r = ofLines n (cut cs) := by
  induction cs using cut_induction with
  | last line hline => exact fun hquote n r h => reading_last hline hquote h
  | ended line e rest hline ih =>
      intro hquote n r h
      rw [← List.append_assoc, encode_append] at h
      obtain ⟨r', h', rfl⟩ := reading_ended e hline (fun hmem => hquote (List.mem_append_left _ hmem)) h
      have hrest : '"' ∉ rest := fun hmem =>
        hquote (List.mem_append_right _ (List.mem_append_right _ hmem))
      rw [ih hrest h', ofLines]

/-- Lines that read, each with its end, leave what follows them to be read. -/
theorem reading_before {before : List Line} {n : Count} {bytes : List UInt8}
    {r : Except SampleFault (List Float)}
    (hbefore : ∀ k ∈ before, Unbroken k.chars ∧ '"' ∉ k.chars ∧ k.ending.isSome = true ∧
      ∃ s, Reads k.chars s)
    (h : Reading n (encode (before.flatMap Line.text) ++ bytes) r) :
    ∃ r', Reading (before.foldl Count.past n) bytes r' ∧ ∀ e, r' = .error e → r = .error e := by
  induction before generalizing n r with
  | nil => exact ⟨r, h, fun _ => id⟩
  | cons k before ih =>
      obtain ⟨⟨hline, hquote, hend, s, hs⟩, hrest⟩ := List.forall_mem_cons.mp hbefore
      obtain ⟨line, ending⟩ := k
      obtain ⟨e, rfl⟩ := Option.isSome_iff_exists.mp hend
      rw [List.flatMap_cons, encode_append, List.append_assoc] at h
      obtain ⟨r', h', rfl⟩ := reading_ended e hline hquote h
      obtain ⟨r'', h'', herror⟩ := ih hrest h'
      refine ⟨r'', h'', fun e he => ?_⟩
      rw [hs.ofLine, herror e he]
      rfl

/-- The lines of a text, without its byte order mark. -/
def linesOf (text : String) : List Line := cut (Row.withoutMark text.toList)

theorem not_mem_linesOf {text : String} (hquote : '"' ∉ text.toList) {l : Line}
    (hl : l ∈ linesOf text) : '"' ∉ l.chars :=
  fun h => hquote (Row.mem_of_mem_withoutMark (mem_of_mem_cut hl h))

theorem reading_ofText {content : ByteArray} {head : List Char} {rest : List UInt8}
    (hcontent : content.toList = encode head ++ rest)
    (hrest : ∀ b ∈ rest.head?, Row.isBreak b = true) :
    Reading .start (encode (Row.withoutMark head) ++ rest) (ofText content) := by
  obtain ⟨fuel, p, hp, hfuel, hrows⟩ := Row.readAll_encode head hrest
  exact ⟨1, fuel, .start, p, hfuel, rfl, hp, by rw [ofText, hcontent, hrows]⟩

theorem ofText_eq_ofLines {text : String} (hquote : '"' ∉ text.toList) :
    ofText text.toUTF8 = ofLines .start (linesOf text) := by
  have hcontent : text.toUTF8.toList = encode text.toList ++ [] := by
    rw [toList_toUTF8, List.append_nil]
  have hreading := reading_ofText hcontent fun b hb => by cases hb
  rw [List.append_nil] at hreading
  exact reading_cut _ (fun h => hquote (Row.mem_of_mem_withoutMark h)) hreading

/-- **The grammar of text signals.**  A text without quotes is a signal if and only if each of its
lines reads, and then its samples are what the lines read as, in order.  If not, the error is that
of the first line at fault, under the number that the reader has counted before it; and it is the
same for whatever bytes follow the line. -/
theorem ofText_grammar {text : String} (hquote : '"' ∉ text.toList) :
    (∀ xs, ofText text.toUTF8 = .ok xs ↔
      ∃ samples, List.Forall₂ Reads ((linesOf text).map Line.chars) samples ∧
        samples.reduceOption = xs) ∧
    (∀ e, ofText text.toUTF8 = .error e ↔
      ∃ before l after fault, linesOf text = before ++ l :: after ∧
        (∀ k ∈ before, ∃ s, Reads k.chars s) ∧ Faulty l.chars fault ∧
        e = fault.report (before.foldl Count.past .start).reported) ∧
    ∀ before l after fault, linesOf text = before ++ l :: after →
      (∀ k ∈ before, ∃ s, Reads k.chars s) → Faulty l.chars fault →
      ∀ (content : ByteArray) (head : List Char) (rest : List UInt8),
        content.toList = encode head ++ rest →
        Row.withoutMark head = before.flatMap Line.text ++ l.chars →
        (∀ b ∈ rest.head?, Row.isBreak b = true) → ofText content = ofText text.toUTF8 := by
  rw [ofText_eq_ofLines hquote]
  refine ⟨fun _ => ofLines_eq_ok_iff, fun _ => ofLines_eq_error_iff, ?_⟩
  intro before l after fault hsplit hbefore hfault content head rest hcontent hhead hrest
  rw [ofLines_eq_error_iff.mpr ⟨before, l, after, fault, hsplit, hbefore, hfault, rfl⟩]
  obtain ⟨hlines, hl⟩ := cut_split _ hsplit
  have hmem : ∀ k ∈ before ++ l :: after, '"' ∉ k.chars :=
    fun k hk => not_mem_linesOf hquote (hsplit ▸ hk)
  have hreading := reading_ofText hcontent hrest
  rw [hhead, encode_append, List.append_assoc] at hreading
  obtain ⟨r, hr, hstop⟩ := reading_before (fun k hk =>
    ⟨(hlines k hk).1, hmem k (List.mem_append_left _ hk), (hlines k hk).2, hbefore k hk⟩) hreading
  exact hstop _ (reading_faulty hl (hmem l (List.mem_append_right _ List.mem_cons_self)) hfault hrest hr)

/-- A text with every line end, an empty line and a line at fault before another. -/
def mixedText : String := "\uFEFF 1\r\n\n2e0\rx\n,"

/-- The line at fault is the fourth; the count stands where the row before it ended. -/
theorem ofText_grammar_mixed : ofText mixedText.toUTF8 = .error (.notNumber 3 "x") := by
  have hone : Reads [' ', '1'] (some 1) :=
    .number (by decide) (by decide +kernel) (by decide +kernel)
  have htwo : Reads ['2', 'e', '0'] (some 2) :=
    .number (by decide) (by decide +kernel) (by decide +kernel)
  have hfault : Faulty ['x'] (.notNumber "x") :=
    .notNumber (by decide) (by decide) (by decide +kernel)
  have hquote : '"' ∉ mixedText.toList := by decide +kernel
  refine ((ofText_grammar hquote).2.1 _).mpr
    ⟨[⟨[' ', '1'], some .both⟩, ⟨[], some .lineFeed⟩, ⟨['2', 'e', '0'], some .carriageReturn⟩],
      ⟨['x'], some .lineFeed⟩, [⟨[','], none⟩], .notNumber "x", by decide +kernel, ?_, hfault, rfl⟩
  simp only [List.forall_mem_cons]
  exact ⟨⟨_, hone⟩, ⟨_, .blank rfl⟩, ⟨_, htwo⟩, List.forall_mem_nil _⟩

end Samples

end FilterReference
