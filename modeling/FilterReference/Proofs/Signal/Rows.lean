/-
# Rows are lines

Bytes without quotes are read as rows, and each line with a byte makes one: its fields are what
stands between the commas (`fieldsOf_line`), and the reader goes on behind the first byte of the
line's end (`readFrom_line`).  Of a text, these are the characters between the commas
(`splitOn_encode`).  What is left of a line end, and the ends of empty lines, are passed over
(`readFrom_breaks`), and so is a byte order mark before the first line (`readAll_encode`).
-/
import FilterReference.Proofs.Text.Lines
import FilterReference.Proofs.Text.Utf8
import FilterReference.Signal.Rows

namespace FilterReference

open Text

namespace Row

theorem ne_code {c : Char} (hc : c.toNat < 128) {cs : List Char} (h : c ∉ cs) :
    ∀ b ∈ encode cs, b ≠ UInt8.ofNat c.toNat := by
  rintro b hb rfl
  exact h (mem_of_code_mem hc hb)

theorem isBreak_eq_false {line : List Char} (hline : Unbroken line) :
    ∀ b ∈ encode line, isBreak b = false := by
  intro b hb
  have hfeed : b ≠ lineFeed := ne_code (c := '\n') (by decide) (fun h => (hline _ h).1 rfl) b hb
  have hreturn : b ≠ carriageReturn :=
    ne_code (c := '\r') (by decide) (fun h => (hline _ h).2 rfl) b hb
  rw [isBreak, beq_eq_false_iff_ne.mpr hfeed, beq_eq_false_iff_ne.mpr hreturn]
  rfl

theorem ne_quoteMark {cs : List Char} (hquote : '"' ∉ cs) : ∀ b ∈ encode cs, b ≠ quoteMark :=
  ne_code (c := '"') (by decide) hquote

/-- What stands between the commas of a line is coded as what stands between those of its bytes. -/
theorem splitOn_encode (line : List Char) :
    (encode line).splitOn comma = (line.splitOn ',').map encode := by
  have hcode : ∀ {cs : List Char}, ',' ∉ cs → comma ∉ encode cs := fun h hmem =>
    ne_code (c := ',') (by decide) h _ hmem rfl
  induction hlength : line.length using Nat.strong_induction_on generalizing line with
  | _ n ih =>
      by_cases hcomma : ',' ∈ line
      · obtain ⟨cell, more, rfl, hcell⟩ := List.eq_append_cons_of_mem hcomma
        have hbytes : encode (cell ++ ',' :: more) = encode cell ++ comma :: encode more := by
          rw [encode_append, encode_cons]
          rfl
        have hmore : more.length < n := by
          rw [List.length_append, List.length_cons] at hlength
          omega
        rw [hbytes, List.splitOn_append_cons_self_of_not_mem (hcode hcell), ih _ hmore more rfl,
          List.splitOn_append_cons_self_of_not_mem hcell, List.map_cons]
      · rw [List.splitOn_eq_singleton (hcode hcomma), List.splitOn_eq_singleton hcomma]
        rfl

theorem encode_intercalate (cells : List (List Char)) :
    encode ([','].intercalate cells) = [comma].intercalate (cells.map encode) := by
  induction cells with
  | nil => rfl
  | cons cell cells ih =>
      cases cells with
      | nil => rw [List.map_singleton, List.intercalate_singleton, List.intercalate_singleton]
      | cons next rest =>
          rw [List.map_cons, List.map_cons, List.intercalate_cons_cons, List.intercalate_cons_cons,
            ← List.map_cons, ← ih, encode_append, encode_append]
          rfl

theorem unbroken_or_exists_end (bytes : List UInt8) :
    (∀ b ∈ bytes, isBreak b = false) ∨ ∃ line e rest, (∀ b ∈ line, isBreak b = false) ∧
      (e = .carriageReturn → rest.head? ≠ some lineFeed) ∧
      bytes = line ++ (encode (LineEnd.chars e) ++ rest) := by
  induction bytes with
  | nil => exact Or.inl (List.forall_mem_nil _)
  | cons b bytes ih =>
      by_cases hfeed : b = lineFeed
      · exact Or.inr ⟨[], .lineFeed, bytes, List.forall_mem_nil _, fun h => (by cases h),
          by rw [hfeed]; rfl⟩
      by_cases hreturn : b = carriageReturn
      · right
        by_cases hboth : bytes.head? = some lineFeed
        · obtain ⟨rest, rfl⟩ := List.head?_eq_some_iff.mp hboth
          exact ⟨[], .both, rest, List.forall_mem_nil _, fun h => (by cases h),
            by rw [hreturn]; rfl⟩
        · exact ⟨[], .carriageReturn, bytes, List.forall_mem_nil _, fun _ => hboth,
            by rw [hreturn]; rfl⟩
      · have hb : isBreak b = false := by
          rw [isBreak, beq_eq_false_iff_ne.mpr hfeed, beq_eq_false_iff_ne.mpr hreturn]
          rfl
        rcases ih with hbytes | ⟨line, e, rest, hline, hend, rfl⟩
        · exact Or.inl (List.forall_mem_cons.mpr ⟨hb, hbytes⟩)
        · exact Or.inr ⟨b :: line, e, rest, List.forall_mem_cons.mpr ⟨hb, hline⟩, hend, rfl⟩

/-! ## Fields

Without quotes a field is what stands before the next comma or line end.  The recursion is over the
commas: each of them ends a field and takes a unit of fuel, and there are no more of them than
bytes. -/

theorem endsField_eq_false {bytes : List UInt8} (hbytes : ∀ b ∈ bytes, isBreak b = false)
    (hcomma : comma ∉ bytes) : ∀ b ∈ bytes, endsField b = false := by
  intro b hb
  have hne : b ≠ comma := by
    rintro rfl
    exact hcomma hb
  rw [endsField, hbytes b hb, beq_eq_false_iff_ne.mpr hne]
  rfl

theorem line_step {b : UInt8} (h : endsField b = false) (p : Position) : (p.step b).line = p.line := by
  have hfeed : b ≠ lineFeed := by
    rintro rfl
    cases h
  rw [Position.step, if_neg hfeed]

/-- A field without quotes goes up to the byte that ends it. -/
theorem plainField_append {bytes rest : List UInt8} (hbytes : ∀ b ∈ bytes, endsField b = false)
    (hrest : ∀ b ∈ rest.head?, endsField b = true) (p : Position) :
    ∃ q, q.line = p.line ∧ plainField p (bytes ++ rest) = (bytes, q, rest) := by
  induction bytes generalizing p with
  | nil =>
      refine ⟨p, rfl, ?_⟩
      cases rest with
      | nil => rfl
      | cons b rest => rw [List.nil_append, plainField, if_pos (hrest b rfl)]
  | cons b bytes ih =>
      obtain ⟨hb, hbytes⟩ := List.forall_mem_cons.mp hbytes
      obtain ⟨q, hq, heq⟩ := ih hbytes (p.step b)
      refine ⟨q, hq.trans (line_step hb p), ?_⟩
      rw [List.cons_append, plainField, hb, heq]
      rfl

theorem field_append {bytes rest : List UInt8} (hbytes : ∀ b ∈ bytes, endsField b = false)
    (hquote : ∀ b ∈ bytes, b ≠ quoteMark) (hrest : ∀ b ∈ rest.head?, endsField b = true)
    (p : Position) : ∃ q, q.line = p.line ∧ field p (bytes ++ rest) = (bytes, q, rest) := by
  obtain ⟨q, hq, heq⟩ := plainField_append hbytes hrest p
  refine ⟨q, hq, ?_⟩
  rw [← heq]
  cases hall : bytes ++ rest with
  | nil => rfl
  | cons b more =>
      have hb : b ≠ quoteMark := by
        cases bytes with
        | nil =>
            rw [List.nil_append] at hall
            have hends := hrest b (by rw [hall]; rfl)
            rintro rfl
            cases hends
        | cons b' bytes =>
            cases hall
            exact hquote b List.mem_cons_self
      rw [field, if_neg hb]

/-- What follows the fields of a row: the reader stands behind the byte that ends the row. -/
def behind (q : Position) : List UInt8 → Position × List UInt8
  | [] => (q, [])
  | b :: rest => (q.step b, rest)

section Bytes

variable {bytes rest : List UInt8} (hbytes : ∀ b ∈ bytes, isBreak b = false)
  (hquote : ∀ b ∈ bytes, b ≠ quoteMark)

include hbytes hquote

theorem fieldsOf_last (hcomma : comma ∉ bytes) (hrest : ∀ b ∈ rest.head?, isBreak b = true)
    (fuel : Nat) (p : Position) :
    ∃ q, q.line = p.line ∧ fieldsOf (fuel + 1) p (bytes ++ rest) = ([bytes], behind q rest) := by
  have hends : ∀ b ∈ rest.head?, endsField b = true := by
    intro b hb
    rw [endsField, hrest b hb, Bool.or_true]
  obtain ⟨q, hq, hfield⟩ := field_append (endsField_eq_false hbytes hcomma) hquote hends p
  refine ⟨q, hq, ?_⟩
  rw [fieldsOf, hfield]
  cases rest with
  | nil => rfl
  | cons b rest =>
      have hb : b ≠ comma := by
        rintro rfl
        cases hrest comma rfl
      simp only [if_neg hb]
      rfl

theorem fieldsOf_comma (hcomma : comma ∉ bytes) (more : List UInt8) (fuel : Nat) (p : Position) :
    ∃ q, q.line = p.line ∧ fieldsOf (fuel + 1) p (bytes ++ comma :: more) =
      (bytes :: (fieldsOf fuel q more).1, (fieldsOf fuel q more).2) := by
  have hends : ∀ b ∈ (comma :: more).head?, endsField b = true := by
    rintro b ⟨⟩
    rfl
  obtain ⟨q, hq, hfield⟩ := field_append (endsField_eq_false hbytes hcomma) hquote hends p
  refine ⟨q.step comma, hq, ?_⟩
  rw [fieldsOf, hfield]
  rfl

end Bytes

/-- **The fields of a row** are what stands between the commas of its line.  By induction on the
fuel, of which there is some for every comma. -/
theorem fieldsOf_line {bytes rest : List UInt8} (hbytes : ∀ b ∈ bytes, isBreak b = false)
    (hquote : ∀ b ∈ bytes, b ≠ quoteMark) (hrest : ∀ b ∈ rest.head?, isBreak b = true) {fuel : Nat}
    (hfuel : bytes.length < fuel) (p : Position) :
    ∃ q, q.line = p.line ∧
      fieldsOf fuel p (bytes ++ rest) = (bytes.splitOn comma, behind q rest) := by
  induction fuel generalizing bytes p with
  | zero => exact absurd hfuel (Nat.not_lt_zero _)
  | succ fuel ih =>
      by_cases hcomma : comma ∈ bytes
      · obtain ⟨field, more, rfl, hfield⟩ := List.eq_append_cons_of_mem hcomma
        obtain ⟨hfieldBytes, hmore⟩ := List.forall_mem_append.mp hbytes
        obtain ⟨hfieldQuote, hmoreQuote⟩ := List.forall_mem_append.mp hquote
        rw [List.length_append, List.length_cons] at hfuel
        obtain ⟨q, hq, hfields⟩ := fieldsOf_comma hfieldBytes hfieldQuote hfield (more ++ rest) fuel p
        obtain ⟨r, hr, hothers⟩ := ih (List.forall_mem_cons.mp hmore).2
          (List.forall_mem_cons.mp hmoreQuote).2 (by omega : more.length < fuel) q
        refine ⟨r, hr.trans hq, ?_⟩
        rw [List.append_assoc, List.cons_append, hfields, hothers,
          List.splitOn_append_cons_self_of_not_mem hfield]
      · rw [List.splitOn_eq_singleton hcomma]
        exact fieldsOf_last hbytes hquote hcomma hrest fuel p

/-! ## Rows

The reader passes over line ends before a row, so it need not know which of them belong to the line
before and which to empty lines.  The price is that it does not know the number of the row either.
-/

theorem readFrom_break {b : UInt8} (hb : isBreak b = true) (fuel : Nat) (start p : Position)
    (bytes : List UInt8) :
    readFrom fuel start p (b :: bytes) = readFrom fuel start (p.step b) bytes := by
  cases fuel with
  | zero => rfl
  | succ fuel => rw [readFrom, readFrom, skipBreaks, if_pos hb]

theorem readFrom_breaks {breaks : List UInt8} (h : ∀ b ∈ breaks, isBreak b = true) (fuel : Nat)
    (start p : Position) (bytes : List UInt8) :
    readFrom fuel start p (breaks ++ bytes) =
      readFrom fuel start (breaks.foldl Position.step p) bytes := by
  induction breaks generalizing p with
  | nil => rfl
  | cons b breaks ih =>
      obtain ⟨hb, hbreaks⟩ := List.forall_mem_cons.mp h
      rw [List.cons_append, readFrom_break hb, ih hbreaks, List.foldl_cons]

/-- **A line with a byte makes a row**, reported where the reader stood when it began on it, and
the next row is begun on behind the first byte of the line's end. -/
theorem readFrom_line {bytes rest : List UInt8} (hbytes : ∀ b ∈ bytes, isBreak b = false)
    (hquote : ∀ b ∈ bytes, b ≠ quoteMark) (hne : bytes ≠ [])
    (hrest : ∀ b ∈ rest.head?, isBreak b = true) {fuel : Nat} (hfuel : bytes.length ≤ fuel)
    (start p : Position) :
    ∃ q, q.line = p.line ∧ readFrom (fuel + 1) start p (bytes ++ rest) =
      ⟨start, bytes.splitOn comma⟩ ::
        readFrom fuel (behind q rest).1 (behind q rest).1 (behind q rest).2 := by
  obtain ⟨q, hq, hfields⟩ := fieldsOf_line hbytes hquote hrest (Nat.lt_succ_of_le hfuel) p
  refine ⟨q, hq, ?_⟩
  obtain ⟨b, more, rfl⟩ := List.exists_cons_of_ne_nil hne
  have hb : isBreak b = false := hbytes b List.mem_cons_self
  rw [List.cons_append] at hfields ⊢
  rw [readFrom, skipBreaks, hb, if_neg Bool.false_ne_true]
  simp only [hfields]

/-! ## The byte order mark

Bytes of a text begin with the mark exactly if the text does, so dropping three bytes is dropping
one character. -/

def withoutMark : List Char → List Char
  | [] => []
  | c :: rest => if c = '\uFEFF' then rest else c :: rest

theorem mem_of_mem_withoutMark {c : Char} {cs : List Char} (h : c ∈ withoutMark cs) : c ∈ cs := by
  cases cs with
  | nil => cases h
  | cons d rest =>
      rw [withoutMark] at h
      split_ifs at h
      · exact List.mem_cons_of_mem d h
      · exact h

theorem withoutMark_eq_self {cs : List Char} (h : '\uFEFF' ∉ cs) : withoutMark cs = cs := by
  cases cs with
  | nil => rfl
  | cons c rest =>
      have hc : c ≠ '\uFEFF' := by
        rintro rfl
        exact h List.mem_cons_self
      rw [withoutMark, if_neg hc]

theorem eq_mark {c : Char} {bytes : List UInt8}
    (h : byteOrderMark <+: String.utf8EncodeChar c ++ bytes) : c = '\uFEFF' := by
  obtain ⟨rest, heq⟩ := h
  have hmark : byteOrderMark = String.utf8EncodeChar '\uFEFF' := by decide
  have hdecode := @ByteArray.utf8DecodeChar?_utf8EncodeChar_append bytes.toByteArray c
  rw [← List.toByteArray_append, ← heq, hmark, List.toByteArray_append,
    ByteArray.utf8DecodeChar?_utf8EncodeChar_append] at hdecode
  exact (Option.some.inj hdecode).symm

theorem isPrefixOf_eq_false {bytes : List UInt8} (h : ∀ b ∈ bytes.head?, isBreak b = true) :
    byteOrderMark.isPrefixOf bytes = false := by
  cases bytes with
  | nil => rfl
  | cons b rest =>
      have hb : ((0xef : UInt8) == b) = false := by
        refine beq_eq_false_iff_ne.mpr ?_
        rintro rfl
        cases h 0xef rfl
      rw [byteOrderMark, List.isPrefixOf, hb, Bool.false_and]

/-- **A byte order mark is passed over**, and there is fuel for every row behind it. -/
theorem readAll_encode (cs : List Char) {bytes : List UInt8}
    (hbytes : ∀ b ∈ bytes.head?, isBreak b = true) :
    ∃ fuel p, p.line = 1 ∧ (encode (withoutMark cs) ++ bytes).length < fuel ∧
      readAll (encode cs ++ bytes) = readFrom fuel .start p (encode (withoutMark cs) ++ bytes) := by
  have hplain : ∀ ds, byteOrderMark.isPrefixOf ds = false →
      readAll ds = readFrom (ds.length + 1) .start .start ds := by
    intro ds hmark
    rw [readAll, hmark, if_neg Bool.false_ne_true]
  cases cs with
  | nil => exact ⟨_, .start, rfl, Nat.lt_succ_self _, hplain _ (isPrefixOf_eq_false hbytes)⟩
  | cons c rest =>
      rw [withoutMark]
      split_ifs with hc
      · rw [hc, encode_cons, List.append_assoc]
        refine ⟨_, ⟨byteOrderMark.length, 1⟩, rfl, ?_, rfl⟩
        exact (Nat.lt_add_of_pos_left (by decide)).trans_eq List.length_append.symm
      · refine ⟨_, .start, rfl, Nat.lt_succ_self _, hplain _ (Bool.eq_false_iff.mpr fun h => hc ?_)⟩
        rw [encode_cons, List.append_assoc] at h
        exact eq_mark (List.isPrefixOf_iff_prefix.mp h)

end Row

end FilterReference
