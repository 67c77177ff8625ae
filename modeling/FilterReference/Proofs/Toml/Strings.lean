/-
# Strings in TOML text

A string is written in the plainest form that can hold it.  Each form has its own reader,
and what the form is chosen for is what its reader needs: no control characters in a literal string,
and no three quotes in a row in a string of several lines.  Every string is read back
(`string?_stringChars`).
-/
import FilterReference.Toml.Grammar
import FilterReference.Toml.Printer
import Mathlib.Tactic

namespace FilterReference.Toml

variable {c : Char} {cs text rest : List Char}

/-! ## Escapes

A character can be written in several ways between double quotes.  All that the readers need is in
`Escape`, so they are followed once for all characters, and the printer only has to write escapes.
-/

/-- A text that stands for a character between double quotes. -/
inductive Escape (c : Char) : List Char → Prop
  | short {e : Char} (h : shortEscape? e = some c) : Escape c ['\\', e]
  | code {u v w x : Char} {n : Nat} (hdigits : Text.hexValueFrom? 0 [u, v, w, x] = some n)
      (h : scalar? n = some c) : Escape c ['\\', 'u', u, v, w, x]
  | plain (htext : isTextChar c = true) (hslash : c ≠ '\\') (hquote : c ≠ '"') : Escape c [c]

theorem shortEscape?_ne {d e : Char} (he : shortEscape? e = some c) (hd : shortEscape? d = none) :
    e ≠ d := by
  rintro rfl
  cases he.symm.trans hd

theorem isTextChar_of_not_needsEscape (h : needsEscape c = false) (hline : c ≠ '\n') :
    isTextChar c = true := by
  have hfeed : c.toNat = 10 → c = '\n' := fun heq => Char.toNat_inj.mp heq
  have htab : c.toNat = 9 → c = '\t' := fun heq => Char.toNat_inj.mp heq
  have hdelete : c.toNat = 127 → c = '\x7f' := fun heq => Char.toNat_inj.mp heq
  simp only [needsEscape, Bool.or_eq_false_iff, Bool.and_eq_false_iff, decide_eq_false_iff_not,
    bne_eq_false_iff_eq, beq_eq_false_iff_ne] at h
  simp only [isTextChar, isCommentChar, Bool.or_eq_true, Bool.and_eq_true, beq_iff_eq,
    decide_eq_true_eq]
  obtain ⟨(hlow | htab) | hline', hdel⟩ := h
  · refine Or.inr ⟨by omega, fun heq => hdel (hdelete heq)⟩
  · exact Or.inl htab
  · exact absurd hline' hline

theorem isTextChar_ne (h : isTextChar c = true) : c ≠ '\n' ∧ c ≠ '\r' := by
  constructor
  · rintro rfl
    exact absurd h (by decide)
  · rintro rfl
    exact absurd h (by decide)

theorem codeEscape_ofNat {n : Nat} (h : n < 128) :
    codeEscape (Char.ofNat n) = ['\\', 'u', '0', '0', (Nat.digitChar (n / 16)).toUpper,
        (Nat.digitChar (n % 16)).toUpper] ∧
      Text.hexValueFrom? 0 ['0', '0', (Nat.digitChar (n / 16)).toUpper,
        (Nat.digitChar (n % 16)).toUpper] = some n ∧
      scalar? n = some (Char.ofNat n) := by
  revert n
  decide +kernel

theorem escape_codeEscape (h : needsEscape c = true) : Escape c (codeEscape c) := by
  have hsmall : c.toNat < 128 := by
    simp only [needsEscape, Bool.or_eq_true, Bool.and_eq_true, decide_eq_true_eq, beq_iff_eq] at h
    rcases h with ⟨⟨h, -⟩, -⟩ | rfl
    · omega
    · decide
  obtain ⟨htext, hdigits, hscalar⟩ := codeEscape_ofNat hsmall
  rw [Char.ofNat_toNat] at htext hscalar
  rw [htext]
  exact .code hdigits hscalar

theorem Escape.head (h : Escape c text) :
    ∀ d ∈ (text ++ rest).head?, d ≠ '"' ∧ d ≠ '\n' ∧ d ≠ '\r' := by
  cases h with
  | short => rintro d ⟨⟩; decide
  | code => rintro d ⟨⟩; decide
  | plain htext _ hquote =>
      rintro d ⟨⟩
      exact ⟨hquote, isTextChar_ne htext⟩

theorem escape_escapeChar (c : Char) : Escape c (escapeChar c) := by
  unfold escapeChar
  split_ifs with h₁ h₂ h₃ h₄ h₅ h₆ h₇ h₈
  · exact .short (by rw [h₁]; rfl)
  · exact .short (by rw [h₂]; rfl)
  · exact .short (by rw [h₃]; rfl)
  · exact .short (by rw [h₄]; rfl)
  · exact .short (by rw [h₅]; rfl)
  · exact .short (by rw [h₆]; rfl)
  · exact .short (by rw [h₇]; rfl)
  · exact escape_codeEscape h₈
  · exact .plain (isTextChar_of_not_needsEscape (Bool.eq_false_iff.mpr h₈) h₅) h₆ h₇

/-! ## Strings on one line -/

theorem basicString?_escape (h : Escape c text) (rest : List Char) :
    basicString? (text ++ rest) = push c (basicString? rest) := by
  cases h with
  | @short e h =>
      have hu : e ≠ 'u' := shortEscape?_ne h rfl
      have hU : e ≠ 'U' := shortEscape?_ne h rfl
      rw [List.cons_append, List.singleton_append, basicString?.eq_5 e rest
        (fun _ _ _ _ _ heq => absurd heq hu) (fun _ _ _ _ _ _ _ _ _ heq => absurd heq hU), h]
      rfl
  | code hdigits h =>
      simp only [List.cons_append, List.nil_append]
      rw [basicString?.eq_3, hdigits]
      simp only [Option.bind_eq_bind, Option.bind_some, h]
  | plain htext hslash hquote =>
      rw [List.singleton_append, basicString?.eq_6 c rest hquote
        (fun _ _ _ _ _ heq => absurd heq hslash) (fun _ _ _ _ _ _ _ _ _ heq => absurd heq hslash)
        (fun _ _ heq => absurd heq hslash), if_pos]
      rw [htext, Bool.true_and, bne_iff_ne]
      exact hslash

theorem basicString?_shortChars (cs rest : List Char) :
    basicString? (shortChars cs ++ '"' :: rest) = some (cs, rest) := by
  induction cs with
  | nil => rfl
  | cons c cs ih =>
      rw [shortChars, List.flatMap_cons, List.append_assoc,
        basicString?_escape (escape_escapeChar c)]
      rw [shortChars] at ih
      rw [ih]
      rfl

theorem literalString?_append (hcs : ∀ c ∈ cs, c ≠ '\x27' ∧ isTextChar c = true)
    (rest : List Char) : literalString? (cs ++ '\x27' :: rest) = some (cs, rest) := by
  induction cs with
  | nil => rfl
  | cons c cs ih =>
      obtain ⟨⟨hquote, htext⟩, hcs⟩ := List.forall_mem_cons.mp hcs
      rw [List.cons_append, literalString?.eq_3 c _ hquote, if_pos htext, ih hcs]
      rfl

/-! ## Line ends -/

theorem lineBreak?_eq_none (h : ∀ c ∈ cs.head?, c ≠ '\n' ∧ c ≠ '\r') : lineBreak? cs = none := by
  cases cs with
  | nil => rfl
  | cons c cs =>
      obtain ⟨hfeed, hreturn⟩ := h c rfl
      refine lineBreak?.eq_3 (c :: cs) ?_ ?_
      · rintro _ ⟨⟩
        exact hfeed rfl
      · rintro _ ⟨⟩
        exact hreturn rfl

theorem endsLine_short {e : Char} (h : shortEscape? e = some c) (rest : List Char) :
    endsLine (e :: rest) = false := by
  have hblank : isBlank e = false := by
    refine Bool.eq_false_iff.mpr fun hblank => ?_
    rw [isBlank, Bool.or_eq_true, beq_iff_eq, beq_iff_eq] at hblank
    rcases hblank with rfl | rfl <;> cases h
  have hbreak : lineBreak? (e :: rest) = none := by
    refine lineBreak?_eq_none ?_
    rintro d ⟨⟩
    exact ⟨shortEscape?_ne h rfl, shortEscape?_ne h rfl⟩
  rw [endsLine, skipBlanks, hblank, if_neg Bool.false_ne_true, hbreak]
  rfl

theorem skipFirstBreak_opening (h : '\n' ∉ cs → ∀ c ∈ text.head?, c ≠ '\n' ∧ c ≠ '\r') :
    skipFirstBreak ((if cs.contains '\n' then ['\n'] else []) ++ text) = text := by
  by_cases hline : '\n' ∈ cs
  · rw [if_pos (List.contains_iff_mem.mpr hline)]
    rfl
  · rw [if_neg fun hcontains => hline (List.contains_iff_mem.mp hcontains), List.nil_append,
      skipFirstBreak, lineBreak?_eq_none (h hline)]
    rfl

/-! ## Quotes in strings of several lines

The two readers of such strings take quotes in the same four cases, up to the quote.  A run of up to
two quotes is text, before more text as well as before the quotes that close the string. -/

/-- How a reader of strings of several lines takes quotes: three of them close the string, up to two
before these belong to it, and a quote that less than two others follow is a character. -/
structure TakesQuotes (q : Char) (read : List Char → Option (List Char × List Char)) : Prop where
  five (rest : List Char) : read (q :: q :: q :: q :: q :: rest) = some ([q, q], rest)
  four {rest : List Char} (h : ∀ rest', rest ≠ q :: rest') :
    read (q :: q :: q :: q :: rest) = some ([q], rest)
  three {rest : List Char} (h : ∀ rest', rest ≠ q :: rest') :
    read (q :: q :: q :: rest) = some ([], rest)
  single {rest : List Char} (h : ∀ rest', rest ≠ q :: q :: rest') :
    read (q :: rest) = push q (read rest)

namespace TakesQuotes

variable {q : Char} {read : List Char → Option (List Char × List Char)} {run : Nat}

theorem run_append (hread : TakesQuotes q read) (hrun : run ≤ 2) (hrest : ∀ c ∈ rest.head?, c ≠ q)
    {after : List Char} (h : read rest = some (cs, after)) :
    read (List.replicate run q ++ rest) = some (List.replicate run q ++ cs, after) := by
  have hone : ∀ rest', rest ≠ q :: rest' := by
    rintro rest' rfl
    exact hrest q rfl rfl
  have htwo : ∀ rest', q :: rest ≠ q :: q :: rest' :=
    fun rest' heq => hone rest' (List.cons.inj heq).2
  obtain rfl | rfl | rfl : run = 0 ∨ run = 1 ∨ run = 2 := by omega
  · exact h
  · change read (q :: rest) = _
    rw [hread.single fun _ => hone _, h]
    rfl
  · change read (q :: q :: rest) = _
    rw [hread.single htwo, hread.single fun _ => hone _, h]
    rfl

/-- At most two quotes at the end of a string stand before those that close it. -/
theorem run_close (hread : TakesQuotes q read) (hrun : run ≤ 2) (hrest : ∀ c ∈ rest.head?, c ≠ q) :
    read (List.replicate run q ++ q :: q :: q :: rest) = some (List.replicate run q, rest) := by
  have hone : ∀ rest', rest ≠ q :: rest' := by
    rintro rest' rfl
    exact hrest q rfl rfl
  obtain rfl | rfl | rfl : run = 0 ∨ run = 1 ∨ run = 2 := by omega
  · exact hread.three hone
  · exact hread.four hone
  · exact hread.five rest

end TakesQuotes

theorem takesQuotes_longString? : TakesQuotes '"' (longString? false) where
  five := longString?.eq_2 false
  four h := longString?.eq_3 false _ h
  three h := longString?.eq_4 false _ (fun _ => h _) h
  single h := by
    rw [longString?.eq_11 false '"' _ (fun _ _ heq => h _ heq) (fun _ _ heq => h _ heq)
      (fun _ _ heq => h _ heq) (fun _ heq => by cases heq) (fun heq => by cases heq)
      (fun _ _ _ _ _ heq => by cases heq) (fun _ _ _ _ _ _ _ _ _ heq => by cases heq)
      (fun _ _ heq => by cases heq)]
    rfl

theorem takesQuotes_longLiteral? : TakesQuotes '\x27' longLiteral? where
  five := longLiteral?.eq_2
  four h := longLiteral?.eq_3 _ h
  three h := longLiteral?.eq_4 _ (fun _ => h _) h
  single h := by
    rw [longLiteral?.eq_7 '\x27' _ (fun _ _ heq => h _ heq) (fun _ _ heq => h _ heq)
      (fun _ _ heq => h _ heq) (fun _ heq => by cases heq) (fun heq => by cases heq)]
    rfl

/-! ## Strings of several lines between double quotes

The printer counts the quotes it has written without an escape.  The induction carries that count,
with as many quotes in front of what is still to be read. -/

theorem longString?_escape (h : Escape c text) (rest : List Char) :
    longString? false (text ++ rest) = push c (longString? false rest) := by
  cases h with
  | @short e h =>
      have hu : e ≠ 'u' := shortEscape?_ne h rfl
      have hU : e ≠ 'U' := shortEscape?_ne h rfl
      have hends := endsLine_short h rest
      rw [List.cons_append, List.singleton_append]
      cases rest with
      | nil =>
          rw [longString?.eq_10 false e (fun _ _ _ _ _ heq => absurd heq hu)
            (fun _ _ _ _ _ _ _ _ _ heq => absurd heq hU), hends, h]
          rfl
      | cons d rest =>
          rw [longString?.eq_9 false e d rest (fun _ _ _ _ _ heq => absurd heq hu)
            (fun _ _ _ _ _ _ _ _ _ heq => absurd heq hU), hends, h]
          rfl
  | code hdigits h =>
      simp only [List.cons_append, List.nil_append]
      rw [longString?.eq_7, hdigits]
      simp only [Option.bind_eq_bind, Option.bind_some, h]
  | plain htext hslash hquote =>
      obtain ⟨hfeed, hreturn⟩ := isTextChar_ne htext
      rw [List.singleton_append, longString?.eq_11 false c rest (fun _ heq => absurd heq hquote)
        (fun _ heq => absurd heq hquote) (fun _ heq => absurd heq hquote)
        (fun _ heq => absurd heq hreturn) hfeed (fun _ _ _ _ _ heq => absurd heq hslash)
        (fun _ _ _ _ _ _ _ _ _ heq => absurd heq hslash) (fun _ _ heq => absurd heq hslash)]
      rw [Bool.false_and, if_neg Bool.false_ne_true, if_pos]
      rw [htext, Bool.true_and, bne_iff_ne]
      exact hslash

/-- A string of several lines, behind `run` quotes of it that were not taken yet. -/
theorem longString?_longChars {run : Nat} (hrun : run ≤ 2) (cs : List Char)
    (hrest : ∀ c ∈ rest.head?, c ≠ '"') :
    longString? false (List.replicate run '"' ++ (longChars run cs ++ '"' :: '"' :: '"' :: rest)) =
      some (List.replicate run '"' ++ cs, rest) := by
  induction cs generalizing run with
  | nil =>
      rw [List.append_nil]
      exact takesQuotes_longString?.run_close hrun hrest
  | cons c cs ih =>
      have hnext := ih (Nat.zero_le 2 : 0 ≤ 2)
      rw [List.replicate_zero, List.nil_append, List.nil_append] at hnext
      rw [longChars]
      split_ifs with hquote hfew hline
      · -- One more quote that waits for what follows it.
        have hmore := ih (by omega : run + 1 ≤ 2)
        rw [List.replicate_succ', List.append_assoc, List.append_assoc] at hmore
        rw [hquote]
        exact hmore
      · have hescape :
            longString? false ('\\' :: '"' :: (longChars 0 cs ++ '"' :: '"' :: '"' :: rest)) =
              some ('"' :: cs, rest) := by
          have h := longString?_escape (.short (c := '"') (e := '"') rfl)
            (longChars 0 cs ++ '"' :: '"' :: '"' :: rest)
          rw [hnext] at h
          exact h
        rw [hquote]
        exact takesQuotes_longString?.run_append hrun (by rintro _ ⟨⟩; decide) hescape
      · have hfeed : longString? false ('\n' :: (longChars 0 cs ++ '"' :: '"' :: '"' :: rest)) =
            some ('\n' :: cs, rest) := by
          rw [longString?.eq_6, if_neg Bool.false_ne_true, hnext]
          rfl
        rw [hline]
        exact takesQuotes_longString?.run_append hrun (by rintro _ ⟨⟩; decide) hfeed
      · have hescape := longString?_escape (escape_escapeChar c)
          (longChars 0 cs ++ '"' :: '"' :: '"' :: rest)
        rw [hnext] at hescape
        rw [List.append_assoc]
        exact takesQuotes_longString?.run_append hrun
          (fun d hd => ((escape_escapeChar c).head d hd).1) hescape

theorem head_longChars (hline : '\n' ∉ cs) :
    ∀ d ∈ (longChars 0 cs ++ '"' :: rest).head?, d ≠ '\n' ∧ d ≠ '\r' := by
  cases cs with
  | nil =>
      rintro d ⟨⟩
      decide
  | cons c cs =>
      rw [longChars]
      split_ifs with hquote hfew hfeed
      · rintro d ⟨⟩
        decide
      · exact absurd (by decide) hfew
      · exact absurd (by rw [hfeed]; exact List.mem_cons_self) hline
      · rw [List.append_assoc]
        exact fun d hd => ((escape_escapeChar c).head d hd).2

theorem longLiteral?_append {run : Nat} (hcs : ∀ c ∈ cs, c = '\n' ∨ isTextChar c = true)
    (hruns : longestRun '\x27' run cs ≤ 2) (hrest : ∀ c ∈ rest.head?, c ≠ '\x27') :
    longLiteral? (List.replicate run '\x27' ++ (cs ++ '\x27' :: '\x27' :: '\x27' :: rest)) =
      some (List.replicate run '\x27' ++ cs, rest) := by
  induction cs generalizing run with
  | nil =>
      rw [List.append_nil]
      exact takesQuotes_longLiteral?.run_close hruns hrest
  | cons c cs ih =>
      obtain ⟨hc, hcs⟩ := List.forall_mem_cons.mp hcs
      rw [longestRun] at hruns
      split_ifs at hruns with hquote
      · -- One more apostrophe that waits for what follows it.
        have hmore := ih hcs hruns
        rw [List.replicate_succ', List.append_assoc, List.append_assoc] at hmore
        rw [hquote]
        exact hmore
      · obtain ⟨hrun, hruns⟩ := Nat.max_le.mp hruns
        have hnext := ih hcs hruns
        rw [List.replicate_zero, List.nil_append, List.nil_append] at hnext
        have hchar : longLiteral? (c :: (cs ++ '\x27' :: '\x27' :: '\x27' :: rest)) =
            some (c :: cs, rest) := by
          rcases hc with rfl | htext
          · rw [longLiteral?.eq_6, hnext]
            rfl
          · obtain ⟨hfeed, hreturn⟩ := isTextChar_ne htext
            rw [longLiteral?.eq_7 c _ (fun _ heq => absurd heq hquote)
              (fun _ heq => absurd heq hquote) (fun _ heq => absurd heq hquote)
              (fun _ heq => absurd heq hreturn) hfeed, if_pos htext, hnext]
            rfl
        refine takesQuotes_longLiteral?.run_append hrun ?_ hchar
        rintro d ⟨⟩
        exact hquote

/-! ## Strings in any form

A form is chosen for what the characters of the string are, and the choice is given back as
conditions on them.  These are the ones that the readers ask for. -/

theorem formOf_literal (h : formOf cs = .literal) :
    cs ≠ [] ∧ ∀ c ∈ cs, c ≠ '\x27' ∧ isTextChar c = true := by
  refine ⟨?_, fun c hc => ?_⟩
  · rintro rfl
    cases h
  · simp only [formOf] at h
    split_ifs at h with hshort hliteral
    simp only [Bool.and_eq_true, Bool.not_eq_true', List.any_eq_false, List.contains_eq_mem,
      decide_eq_false_iff_not] at hliteral
    obtain ⟨⟨hescape, hquote⟩, hline⟩ := hliteral
    refine ⟨fun heq => hquote (heq ▸ hc), ?_⟩
    exact isTextChar_of_not_needsEscape (Bool.eq_false_iff.mpr (hescape c hc))
      fun heq => hline (heq ▸ hc)

theorem formOf_longLiteral (h : formOf cs = .longLiteral) :
    (∀ c ∈ cs, c = '\n' ∨ isTextChar c = true) ∧ longestRun '\x27' 0 cs ≤ 2 := by
  simp only [formOf] at h
  split_ifs at h with hshort hliteral hlong hlongLiteral
  simp only [Bool.and_eq_true, Bool.not_eq_true', List.any_eq_false, decide_eq_true_eq]
    at hlongLiteral
  obtain ⟨hescape, hruns⟩ := hlongLiteral
  refine ⟨fun c hc => or_iff_not_imp_left.mpr fun hline => ?_, hruns⟩
  exact isTextChar_of_not_needsEscape (Bool.eq_false_iff.mpr (hescape c hc)) hline

theorem string?_literal (hne : cs ≠ []) (hcs : ∀ c ∈ cs, c ≠ '\x27' ∧ isTextChar c = true) :
    string? ('\x27' :: (cs ++ ['\x27']) ++ rest) = some (cs, rest) := by
  rw [List.cons_append, List.append_assoc, List.singleton_append, string?.eq_4]
  · exact literalString?_append hcs rest
  · intro tail heq
    obtain ⟨c, cs, rfl⟩ := List.exists_cons_of_ne_nil hne
    exact (hcs c List.mem_cons_self).1 (List.cons.inj heq).1

theorem opening_append (quote text : List Char) :
    opening quote cs ++ text = quote ++ ((if cs.contains '\n' then ['\n'] else []) ++ text) := by
  rw [opening]
  split_ifs <;> simp

section Forms

variable (hrest : ∀ c ∈ rest.head?, c ≠ '"' ∧ c ≠ '\x27')

include hrest

theorem string?_short (cs : List Char) :
    string? ('"' :: (shortChars cs ++ ['"']) ++ rest) = some (cs, rest) := by
  rw [List.cons_append, List.append_assoc, List.singleton_append, string?.eq_2]
  · exact basicString?_shortChars cs rest
  · -- Only an empty string begins with a quote, and then no third follows.
    intro tail heq
    cases cs with
    | nil =>
        have hhead : rest.head? = some '"' := congrArg List.head? (List.cons.inj heq).2
        exact (hrest '"' hhead).1 rfl
    | cons c cs =>
        have hhead : ∀ d ∈ (escapeChar c ++ (shortChars cs ++ '"' :: rest)).head?,
            d ≠ '"' ∧ d ≠ '\n' ∧ d ≠ '\r' := (escape_escapeChar c).head
        rw [shortChars, List.flatMap_cons, List.append_assoc] at heq
        exact (hhead '"' (congrArg List.head? heq)).1 rfl

theorem string?_long (cs : List Char) :
    string? (opening ['"', '"', '"'] cs ++ longChars 0 cs ++ ['"', '"', '"'] ++ rest) =
      some (cs, rest) := by
  rw [List.append_assoc, List.append_assoc, opening_append]
  change longString? false (skipFirstBreak (_ ++ (longChars 0 cs ++ '"' :: '"' :: '"' :: rest))) = _
  rw [skipFirstBreak_opening fun hline => head_longChars hline]
  exact longString?_longChars (Nat.zero_le 2) cs fun c hc => (hrest c hc).1

theorem string?_longLiteral (hcs : ∀ c ∈ cs, c = '\n' ∨ isTextChar c = true)
    (hruns : longestRun '\x27' 0 cs ≤ 2) :
    string? (opening ['\x27', '\x27', '\x27'] cs ++ cs ++ ['\x27', '\x27', '\x27'] ++ rest) =
      some (cs, rest) := by
  have hhead : '\n' ∉ cs →
      ∀ c ∈ (cs ++ '\x27' :: '\x27' :: '\x27' :: rest).head?, c ≠ '\n' ∧ c ≠ '\r' := by
    intro hline c hc
    cases cs with
    | nil =>
        cases hc
        decide
    | cons d cs =>
        cases hc
        refine isTextChar_ne ((hcs c List.mem_cons_self).resolve_left ?_)
        rintro rfl
        exact hline List.mem_cons_self
  rw [List.append_assoc, List.append_assoc, opening_append]
  change longLiteral? (skipFirstBreak (_ ++ (cs ++ '\x27' :: '\x27' :: '\x27' :: rest))) = _
  rw [skipFirstBreak_opening hhead]
  exact longLiteral?_append hcs hruns fun c hc => (hrest c hc).2

/-- **A string that is written** is read back. -/
theorem string?_stringChars (cs : List Char) :
    string? (stringChars cs ++ rest) = some (cs, rest) := by
  unfold stringChars
  cases hform : formOf cs with
  | short => exact string?_short hrest cs
  | escapedShort => exact string?_short hrest cs
  | literal =>
      obtain ⟨hne, hcs⟩ := formOf_literal hform
      exact string?_literal hne hcs
  | long => exact string?_long hrest cs
  | escapedLong => exact string?_long hrest cs
  | longLiteral =>
      obtain ⟨hcs, hruns⟩ := formOf_longLiteral hform
      exact string?_longLiteral hrest hcs hruns

end Forms

theorem stringChars_head (cs : List Char) :
    ∃ q text, stringChars cs = q :: text ∧ (q = '"' ∨ q = '\x27') := by
  have hopening (q : Char) (text : List Char) : opening [q, q, q] cs ++ text =
      q :: q :: q :: ((if cs.contains '\n' then ['\n'] else []) ++ text) := opening_append _ _
  unfold stringChars
  cases formOf cs with
  | short => exact ⟨_, _, rfl, Or.inl rfl⟩
  | escapedShort => exact ⟨_, _, rfl, Or.inl rfl⟩
  | literal => exact ⟨_, _, rfl, Or.inr rfl⟩
  | long => exact ⟨_, _, (List.append_assoc _ _ _).trans (hopening _ _), Or.inl rfl⟩
  | escapedLong => exact ⟨_, _, (List.append_assoc _ _ _).trans (hopening _ _), Or.inl rfl⟩
  | longLiteral => exact ⟨_, _, (List.append_assoc _ _ _).trans (hopening _ _), Or.inr rfl⟩

end FilterReference.Toml
