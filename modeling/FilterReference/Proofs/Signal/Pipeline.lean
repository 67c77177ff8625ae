/-
# What the pipeline answers

The filter looks back only and decimation keeps every `down`-th sample, so both keep prefixes, and
neither can fail.  The pipeline therefore fails exactly where up-sampling does
(`referenceOutput_outcome`), and its output for a longer signal begins with that for a shorter one
(`referenceOutput_append`).
-/
import FilterReference.Proofs.Signal.Checks
import FilterReference.Proofs.Signal.Interpolation
import FilterReference.Signal.Pipeline

namespace FilterReference

open Binary

/-! ## Filtering

An output depends on what came before only, so the histories are carried through the recursion and
more samples at the end do not reach it.  This needs nothing of the arithmetic. -/

theorem getElem?_reverse_take {α : Type} {xs : List α} {n : Nat} (hn : n ≤ xs.length) (i : Nat) :
    (xs.take n).reverse[i]? = if i < n then xs[n - 1 - i]? else none := by
  have hlength : (xs.take n).length = n := List.length_take_of_le hn
  split_ifs with hi
  · rw [List.getElem?_reverse (by omega), hlength, List.getElem?_take_of_lt (by omega)]
  · exact List.getElem?_eq_none (by rw [List.length_reverse]; omega)

section Response

variable {α : Type} [Add α] [Sub α] [Mul α] [Div α] [OfNat α 0] [OfNat α 1] [BEq α]

theorem respondFrom_length (lead : α) (feedback forward : List α) :
    ∀ inputs outputs xs,
      (respondFrom lead feedback forward inputs outputs xs).length = xs.length := by
  intro inputs outputs xs
  induction xs generalizing inputs outputs with
  | nil => rfl
  | cons x xs ih =>
      rw [respondFrom, List.length_cons, List.length_cons, ih]

theorem respondFrom_append (lead : α) (feedback forward ys : List α) :
    ∀ inputs outputs xs, respondFrom lead feedback forward inputs outputs xs <+:
      respondFrom lead feedback forward inputs outputs (xs ++ ys) := by
  intro inputs outputs xs
  induction xs generalizing inputs outputs with
  | nil => exact List.nil_prefix
  | cons x xs ih =>
      rw [List.cons_append, respondFrom, respondFrom]
      exact List.cons_prefix_cons.mpr ⟨rfl, ih _ _⟩

theorem respond_length {denominator : List α} (h : denominator ≠ []) (numerator xs : List α) :
    (respond denominator numerator xs).length = xs.length := by
  cases denominator with
  | nil => exact absurd rfl h
  | cons lead feedback => exact respondFrom_length lead feedback numerator [] [] xs

theorem respond_prefix (denominator numerator : List α) {xs ys : List α} (h : xs <+: ys) :
    respond denominator numerator xs <+: respond denominator numerator ys := by
  obtain ⟨zs, rfl⟩ := h
  cases denominator with
  | nil => exact List.nil_prefix
  | cons lead feedback => exact respondFrom_append lead feedback numerator zs [] [] xs

end Response

theorem Filter.exists_lead (f : Filter) :
    ∃ lead feedback, f.denominator = lead :: feedback ∧ (lead == 0) = false :=
  (filterFault?_eq_none_iff.mp f.faultless).1

theorem Filter.denominator_ne_nil (f : Filter) : f.denominator ≠ [] := by
  obtain ⟨lead, feedback, h, -⟩ := f.exists_lead
  rw [h]
  exact List.cons_ne_nil _ _

theorem Filter.apply_length (f : Filter) (xs : Signal) : (f.apply xs).length = xs.length :=
  respond_length f.denominator_ne_nil f.numerator xs

theorem Filter.apply_prefix (f : Filter) {xs ys : Signal} (h : xs <+: ys) :
    f.apply xs <+: f.apply ys := respond_prefix f.denominator f.numerator h

/-! ## Decimation -/

section Decimation

variable {α : Type} {stride : Nat}

theorem everyFrom_length (hs : 0 < stride) (skip : Nat) (xs : List α) :
    (everyFrom stride skip xs).length = (xs.length - skip + stride - 1) / stride := by
  induction xs generalizing skip with
  | nil =>
      rw [everyFrom, List.length_nil, Nat.zero_sub, Nat.zero_add]
      exact (Nat.div_eq_of_lt (by omega)).symm
  | cons x xs ih =>
      cases skip with
      | zero =>
          have hstep : (x :: xs).length - 0 + stride - 1 = xs.length + stride := by
            rw [List.length_cons]
            omega
          rw [everyFrom, List.length_cons, ih, hstep, Nat.add_div_right _ hs]
          rcases Nat.lt_or_ge xs.length stride with hlt | hge
          · rw [Nat.div_eq_of_lt (by omega), Nat.div_eq_of_lt hlt]
          · rw [show xs.length - (stride - 1) + stride - 1 = xs.length by omega]
      | succ skip =>
          rw [everyFrom, ih, List.length_cons, Nat.add_sub_add_right]

theorem everyFrom_getElem? (hs : 0 < stride) (skip : Nat) (xs : List α) (k : Nat) :
    (everyFrom stride skip xs)[k]? = xs[skip + k * stride]? := by
  induction xs generalizing skip k with
  | nil => rfl
  | cons x xs ih =>
      cases skip with
      | zero =>
          cases k with
          | zero => rw [everyFrom, Nat.zero_mul, List.getElem?_cons_zero, List.getElem?_cons_zero]
          | succ k =>
              have hindex : 0 + (k + 1) * stride = stride - 1 + k * stride + 1 := by
                rw [Nat.succ_mul]
                omega
              rw [everyFrom, List.getElem?_cons_succ, ih, hindex, List.getElem?_cons_succ]
      | succ skip =>
          rw [everyFrom, ih, Nat.add_right_comm, List.getElem?_cons_succ]

theorem everyFrom_prefix (hs : 0 < stride) {xs ys : List α} (h : xs <+: ys) :
    everyFrom stride 0 xs <+: everyFrom stride 0 ys := by
  rw [List.prefix_iff_getElem?]
  intro k hk
  have hsome := List.getElem?_eq_getElem hk
  rw [everyFrom_getElem? hs] at hsome
  obtain ⟨hlt, -⟩ := List.getElem?_eq_some_iff.mp hsome
  rw [everyFrom_getElem? hs, ← hsome]
  obtain ⟨zs, rfl⟩ := h
  exact List.getElem?_append_left hlt

/-- Every `s`-th element, and of these every `t`-th: the same as every `s * t`-th. -/
theorem everyFrom_everyFrom {s t : Nat} (hs : 0 < s) (ht : 0 < t) (xs : List α) :
    everyFrom t 0 (everyFrom s 0 xs) = everyFrom (s * t) 0 xs := by
  refine List.ext_getElem? fun k => ?_
  have hindex : k * t * s = k * (s * t) := by ring
  rw [everyFrom_getElem? ht, everyFrom_getElem? hs, everyFrom_getElem? (Nat.mul_pos hs ht),
    Nat.zero_add, Nat.zero_add, Nat.zero_add, hindex]

end Decimation

/-! ## Stages in a row

Leaving out filter and decimation for pure up-sampling is the same as leaving out the filter, since
the decimation keeps everything then.  So the pipeline is three stages in any case, of which only
the first can fail. -/

/-- What is decimated: the up-sampled signal, filtered unless it is shown by itself. -/
def Factors.dense (factors : Factors) (filter : Filter) (upsampled : Signal) : Signal :=
  if factors.down = 1 ∧ 1 < factors.up then upsampled else filter.apply upsampled

theorem Factors.filters_iff (factors : Factors) :
    factors.filters = true ↔ ¬ (factors.down = 1 ∧ 1 < factors.up) := by
  have hdown := factors.down_pos
  have hup := factors.up_pos
  simp only [Factors.filters, Bool.or_eq_true, decide_eq_true_eq, beq_iff_eq]
  omega

theorem Factors.dense_length (factors : Factors) (filter : Filter) (v : Signal) :
    (factors.dense filter v).length = v.length := by
  unfold Factors.dense
  split
  · rfl
  · exact filter.apply_length v

theorem Factors.dense_prefix (factors : Factors) (filter : Filter) {v w : Signal} (h : v <+: w) :
    factors.dense filter v <+: factors.dense filter w := by
  unfold Factors.dense
  split
  · exact h
  · exact filter.apply_prefix h

theorem Factors.dense_of_filters {factors : Factors} (h : factors.filters = true) (filter : Filter)
    (v : Signal) : factors.dense filter v = filter.apply v := if_neg (factors.filters_iff.mp h)

theorem everyFrom_one {α : Type} (xs : List α) : everyFrom 1 0 xs = xs := by
  induction xs with
  | nil => rfl
  | cons x xs ih => rw [everyFrom, ih]

/-- The stages after up-sampling do not fail. -/
theorem referenceOutput_eq (x : Signal) (factors : Factors) (filter : Filter) :
    referenceOutput x factors filter =
      (fun v => everyFrom factors.down 0 (factors.dense filter v)) <$> upsample x factors.up := by
  rw [referenceOutput, runPipeline]
  cases upsample x factors.up with
  | error e => rfl
  | ok v =>
      change _ = Except.ok (everyFrom factors.down 0 (factors.dense filter v))
      cases hfilters : factors.filters with
      | true =>
          have hdense := factors.dense_of_filters hfilters filter v
          have hdown : factors.down ≠ 0 := Nat.ne_of_gt factors.down_pos
          rw [hdense]
          simp only [bind, Except.bind, decimate, if_neg hdown, if_true]
          rfl
      | false =>
          have hpure : factors.down = 1 ∧ 1 < factors.up := by
            by_contra h
            rw [factors.filters_iff.mpr h] at hfilters
            cases hfilters
          have hdense : factors.dense filter v = v := if_pos hpure
          rw [hdense, hpure.1, everyFrom_one]
          simp only [bind, Except.bind, if_false, Bool.false_eq_true]
          rfl

/-! ## Outcome

What can go wrong is tried in the order in which the program would find it (`Factors.fault?`).  As
long as the grid is not too large, nothing is left of that but a signal too short to be
interpolated. -/

/-- The reason for which a signal of `len` samples has no reference output. -/
def Factors.fault? (factors : Factors) (len : Nat) : Option SignalError :=
  if factors.up = 1 then none
  else if len < 2 then some (.insufficientSamples len factors.up)
  else if maxNumbers < gridLength len factors.up then some .tooManyNumbers
  else if len * factors.up < gridLength len factors.up then some (.missingSample len len)
  else none

theorem upsample_of_fault {x : Signal} {factors : Factors} {e : SignalError}
    (h : factors.fault? x.length = some e) : upsample x factors.up = .error e := by
  have hup := factors.up_pos
  unfold Factors.fault? at h
  split_ifs at h with h₁ h₂ h₃ h₄ <;> cases h
  · exact upsample_of_short (by omega) h₂
  · exact upsample_of_tooMany (by omega) (by omega) h₃
  · exact upsample_of_missing (by omega) (by omega) (by omega) h₄

theorem Factors.fault?_eq_none_iff (factors : Factors) (len : Nat) :
    factors.fault? len = none ↔ factors.up = 1 ∨ 2 ≤ len ∧ gridLength len factors.up ≤ maxNumbers ∧
      gridLength len factors.up ≤ len * factors.up := by
  unfold Factors.fault?
  split_ifs <;> simp <;> omega

theorem Factors.fault?_of_le (factors : Factors) {len : Nat}
    (h : (len - 1) * factors.up ≤ 2 ^ 50) :
    factors.fault? len =
      if 1 < factors.up ∧ len < 2 then some (.insufficientSamples len factors.up) else none := by
  have hup := factors.up_pos
  split_ifs with hshort
  · rw [Factors.fault?, if_neg (by omega), if_pos hshort.2]
  · rw [factors.fault?_eq_none_iff]
    rcases Nat.lt_or_ge 1 factors.up with hlt | hle
    · have hlen : 2 ≤ len := by omega
      exact Or.inr ⟨hlen, gridLength_fits hlt hlen h⟩
    · exact Or.inl (by omega)

/-- **Outcome of the pipeline.**  It fails for the reasons `Factors.fault?` has, whatever the
samples and the filter; otherwise the output has one sample for every `down` grid points, that of
the first of them.  This is for an allocator that grants every request of up to `maxNumbers`
numbers: running out of memory below that is no outcome here. -/
theorem referenceOutput_outcome (x : Signal) (factors : Factors) (filter : Filter) :
    (∀ e, referenceOutput x factors filter = .error e ↔ factors.fault? x.length = some e) ∧
    ((x.length - 1) * factors.up ≤ 2 ^ 50 →
      factors.fault? x.length =
        if 1 < factors.up ∧ x.length < 2 then some (.insufficientSamples x.length factors.up)
        else none) ∧
    (factors.fault? x.length = none →
      ∃ v y, upsample x factors.up = .ok v ∧ v.length = gridLength x.length factors.up ∧
        referenceOutput x factors filter = .ok y ∧
        y.length = (gridLength x.length factors.up + factors.down - 1) / factors.down ∧
        ∀ k < y.length, y[k]? =
          (if factors.down = 1 ∧ 1 < factors.up then v else filter.apply v)[k * factors.down]?) := by
  have hok : factors.fault? x.length = none →
      ∃ v y, upsample x factors.up = .ok v ∧ v.length = gridLength x.length factors.up ∧
        referenceOutput x factors filter = .ok y ∧
        y.length = (gridLength x.length factors.up + factors.down - 1) / factors.down ∧
        ∀ k < y.length, y[k]? =
          (if factors.down = 1 ∧ 1 < factors.up then v else filter.apply v)[k * factors.down]? := by
    intro hnone
    obtain ⟨v, hv, hlen, -⟩ :=
      upsample_eq_ok factors.up_pos ((factors.fault?_eq_none_iff _).mp hnone)
    have houtput := referenceOutput_eq x factors filter
    rw [hv] at houtput
    refine ⟨v, _, hv, hlen, houtput, ?_, fun k _ => ?_⟩
    · rw [everyFrom_length factors.down_pos, factors.dense_length, hlen, Nat.sub_zero]
    · rw [everyFrom_getElem? factors.down_pos, Nat.zero_add, Factors.dense]
  refine ⟨fun e => ⟨fun he => ?_, fun hfault => ?_⟩, factors.fault?_of_le, hok⟩
  · cases hfault : factors.fault? x.length with
    | none =>
        obtain ⟨v, y, -, -, hy, -⟩ := hok hfault
        rw [hy] at he
        cases he
    | some e' =>
        rw [referenceOutput_eq, upsample_of_fault hfault] at he
        cases he
        rfl
  · rw [referenceOutput_eq, upsample_of_fault hfault]
    rfl

/-- Two samples on a grid of `2 ^ 60` points, of which one would be kept: there are enough samples,
and yet the grid cannot be held. -/
theorem referenceOutput_tooManyNumbers :
    gridLength 2 (2 ^ 60) = 2 ^ 60 ∧
      referenceOutput [0, 0] ⟨2 ^ 60, 2 ^ 60, by decide, by decide⟩ Filter.identity =
        .error .tooManyNumbers := by
  have hlength : gridLength 2 (2 ^ 60) = 2 ^ 60 := by decide +kernel
  refine ⟨hlength, ?_⟩
  rw [referenceOutput_eq, upsample_of_tooMany (by decide) (by decide)]
  · rfl
  · change maxNumbers < gridLength 2 (2 ^ 60)
    rw [hlength]
    decide

/-! ## Longer signals and coarser decimation -/

/-- **Appended samples change no sample of the output.**  As long as the grid has at most `2 ^ 50`
steps, the output for a longer signal begins with the output for the shorter one. -/
theorem referenceOutput_append {x t : Signal} {factors : Factors} {filter : Filter} {y : Signal}
    (hsize : ((x ++ t).length - 1) * factors.up ≤ 2 ^ 50)
    (hy : referenceOutput x factors filter = .ok y) :
    ∃ y', referenceOutput (x ++ t) factors filter = .ok y' ∧ y <+: y' := by
  rw [referenceOutput_eq] at hy
  cases hv : upsample x factors.up with
  | error e =>
      rw [hv] at hy
      cases hy
  | ok v =>
      rw [hv] at hy
      cases hy
      obtain ⟨v', hv', hprefix⟩ := upsample_append factors.up_pos hsize hv
      refine ⟨everyFrom factors.down 0 (factors.dense filter v'), ?_, ?_⟩
      · rw [referenceOutput_eq, hv']
        rfl
      · exact everyFrom_prefix factors.down_pos (factors.dense_prefix filter hprefix)

/-- Two samples more through all three stages: every third point of a grid twice as fine, behind a
filter with feedback. -/
theorem referenceOutput_append_feedback :
    referenceOutput ([1, 2, 4, 8] ++ [0, -3]) ⟨3, 2, by decide, by decide⟩
        ⟨[2, 1], [2, 4], by decide +kernel⟩ = .ok [1, 5.25, 14.84375, -2.35546875] ∧
      [1, 5.25] <+: [1, 5.25, 14.84375, -2.35546875] := by
  have hshort : referenceOutput [1, 2, 4, 8] ⟨3, 2, by decide, by decide⟩
      ⟨[2, 1], [2, 4], by decide +kernel⟩ = .ok [1, 5.25] := by decide +kernel
  have hlong : referenceOutput ([1, 2, 4, 8] ++ [0, -3]) ⟨3, 2, by decide, by decide⟩
      ⟨[2, 1], [2, 4], by decide +kernel⟩ = .ok [1, 5.25, 14.84375, -2.35546875] := by
    decide +kernel
  obtain ⟨y', hy', hprefix⟩ := referenceOutput_append (t := [0, -3]) (by decide) hshort
  rw [hlong] at hy'
  cases hy'
  exact ⟨hlong, hprefix⟩

/-- **Decimation composes.**  Where the filter is not left out, the output for a `d` times larger
decimation factor is every `d`-th sample of the output, and it is refused for the same reason. -/
theorem referenceOutput_decimate {fine coarse : Factors} {d : Nat}
    (hdown : coarse.down = fine.down * d) (hup : coarse.up = fine.up)
    (hfilters : 1 < fine.down ∨ fine.up = 1) (x : Signal) (filter : Filter) :
    (∀ e, referenceOutput x coarse filter = .error e ↔ referenceOutput x fine filter = .error e) ∧
    ∀ y, referenceOutput x fine filter = .ok y →
      ∃ z, decimate d y = .ok z ∧ referenceOutput x coarse filter = .ok z := by
  have hd : 0 < d := by
    have hpos := coarse.down_pos
    rw [hdown] at hpos
    exact Nat.pos_of_mul_pos_left hpos
  have hfine : fine.filters = true := by
    rw [fine.filters_iff]
    omega
  have hcoarse : coarse.filters = true := by
    rw [coarse.filters_iff, hup, hdown]
    rintro ⟨hone, hup'⟩
    have := Nat.eq_one_of_mul_eq_one_right hone
    omega
  rw [referenceOutput_eq x fine, referenceOutput_eq x coarse, hup]
  cases upsample x fine.up with
  | error e =>
      refine ⟨fun e' => Iff.rfl, fun y hy => ?_⟩
      cases hy
  | ok v =>
      refine ⟨fun e => iff_of_false (by rintro ⟨⟩) (by rintro ⟨⟩), fun y hy => ?_⟩
      cases hy
      refine ⟨_, if_neg hd.ne', ?_⟩
      rw [everyFrom_everyFrom fine.down_pos hd, fine.dense_of_filters hfine, ← hdown,
        ← coarse.dense_of_filters hcoarse]
      rfl

/-- A filter with feedback behind an up-sampling by two, and a signal that is too short for it. -/
theorem referenceOutput_decimate_feedback :
    (decimate 2 [1, 3.5, 7.375] = .ok [1, 7.375] ∧
      referenceOutput [1, 2, 4, 8] ⟨4, 2, by decide, by decide⟩ ⟨[2, 1], [2, 4], by decide +kernel⟩ =
        .ok [1, 7.375]) ∧
    referenceOutput [1] ⟨4, 2, by decide, by decide⟩ ⟨[2, 1], [2, 4], by decide +kernel⟩ =
      .error (.insufficientSamples 1 2) := by
  have hkept : decimate 2 ([1, 3.5, 7.375] : Signal) = .ok [1, 7.375] := by decide +kernel
  have hlong := @referenceOutput_decimate ⟨2, 2, by decide, by decide⟩ ⟨4, 2, by decide, by decide⟩ 2
    rfl rfl (Or.inl (by decide)) [1, 2, 4, 8] ⟨[2, 1], [2, 4], by decide +kernel⟩
  have hshort := @referenceOutput_decimate ⟨2, 2, by decide, by decide⟩ ⟨4, 2, by decide, by decide⟩ 2
    rfl rfl (Or.inl (by decide)) [1] ⟨[2, 1], [2, 4], by decide +kernel⟩
  obtain ⟨z, hz, houtput⟩ := hlong.2 [1, 3.5, 7.375] (by decide +kernel)
  rw [hkept] at hz
  cases hz
  exact ⟨⟨hkept, houtput⟩, (hshort.1 _).mpr (by decide +kernel)⟩

-- Without a decimation there is no filter behind an up-sampling, and the output is another one.
example : referenceOutput [1, 2] ⟨1, 2, by decide, by decide⟩ ⟨[1], [0.5], by decide +kernel⟩ =
      .ok [1, 1.5] ∧
    referenceOutput [1, 2] ⟨2, 2, by decide, by decide⟩ ⟨[1], [0.5], by decide +kernel⟩ =
      .ok [0.5] := by
  decide +kernel

end FilterReference
