/-
# What a response depends on

The output at a number follows the inputs up to it and the outputs before it (`respond_getElem?`).
Without feedback it follows the latest inputs only, one for each coefficient, and nothing else
reaches it (`Filter.apply_window`).

In doubles a sum may begin at `0` or at `-0`, and zeros may be added to it, and all that can come of
this is a zero of the other sign.  One relation on histories, `Prolongs`, carries that through the
recursion: the same samples up to `Alike`, and silence before them.  So a filter made of taps is the
convolution with them (`Filter.fir_alike_convolve`), and silence before a signal delays the response
and leaves it alike (`Filter.apply_delayed`).
-/
import FilterReference.Proofs.Binary.Alike
import FilterReference.Proofs.Signal.Checks
import FilterReference.Proofs.Signal.Pipeline

namespace FilterReference

open Binary

section Accumulate

variable {α : Type} [Mul α] (op : α → α → α)

theorem accumulate_eq_foldl (acc : α) (cs hs : List α) :
    accumulate op acc cs hs = (List.zipWith (· * ·) cs hs).foldl op acc := by
  induction cs generalizing acc hs with
  | nil => simp [accumulate]
  | cons c cs ih =>
      cases hs with
      | nil => simp [accumulate]
      | cons h hs => rw [accumulate, ih, List.zipWith_cons_cons, List.foldl_cons]

theorem accumulate_nil (acc : α) (cs : List α) : accumulate op acc cs [] = acc := by
  cases cs <;> rfl

/-- No coefficient meets what is further back than there are coefficients. -/
theorem accumulate_take (acc : α) (cs hs : List α) :
    accumulate op acc cs (hs.take cs.length) = accumulate op acc cs hs := by
  induction cs generalizing acc hs with
  | nil => simp [accumulate]
  | cons c cs ih =>
      cases hs with
      | nil => rfl
      | cons h hs => rw [List.length_cons, List.take_succ_cons, accumulate, accumulate, ih]

end Accumulate

theorem take_history_congr {α : Type} {xs xs' : List α} {n p : Nat} (hn : n < xs.length)
    (hn' : n < xs'.length) (h : ∀ k, n + 1 - p ≤ k → k ≤ n → xs[k]? = xs'[k]?) :
    (xs.take (n + 1)).reverse.take p = (xs'.take (n + 1)).reverse.take p := by
  refine List.ext_getElem? fun i => ?_
  rw [List.getElem?_take, List.getElem?_take, getElem?_reverse_take (n := n + 1) hn,
    getElem?_reverse_take (n := n + 1) hn', Nat.add_sub_cancel]
  split_ifs with hp hi
  · exact h (n - i) (by omega) (Nat.sub_le n i)
  · rfl
  · rfl

/-! ## One output

The recursion has handed on all inputs and outputs so far when it comes to a number.  So an output
can be stated without it, by the beginnings of the two signals. -/

section Response

variable {α : Type} [Add α] [Sub α] [Mul α] [Div α] [OfNat α 0] [OfNat α 1] [BEq α]

/-- The output at a number follows the inputs up to it and the outputs before it. -/
theorem respondFrom_getElem? (lead : α) (feedback forward : List α) :
    ∀ (xs inputs outputs : List α) {n : Nat}, n < xs.length →
      (respondFrom lead feedback forward inputs outputs xs)[n]? =
        some (nextOutput lead feedback forward ((xs.take (n + 1)).reverse ++ inputs)
          (((respondFrom lead feedback forward inputs outputs xs).take n).reverse ++ outputs)) := by
  intro xs
  induction xs with
  | nil =>
      intro inputs outputs n hn
      exact absurd hn (Nat.not_lt_zero n)
  | cons x xs ih =>
      intro inputs outputs n hn
      cases n with
      | zero => simp [respondFrom]
      | succ n =>
          rw [respondFrom, List.getElem?_cons_succ, ih _ _ (Nat.lt_of_succ_lt_succ hn)]
          simp

theorem respond_getElem? (lead : α) (feedback numerator : List α) {xs : List α} {n : Nat}
    (hn : n < xs.length) :
    (respond (lead :: feedback) numerator xs)[n]? =
      some (nextOutput lead feedback numerator (xs.take (n + 1)).reverse
        ((respond (lead :: feedback) numerator xs).take n).reverse) := by
  have h := respondFrom_getElem? lead feedback numerator xs [] [] hn
  rwa [List.append_nil, List.append_nil] at h

/-- Without feedback, an output follows as many inputs as there are coefficients. -/
theorem nextOutput_window (lead : α) (forward inputs outputs : List α) :
    nextOutput lead [] forward inputs outputs =
      nextOutput lead [] forward (inputs.take forward.length) [] := by
  rw [nextOutput, nextOutput, accumulate_take]
  rfl

/-- Without feedback, signals that agree on a window as long as the numerator have the same output
at its end. -/
theorem respond_window (lead : α) (numerator : List α) {xs xs' : List α} {n : Nat}
    (hn : n < xs.length) (hn' : n < xs'.length)
    (h : ∀ k, n + 1 - numerator.length ≤ k → k ≤ n → xs[k]? = xs'[k]?) :
    (respond [lead] numerator xs)[n]? = (respond [lead] numerator xs')[n]? := by
  rw [respond_getElem? lead [] numerator hn, respond_getElem? lead [] numerator hn',
    nextOutput_window, take_history_congr hn hn' h, ← nextOutput_window]

end Response

/-! ## Finite memory

Outputs are handed on without feedback as well, but nothing reads them.  So signals that agree on
the window may differ before it in any way, infinities and all. -/

namespace Filter

theorem denominator_of_isFir {f : Filter} (h : f.isFir = true) : ∃ lead, f.denominator = [lead] :=
  List.length_eq_one_iff.mp (eq_of_beq h)

/-- **A filter without feedback has finite memory.**  An output depends on the latest samples only,
one for each coefficient of the numerator, whatever stands before and after them. -/
theorem apply_window {f : Filter} (hfir : f.isFir = true) {x x' : Signal} {n : Nat}
    (hn : n < x.length) (hn' : n < x'.length)
    (hwindow : ∀ k, n + 1 - f.numerator.length ≤ k → k ≤ n → x[k]? = x'[k]?) :
    ∃ y, (f.apply x)[n]? = some y ∧ (f.apply x')[n]? = some y := by
  obtain ⟨lead, hdenominator⟩ := denominator_of_isFir hfir
  have hsame : (f.apply x)[n]? = (f.apply x')[n]? := by
    unfold apply
    rw [hdenominator]
    exact respond_window lead f.numerator hn hn' hwindow
  have hlength : n < (f.apply x).length := by rwa [f.apply_length]
  refine ⟨(f.apply x)[n], List.getElem?_eq_getElem hlength, ?_⟩
  rw [← hsame]
  exact List.getElem?_eq_getElem hlength

/-- Neither an infinite sample before the window nor one behind it that is not a number matters. -/
theorem apply_window_special :
    ∃ y, ((⟨[2], [1, 0.5], by decide +kernel⟩ : Filter).apply [infinity, 1, 3])[2]? = some y ∧
      ((⟨[2], [1, 0.5], by decide +kernel⟩ : Filter).apply
        [notANumber, 1, 3, notANumber])[2]? = some y := by
  refine apply_window rfl (by decide) (by decide) fun k hlow hhigh => ?_
  have hk : k = 1 ∨ k = 2 := by
    change 2 + 1 - 2 ≤ k at hlow
    omega
  rcases hk with rfl | rfl
  · rfl
  · rfl

end Filter

/-! ## Histories after a silence

The two recursions run over histories of different length, and their sums over different numbers of
terms.  The terms that one of them has in addition are zeros of either sign. -/

/-- Nothing but zeros, of either sign. -/
def Silent (zs : List Float) : Prop := ∀ z ∈ zs, magnitude z = 0

theorem silent_nil : Silent [] := fun _ h => absurd h List.not_mem_nil

theorem silent_cons_iff {z : Float} {zs : List Float} :
    Silent (z :: zs) ↔ magnitude z = 0 ∧ Silent zs := List.forall_mem_cons

/-- A history, latest first, with another one: sample for sample alike, and silence before the other
one begins. -/
inductive Prolongs : List Float → List Float → Prop
  | silence {zs : List Float} : Silent zs → Prolongs zs []
  | cons {h h' : Float} {hs hs' : List Float} :
      Alike h h' → Prolongs hs hs' → Prolongs (h :: hs) (h' :: hs')

theorem Prolongs.refl : ∀ hs : List Float, Prolongs hs hs
  | [] => .silence silent_nil
  | h :: hs => .cons (.refl h) (refl hs)

/-- Sums over a history and over one that it prolongs are alike: what the coefficients meet before
the beginning are zeros. -/
theorem accumulate_alike {op : Float → Float → Float} (hop : Tolerant op) {cs : List Float}
    (hcs : ∀ c ∈ cs, isFinite c = true) :
    ∀ {acc acc' : Float} {hs hs' : List Float}, Alike acc acc' → Prolongs hs hs' →
      Alike (accumulate op acc cs hs) (accumulate op acc' cs hs') := by
  induction cs with
  | nil =>
      intro acc acc' hs hs' hacc _
      simpa [accumulate] using hacc
  | cons c cs ih =>
      intro acc acc' hs hs' hacc hhistory
      obtain ⟨hc, hcs⟩ := List.forall_mem_cons.mp hcs
      cases hhistory with
      | cons hh hrest => exact ih hcs (hop.congr hacc (hh.mul c)) hrest
      | silence hz =>
          cases hs with
          | nil => exact hacc
          | cons z zs =>
              -- Only one of the histories goes on, and what it adds is a multiple of zero.
              obtain ⟨hz, hzs⟩ := silent_cons_iff.mp hz
              have hproduct := magnitude_mul_zero hc hz
              have hsum := ih hcs ((hop.absorb hproduct).trans hacc) (.silence hzs)
              rw [accumulate_nil] at hsum
              exact hsum

section Coefficients

variable (lead : Float) {feedback forward : List Float}
  (hfeedback : ∀ c ∈ feedback, isFinite c = true) (hforward : ∀ c ∈ forward, isFinite c = true)

include hfeedback hforward

theorem nextOutput_alike {inputs inputs' outputs outputs' : List Float}
    (hinputs : Prolongs inputs inputs') (houtputs : Prolongs outputs outputs') :
    Alike (nextOutput lead feedback forward inputs outputs)
      (nextOutput lead feedback forward inputs' outputs') := by
  have hfed := accumulate_alike tolerant_add hforward (.refl 0) hinputs
  have hacc := accumulate_alike tolerant_sub hfeedback hfed houtputs
  unfold nextOutput
  dsimp only
  split_ifs
  · exact hacc
  · exact hacc.div lead

/-- All outputs to come are alike, too, since each of them enters both histories. -/
theorem respondFrom_alike (xs : List Float) :
    ∀ {inputs inputs' outputs outputs' : List Float},
      Prolongs inputs inputs' → Prolongs outputs outputs' →
      List.Forall₂ Alike (respondFrom lead feedback forward inputs outputs xs)
        (respondFrom lead feedback forward inputs' outputs' xs) := by
  induction xs with
  | nil =>
      intro inputs inputs' outputs outputs' _ _
      exact .nil
  | cons x xs ih =>
      intro inputs inputs' outputs outputs' hinputs houtputs
      have hinputs := hinputs.cons (.refl x)
      have hy := nextOutput_alike lead hfeedback hforward hinputs houtputs
      exact .cons hy (ih hinputs (houtputs.cons hy))

variable (hlead : isFinite lead = true) (hlead₀ : (lead == 0) = false)

include hlead hlead₀

theorem nextOutput_silence {inputs outputs : List Float} (hinputs : Silent inputs)
    (houtputs : Silent outputs) :
    magnitude (nextOutput lead feedback forward inputs outputs) = 0 := by
  have halike := nextOutput_alike lead hfeedback hforward
    (.silence hinputs) (.silence houtputs)
  refine halike.magnitude_eq_zero ?_
  rw [nextOutput, accumulate_nil, accumulate_nil]
  split_ifs
  · exact magnitude_zero
  · rw [Bool.eq_false_iff, Ne, beq_zero_iff] at hlead₀
    exact magnitude_zero_div hlead hlead₀ magnitude_zero

theorem respondFrom_delayed (xs : List Float) (d : Nat) :
    ∀ {inputs outputs : List Float}, Silent inputs → Silent outputs →
      List.Forall₂ Alike
        (respondFrom lead feedback forward inputs outputs (List.replicate d 0 ++ xs))
        (List.replicate d 0 ++ respondFrom lead feedback forward [] [] xs) := by
  induction d with
  | zero =>
      intro inputs outputs hinputs houtputs
      exact respondFrom_alike lead hfeedback hforward xs (.silence hinputs) (.silence houtputs)
  | succ d ih =>
      intro inputs outputs hinputs houtputs
      have hinputs := silent_cons_iff.mpr ⟨magnitude_zero, hinputs⟩
      have hy := nextOutput_silence lead hfeedback hforward hlead hlead₀ hinputs houtputs
      have hrest := ih hinputs (silent_cons_iff.mpr ⟨hy, houtputs⟩)
      exact .cons (.of_zeros hy magnitude_zero) hrest

end Coefficients

/-! ## Convolution

The response begins its sums at `0` and the convolution at `-0`.  Otherwise they agree term by term,
since a sum over the index of a tap is a sum against the history. -/

/-- The numbered elements up to number `n` are the first ones. -/
theorem filter_zipIdx_le {α : Type} (xs : List α) (n : Nat) :
    ∀ first : Nat, (xs.zipIdx first).filter (·.2 ≤ n) = (xs.zipIdx first).take (n + 1 - first) := by
  induction xs with
  | nil =>
      intro first
      simp
  | cons x xs ih =>
      intro first
      rw [List.zipIdx_cons, List.filter_cons, ih]
      rcases Nat.lt_or_ge n first with hlt | hle
      · have hnone : n + 1 - first = 0 := by omega
        have hnone' : n + 1 - (first + 1) = 0 := by omega
        simp [hnone, hnone', hlt]
      · have hstep : n + 1 - first = n + 1 - (first + 1) + 1 := by omega
        simp [hstep, hle]

theorem convolve_length (taps : List Float) (xs : Signal) :
    (convolve taps xs).length = xs.length := by
  simp [convolve]

theorem map_take_zipIdx (taps : List Float) {xs : Signal} {n : Nat} (hn : n < xs.length) :
    (taps.zipIdx.take (n + 1)).map (fun tap => tap.1 * xs.toArray.getD (n - tap.2) 0) =
      List.zipWith (· * ·) taps (xs.take (n + 1)).reverse := by
  refine List.ext_getElem? fun i => ?_
  rw [List.getElem?_map, List.getElem?_take, List.getElem?_zipIdx, List.getElem?_zipWith,
    getElem?_reverse_take (n := n + 1) hn, Nat.add_sub_cancel]
  split_ifs with hi
  · have hlast : n - i < xs.length := by omega
    have hsample : xs.toArray.getD (n - i) 0 = xs[n - i] := by simp [Array.getD, hlast]
    rw [List.getElem?_eq_getElem hlast, Nat.zero_add]
    cases taps[i]? with
    | none => rfl
    | some tap => exact congrArg (fun x => some (tap * x)) hsample
  · cases taps[i]? <;> rfl

/-- A term of the convolution is a sum over the history, begun at `-0`. -/
theorem convolve_getElem? (taps : List Float) {xs : Signal} {n : Nat} (hn : n < xs.length) :
    (convolve taps xs)[n]? =
      some (accumulate (· + ·) (-0) taps (xs.take (n + 1)).reverse) := by
  rw [accumulate_eq_foldl, ← map_take_zipIdx taps hn, convolve, List.getElem?_map,
    List.getElem?_range hn, Option.map_some, filter_zipIdx_le]
  rfl

theorem nextOutput_one (forward inputs outputs : List Float) :
    nextOutput 1 [] forward inputs outputs = accumulate (· + ·) 0 forward inputs := by
  have hone : ((1 : Float) == 1) = true := rfl
  rw [nextOutput, hone]
  rfl

namespace Filter

/-- **A filter without feedback is a convolution.**  Every list of finite taps is a filter, and its
response is the convolution with them, up to the signs of zeros. -/
theorem fir_alike_convolve {taps : List Float} (hne : taps ≠ [])
    (hfinite : ∀ c ∈ taps, isFinite c = true) (x : Signal) :
    ∃ f, fir taps = .ok f ∧ List.Forall₂ Alike (f.apply x) (convolve taps x) := by
  have hfault : filterFault? [1] taps = none :=
    filterFault?_eq_none_iff.mpr ⟨⟨1, [], rfl, by decide +kernel⟩, hne, by decide +kernel, hfinite⟩
  refine ⟨_, make_eq_ok hfault, List.forall₂_iff_get.mpr ⟨?_, ?_⟩⟩
  · rw [apply_length, convolve_length]
  · intro n hn hn'
    have hlt : n < x.length := by rwa [convolve_length] at hn'
    have hresponse := (List.getElem_eq_iff hn).mpr (respond_getElem? 1 [] taps hlt)
    have hterm := (List.getElem_eq_iff hn').mpr (convolve_getElem? taps hlt)
    rw [List.get_eq_getElem, List.get_eq_getElem, hresponse, hterm, nextOutput_one]
    -- Both sums run over one history; only their beginnings are two zeros.
    exact accumulate_alike tolerant_add hfinite (by decide +kernel) (.refl _)

/-- Subnormal, infinite and undefined products, and a first one that is `-0`. -/
theorem fir_alike_convolve_special :
    ∃ f, fir [0.5, -0.25] = .ok f ∧
      List.Forall₂ Alike (f.apply [-0.0, 5e-324, infinity, infinity])
        (convolve [0.5, -0.25] [-0.0, 5e-324, infinity, infinity]) :=
  fir_alike_convolve (by decide) (by decide +kernel) _

-- The two do differ in the sign of a zero.
example : respond [1] [1] [-0.0] = ([0.0] : List Float) ∧ convolve [1] [-0.0] = [-0.0] := by
  decide +kernel

/-! ## Delay -/

/-- **Time invariance.**  A filter answers a signal after a silence of `d` samples with `d` zeros
and then with its response to the signal, up to the signs of zeros. -/
theorem apply_delayed (f : Filter) (x : Signal) (d : Nat) :
    List.Forall₂ Alike (f.apply (List.replicate d 0 ++ x)) (List.replicate d 0 ++ f.apply x) := by
  obtain ⟨⟨lead, feedback, hdenominator, hlead₀⟩, -, hdenominators, hforward⟩ :=
    filterFault?_eq_none_iff.mp f.faultless
  rw [hdenominator] at hdenominators
  obtain ⟨hlead, hfeedback⟩ := List.forall_mem_cons.mp hdenominators
  unfold apply
  rw [hdenominator]
  exact respondFrom_delayed lead hfeedback hforward hlead hlead₀ x d silent_nil silent_nil

/-- Delayed by one, the zero that comes first takes the sign of the leading coefficient. -/
example : respond [-1, 0.5] [1] [0, 1, 3] = ([-0.0, -1, -3.5] : List Float) ∧
    respond [-1, 0.5] [1] [1, 3] = ([-1, -3.5] : List Float) := by
  decide +kernel

end Filter

end FilterReference
