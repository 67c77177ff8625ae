/-
# Delay filters

A filter with the taps `0, …, 0, 1` delays its input by the number of zeros.  In doubles every
output is a sum of products of which at most one is not a zero, and that one is a sample times one;
so the sum is the sample up to the sign of a zero (`accumulate_delayTaps`), and the pipeline shows
zeros and then the signal (`referenceOutput_delay`).  Without a zero in front, the filter is the one
that changes nothing.
-/
import FilterReference.Proofs.Signal.Response

namespace FilterReference

open Binary

/-- As many zeros, and a one behind them. -/
def delayTaps (d : Nat) : List Float := List.replicate d 0 ++ [1]

/-- The sum over a finite history is the sample that the one meets, or zero if the history is too
short.  By induction on the taps; what has been summed up before the one is a zero. -/
theorem accumulate_delayTaps {hs : List Float} (hfinite : ∀ h ∈ hs, isFinite h = true) (d : Nat) :
    ∀ {acc : Float}, magnitude acc = 0 →
      Alike (accumulate (· + ·) acc (delayTaps d) hs) (hs[d]?.getD 0) := by
  induction d generalizing hs with
  | zero =>
      intro acc hacc
      cases hs with
      | nil => exact .of_zeros hacc magnitude_zero
      | cons h hs =>
          have hone := alike_one_mul (hfinite h List.mem_cons_self)
          exact (Alike.add (.refl acc) hone).trans (alike_zero_add hacc h)
  | succ d ih =>
      intro acc hacc
      cases hs with
      | nil => exact .of_zeros hacc magnitude_zero
      | cons h hs =>
          have hproduct : magnitude (0 * h) = 0 :=
            magnitude_zero_mul magnitude_zero (hfinite h List.mem_cons_self)
          have hsum : magnitude (acc + 0 * h) = 0 :=
            (tolerant_add.absorb hproduct).magnitude_eq_zero hacc
          exact ih (fun x hx => hfinite x (List.mem_cons_of_mem h hx)) hsum

theorem filterFault?_delayTaps (d : Nat) : filterFault? [1] (delayTaps d) = none := by
  refine filterFault?_eq_none_iff.mpr ⟨⟨1, [], rfl, rfl⟩, ?_, by decide, ?_⟩
  · exact List.append_ne_nil_of_right_ne_nil _ (List.cons_ne_nil 1 [])
  · intro c hc
    rcases List.mem_append.mp hc with hc | hc
    · rw [List.eq_of_mem_replicate hc]
      rfl
    · rw [List.mem_singleton.mp hc]
      rfl

def Filter.delay (d : Nat) : Filter := ⟨[1], delayTaps d, filterFault?_delayTaps d⟩

theorem getElem?_delayed {α : Type} (zero : α) (xs : List α) (d : Nat) {n : Nat}
    (hn : n < xs.length) :
    (List.replicate (min d xs.length) zero ++ xs.take (xs.length - d))[n]? =
      some ((if d ≤ n then xs[n - d]? else none).getD zero) := by
  rw [List.getElem?_append, List.length_replicate, List.getElem?_replicate, List.getElem?_take]
  rcases Nat.lt_or_ge n d with hlt | hge
  · rw [if_pos (by omega), if_pos (by omega), if_neg (by omega)]
    rfl
  · rw [if_neg (by omega), if_pos (by omega), if_pos hge, show n - min d xs.length = n - d by omega,
      List.getElem?_eq_getElem (by omega)]
    rfl

theorem Filter.apply_delay {xs : Signal} (hfinite : ∀ x ∈ xs, isFinite x = true) (d : Nat) :
    List.Forall₂ Alike ((delay d).apply xs)
      (List.replicate (min d xs.length) 0 ++ xs.take (xs.length - d)) := by
  refine List.forall₂_iff_get.mpr ⟨?_, fun n hn hn' => ?_⟩
  · rw [apply_length, List.length_append, List.length_replicate, List.length_take]
    omega
  · have hlt : n < xs.length := by rwa [apply_length] at hn
    have hresponse := (List.getElem_eq_iff hn).mpr (respond_getElem? 1 [] (delayTaps d) hlt)
    have hdelayed := (List.getElem_eq_iff hn').mpr (getElem?_delayed 0 xs d hlt)
    have hhistory : ∀ h ∈ (xs.take (n + 1)).reverse, isFinite h = true :=
      fun h hh => hfinite h (List.mem_of_mem_take (List.mem_reverse.mp hh))
    have hsum := accumulate_delayTaps hhistory d magnitude_zero
    rw [getElem?_reverse_take (n := n + 1) hlt, Nat.add_sub_cancel] at hsum
    simp only [Nat.lt_succ_iff] at hsum
    rw [List.get_eq_getElem, List.get_eq_getElem, hresponse, hdelayed, nextOutput_one]
    exact hsum

theorem referenceOutput_identity (x : Signal) (filter : Filter) :
    referenceOutput x .identity filter = .ok (filter.apply x) := by
  rw [referenceOutput_eq, Factors.identity, upsample_one]
  exact congrArg Except.ok (everyFrom_one _)

/-- **A delay filter delays.**  The taps are accepted, and without resampling the output for a
signal of finite samples is as long as the signal and begins with `d` zeros, or with as many as it
has samples; then follow the first samples of the signal, up to the sign of a zero. -/
theorem referenceOutput_delay {x : Signal} (hfinite : ∀ s ∈ x, isFinite s = true) (d : Nat) :
    Filter.make [1] (List.replicate d 0 ++ [1]) = .ok (.delay d) ∧
    ∃ y, referenceOutput x .identity (.delay d) = .ok y ∧ y.length = x.length ∧
      List.Forall₂ Alike y
        (List.replicate (min d x.length) 0 ++ x.take (x.length - d)) :=
  ⟨Filter.make_eq_ok (filterFault?_delayTaps d), (Filter.delay d).apply x,
    referenceOutput_identity x _, Filter.apply_length _ x, Filter.apply_delay hfinite d⟩

/-- A delay by more than the length of one signal, and of the smallest number behind a zero. -/
theorem referenceOutput_delay_tiny :
    (∃ y, referenceOutput [1.5, -2] .identity (.delay 3) = .ok y ∧ List.Forall₂ Alike y [0, 0]) ∧
    ∃ y, referenceOutput [-0.0, 5e-324, 1e308] .identity (.delay 1) = .ok y ∧
      List.Forall₂ Alike y [0, -0.0, 5e-324] := by
  obtain ⟨-, y, hy, -, hlong⟩ := referenceOutput_delay (x := [1.5, -2]) (by decide +kernel) 3
  obtain ⟨-, z, hz, -, htiny⟩ :=
    referenceOutput_delay (x := [-0.0, 5e-324, 1e308]) (by decide +kernel) 1
  exact ⟨⟨y, hy, hlong⟩, z, hz, htiny⟩

-- The filter that changes nothing does change the sign of a zero.
example : Filter.delay 0 = Filter.identity ∧
    referenceOutput [-0.0, 3] .identity (.delay 0) = .ok [0.0, 3] :=
  ⟨rfl, by decide +kernel⟩

end FilterReference
