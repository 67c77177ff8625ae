/-
# Steps that can fail, one after the other

A list is gone through with a step that can fail.  All steps succeed and their results stand in the
same places (`mapM_eq_ok_iff`), or the error is that of the first step that fails
(`mapM_eq_error_iff`).
-/
import Mathlib.Data.List.Forall2
import Mathlib.Tactic

namespace FilterReference

variable {α β ε : Type} {f : α → Except ε β}

theorem ok_bind (a : α) (f : α → Except ε β) : (Except.ok a >>= f) = f a := rfl

theorem bind_eq_ok_iff {x : Except ε α} {b : β} :
    x >>= f = .ok b ↔ ∃ a, x = .ok a ∧ f a = .ok b := by
  cases x with
  | error e =>
      constructor
      · intro h
        cases h
      · rintro ⟨_, h, -⟩
        cases h
  | ok a =>
      constructor
      · exact fun h => ⟨a, rfl, h⟩
      · rintro ⟨_, ⟨⟩, h⟩
        exact h

/-- An error stands for the results there are not. -/
theorem error_eq_ok_iff {P : β → Prop} (e : ε) (h : ∀ b, ¬ P b) (b : β) :
    (.error e : Except ε β) = .ok b ↔ P b := by
  constructor
  · intro heq
    cases heq
  · intro hb
    exact absurd hb (h b)

theorem bind_eq_error_iff {x : Except ε α} {e : ε} :
    x >>= f = .error e ↔ x = .error e ∨ ∃ a, x = .ok a ∧ f a = .error e := by
  cases x with
  | error e' =>
      constructor
      · intro h
        cases h
        exact Or.inl rfl
      · rintro (h | ⟨_, h, -⟩) <;> cases h
        rfl
  | ok a =>
      constructor
      · exact fun h => Or.inr ⟨a, rfl, h⟩
      · rintro (h | ⟨_, ⟨⟩, h⟩)
        · cases h
        · exact h

theorem mapM_eq_ok_iff {xs : List α} {ys : List β} :
    xs.mapM f = .ok ys ↔ List.Forall₂ (fun x y => f x = .ok y) xs ys := by
  induction xs generalizing ys with
  | nil =>
      rw [List.mapM_nil, List.forall₂_nil_left_iff]
      exact ⟨fun h => by cases h; rfl, fun h => by rw [h]; rfl⟩
  | cons x xs ih =>
      rw [List.mapM_cons, bind_eq_ok_iff, List.forall₂_cons_left_iff]
      constructor
      · rintro ⟨y, hy, hrest⟩
        obtain ⟨zs, hzs, heq⟩ := bind_eq_ok_iff.mp hrest
        cases heq
        exact ⟨y, zs, hy, ih.mp hzs, rfl⟩
      · rintro ⟨y, zs, hy, hzs, rfl⟩
        exact ⟨y, hy, bind_eq_ok_iff.mpr ⟨zs, ih.mpr hzs, rfl⟩⟩

theorem mapM_eq_error_iff {xs : List α} {e : ε} :
    xs.mapM f = .error e ↔
      ∃ before x after, xs = before ++ x :: after ∧ (∀ z ∈ before, ∃ y, f z = .ok y) ∧
        f x = .error e := by
  induction xs with
  | nil =>
      constructor
      · intro h
        cases h
      · rintro ⟨before, x, after, h, -⟩
        cases before <;> cases h
  | cons x xs ih =>
      rw [List.mapM_cons, bind_eq_error_iff]
      constructor
      · rintro (hx | ⟨y, hy, hrest⟩)
        · exact ⟨[], x, xs, rfl, by simp, hx⟩
        · rcases bind_eq_error_iff.mp hrest with herror | ⟨_, _, h⟩
          · obtain ⟨before, z, after, rfl, hbefore, hz⟩ := ih.mp herror
            refine ⟨x :: before, z, after, rfl, ?_, hz⟩
            exact List.forall_mem_cons.mpr ⟨⟨y, hy⟩, hbefore⟩
          · cases h
      · rintro ⟨before, z, after, hsplit, hbefore, hz⟩
        cases before with
        | nil =>
            cases hsplit
            exact Or.inl hz
        | cons w before =>
            cases hsplit
            obtain ⟨⟨y, hy⟩, hbefore⟩ := List.forall_mem_cons.mp hbefore
            have herror := ih.mpr ⟨before, z, after, rfl, hbefore, hz⟩
            exact Or.inr ⟨y, hy, bind_eq_error_iff.mpr (Or.inl herror)⟩

theorem exists_mapM_eq_ok_iff {xs : List α} :
    (∃ ys, xs.mapM f = .ok ys) ↔ ∀ x ∈ xs, ∃ y, f x = .ok y := by
  constructor
  · rintro ⟨ys, hys⟩
    have hall := mapM_eq_ok_iff.mp hys
    clear hys
    induction hall with
    | nil => exact List.forall_mem_nil _
    | cons hx _ ih => exact List.forall_mem_cons.mpr ⟨⟨_, hx⟩, ih⟩
  · intro h
    cases hm : xs.mapM f with
    | error e =>
        obtain ⟨before, x, after, rfl, -, hx⟩ := mapM_eq_error_iff.mp hm
        obtain ⟨y, hy⟩ := h x (by simp)
        rw [hy] at hx
        cases hx
    | ok ys => exact ⟨ys, rfl⟩

theorem mapM_range_eq_ok {g : Nat → Except ε β} {n : Nat} (h : ∀ k < n, ∃ y, g k = .ok y) :
    ∃ ys, (List.range n).mapM g = .ok ys ∧ ys.length = n ∧
      ∀ k (hk : k < ys.length), g k = .ok ys[k] := by
  obtain ⟨ys, hys⟩ := exists_mapM_eq_ok_iff.mpr fun k hk => h k (List.mem_range.mp hk)
  obtain ⟨hlen, hget⟩ := List.forall₂_iff_get.mp (mapM_eq_ok_iff.mp hys)
  rw [List.length_range] at hlen
  refine ⟨ys, hys, hlen.symm, fun k hk => ?_⟩
  simpa using hget k (by simpa [hlen] using hk) hk

theorem mapM_range_eq_error {g : Nat → Except ε β} {n k : Nat} {e : ε} (hk : k < n)
    (hbefore : ∀ j < k, ∃ y, g j = .ok y) (he : g k = .error e) :
    (List.range n).mapM g = .error e := by
  refine mapM_eq_error_iff.mpr
    ⟨List.range k, k, (List.range (n - k - 1)).map (k + 1 + ·), ?_, ?_, he⟩
  · have hsum : n = k + 1 + (n - k - 1) := by omega
    conv_lhs => rw [hsum, List.range_add, List.range_succ]
    rw [List.append_assoc, List.singleton_append]
  · intro j hj
    exact hbefore j (List.mem_range.mp hj)

end FilterReference
