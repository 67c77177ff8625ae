/-
# What a loaded signal holds

A signal is loaded with at least one sample, or refused as malformed input.  Text cells are looked
at one by one and integer samples are small quotients, so their numbers are finite.
Single-precision samples are taken as they are stored (`Wave.takeSamples_of_single`), so a loaded
signal is finite unless the file is a wave file of that encoding with a word of infinity or beyond
(`Signal.load_outcome`).
-/
import FilterReference.Files.Store
import FilterReference.Proofs.Binary.Counts
import FilterReference.Proofs.Traversal
import FilterReference.Signal.Loading

namespace FilterReference

open Binary

namespace Binary

/-- The pattern of infinity is where a further power of two would stand. -/
theorem value_single_infinity : binary32.value binary32.infinity = 2 ^ (128 : Int) := by
  have h := binary32.value_pattern (e := 254) (m := 2 ^ 23) (by decide) (Or.inr (le_refl _))
  change binary32.value (254 * 2 ^ 23 + 2 ^ 23) = _ at h
  rw [show binary32.infinity = 254 * 2 ^ 23 + 2 ^ 23 by decide, h]
  change (((2 ^ 23 : Nat) : ℚ)) * 2 ^ (-149 + 254 : Int) = _
  rw [Nat.cast_pow, Nat.cast_ofNat, ← zpow_natCast, ← zpow_add₀ (by norm_num)]
  norm_num

theorem isFinite_ofSingle_iff {n : Nat} :
    isFinite (ofSingle n) = true ↔ n % 2 ^ 31 < binary32.infinity := by
  unfold ofSingle
  dsimp only
  split_ifs with hbeyond hequal
  · have hnot : isFinite notANumber = false := rfl
    rw [hnot]
    simp only [Bool.false_eq_true, false_iff]
    omega
  · rw [isFinite, magnitude_ofParts _ (le_refl _), hequal]
    simp
  · have hm : n % 2 ^ 31 < binary32.infinity := by omega
    simp only [hm, iff_true]
    refine isFinite_ofQuotient _ (binary32.quotient_pos _).ne' ?_
    rw [binary32.quotient_eq]
    refine (binary32.value_le_value.mpr hm.le).trans ?_
    rw [value_single_infinity]
    exact zpow_le_zpow_right₀ (by norm_num) (by norm_num)

end Binary

/-! ## Wave files

An integer of at most 32 bits divided by a power of two is finite without a look at the quotient.
The words of single precision are doubles as they are, infinities and all, so what is stored
decides. -/

namespace Wave

theorem littleEndian_lt (bytes : List UInt8) : littleEndian bytes < 256 ^ bytes.length := by
  induction bytes with
  | nil => exact Nat.one_pos
  | cons b rest ih =>
      have hb : b.toNat < 256 := b.toNat_lt
      rw [littleEndian, List.length_cons, Nat.pow_succ]
      omega

theorem takeWord_eq_ok {n w : Nat} {bytes rest : List UInt8}
    (h : takeWord n bytes = .ok (w, rest)) :
    w = littleEndian (bytes.take n) ∧ rest = bytes.drop n ∧ w < 256 ^ n := by
  obtain ⟨⟨taken, after⟩, htake, hword⟩ := bind_eq_ok_iff.mp h
  simp only [takeBytes, List.splitAt_eq] at htake
  split_ifs at htake with hlength
  cases htake
  cases hword
  refine ⟨rfl, rfl, ?_⟩
  have hlt := littleEndian_lt (bytes.take n)
  rwa [hlength] at hlt

theorem natAbs_signed_le {bits n : Nat} (hbits : bits ≤ 32) (hn : n < 2 ^ 32) :
    (signed bits n).natAbs ≤ 2 ^ 32 := by
  have hpow : 2 ^ bits ≤ 2 ^ 32 := Nat.pow_le_pow_right (by decide) hbits
  unfold signed
  split_ifs
  · rw [Int.natAbs_natCast]
    exact hn.le
  · have hpos : (0 : Int) ≤ 2 ^ bits := by positivity
    have hnonneg := Int.natCast_nonneg n
    zify at hpow hn ⊢
    rw [abs_le]
    constructor <;> linarith

theorem natAbs_takeInteger_le {f : Format} {bytes rest : List UInt8} {v : Int}
    (h : takeInteger f bytes = .ok (v, rest)) : v.natAbs ≤ 2 ^ 32 := by
  unfold takeInteger at h
  split_ifs at h
  all_goals
    obtain ⟨⟨n, after⟩, hword, hv⟩ := bind_eq_ok_iff.mp h
    obtain ⟨-, -, hn⟩ := takeWord_eq_ok hword
    cases hv
  · omega
  · exact natAbs_signed_le (by decide) (by omega)
  · exact natAbs_signed_le (by decide) (by omega)
  · exact natAbs_signed_le (by decide) (by omega)
  · exact natAbs_signed_le (by decide) (by omega)

theorem isFinite_scaled {bits : Nat} {v : Int} (h : v.natAbs ≤ 2 ^ 32) :
    isFinite (scaled bits v) = true := by
  refine isFinite_ofQuotient _ (Nat.two_pow_pos _).ne' ?_
  have hone : (1 : ℚ) ≤ ((2 ^ (bits - 1) : Nat) : ℚ) := by exact_mod_cast Nat.one_le_two_pow
  calc (v.natAbs : ℚ) / ((2 ^ (bits - 1) : Nat) : ℚ) ≤ v.natAbs :=
        div_le_self (Nat.cast_nonneg _) hone
    _ ≤ 2 ^ 32 := by exact_mod_cast h
    _ = 2 ^ (32 : Int) := rfl
    _ ≤ 2 ^ (1023 : Int) := zpow_le_zpow_right₀ (by norm_num) (by norm_num)

theorem isFinite_takeSamples_of_integer {f : Format} (hf : f.encoding = .integer) {count : Nat}
    {bytes : List UInt8} {xs : List Float} (h : takeSamples f count bytes = .ok xs) :
    ∀ x ∈ xs, isFinite x = true := by
  induction count generalizing bytes xs with
  | zero =>
      cases h
      exact List.forall_mem_nil _
  | succ count ih =>
      obtain ⟨⟨x, rest⟩, hx, hrest⟩ := bind_eq_ok_iff.mp h
      obtain ⟨ys, hys, heq⟩ := bind_eq_ok_iff.mp hrest
      cases heq
      rw [takeSample, hf] at hx
      obtain ⟨⟨v, after⟩, hv, hscaled⟩ := bind_eq_ok_iff.mp hx
      cases hscaled
      exact List.forall_mem_cons.mpr ⟨isFinite_scaled (natAbs_takeInteger_le hv), ih hys⟩

/-- The words of the next `count` single-precision samples. -/
def singleWords : Nat → List UInt8 → List Nat
  | 0, _ => []
  | count + 1, bytes => littleEndian (bytes.take 4) :: singleWords count (bytes.drop 4)

theorem takeSamples_of_single {f : Format} (hf : f.encoding = .single) {count : Nat}
    {bytes : List UInt8} {xs : List Float} (h : takeSamples f count bytes = .ok xs) :
    xs = (singleWords count bytes).map ofSingle := by
  induction count generalizing bytes xs with
  | zero =>
      cases h
      rfl
  | succ count ih =>
      obtain ⟨⟨x, rest⟩, hx, hrest⟩ := bind_eq_ok_iff.mp h
      obtain ⟨ys, hys, heq⟩ := bind_eq_ok_iff.mp hrest
      cases heq
      rw [takeSample, hf] at hx
      dsimp only at hx
      split_ifs at hx
      obtain ⟨⟨n, after⟩, hn, hsingle⟩ := bind_eq_ok_iff.mp hx
      obtain ⟨rfl, rfl, -⟩ := takeWord_eq_ok hn
      cases hsingle
      rw [ih hys]
      rfl

/-- Some of the samples are stored as single-precision words of infinity or beyond. -/
def StoresNonFinite (bytes : List UInt8) : Prop :=
  ∃ format count rest, openBytes bytes = .ok (format, count, rest) ∧ format.encoding = .single ∧
    ∃ w ∈ singleWords count rest, binary32.infinity ≤ w % 2 ^ 31

end Wave

namespace Signal

theorem finite_ofWaveBytes_iff {bytes : List UInt8} {xs : List Float}
    (h : ofWaveBytes bytes = .ok xs) :
    (∀ x ∈ xs, isFinite x = true) ↔ ¬ Wave.StoresNonFinite bytes := by
  unfold ofWaveBytes at h
  split at h
  · cases h
  · rename_i format count rest hopen
    split_ifs at h
    split at h
    · cases h
    · rename_i ys hys
      cases h
      cases hencoding : format.encoding with
      | integer =>
          refine iff_of_true (Wave.isFinite_takeSamples_of_integer hencoding hys) ?_
          rintro ⟨format', count', rest', hopen', hsingle, -⟩
          rw [hopen] at hopen'
          cases hopen'
          rw [hencoding] at hsingle
          cases hsingle
      | single =>
          rw [Wave.takeSamples_of_single hencoding hys, List.forall_mem_map]
          simp only [isFinite_ofSingle_iff]
          constructor
          · rintro hall ⟨format', count', rest', hopen', -, w, hw, hbeyond⟩
            rw [hopen] at hopen'
            cases hopen'
            exact absurd (hall w hw) (Nat.not_lt.mpr hbeyond)
          · intro hnone w hw
            by_contra hbeyond
            exact hnone ⟨format, count, rest, hopen, hencoding, w, hw, Nat.not_lt.mp hbeyond⟩

end Signal

/-! ## Text files -/

namespace Samples

theorem isFinite_ofCells {line : Nat} {cells : List (List Char)} {x : Float}
    (h : ofCells line cells = .ok (some x)) : isFinite x = true := by
  unfold ofCells at h
  split at h
  · cases h
  · split at h
    · cases h
    · split_ifs at h with hfinite
      cases h
      exact hfinite
  · cases h

theorem isFinite_ofRows {number : Nat} {rows : List Row} {xs : List Float}
    (h : ofRows number rows = .ok xs) : ∀ x ∈ xs, isFinite x = true := by
  induction rows generalizing number xs with
  | nil =>
      cases h
      exact List.forall_mem_nil _
  | cons row rows ih =>
      obtain ⟨fields, -, hfields⟩ := bind_eq_ok_iff.mp h
      obtain ⟨sample?, hsample, hrest⟩ := bind_eq_ok_iff.mp hfields
      obtain ⟨ys, hys, heq⟩ := bind_eq_ok_iff.mp hrest
      cases heq
      intro x hx
      rcases List.mem_append.mp hx with hx | hx
      · rw [Option.mem_toList] at hx
        rw [hx] at hsample
        exact isFinite_ofCells hsample
      · exact ih hys x hx

end Samples

/-! ## Loading -/

namespace Signal

/-- The file is a wave file by its name, and some of the samples in it are stored as words of
infinity or beyond. -/
def HoldsNonFiniteWord (path : String) (opened : Except FileError Opened) : Prop :=
  isWaveName path = true ∧
    ∃ content, opened = .ok (.file content) ∧ Wave.StoresNonFinite content.toList

theorem finite_ofWaveFile_iff {opened : Except FileError Opened} {xs : List Float}
    (h : ofWaveFile opened = .ok xs) :
    (∀ x ∈ xs, isFinite x = true) ↔
      ¬ ∃ content, opened = .ok (.file content) ∧ Wave.StoresNonFinite content.toList := by
  rcases opened with e | content | _
  · cases h
  · rw [finite_ofWaveBytes_iff h]
    simp
  · cases h

theorem isFinite_ofTextFile {opened : Except FileError Opened} {xs : List Float}
    (h : ofTextFile opened = .ok xs) : ∀ x ∈ xs, isFinite x = true := by
  rcases opened with e | content | _
  · cases h
  · simp only [ofTextFile, Opened.read] at h
    split at h
    · cases h
    · rename_i ys hys
      cases h
      exact Samples.isFinite_ofRows hys
  · cases h

theorem ofOpened_eq_ok_iff {path : String} {opened : Except FileError Opened} {xs : Signal} :
    ofOpened path opened = .ok xs ↔
      (if isWaveName path then ofWaveFile opened else ofTextFile opened) = .ok xs ∧ xs ≠ [] := by
  unfold ofOpened
  split
  · rename_i fault hfault
    simp [hfault]
  · rename_i hnone
    rw [hnone]
    constructor
    · intro h
      cases h
    · rintro ⟨h, hne⟩
      cases h
      exact absurd rfl hne
  · rename_i ys hne hys
    rw [hys]
    constructor
    · intro h
      cases h
      exact ⟨rfl, hne⟩
    · rintro ⟨h, -⟩
      cases h
      rfl

theorem path_of_ofOpened_eq_error {path : String} {opened : Except FileError Opened}
    {e : MalformedInput} (h : ofOpened path opened = .error e) : e.path = path := by
  unfold ofOpened at h
  split at h <;> cases h <;> rfl

theorem finite_ofOpened_iff {path : String} {opened : Except FileError Opened} {xs : Signal}
    (h : ofOpened path opened = .ok xs) :
    (∀ x ∈ xs, isFinite x = true) ↔ ¬ HoldsNonFiniteWord path opened := by
  obtain ⟨hsamples, -⟩ := ofOpened_eq_ok_iff.mp h
  split_ifs at hsamples with hname
  · rw [finite_ofWaveFile_iff hsamples, HoldsNonFiniteWord]
    simp [hname]
  · refine iff_of_true (isFinite_ofTextFile hsamples) ?_
    rintro ⟨hwave, -⟩
    exact hname hwave

theorem load_store (path : String) (s : Store) :
    (load path : StateM Store (Except MalformedInput Signal)) s =
      (ofOpened path (s.openPath path), s) := rfl

/-- **What comes of loading a signal.**  It is refused as malformed input at its path, or it has
samples, and they are finite unless the path names a wave file that stores a single-precision word
of infinity or beyond. -/
theorem load_outcome (path : String) (s : Store) :
    match (load path : StateM Store (Except MalformedInput Signal)) s with
    | (.error e, t) => t = s ∧ e.path = path
    | (.ok xs, t) => t = s ∧ xs ≠ [] ∧
        ((∀ x ∈ xs, isFinite x = true) ↔ ¬ HoldsNonFiniteWord path (s.openPath path)) := by
  rw [load_store]
  cases h : ofOpened path (s.openPath path) with
  | error e => exact ⟨rfl, path_of_ofOpened_eq_error h⟩
  | ok xs => exact ⟨rfl, (ofOpened_eq_ok_iff.mp h).2, finite_ofOpened_iff h⟩

/-- A wave file with one single-precision sample, which is not a number. -/
def notANumberWave : ByteArray :=
  ⟨(Wave.tag "RIFF" ++ [40, 0, 0, 0] ++ Wave.tag "WAVEfmt " ++
    [16, 0, 0, 0, 3, 0, 1, 0, 0x40, 0x1f, 0, 0, 0, 0x7d, 0, 0, 4, 0, 32, 0] ++
    Wave.tag "data" ++ [4, 0, 0, 0, 0, 0, 0xc0, 0x7f]).toArray⟩

/-- A sample that is not a number is loaded. -/
theorem load_notANumber :
    let s : Store := ⟨[(["x.wav"], .file notANumberWave 0o644)]⟩
    (load "x.wav" : StateM Store (Except MalformedInput Signal)) s = (.ok [notANumber], s) ∧
      isFinite notANumber = false := by
  refine ⟨?_, by decide +kernel⟩
  rw [load_store]
  have h : ofOpened "x.wav" (.ok (.file notANumberWave)) = .ok [notANumber] := by decide +kernel
  exact congrArg (·, _) h

end Signal

end FilterReference
