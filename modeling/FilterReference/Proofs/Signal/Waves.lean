/-
# Integer samples

The samples of a recording with one channel are loaded as exact fractions of full scale, in order
and none of them lost.  A file with any other number of channels is no signal
(`Signal.load_recording`).
-/
import FilterReference.Proofs.Signal.Container
import FilterReference.Proofs.Signal.Loading
import FilterReference.Proofs.Text.Utf8

namespace FilterReference

open Binary

namespace Wave

theorem scaled_exact {d : Depth} {v : Int} (h : d.Holds v) :
    isFinite (scaled d.bits v) = true ∧ number (scaled d.bits v) = v / 2 ^ (d.bits - 1) ∧
      -1 ≤ number (scaled d.bits v) ∧ number (scaled d.bits v) < 1 := by
  obtain ⟨hlow, hhigh⟩ := h
  have hpow : (2 : Int) ^ (d.bits - 1) ≤ 2 ^ 31 := by cases d <;> decide
  have hfinite : isFinite (scaled d.bits v) = true := isFinite_scaled (by omega)
  have hpos : (0 : ℚ) < 2 ^ (d.bits - 1) := by positivity
  have habs : |(v / 2 ^ (d.bits - 1) : ℚ)| = v.natAbs * 2 ^ (-(d.bits - 1 : Nat) : Int) := by
    rw [abs_div, abs_of_pos hpos, Nat.cast_natAbs, Int.cast_abs, zpow_neg, zpow_natCast,
      div_eq_mul_inv]
  have hnearest : Nearest (scaled d.bits v) (v / 2 ^ (d.bits - 1)) := by
    refine nearest_ofQuotient (Nat.two_pow_pos _).ne' ?_ fun _ => ?_
    · rw [habs, zpow_neg, zpow_natCast, div_eq_mul_inv, Nat.cast_pow, Nat.cast_ofNat]
    · rw [decide_eq_decide, div_lt_iff₀ hpos, zero_mul, Int.cast_lt_zero]
  have hsmall : (d.bits - 1 : Nat) ≤ 31 := by cases d <;> decide
  have hnumber := hnearest.number_eq hfinite (by omega) (by omega) habs
  refine ⟨hfinite, hnumber, ?_, ?_⟩
  · rw [hnumber, le_div_iff₀ hpos, neg_one_mul]
    exact_mod_cast hlow
  · rw [hnumber, div_lt_one hpos]
    exact_mod_cast hhigh

theorem Recording.toList_content (r : Recording) : r.content.toList = r.bytes := by
  rw [Text.toList_eq_data]
  exact List.toList_toArray

end Wave

namespace Signal

theorem ofWaveBytes_mono {d : Wave.Depth} {bytes trailer : List UInt8} {samples : List Int}
    (hsamples : ∀ v ∈ samples, d.Holds v)
    (hopen : Wave.openBytes bytes =
      .ok (d.format 1, samples.length, samples.flatMap d.stored ++ trailer)) :
    ofWaveBytes bytes = .ok (samples.map (Wave.scaled d.bits)) := by
  have hmono : (d.format 1).channels = 1 := rfl
  simp only [ofWaveBytes, hopen, hmono, ne_eq, not_true_eq_false, if_false,
    Wave.takeSamples_stored d 1 hsamples trailer]

theorem openBytes_mono {r : Wave.Recording} (hchannels : r.channels = 1) {samples : List Int}
    (hdata : r.data = samples.flatMap r.depth.stored) :
    Wave.openBytes r.bytes =
      .ok (r.depth.format 1, samples.length, samples.flatMap r.depth.stored ++ r.trailer) := by
  have hcount : r.data.length / r.depth.container = samples.length := by
    rw [hdata, Wave.Depth.length_flatMap_stored, Nat.mul_div_cancel _ r.depth.container_pos]
  have hwhole : samples.length * r.depth.container = r.data.length := by
    rw [hdata, Wave.Depth.length_flatMap_stored]
  rw [Wave.openBytes_recording, hchannels, if_neg Nat.one_ne_zero, hcount]
  dsimp only
  rw [hwhole, Wave.check_eq_ok (beq_self_eq_true _), ok_bind, Nat.mod_one, ← hdata]
  rfl

theorem ofWaveBytes_channels {bytes rest : List UInt8} {format : Wave.Format} {count : Nat}
    (hopen : Wave.openBytes bytes = .ok (format, count, rest)) (h : format.channels ≠ 1) :
    ofWaveBytes bytes = .error (.channels format.channels) := by
  simp only [ofWaveBytes, hopen]
  exact if_pos h

theorem exists_fault_of_channels {r : Wave.Recording} (h : r.channels ≠ 1) :
    ∃ fault, ofWaveBytes r.bytes = .error fault := by
  cases hopen : Wave.openBytes r.bytes with
  | error fault =>
      refine ⟨.waveHeader fault, ?_⟩
      simp only [ofWaveBytes, hopen]
  | ok opened =>
      obtain ⟨format, count, rest⟩ := opened
      have hformat : format = r.depth.format r.channels := by
        rw [Wave.openBytes_recording] at hopen
        split_ifs at hopen
        obtain ⟨_, -, hframe⟩ := bind_eq_ok_iff.mp hopen
        obtain ⟨_, -, hreturn⟩ := bind_eq_ok_iff.mp hframe
        cases hreturn
        rfl
      subst hformat
      exact ⟨_, ofWaveBytes_channels hopen h⟩

section Load

variable {path : String} {s : Store} {content : ByteArray}

theorem load_wave (hname : isWaveName path = true) (hopen : s.openPath path = .ok (.file content)) :
    (load path : StateM Store (Except MalformedInput Signal)) s =
      (match ofWaveBytes content.toList with
        | .error fault => .error ⟨path, fault⟩
        | .ok [] => .error ⟨path, .noSamples⟩
        | .ok xs => .ok xs, s) := by
  rw [load_store, hopen, ofOpened, if_pos hname]
  rfl

/-- **One channel**: what the reader has opened is loaded without an error in any sample. -/
theorem load_of_openBytes (hname : isWaveName path = true)
    (hopen : s.openPath path = .ok (.file content)) {d : Wave.Depth} {samples : List Int}
    {trailer : List UInt8} (hne : samples ≠ []) (hsamples : ∀ v ∈ samples, d.Holds v)
    (hheader : Wave.openBytes content.toList =
      .ok (d.format 1, samples.length, samples.flatMap d.stored ++ trailer)) :
    ∃ xs, (load path : StateM Store (Except MalformedInput Signal)) s = (.ok xs, s) ∧
      List.Forall₂ (fun (v : Int) (x : Float) => isFinite x = true ∧
        number x = v / 2 ^ (d.bits - 1) ∧ -1 ≤ number x ∧ number x < 1) samples xs := by
  refine ⟨samples.map (Wave.scaled d.bits), ?_, ?_⟩
  · rw [load_wave hname hopen, ofWaveBytes_mono hsamples hheader]
    obtain ⟨v, others, rfl⟩ := List.exists_cons_of_ne_nil hne
    rfl
  · rw [List.forall₂_map_right_iff, List.forall₂_same]
    exact fun v hv => Wave.scaled_exact (hsamples v hv)

end Load

/-- **Integer samples are loaded exactly.**  Under the name of a wave file, a recording with one
channel and some samples is loaded with a finite sample for each of the stored integers `v`, in
order: `v` over `2 ^ (n - 1)` for `n` bits, from `-1` on and below `1`.  A recording with another
number of channels is refused, whatever its data.

A `Recording` leaves out what the reader refuses: 32 bits behind a format chunk of kind 1 with 18 or
40 bytes, and a pad byte behind a chunk of odd length, which is taken for the start of the next one.
The last two parts are about whatever the reader opens, recording or not: with integers of one
channel it is loaded as above, and with other channels than one it is refused. -/
theorem load_recording {path : String} (hname : isWaveName path = true) (s : Store) :
    (∀ (r : Wave.Recording) (samples : List Int), s.openPath path = .ok (.file r.content) →
      r.channels = 1 → samples ≠ [] → (∀ v ∈ samples, r.depth.Holds v) →
      r.data = samples.flatMap r.depth.stored →
      ∃ xs, (load path : StateM Store (Except MalformedInput Signal)) s = (.ok xs, s) ∧
        List.Forall₂ (fun (v : Int) (x : Float) => isFinite x = true ∧
          number x = v / 2 ^ (r.depth.bits - 1) ∧ -1 ≤ number x ∧ number x < 1) samples xs) ∧
    (∀ r : Wave.Recording, s.openPath path = .ok (.file r.content) → r.channels ≠ 1 →
      ∃ fault, (load path : StateM Store (Except MalformedInput Signal)) s =
        (.error ⟨path, fault⟩, s)) ∧
    (∀ (d : Wave.Depth) (samples : List Int) content trailer,
      s.openPath path = .ok (.file content) → samples ≠ [] → (∀ v ∈ samples, d.Holds v) →
      Wave.openBytes content.toList =
        .ok (d.format 1, samples.length, samples.flatMap d.stored ++ trailer) →
      ∃ xs, (load path : StateM Store (Except MalformedInput Signal)) s = (.ok xs, s) ∧
        List.Forall₂ (fun (v : Int) (x : Float) => isFinite x = true ∧
          number x = v / 2 ^ (d.bits - 1) ∧ -1 ≤ number x ∧ number x < 1) samples xs) ∧
    ∀ content format count rest, s.openPath path = .ok (.file content) →
      Wave.openBytes content.toList = .ok (format, count, rest) → format.channels ≠ 1 →
      (load path : StateM Store (Except MalformedInput Signal)) s =
        (.error ⟨path, .channels format.channels⟩, s) := by
  refine ⟨?_, ?_, ?_, ?_⟩
  · intro r samples hopen hchannels hne hsamples hdata
    have hheader : Wave.openBytes r.content.toList =
        .ok (r.depth.format 1, samples.length, samples.flatMap r.depth.stored ++ r.trailer) := by
      rw [r.toList_content, openBytes_mono hchannels hdata]
    exact load_of_openBytes hname hopen hne hsamples hheader
  · intro r hopen hchannels
    obtain ⟨fault, hfault⟩ := exists_fault_of_channels hchannels
    exact ⟨fault, by rw [load_wave hname hopen, r.toList_content, hfault]⟩
  · intro d samples content trailer hopen hne hsamples hheader
    exact load_of_openBytes hname hopen hne hsamples hheader
  · intro content format count rest hopen hheader hchannels
    rw [load_wave hname hopen, ofWaveBytes_channels hheader hchannels]

/-- The ends of the range of 32 bits and zero, in an extensible format among other chunks. -/
def extremes : Wave.Recording where
  depth := .thirtyTwo
  form := .extensible 32 #v[4, 0, 0, 0]
  fits := Or.inl rfl
  channels := 1
  rate := 8000
  rate_lt := by decide
  frame_lt := by decide
  byteRate_lt := by decide
  length := #v[0, 0, 0, 0]
  before := [.other #v[0x4c, 0x49, 0x53, 0x54] [0, 0] (by decide) (by decide)]
  between := [.fact #v[3, 0, 0, 0]]
  data := [-2 ^ 31, 2 ^ 31 - 1, 0].flatMap Wave.Depth.thirtyTwo.stored
  data_lt := by decide
  trailer := [0]

/-- Two channels of 16 bits, and half a frame. -/
def halfFrame : Wave.Recording where
  depth := .sixteen
  form := .plain
  fits := trivial
  channels := 2
  rate := 8000
  rate_lt := by decide
  frame_lt := by decide
  byteRate_lt := by decide
  length := #v[0, 0, 0, 0]
  before := []
  between := []
  data := Wave.Depth.sixteen.stored 1
  data_lt := by decide
  trailer := []

def wholeFrame : Wave.Recording where
  __ := halfFrame
  data := [1, -1].flatMap Wave.Depth.sixteen.stored
  data_lt := by decide

theorem load_recording_extremes :
    let s (r : Wave.Recording) : Store := ⟨[(["Tone.WAV"], .file r.content 0o644)]⟩
    (∃ xs, (load "Tone.WAV" : StateM Store (Except MalformedInput Signal)) (s extremes) =
        (.ok xs, s extremes) ∧
      List.Forall₂ (fun (v : Int) (x : Float) => isFinite x = true ∧ number x = v / 2 ^ 31 ∧
        -1 ≤ number x ∧ number x < 1) [-2 ^ 31, 2 ^ 31 - 1, 0] xs) ∧
    (∃ fault, (load "Tone.WAV" : StateM Store (Except MalformedInput Signal)) (s halfFrame) =
      (.error ⟨"Tone.WAV", fault⟩, s halfFrame)) ∧
    (load "Tone.WAV" : StateM Store (Except MalformedInput Signal)) (s wholeFrame) =
      (.error ⟨"Tone.WAV", .channels 2⟩, s wholeFrame) := by
  intro s
  have hopen : ∀ r : Wave.Recording, (s r).openPath "Tone.WAV" = .ok (.file r.content) :=
    fun _ => rfl
  have hname : isWaveName "Tone.WAV" = true := by decide +kernel
  have hholds : ∀ v ∈ [-2 ^ 31, 2 ^ 31 - 1, 0], Wave.Depth.thirtyTwo.Holds v := by
    simp [Wave.Depth.Holds, Wave.Depth.bits]
  have hheader : Wave.openBytes wholeFrame.content.toList =
      .ok (wholeFrame.depth.format 2, 2, wholeFrame.tail) := by
    rw [wholeFrame.toList_content, Wave.openBytes_recording]
    rfl
  exact ⟨(load_recording hname (s extremes)).1 extremes _ (hopen extremes) rfl
      (List.cons_ne_nil _ _) hholds rfl,
    (load_recording hname (s halfFrame)).2.1 halfFrame (hopen halfFrame) (by decide),
    (load_recording hname (s wholeFrame)).2.2.2 _ _ _ _ (hopen wholeFrame) hheader (by decide)⟩

end Signal

end FilterReference
