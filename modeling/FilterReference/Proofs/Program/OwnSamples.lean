/-
# Comparing a record with its own samples

The samples of a record come to a comparison by two ways: as JSON numbers of the record, and as the
lines of a text signal.  Both ways lead back to the same bits, so a record passes against the
beginning of its own samples with no error at all (`compare_own_samples`).
-/
import FilterReference.Proofs.Program.Comparison
import FilterReference.Proofs.Signal.Lines

namespace FilterReference

open Binary

namespace Signal

theorem load_lines {l : Layout} (hl : l.Legible) (ended : Bool) {xs : Signal} (hne : xs ≠ [])
    (hfinite : ∀ x ∈ xs, isFinite x = true) {s : Store} {path : String}
    (hname : isWaveName path = false)
    (hs : s.openPath path = .ok (.file (lines l ended xs).toUTF8)) :
    (load path : StateM Store (Except MalformedInput Signal)) s = (.ok xs, s) := by
  have hopened : ofOpened path (s.openPath path) = .ok xs := by
    rw [ofOpened_eq_ok_iff, hname, if_neg Bool.false_ne_true, hs]
    refine ⟨?_, hne⟩
    simp only [ofTextFile, Opened.read, Samples.ofText_lines hl ended hfinite]
  rw [load_store, hopened]

end Signal

namespace CompareRequest

theorem measured_none (r : CompareRequest) :
    r.measured {} =
      "Max error: 0e0 at sample 0\nTolerance: " ++ Layout.scientific.write r.tolerance ++ "\n" := by
  have hzero : Layout.scientific.write 0 = "0e0" := by decide +kernel
  unfold measured
  rw [hzero]
  rfl

end CompareRequest

theorem Record.read_render_unique {r loaded : Record} {text : String} (hdown : r.down < 2 ^ 64)
    (hup : r.up < 2 ^ 64) (hrender : r.render = .ok text) (hread : read text = .ok loaded) :
    loaded = r := by
  rw [read_render hdown hup hrender] at hread
  split at hread
  · cases hread
  · cases hread
  · cases hread
    rfl

/-- **A record passes against its own samples.**  Where the text of a record can be read at all, and
another file holds the beginning of its samples, one number to a line in the notation of messages or
in that of JSON text, with or without a line end behind the last, the comparison finds no error,
names the first sample and passes, whatever tolerance is not below zero. -/
theorem compare_own_samples [Trigonometry] {record : Record} {text : String}
    (hdown : record.down < 2 ^ 64) (hup : record.up < 2 ^ 64)
    (hrender : record.render = .ok text) (hread : ∃ loaded, Record.read text = .ok loaded)
    {xs : Signal} (hne : xs ≠ []) (hinitial : xs <+: record.samples)
    {l : Layout} (hl : l = Layout.plain ∨ l = Json.numbers) (ended : Bool)
    {args : List String} {r : CompareRequest} (hargs : Request.ofArguments args = .ok (.compare r))
    (htolerance : 0 ≤ r.tolerance) (hname : Signal.isWaveName r.candidate = false) {s : Store}
    (hreference : s.openPath r.reference = .ok (.file text.toUTF8))
    (hcandidate : s.openPath r.candidate = .ok (.file (Signal.lines l ended xs).toUTF8)) :
    (runProgram args : StateM Store Ending) s =
      (⟨0, r.heading record xs ++
        ("Max error: 0e0 at sample 0\nTolerance: " ++ Layout.scientific.write r.tolerance ++ "\n") ++
        "PASS\n", ""⟩, s) := by
  obtain ⟨loaded, hread⟩ := hread
  obtain rfl := Record.read_render_unique hdown hup hrender hread
  have hfinite : ∀ x ∈ xs, isFinite x = true := by
    have hall := (Record.render_eq_ok_iff.mp hrender).1
    intro x hx
    exact (Record.allFinite_iff.mp hall).2.2 x (hinitial.subset hx)
  have hlegible : l.Legible := by
    rcases hl with rfl | rfl
    · exact Layout.legible_plain
    · exact Layout.legible_numbers
  have hrecord : (Record.load r.reference : StateM Store (Except RecordReadError Record)) s =
      (.ok loaded, s) := by
    rw [Record.load_store hreference, hread]
    rfl
  have hsignal := Signal.load_lines hlegible ended hne hfinite hname hcandidate
  rw [CompareRequest.runProgram_store hargs hrecord hsignal,
    Record.compare_of_initial hinitial hfinite htolerance, ← CompareRequest.measured_none]
  rfl

/-- A record of two samples, one of them the smallest number there is. -/
def tinyRecord : Record where
  down := 3
  up := 2
  denominator := [1]
  numerator := [0.5]
  isFir := false
  samples := [-0, ofParts true 1, 0.1]

/-- The record, and a candidate with the first two of its samples. -/
def ownSampleFiles : Store where
  entries := [
    (["r.json"], .file tinyRecord.toJson.render.toUTF8 0o644),
    (["c.txt"], .file (Signal.lines Layout.plain false [-0, ofParts true 1]).toUTF8 0o644)]

theorem compare_own_samples_tiny :
    (runProgram ["compare", "r.json", "c.txt", "--tolerance", "0"] : StateM Store Ending)
        ownSampleFiles =
      (⟨0, "Reference: r.json (3 samples)\nCandidate: c.txt (2 samples)\n" ++
        "Max error: 0e0 at sample 0\nTolerance: 0e0\nPASS\n", ""⟩, ownSampleFiles) := by
  have hargs : Request.ofArguments ["compare", "r.json", "c.txt", "--tolerance", "0"] =
      .ok (.compare ⟨"r.json", "c.txt", 0⟩) := by decide +kernel
  have hrender : tinyRecord.render = .ok tinyRecord.toJson.render :=
    Record.render_eq_ok_iff.mpr ⟨by decide +kernel, rfl⟩
  have hread : ∃ loaded, Record.read tinyRecord.toJson.render = .ok loaded :=
    ⟨tinyRecord, Record.read_render (by decide) (by decide) hrender⟩
  have hinitial : [-0, ofParts true 1] <+: tinyRecord.samples := ⟨[0.1], rfl⟩
  have hname : Signal.isWaveName "c.txt" = false := by decide +kernel
  have htolerance : (0 : Float) ≤ 0 := by decide +kernel
  have hzero : Layout.scientific.write 0 = "0e0" := by decide +kernel
  rw [compare_own_samples (by decide) (by decide) hrender hread (by decide) hinitial (Or.inl rfl)
    false hargs htolerance hname rfl rfl]
  simp only [hzero]
  rfl

end FilterReference
