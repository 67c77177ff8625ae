/-
# Records are read as they were written

A record is written if all its numbers are finite, and the text is read back to the very record
(`Record.render_outcome_load`).  Writing goes through the lists of numbers in their order and stops
at the first number that is not finite (`Record.render_eq`); reading goes through the tree of the
text, which `Json.parse_render` knows, member by member (`Record.parse_render`).
-/
import FilterReference.Files.Store
import FilterReference.Proofs.Json.Reading
import FilterReference.Proofs.Signal.Checks
import FilterReference.Proofs.Text.Utf8
import FilterReference.Record.File

namespace FilterReference

open Binary Json

section Readers

variable {ε α σ : Type}

theorem readCount_integer {n : Nat} (hn : n < 2 ^ 64) :
    readCount (Json.integer n).toDocument = (.ok n : Reader ε Nat) := by
  have hword : IsWord n := by
    unfold IsWord
    omega
  rw [toDocument, readCount, readNumeral_integerNumeral hword, bind_eq_ok_iff]
  exact ⟨.inl n, rfl, if_pos (Int.natCast_nonneg n)⟩

theorem readFloat_float {x : Float} (hx : isFinite x = true) :
    readFloat (Json.float x).toDocument = (.ok x : Reader ε Float) := by
  rw [toDocument, readFloat, toFloat_floatNumeral hx, if_pos hx]

theorem readBool_bool (b : Bool) : readBool (Json.bool b).toDocument = (.ok b : Reader ε Bool) := by
  rw [toDocument, readBool]

theorem mapM_itemDocuments {item : Document → Reader ε α} {write : α → Json} {xs : List α}
    (h : ∀ x ∈ xs, item (write x).toDocument = .ok x) :
    (itemDocuments (xs.map write)).mapM item = .ok xs := by
  induction xs with
  | nil => rfl
  | cons x xs ih =>
      obtain ⟨hx, hxs⟩ := List.forall_mem_cons.mp h
      rw [List.map_cons, itemDocuments, List.mapM_cons, hx, ih hxs]
      rfl

theorem readList_ofFloats {xs : List Float} (hxs : ∀ x ∈ xs, isFinite x = true) :
    readList readFloat (ofFloats xs).toDocument = (.ok xs : Reader ε (List Float)) := by
  rw [ofFloats, toDocument, readList, mapM_itemDocuments]
  · rfl
  · intro x hx
    rw [if_pos (hxs x hx), readFloat_float (hxs x hx)]

theorem allFinite_ofFloats {xs : List Float} : (ofFloats xs).AllFinite := by
  rw [ofFloats, Json.AllFinite]
  induction xs with
  | nil => trivial
  | cons x xs ih =>
      refine ⟨?_, ih⟩
      dsimp only
      split_ifs with hx
      · exact hx
      · trivial

end Readers

namespace Record

/-! ## Writing

The three lists of numbers are one list of named lists here.  Which number is named by an error is
then a matter of the first failure in a list of steps. -/

/-- The lists of numbers in a record by the names of their fields, in the order of the text. -/
def floatFields (r : Record) : List (String × List Float) :=
  [("a", r.denominator), ("b", r.numerator), ("reference_data", r.samples)]

def AllFinite (r : Record) : Prop := ∀ field ∈ r.floatFields, ∀ x ∈ field.2, isFinite x = true

instance (r : Record) : Decidable r.AllFinite :=
  inferInstanceAs (Decidable (∀ field ∈ r.floatFields, ∀ x ∈ field.2, isFinite x = true))

/-- The first number of a record that is not finite stands at `e`: in a field before which all are
finite, and there before the others of the kind. -/
def FirstNonFinite (r : Record) (e : NonFinite) : Prop :=
  ∃ before xs after, r.floatFields = before ++ (e.field, xs) :: after ∧
    (∀ field ∈ before, ∀ x ∈ field.2, isFinite x = true) ∧
    ∃ h : e.index < xs.length, isFinite xs[e.index] = false ∧
      ∀ x ∈ xs.take e.index, isFinite x = true

end Record

theorem requireFinite_eq_ok_iff {field : String} {xs : List Float} {u : Unit} :
    requireFinite field xs = .ok u ↔ ∀ x ∈ xs, isFinite x = true := by
  rw [← firstNonFinite?_eq_none_iff, requireFinite]
  cases firstNonFinite? xs with
  | none => simp
  | some i => simp

theorem requireFinite_eq_error_iff {field : String} {xs : List Float} {e : NonFinite} :
    requireFinite field xs = .error e ↔
      e.field = field ∧ ∃ h : e.index < xs.length, isFinite xs[e.index] = false ∧
        ∀ x ∈ xs.take e.index, isFinite x = true := by
  obtain ⟨name, index⟩ := e
  rw [← firstNonFinite?_eq_some_iff, requireFinite]
  cases firstNonFinite? xs with
  | none => simp
  | some i => simp [eq_comm]

namespace Record

theorem render_eq (r : Record) :
    r.render = (do
      let _ ← r.floatFields.mapM fun field => requireFinite field.1 field.2
      return r.toJson.render) := by
  simp [render, floatFields, List.mapM_cons]

theorem render_eq_ok_iff {r : Record} {text : String} :
    r.render = .ok text ↔ r.AllFinite ∧ r.toJson.render = text := by
  rw [render_eq, bind_eq_ok_iff]
  constructor
  · rintro ⟨us, hfields, htext⟩
    refine ⟨fun field hfield => ?_, Except.ok.inj htext⟩
    obtain ⟨u, hu⟩ := exists_mapM_eq_ok_iff.mp ⟨us, hfields⟩ field hfield
    exact requireFinite_eq_ok_iff.mp hu
  · rintro ⟨hfinite, rfl⟩
    obtain ⟨us, hfields⟩ := exists_mapM_eq_ok_iff.mpr fun field hfield =>
      ⟨(), requireFinite_eq_ok_iff.mpr (hfinite field hfield)⟩
    exact ⟨us, hfields, rfl⟩

theorem render_eq_error_iff {r : Record} {e : NonFinite} :
    r.render = .error e ↔ r.FirstNonFinite e := by
  rw [render_eq, bind_eq_error_iff, mapM_eq_error_iff]
  constructor
  · rintro (⟨before, field, after, hsplit, hbefore, hfield⟩ | ⟨_, _, h⟩)
    · obtain ⟨hname, hindex⟩ := requireFinite_eq_error_iff.mp hfield
      refine ⟨before, field.2, after, by rw [hsplit, hname], fun f hf => ?_, hindex⟩
      obtain ⟨u, hu⟩ := hbefore f hf
      exact requireFinite_eq_ok_iff.mp hu
    · -- Once the numbers are accepted there is a text.
      cases h
  · rintro ⟨before, xs, after, hsplit, hbefore, hindex⟩
    refine Or.inl ⟨before, (e.field, xs), after, hsplit, fun f hf => ?_,
      requireFinite_eq_error_iff.mpr ⟨rfl, hindex⟩⟩
    exact ⟨(), requireFinite_eq_ok_iff.mpr (hbefore f hf)⟩

/-! ## Reading -/

theorem allFinite_iff {r : Record} :
    r.AllFinite ↔ (∀ x ∈ r.denominator, isFinite x = true) ∧
      (∀ x ∈ r.numerator, isFinite x = true) ∧ ∀ x ∈ r.samples, isFinite x = true := by
  simp [AllFinite, floatFields]

theorem readMembers_toJson {r : Record} (hdown : r.down < 2 ^ 64) (hup : r.up < 2 ^ 64)
    (hfinite : r.AllFinite) :
    readMembers Fields.step {} [
        ("down_sampling_factor", (Json.integer r.down).toDocument),
        ("up_sampling_factor", (Json.integer r.up).toDocument),
        ("a", (ofFloats r.denominator).toDocument),
        ("b", (ofFloats r.numerator).toDocument),
        ("is_fir", (Json.bool r.isFir).toDocument),
        ("reference_data", (ofFloats r.samples).toDocument)] true =
      .ok ⟨some r.down, some r.up, some r.denominator, some r.numerator, some r.isFir,
        some r.samples⟩ := by
  obtain ⟨hdenominator, hnumerator, hsamples⟩ := allFinite_iff.mp hfinite
  -- No key comes twice, so each slot is still empty when its member is met.
  simp [readMembers, Fields.step, readOnce, readCount_integer hdown, readCount_integer hup,
    readList_ofFloats hdenominator, readList_ofFloats hnumerator, readList_ofFloats hsamples,
    readBool_bool, bind, Except.bind, pure, Except.pure]

theorem ofDocument_toJson {r : Record} (hdown : r.down < 2 ^ 64) (hup : r.up < 2 ^ 64)
    (hfinite : r.AllFinite) : ofDocument r.toJson.toDocument = .ok r :=
  bind_eq_ok_iff.mpr ⟨_, readMembers_toJson hdown hup hfinite, rfl⟩

/-- **The text of a record is read as the record.** -/
theorem parse_render {r : Record} {text : String} (hdown : r.down < 2 ^ 64) (hup : r.up < 2 ^ 64)
    (h : r.render = .ok text) : parse text = .ok r := by
  obtain ⟨hfinite, rfl⟩ := render_eq_ok_iff.mp h
  have hjson : r.toJson.AllFinite :=
    ⟨trivial, trivial, allFinite_ofFloats, allFinite_ofFloats, trivial, allFinite_ofFloats, trivial⟩
  rw [parse, readText, Json.parse_render hjson]
  exact bind_eq_ok_iff.mpr ⟨r, ofDocument_toJson hdown hup hfinite, rfl⟩

theorem readTextFile_store {s : Store} {path text : String}
    (hs : s.openPath path = .ok (.file text.toUTF8)) :
    (readTextFile path : StateM Store (Except FileError String)) s = (.ok text, s) := by
  unfold readTextFile
  simp only [bind, StateT.bind, pure, StateT.pure, FileAccess.openPath, hs, Except.bind,
    Opened.read, Text.fromUTF8?_toUTF8]

theorem load_store {s : Store} {path text : String}
    (hs : s.openPath path = .ok (.file text.toUTF8)) :
    (load path : StateM Store (Except RecordReadError Record)) s =
      ((read text).mapError (.text path), s) := by
  unfold load
  simp only [bind, StateT.bind, pure, readTextFile_store hs]
  cases read text with
  | error e => rfl
  | ok r => rfl

/-- A written record is read unless its factors or, after them, its coefficients are refused. -/
theorem read_render {r : Record} {text : String} (hdown : r.down < 2 ^ 64) (hup : r.up < 2 ^ 64)
    (h : r.render = .ok text) :
    read text =
      match r.factors, r.filter with
      | .error e, _ => .error (.signal e)
      | .ok _, .error e => .error (.signal e)
      | .ok _, .ok _ => .ok r := by
  rw [read, parse_render hdown hup h]
  dsimp only
  cases r.factors with
  | error e => rfl
  | ok factors =>
      cases r.filter with
      | error e => rfl
      | ok filter => rfl

/-- **A record is written when its numbers are finite, and loaded as it was written**: every bit of
it, if its factors and its coefficients make a configuration, and what refuses them otherwise. -/
theorem render_outcome_load (r : Record) (hdown : r.down < 2 ^ 64) (hup : r.up < 2 ^ 64) :
    ((∃ text, r.render = .ok text) ↔ r.AllFinite) ∧
    (∀ e, r.render = .error e ↔ r.FirstNonFinite e) ∧
    ∀ text, r.render = .ok text → ∀ (s : Store) (path : String),
      s.openPath path = .ok (.file text.toUTF8) →
        (load path : StateM Store (Except RecordReadError Record)) s =
          (match r.factors, r.filter with
            | .error e, _ => .error (.text path (.signal e))
            | .ok _, .error e => .error (.text path (.signal e))
            | .ok _, .ok _ => .ok r, s) := by
  refine ⟨⟨?_, fun hfinite => ⟨_, render_eq_ok_iff.mpr ⟨hfinite, rfl⟩⟩⟩,
    fun _ => render_eq_error_iff, ?_⟩
  · rintro ⟨text, htext⟩
    exact (render_eq_ok_iff.mp htext).1
  · intro text htext s path hs
    rw [load_store hs, read_render hdown hup htext]
    cases r.factors with
    | error e => rfl
    | ok factors =>
        cases r.filter with
        | error e => rfl
        | ok filter => rfl

/-- A record of extreme numbers: the largest factors, the negative zero, the smallest and the
largest finite number. -/
def extremes : Record where
  down := 2 ^ 64 - 1
  up := 2 ^ 64 - 1
  denominator := [1, ofParts true 1]
  numerator := [-0, ofParts true (binary64.infinity - 1)]
  isFir := true
  samples := []

theorem render_outcome_load_extremes :
    ∃ (text : String) (s : Store), extremes.render = .ok text ∧
      (load "r.json" : StateM Store (Except RecordReadError Record)) s = (.ok extremes, s) := by
  obtain ⟨hok, -, hload⟩ := render_outcome_load extremes (by decide) (by decide)
  obtain ⟨text, htext⟩ := hok.mpr (by decide +kernel)
  refine ⟨text, ⟨[(["r.json"], .file text.toUTF8 0o644)]⟩, htext, ?_⟩
  rw [hload text htext _ "r.json" rfl]
  rfl

end Record

end FilterReference
