/-
# Records that are read are usable

A record can be given as an object, its members in any order and among others, or as an array.
Either way every count in it fits into 64 bits and every number is finite (`Fields.Sound`, which
each member keeps, and `Record.sound_of_parse`).  What reading checks itself are the factors and the
coefficients; so a record that is loaded is usable, can be written, and its text is loaded as the
same record (`Record.load_usable`).
-/
import FilterReference.Proofs.Record.RoundTrip

namespace FilterReference

open Binary Json

/-! ## What single readers let through -/

section Readers

variable {ε α σ : Type}

theorem wrongType_ne_ok (d : Document) (wanted : String) (x : α) :
    wrongType d wanted ≠ (.ok x : Reader ε α) := by
  intro h
  obtain ⟨_, -, h⟩ := bind_eq_ok_iff.mp h
  cases h

theorem lt_of_readCount {d : Document} {n : Nat} (h : readCount d = (.ok n : Reader ε Nat)) :
    n < 2 ^ 64 := by
  cases d with
  | number numeral =>
      rw [readCount] at h
      obtain ⟨number, hnumber, hn⟩ := bind_eq_ok_iff.mp h
      rcases readNumeral_eq_ok hnumber with ⟨i, rfl, -, hhigh⟩ | ⟨x, rfl, -⟩
      · dsimp only at hn
        split_ifs at hn
        cases hn
        omega
      · cases hn
  | _ => exact absurd h (wrongType_ne_ok _ _ _)

theorem isFinite_of_readFloat {d : Document} {x : Float}
    (h : readFloat d = (.ok x : Reader ε Float)) : isFinite x = true := by
  cases d with
  | number numeral =>
      rw [readFloat] at h
      split_ifs at h with hfinite
      cases h
      exact hfinite
  | _ => exact absurd h (wrongType_ne_ok _ _ _)

theorem mem_of_readList {item : Document → Reader ε α} {d : Document} {xs : List α}
    (h : readList item d = .ok xs) : ∀ x ∈ xs, ∃ e, item e = .ok x := by
  cases d with
  | array ds closed =>
      rw [readList] at h
      obtain ⟨ys, hys, hclosed⟩ := bind_eq_ok_iff.mp h
      split_ifs at hclosed
      cases hclosed
      have hitems := mapM_eq_ok_iff.mp hys
      clear h hys
      induction hitems with
      | nil => exact List.forall_mem_nil _
      | cons hx _ ih => exact List.forall_mem_cons.mpr ⟨⟨_, hx⟩, ih⟩
  | _ => exact absurd h (wrongType_ne_ok _ _ _)

theorem isFinite_of_readList {d : Document} {xs : List Float}
    (h : readList readFloat d = (.ok xs : Reader ε (List Float))) : ∀ x ∈ xs, isFinite x = true := by
  intro x hx
  obtain ⟨e, he⟩ := mem_of_readList h x hx
  exact isFinite_of_readFloat he

/-- What every member keeps holds when all members are read. -/
theorem readMembers_invariant {P : σ → Prop} {step : σ → String → Document → Reader ε σ}
    (hstep : ∀ s key d t, P s → step s key d = .ok t → P t) {ms : List (Option String × Document)}
    {closed : Bool} {s t : σ} (hs : P s) (h : readMembers step s ms closed = .ok t) : P t := by
  induction ms generalizing s with
  | nil =>
      rw [readMembers] at h
      split_ifs at h
      cases h
      exact hs
  | cons m ms ih =>
      obtain ⟨_ | key, d⟩ := m
      · rw [readMembers] at h
        cases h
      · rw [readMembers] at h
        obtain ⟨u, hu, hrest⟩ := bind_eq_ok_iff.mp h
        exact ih (hstep s key d u hs hu) hrest

theorem readOnce_eq_ok {name : String} {slot filled : Option α} {item : Document → Reader ε α}
    {d : Document} (h : readOnce name slot item d = .ok filled) :
    ∃ x, filled = some x ∧ item d = .ok x := by
  unfold readOnce at h
  split_ifs at h
  obtain ⟨x, hx, heq⟩ := bind_eq_ok_iff.mp h
  cases heq
  exact ⟨x, rfl, hx⟩

theorem required_eq_ok {name : String} {slot : Option α} {x : α}
    (h : required name slot = (.ok x : Reader ε α)) : slot = some x := by
  cases slot with
  | none => cases h
  | some y =>
      cases h
      rfl

theorem nextItem_eq_ok {wanted : String} {index : Nat} {item : Document → Reader ε α}
    {ds rest : List Document} {closed : Bool} {x : α}
    (h : nextItem wanted index item ds closed = .ok (x, rest)) : ∃ d, item d = .ok x := by
  cases ds with
  | nil => cases closed <;> cases h
  | cons d ds =>
      rw [nextItem] at h
      obtain ⟨y, hy, heq⟩ := bind_eq_ok_iff.mp h
      cases heq
      exact ⟨d, hy⟩

end Readers

namespace Record

/-! ## Records before they are checked

Members are taken in any order and some may never come.  What is kept is a property of the fields
that are there, so each member has to be looked at by itself only. -/

/-- Counts of 64 bits, and finite numbers throughout. -/
structure Sound (r : Record) : Prop where
  down : r.down < 2 ^ 64
  up : r.up < 2 ^ 64
  finite : r.AllFinite

/-- The same of the fields that are given so far. -/
structure Fields.Sound (s : Fields) : Prop where
  down : ∀ n ∈ s.down, n < 2 ^ 64
  up : ∀ n ∈ s.up, n < 2 ^ 64
  denominator : ∀ xs ∈ s.denominator, ∀ x ∈ xs, isFinite x = true
  numerator : ∀ xs ∈ s.numerator, ∀ x ∈ xs, isFinite x = true
  samples : ∀ xs ∈ s.samples, ∀ x ∈ xs, isFinite x = true

/-- **One member** leaves the fields sound. -/
theorem Fields.sound_step {s t : Fields} {key : String} {d : Document} (hs : s.Sound)
    (h : s.step key d = .ok t) : t.Sound := by
  unfold Fields.step at h
  split_ifs at h
  · obtain ⟨slot, hslot, heq⟩ := bind_eq_ok_iff.mp h
    obtain ⟨n, rfl, hn⟩ := readOnce_eq_ok hslot
    cases heq
    exact { hs with down := by rintro _ ⟨⟩; exact lt_of_readCount hn }
  · obtain ⟨slot, hslot, heq⟩ := bind_eq_ok_iff.mp h
    obtain ⟨n, rfl, hn⟩ := readOnce_eq_ok hslot
    cases heq
    exact { hs with up := by rintro _ ⟨⟩; exact lt_of_readCount hn }
  · obtain ⟨slot, hslot, heq⟩ := bind_eq_ok_iff.mp h
    obtain ⟨xs, rfl, hxs⟩ := readOnce_eq_ok hslot
    cases heq
    exact { hs with denominator := by rintro _ ⟨⟩; exact isFinite_of_readList hxs }
  · obtain ⟨slot, hslot, heq⟩ := bind_eq_ok_iff.mp h
    obtain ⟨xs, rfl, hxs⟩ := readOnce_eq_ok hslot
    cases heq
    exact { hs with numerator := by rintro _ ⟨⟩; exact isFinite_of_readList hxs }
  · obtain ⟨slot, -, heq⟩ := bind_eq_ok_iff.mp h
    cases heq
    exact { hs with }
  · obtain ⟨slot, hslot, heq⟩ := bind_eq_ok_iff.mp h
    obtain ⟨xs, rfl, hxs⟩ := readOnce_eq_ok hslot
    cases heq
    exact { hs with samples := by rintro _ ⟨⟩; exact isFinite_of_readList hxs }
  · cases h
    exact hs

theorem Fields.sound_toRecord {s : Fields} {r : Record} (hs : s.Sound)
    (h : s.toRecord = .ok r) : r.Sound := by
  unfold Fields.toRecord at h
  obtain ⟨down, hdown, h⟩ := bind_eq_ok_iff.mp h
  obtain ⟨up, hup, h⟩ := bind_eq_ok_iff.mp h
  obtain ⟨denominator, hdenominator, h⟩ := bind_eq_ok_iff.mp h
  obtain ⟨numerator, hnumerator, h⟩ := bind_eq_ok_iff.mp h
  obtain ⟨isFir, -, h⟩ := bind_eq_ok_iff.mp h
  obtain ⟨samples, hsamples, h⟩ := bind_eq_ok_iff.mp h
  cases h
  exact ⟨hs.down _ (required_eq_ok hdown), hs.up _ (required_eq_ok hup),
    allFinite_iff.mpr ⟨hs.denominator _ (required_eq_ok hdenominator),
      hs.numerator _ (required_eq_ok hnumerator), hs.samples _ (required_eq_ok hsamples)⟩⟩

theorem sound_ofItems {ds : List Document} {closed : Bool} {r : Record}
    (h : ofItems ds closed = .ok r) : r.Sound := by
  unfold ofItems at h
  dsimp only at h
  obtain ⟨⟨down, ds⟩, hdown, h⟩ := bind_eq_ok_iff.mp h
  obtain ⟨⟨up, ds⟩, hup, h⟩ := bind_eq_ok_iff.mp h
  obtain ⟨⟨denominator, ds⟩, hdenominator, h⟩ := bind_eq_ok_iff.mp h
  obtain ⟨⟨numerator, ds⟩, hnumerator, h⟩ := bind_eq_ok_iff.mp h
  obtain ⟨⟨isFir, ds⟩, -, h⟩ := bind_eq_ok_iff.mp h
  obtain ⟨⟨samples, ds⟩, hsamples, h⟩ := bind_eq_ok_iff.mp h
  obtain ⟨_, -, h⟩ := bind_eq_ok_iff.mp h
  cases h
  obtain ⟨_, hdown⟩ := nextItem_eq_ok hdown
  obtain ⟨_, hup⟩ := nextItem_eq_ok hup
  obtain ⟨_, hdenominator⟩ := nextItem_eq_ok hdenominator
  obtain ⟨_, hnumerator⟩ := nextItem_eq_ok hnumerator
  obtain ⟨_, hsamples⟩ := nextItem_eq_ok hsamples
  exact ⟨lt_of_readCount hdown, lt_of_readCount hup,
    allFinite_iff.mpr ⟨isFinite_of_readList hdenominator, isFinite_of_readList hnumerator,
      isFinite_of_readList hsamples⟩⟩

/-- **A record that is parsed is sound**, whatever its text looks like. -/
theorem sound_of_parse {text : String} {r : Record} (h : parse text = .ok r) : r.Sound := by
  obtain ⟨hdocument, -⟩ := readText_eq_ok_iff.mp h
  generalize (Document.parse text.toList).1 = d at hdocument
  cases d with
  | object ms closed =>
      obtain ⟨s, hmembers, hrecord⟩ := bind_eq_ok_iff.mp hdocument
      have hempty : Fields.Sound {} :=
        ⟨by rintro _ ⟨⟩, by rintro _ ⟨⟩, by rintro _ ⟨⟩, by rintro _ ⟨⟩, by rintro _ ⟨⟩⟩
      exact Fields.sound_toRecord
        (readMembers_invariant (fun _ _ _ _ => Fields.sound_step) hempty hmembers) hrecord
  | array ds closed => exact sound_ofItems hdocument
  | _ => exact absurd hdocument (wrongType_ne_ok _ _ _)

/-! ## Usable records

A check that was passed once is passed again by the record as it is written, since reading gave its
numbers back.  What is written is therefore loaded wherever it stands. -/

/-- A record that can be used: positive factors, a filter with a leading coefficient other than
zero, and finite numbers throughout. -/
structure Usable (r : Record) : Prop where
  down : 0 < r.down
  up : 0 < r.up
  denominator : ∃ lead feedback, r.denominator = lead :: feedback ∧ (lead == 0) = false
  numerator : r.numerator ≠ []
  finite : r.AllFinite

theorem read_eq_ok {text : String} {r : Record} (h : read text = .ok r) :
    parse text = .ok r ∧ ∃ factors filter, r.factors = .ok factors ∧ r.filter = .ok filter := by
  unfold read at h
  split at h
  · cases h
  · rename_i r' hparse
    split at h
    · cases h
    · rename_i factors hfactors
      split at h
      · cases h
      · rename_i filter hfilter
        cases h
        exact ⟨hparse, factors, filter, hfactors, hfilter⟩

/-- **A record that is read is usable**, and its text is read as the same record. -/
theorem usable_of_read {text : String} {r : Record} (h : read text = .ok r) :
    r.Usable ∧ ∃ written, r.render = .ok written ∧ read written = .ok r := by
  obtain ⟨hparse, factors, filter, hfactors, hfilter⟩ := read_eq_ok h
  have hsound := sound_of_parse hparse
  obtain ⟨hdown, hup⟩ := Factors.pos_of_make hfactors
  obtain ⟨hdenominator, hnumerator⟩ := Filter.coefficients_of_make hfilter
  refine ⟨⟨hdown, hup, hdenominator, hnumerator, hsound.finite⟩,
    r.toJson.render, render_eq_ok_iff.mpr ⟨hsound.finite, rfl⟩, ?_⟩
  rw [read_render hsound.down hsound.up (render_eq_ok_iff.mpr ⟨hsound.finite, rfl⟩), hfactors,
    hfilter]

/-- Loading leaves a store as it is, and a record that is loaded was read from some text. -/
theorem exists_load (path : String) (s : Store) :
    ∃ result, (load path : StateM Store (Except RecordReadError Record)) s = (result, s) ∧
      ∀ r, result = .ok r → ∃ text, read text = .ok r := by
  obtain ⟨content, hcontent⟩ : ∃ content,
      (readTextFile path : StateM Store (Except FileError String)) s = (content, s) := ⟨_, rfl⟩
  unfold load
  simp only [bind, StateT.bind, hcontent]
  cases content with
  | error e =>
      refine ⟨_, rfl, fun r h => ?_⟩
      cases h
  | ok text =>
      dsimp only
      cases hread : read text with
      | error e =>
          refine ⟨_, rfl, fun r h => ?_⟩
          cases h
      | ok r' =>
          refine ⟨_, rfl, fun r h => ?_⟩
          cases h
          exact ⟨text, hread⟩

/-- **No unusable record is let in.**  A record that is loaded, from whatever file, is usable; so it
is written, and from every file that holds its text the same record is loaded. -/
theorem load_usable {s t : Store} {path : String} {r : Record}
    (h : (load path : StateM Store (Except RecordReadError Record)) s = (.ok r, t)) :
    t = s ∧ r.Usable ∧ ∃ text, r.render = .ok text ∧ ∀ (u : Store) (other : String),
      u.openPath other = .ok (.file text.toUTF8) →
        (load other : StateM Store (Except RecordReadError Record)) u = (.ok r, u) := by
  obtain ⟨result, hload, hresult⟩ := exists_load path s
  cases hload.symm.trans h
  obtain ⟨source, hsource⟩ := hresult r rfl
  obtain ⟨husable, text, hrender, hread⟩ := usable_of_read hsource
  refine ⟨rfl, husable, text, hrender, fun u other hother => ?_⟩
  rw [load_store hother, hread]
  rfl

/-- A file with a record as an array, its coefficients written as integers. -/
def arrayFile : Store where
  entries := [(["r.json"], .file " [ 3,1,[2],[1, -0,4e0],false,[1E-400, 9007199254740993]]\n".toUTF8
    0o644)]

/-- The record in it.  Its numbers are rounded to doubles. -/
def arrayRecord : Record where
  down := 3
  up := 1
  denominator := [2]
  numerator := [1, -0, 4]
  isFir := false
  samples := [0, 9007199254740992]

theorem load_usable_array :
    (load "r.json" : StateM Store (Except RecordReadError Record)) arrayFile =
        (.ok arrayRecord, arrayFile) ∧
      ∃ text, arrayRecord.render = .ok text ∧
        (load "s.json" : StateM Store (Except RecordReadError Record))
            ⟨[(["s.json"], .file text.toUTF8 0o600)]⟩ =
          (.ok arrayRecord, ⟨[(["s.json"], .file text.toUTF8 0o600)]⟩) := by
  have hresult : ((load "r.json" : StateM Store (Except RecordReadError Record)) arrayFile).1 =
      .ok arrayRecord := by
    decide +kernel
  have hload : (load "r.json" : StateM Store (Except RecordReadError Record)) arrayFile =
      (.ok arrayRecord, arrayFile) := by
    obtain ⟨result, hload, -⟩ := exists_load "r.json" arrayFile
    rw [hload] at hresult ⊢
    rw [show result = _ from hresult]
  obtain ⟨-, -, text, hrender, hagain⟩ := load_usable hload
  exact ⟨hload, text, hrender, hagain _ "s.json" rfl⟩

end Record

end FilterReference
