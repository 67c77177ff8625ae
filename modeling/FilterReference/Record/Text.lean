/-
# The text of a record

A record is a JSON object with its fields in a fixed order.  Only finite numbers can be written.
Reading takes any JSON text of the right shape, checks factors and coefficients, and names the
first problem otherwise.
-/
import FilterReference.Record.Basic
import FilterReference.Json.Reading

namespace FilterReference

/-! ## Writing

The numbers are looked at in the order of the fields before anything is written, so there is either
the text of the whole record or none. -/

/-- A number of a record that is not finite, by the name of its field. -/
structure NonFinite where
  field : String
  index : Nat
deriving DecidableEq, Repr

def NonFinite.message (e : NonFinite) : String :=
  e.field ++ s!"[{e.index}] is not a finite number"

/-- Finds the first number of a field that is not finite. -/
def requireFinite (field : String) (xs : List Float) : Except NonFinite Unit :=
  match firstNonFinite? xs with
  | some index => .error ⟨field, index⟩
  | none => .ok ()

namespace Record

def toJson (r : Record) : Json :=
  .object [
    ("down_sampling_factor", .integer r.down),
    ("up_sampling_factor", .integer r.up),
    ("a", Json.ofFloats r.denominator),
    ("b", Json.ofFloats r.numerator),
    ("is_fir", .bool r.isFir),
    ("reference_data", Json.ofFloats r.samples)]

/-- The text of a record whose numbers are all finite. -/
def render (r : Record) : Except NonFinite String := do
  requireFinite "a" r.denominator
  requireFinite "b" r.numerator
  requireFinite "reference_data" r.samples
  return r.toJson.render

end Record

/-! ## Reading

First the tree of the text, then the fields in it, then the check of factors and coefficients: of
several faults the one found in this order is reported. -/

open Json

/-- A group of two fields, as a tree is gone through. -/
structure TwoFields (α : Type) where
  first : Option α := none
  second : Option α := none

/-- Reads a group of two fields of one kind. -/
def readTwoFields {ε α β : Type} (group one two : String) (item : Document → Reader ε α)
    (make : α → α → Except ε β) : Document → Reader ε β :=
  let wanted := wantedStruct group ++ " with 2 elements"
  let finish (x y : α) : Reader ε β :=
    match make x y with
    | .ok b => .ok b
    | .error e => .error (.refused e)
  let step (s : TwoFields α) (key : String) (d : Document) : Reader ε (TwoFields α) := do
    if key = one then return { s with first := ← readOnce one s.first item d }
    else if key = two then return { s with second := ← readOnce two s.second item d }
    else return s
  readGroup group
    (fun ms closed => do
      let s ← readMembers step {} ms closed
      finish (← required one s.first) (← required two s.second))
    (fun ds closed => do
      let (x, ds) ← nextItem wanted 0 item ds closed
      let (y, ds) ← nextItem wanted 1 item ds closed
      endItems ds closed
      finish x y)

def Factors.parse (s : String) : Reader SignalError Factors :=
  readText (readTwoFields "RawResamplingSpec" "down" "up" readCount Factors.make) s.toList

def Filter.parse (s : String) : Reader SignalError Filter :=
  readText (readTwoFields "RawFilterSpec" "a" "b" (readList readFloat) Filter.make) s.toList

namespace Record

structure Fields where
  down : Option Nat := none
  up : Option Nat := none
  denominator : Option (List Float) := none
  numerator : Option (List Float) := none
  isFir : Option Bool := none
  samples : Option (List Float) := none

def Fields.step (s : Fields) (key : String) (d : Document) : Reader Empty Fields := do
  if key = "down_sampling_factor" then return { s with down := ← readOnce key s.down readCount d }
  else if key = "up_sampling_factor" then return { s with up := ← readOnce key s.up readCount d }
  else if key = "a" then
    return { s with denominator := ← readOnce key s.denominator (readList readFloat) d }
  else if key = "b" then
    return { s with numerator := ← readOnce key s.numerator (readList readFloat) d }
  else if key = "is_fir" then return { s with isFir := ← readOnce key s.isFir readBool d }
  else if key = "reference_data" then
    return { s with samples := ← readOnce key s.samples (readList readFloat) d }
  else return s

/-- The record of fields that are all given. -/
def Fields.toRecord (s : Fields) : Reader Empty Record := do
  let down ← required "down_sampling_factor" s.down
  let up ← required "up_sampling_factor" s.up
  let denominator ← required "a" s.denominator
  let numerator ← required "b" s.numerator
  let isFir ← required "is_fir" s.isFir
  let samples ← required "reference_data" s.samples
  return { down, up, denominator, numerator, isFir, samples }

/-- The record of the items of an array. -/
def ofItems (ds : List Document) (closed : Bool) : Reader Empty Record := do
  let wanted := wantedStruct "ReferenceRecord" ++ " with 6 elements"
  let (down, ds) ← nextItem wanted 0 readCount ds closed
  let (up, ds) ← nextItem wanted 1 readCount ds closed
  let (denominator, ds) ← nextItem wanted 2 (readList readFloat) ds closed
  let (numerator, ds) ← nextItem wanted 3 (readList readFloat) ds closed
  let (isFir, ds) ← nextItem wanted 4 readBool ds closed
  let (samples, ds) ← nextItem wanted 5 (readList readFloat) ds closed
  endItems ds closed
  return { down, up, denominator, numerator, isFir, samples }

def ofDocument : Document → Reader Empty Record :=
  readGroup "ReferenceRecord"
    (fun ms closed => do (← readMembers Fields.step {} ms closed).toRecord)
    ofItems

/-- A record from a JSON text, its factors and coefficients not yet checked. -/
def parse (s : String) : Reader Empty Record := readText ofDocument s.toList

inductive TextError where
  | json (e : ReadError Empty)
  | signal (e : SignalError)
deriving DecidableEq

def read (s : String) : Except TextError Record := do
  match parse s with
  | .error e => .error (.json e)
  | .ok r =>
    match r.factors with
    | .error e => .error (.signal e)
    | .ok _ =>
      match r.filter with
      | .error e => .error (.signal e)
      | .ok _ => return r

end Record

end FilterReference
