/-
# Factory scenarios

The scenarios that come with the program and need no further files: designed and pass-through
filters with every kind of resampling.  They are listed one to a line: the name, the sampling
factors, the filter family, and where the numerator comes from.
-/
import FilterReference.Record.Summary
import FilterReference.Scenario.Resolution
import FilterReference.Text.Characters

namespace FilterReference

namespace Factory

/-- A scenario with a designed filter. -/
def designed (name : String) (down up : Nat) (taps : Nat) (cutoff : Float) : Scenario :=
  { name, down, up, isFir := some true, design := some { taps := some taps, cutoff := some cutoff } }

/-- The factory scenarios, in the order of the suite. -/
def scenarios : List Scenario := [
  designed "fir-filter-up-sampling" 1 3 30 0.6666,
  { name := "iir-filter-up-sampling", down := 1, up := 3, isFir := some false,
    numerator := some [1] },
  designed "fir-filter-high-fc" 1 1 20 0.3,
  designed "fir-filter-low-fc" 1 1 20 0.1,
  designed "fir-filter-down-sampling" 3 1 30 0.333,
  designed "fir-filter-re-sampling" 3 2 30 0.666,
  { name := "filter-design", down := 3, up := 1, isFir := some false, design := some {} }]

def names : List String := scenarios.map (·.name)

/-- Two names that differ at most in the case of ASCII letters. -/
def sameName (a b : String) : Bool := a.toLower == b.toLower

/-- The scenario of a name, in any case. -/
def find? (name : String) : Option Scenario := scenarios.find? (sameName ·.name name)

/-- Whether a factory scenario has this name, in any case. -/
def isName (name : String) : Bool := names.any (sameName · name)

end Factory

/-! ## The list of the factory scenarios -/

def nameWidth : Nat := 26

def LowpassDesign.phrase (d : LowpassDesign) : String :=
  let taps := match d.taps with
    | some n => toString n
    | none => "default"
  let cutoff := match d.cutoff with
    | some x => Layout.plain.write x
    | none => "up/down"
  s!"firwin(taps={taps}, cutoff={cutoff})"

namespace Scenario

def numeratorPhrase (c : Scenario) : String :=
  match c.numerator, c.design with
  | some numerator, _ => s!"b: {numerator.length} coefficient(s)"
  | none, some design => design.phrase
  | none, none => "no numerator"

def listLine (c : Scenario) : String :=
  s!"  {Text.padRight nameWidth c.name} down={c.down} up={c.up} " ++
    s!"{Text.padRight 3 (familyName c.flag)} {c.numeratorPhrase}\n"

end Scenario

def Factory.listing : String :=
  "Factory Scenarios\n" ++
  "=================\n" ++
  "\n" ++
  String.join (Factory.scenarios.map (·.listLine)) ++
  "\n" ++
  "Use 'refdata scenarios <NAME>' to print a scenario as TOML.\n"

end FilterReference
