import FilterReference.Files.Store
import FilterReference.Main
import FilterReference.Proofs.Record.RoundTrip
import FilterReference.Proofs.Scenario.Resolution
import FilterReference.Proofs.Signal.Pipeline
import FilterReference.Proofs.Signal.Safety
import FilterReference.Proofs.Signal.Loading
import FilterReference.Proofs.Program.Comparison
import FilterReference.Proofs.Files.Path
import FilterReference.Proofs.Files.Store
import FilterReference.Proofs.Files.Directories
import FilterReference.Proofs.Scenario.Outputs
import FilterReference.Proofs.Program.Suite
import FilterReference.Proofs.Files.Components
import FilterReference.Proofs.Scenario.Jobs
import FilterReference.Proofs.Scenario.Placement
import FilterReference.Proofs.Scenario.Independence
import FilterReference.Proofs.Record.Reproduction
import FilterReference.Proofs.Program.Independence
import FilterReference.Proofs.Toml.Numerals
import FilterReference.Proofs.Toml.Strings
import FilterReference.Proofs.Toml.Values
import FilterReference.Proofs.Toml.Lines
import FilterReference.Proofs.Toml.Table
import FilterReference.Proofs.Scenario.RoundTrip
import FilterReference.Proofs.Manifest.RoundTrip
import FilterReference.Proofs.Text.Utf8
import FilterReference.Proofs.Decimal.Significance
import FilterReference.Proofs.Text.Lines
import FilterReference.Proofs.Signal.Lines
import FilterReference.Proofs.Signal.Grammar
import FilterReference.Proofs.Json.Canonical
import FilterReference.Proofs.Json.Reading
import FilterReference.Proofs.Record.Reading
import FilterReference.Proofs.Program.OwnSamples
import FilterReference.Proofs.Program.Arguments
import FilterReference.Proofs.Program.Agreement
import FilterReference.Proofs.Signal.Segments
import FilterReference.Proofs.Signal.DifferenceEquation
import FilterReference.Proofs.Signal.Response
import FilterReference.Proofs.Signal.Delay
import FilterReference.Proofs.Scenario.Acceptance
import FilterReference.Proofs.Manifest.Validation
import FilterReference.Proofs.Signal.LineNumbers
import FilterReference.Proofs.Signal.Container
import FilterReference.Proofs.Signal.Waves
import FilterReference.Proofs.Signal.LinearPhase
import FilterReference.Proofs.Signal.Designs
import FilterReference.Proofs.Record.LargestDeviation
