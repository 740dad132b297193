import PageHealth.Catalog.Equality
import PageHealth.Files.Storage
import PageHealth.Main
import PageHealth.Proofs.Scoring.Bounds
import PageHealth.Proofs.Scoring.Monotone
import PageHealth.Proofs.Number.Error
import PageHealth.Proofs.Scoring.FullMarks
import PageHealth.Proofs.Catalog.Document
import PageHealth.Proofs.Catalog.Places
import PageHealth.Proofs.Catalog.Yaml
import PageHealth.Proofs.Scoring.Agreement
import PageHealth.Proofs.Scoring.Locality
import PageHealth.Proofs.Scoring.Missing
import PageHealth.Proofs.Number.Exact
import PageHealth.Proofs.Scoring.Conservation
import PageHealth.Proofs.Scoring.Fallbacks
import PageHealth.Proofs.Facts.Lookup
import PageHealth.Proofs.Facts.Order
import PageHealth.Proofs.Files.Path
import PageHealth.Proofs.Files.Storage
import PageHealth.Proofs.Catalog.Init
import PageHealth.Proofs.Number.Notation
import PageHealth.Proofs.Json.Numbers
import PageHealth.Proofs.Json.Document
import PageHealth.Proofs.Json.Finite
import PageHealth.Proofs.Catalog.Json
import PageHealth.Proofs.Scoring.Tally
import PageHealth.Proofs.Scoring.Unmeasured
import PageHealth.Proofs.Scoring.Replacement
import PageHealth.Proofs.Catalog.PlaceText
import PageHealth.Proofs.Catalog.Comparison
import PageHealth.Proofs.Catalog.Lint
import PageHealth.Proofs.Catalog.Problems
import PageHealth.Proofs.CommandLine.Effects
import PageHealth.Proofs.CommandLine.Verdict
import PageHealth.Proofs.Report.Reading
import PageHealth.Proofs.Report.Rows
import PageHealth.Proofs.Scoring.Lookups
import PageHealth.Proofs.Scoring.Mean
import PageHealth.Proofs.CommandLine.Sources
import PageHealth.Proofs.Scoring.Ratios
import PageHealth.Proofs.Facts.Improper
import PageHealth.Proofs.Catalog.Keys
import PageHealth.Proofs.Report.Width
import PageHealth.Proofs.Report.Colours
import PageHealth.Proofs.Catalog.Enumeration
