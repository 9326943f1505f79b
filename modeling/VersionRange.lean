import VersionRange.Binary64.Basic
import VersionRange.Binary64.Decimal
import VersionRange.Calendar
import VersionRange.CommandLine.Arguments
import VersionRange.CommandLine.Grammar
import VersionRange.CommandLine.Run
import VersionRange.Comparator
import VersionRange.Dependencies.Finding
import VersionRange.Dependencies.Report
import VersionRange.Fault
import VersionRange.Files.Basic
import VersionRange.Files.Content
import VersionRange.Files.Path
import VersionRange.Group
import VersionRange.Journal
import VersionRange.Json.Fault
import VersionRange.Json.Printer
import VersionRange.Json.Reader
import VersionRange.Main
import VersionRange.Manifest.Basic
import VersionRange.Manifest.Reader
import VersionRange.Manifest.Schema
import VersionRange.Manifest.Violation
import VersionRange.Numeral
import VersionRange.Operator
import VersionRange.Partial
import VersionRange.Proofs.BelowZero
import VersionRange.Proofs.Canonical
import VersionRange.Proofs.CommandLine.Documents
import VersionRange.Proofs.CommandLine.Flag
import VersionRange.Proofs.CommandLine.Verdict
import VersionRange.Proofs.Confinement
import VersionRange.Proofs.Degenerate
import VersionRange.Proofs.Dependencies.Checking
import VersionRange.Proofs.Dependencies.Overlong
import VersionRange.Proofs.Distinct
import VersionRange.Proofs.Fallible
import VersionRange.Proofs.Gate
import VersionRange.Proofs.Group.Expansion
import VersionRange.Proofs.Group.Grammar
import VersionRange.Proofs.Group.Items
import VersionRange.Proofs.Group.Operands
import VersionRange.Proofs.Group.Pieces
import VersionRange.Proofs.Group.Rendering
import VersionRange.Proofs.Group.Replacing
import VersionRange.Proofs.Group.Respelling
import VersionRange.Proofs.Group.Seam
import VersionRange.Proofs.Group.Targets
import VersionRange.Proofs.Group.Tokens
import VersionRange.Proofs.Group.Written
import VersionRange.Proofs.HyphenLaw
import VersionRange.Proofs.Inclusive
import VersionRange.Proofs.Intersection
import VersionRange.Proofs.Joining
import VersionRange.Proofs.Json.Documents
import VersionRange.Proofs.Json.Numbers
import VersionRange.Proofs.Json.Rereading
import VersionRange.Proofs.Json.Strings
import VersionRange.Proofs.Keys
import VersionRange.Proofs.Manifest.Constraints
import VersionRange.Proofs.Manifest.Escapes
import VersionRange.Proofs.Manifest.Places
import VersionRange.Proofs.Manifest.Reloading
import VersionRange.Proofs.Manifest.Unordered
import VersionRange.Proofs.Manifest.Validation
import VersionRange.Proofs.Noting
import VersionRange.Proofs.Numeral
import VersionRange.Proofs.OneItem
import VersionRange.Proofs.OperatorLaw
import VersionRange.Proofs.Outcome
import VersionRange.Proofs.Partial
import VersionRange.Proofs.Partial.Grammar
import VersionRange.Proofs.Partial.Respelling
import VersionRange.Proofs.Partial.Shape
import VersionRange.Proofs.Partial.Spelling
import VersionRange.Proofs.Partial.Standing
import VersionRange.Proofs.Parts
import VersionRange.Proofs.Rebuilding
import VersionRange.Proofs.Session.Actions
import VersionRange.Proofs.Session.Atomicity
import VersionRange.Proofs.Session.Memory
import VersionRange.Proofs.Session.Recency
import VersionRange.Proofs.Session.Refinement
import VersionRange.Proofs.Session.Requests
import VersionRange.Proofs.Session.Selection
import VersionRange.Proofs.Session.Steps
import VersionRange.Proofs.Settings
import VersionRange.Proofs.ShorthandLaw
import VersionRange.Proofs.Simplification
import VersionRange.Proofs.Sorting
import VersionRange.Proofs.Stamping
import VersionRange.Proofs.Text.Blank
import VersionRange.Proofs.Text.Cutting
import VersionRange.Proofs.Union
import VersionRange.Proofs.Unlocking
import VersionRange.Proofs.Version.Acceptance
import VersionRange.Proofs.Version.Bounds
import VersionRange.Proofs.Version.Built
import VersionRange.Proofs.Version.Constructed
import VersionRange.Proofs.Version.Grammar
import VersionRange.Proofs.Version.Highest
import VersionRange.Proofs.Version.Rank
import VersionRange.Proofs.Version.Readable
import VersionRange.Proofs.Version.Written
import VersionRange.Proofs.Widening
import VersionRange.Proofs.WithoutBuild
import VersionRange.Proofs.Yaml.Keys
import VersionRange.Range
import VersionRange.RangeCache
import VersionRange.Session
import VersionRange.Settings
import VersionRange.Text.Blank
import VersionRange.Text.CharTable
import VersionRange.Text.Quoted
import VersionRange.Text.Surrogate
import VersionRange.Text.UnicodeDigit
import VersionRange.Text.Unprintable
import VersionRange.Text.Utf8
import VersionRange.Value
import VersionRange.Value.Order
import VersionRange.Version.Basic
import VersionRange.Version.Parser
import VersionRange.Version.Precedence
import VersionRange.Yaml.Document
import VersionRange.Yaml.Layout
import VersionRange.Yaml.Node
import VersionRange.Yaml.Place
import VersionRange.Yaml.Resolution
import VersionRange.Yaml.Scalar
import VersionRange.Yaml.Token
