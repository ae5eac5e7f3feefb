import Gauge.Main
import Gauge.Metric
import Gauge.Alert
import Gauge.Rule.Printer
import Gauge.RuleDocument.Printer
import Gauge.Proofs.Rule.Copy
import Gauge.Proofs.Rule.LifeCycle
import Gauge.Proofs.Rule.Transcript
import Gauge.Proofs.Loader.Scan
import Gauge.Proofs.Loader.Build
import Gauge.Proofs.Numeral.Binary64
import Gauge.Proofs.Numeral.Decimal
import Gauge.Proofs.Numeral.Literal
import Gauge.Proofs.Yaml.Cursor
import Gauge.Proofs.Yaml.Gap
import Gauge.Proofs.Yaml.PlainScalar
import Gauge.Proofs.Yaml.Escape
import Gauge.Proofs.Yaml.QuotedScalar
import Gauge.Proofs.Yaml.LiteralScalar
import Gauge.Proofs.Yaml.Number
import Gauge.Proofs.Yaml.Scanner
import Gauge.Proofs.Yaml.ScalarToken
import Gauge.Proofs.Yaml.MarkToken
import Gauge.Proofs.Yaml.Entry
import Gauge.Proofs.Yaml.Entries
import Gauge.Proofs.Yaml.Grammar
import Gauge.Proofs.Yaml.Document
import Gauge.Proofs.Yaml.Reader
import Gauge.Proofs.RuleDocument
import Gauge.Proofs.CommandLine.Arguments
import Gauge.Proofs.CommandLine.Source
import Gauge.Proofs.CommandLine.File
import Gauge.Proofs.CommandLine.Directory
import Gauge.Proofs.Rule.Isolation
import Gauge.Proofs.Numeral.Spelling
import Gauge.Proofs.CommandLine.Values
import Gauge.Proofs.Yaml.Tree
import Gauge.Proofs.Yaml.Record
import Gauge.Proofs.RuleDocument.Keys
import Gauge.Proofs.Json.Text
import Gauge.Proofs.Json.Scaling
import Gauge.Proofs.Json.Number
import Gauge.Proofs.Json.Record
import Gauge.Proofs.Metric
import Gauge.Proofs.Json.RoundTrip
import Gauge.Proofs.Rule.Globals
import Gauge.Proofs.Rule.Arguments
import Gauge.Proofs.Rule.Summing
import Gauge.Proofs.Rule.Copies
import Gauge.Proofs.RuleDocument.Overrides
import Gauge.Proofs.Calendar
import Gauge.Proofs.Alert
import Gauge.Proofs.Json.Tree
import Gauge.Proofs.CommandLine.Report
import Gauge.Proofs.Alert.Line
import Gauge.Proofs.RuleDocument.Inputs
import Gauge.Proofs.Environment
import Gauge.Proofs.Config
import Gauge.Proofs.Loader.Walk
import Gauge.Proofs.Text.Blank
import Gauge.Proofs.Numeral.Nearest
import Gauge.Proofs.Numeral.Denotation
import Gauge.Proofs.CommandLine.Overrides
