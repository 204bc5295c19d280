import GrammarAudit.Analyzer
import GrammarAudit.Json.Reader
import GrammarAudit.Main
import GrammarAudit.Report.Decoration
import GrammarAudit.Proofs.Grammar.Heading
import GrammarAudit.Proofs.Grammar.Scan
import GrammarAudit.Proofs.Number.Canonical
import GrammarAudit.Proofs.Analyzer.Entries
import GrammarAudit.Proofs.Analyzer.Session
import GrammarAudit.Proofs.Analyzer.Transparency
import GrammarAudit.Proofs.Grammar.Comment
import GrammarAudit.Proofs.Grammar.Enclosure
import GrammarAudit.Proofs.Grammar.LiteralSurvival
import GrammarAudit.Proofs.Distinct
import GrammarAudit.Proofs.Grammar.Identifier
import GrammarAudit.Proofs.Grammar.WordPass
import GrammarAudit.Proofs.Grammar.Residue
import GrammarAudit.Proofs.Grammar.Alignment
import GrammarAudit.Proofs.Graph.Adjacency
import GrammarAudit.Proofs.Report.Mention
import GrammarAudit.Proofs.Grammar.Printing
import GrammarAudit.Proofs.Grammar.Occurrence
import GrammarAudit.Proofs.Grammar.Declaration
import GrammarAudit.Proofs.Grammar.Registration
import GrammarAudit.Proofs.Text.Place
import GrammarAudit.Proofs.Grammar.Location
import GrammarAudit.Proofs.Grammar.CommentLine
import GrammarAudit.Proofs.Grammar.Ending
import GrammarAudit.Proofs.Graph.Duality
import GrammarAudit.Proofs.Store.History
import GrammarAudit.Proofs.Store.Retention
import GrammarAudit.Proofs.Analyzer.Provenance
import GrammarAudit.Proofs.Number.Half
import GrammarAudit.Proofs.Sorting
import GrammarAudit.Proofs.Finding.Grading
import GrammarAudit.Proofs.Finding.Issues
import GrammarAudit.Proofs.Report.Sections
import GrammarAudit.Proofs.Report.Loosening
import GrammarAudit.Proofs.Report.Integrity
import GrammarAudit.Proofs.Report.ErrorStatus
import GrammarAudit.Proofs.Cli.ExitStatus
import GrammarAudit.Proofs.Grammar.Coordinates
import GrammarAudit.Proofs.Report.Decorations
import GrammarAudit.Proofs.Json.Fields
import GrammarAudit.Proofs.Report.DocumentForm
import GrammarAudit.Proofs.Number.Rounding
import GrammarAudit.Proofs.Number.Shortest
import GrammarAudit.Proofs.Json.NumberText
import GrammarAudit.Proofs.Json.QuotedText
import GrammarAudit.Proofs.Json.RoundTrip
import GrammarAudit.Proofs.Report.JsonText
import GrammarAudit.Proofs.Grammar.ReservedWord
import GrammarAudit.Proofs.Grammar.Bars
import GrammarAudit.Proofs.Number.Monotone
import GrammarAudit.Proofs.Number.Difference
import GrammarAudit.Proofs.Store.Eviction
import GrammarAudit.Proofs.Graph.Reachability
import GrammarAudit.Proofs.Graph.RuleOrder
import GrammarAudit.Proofs.Report.Accounting
import GrammarAudit.Proofs.Cli.FindingsTable
import GrammarAudit.Proofs.Grammar.CommentWalk
import GrammarAudit.Proofs.Yaml.Cursor
import GrammarAudit.Proofs.Yaml.Quoted
import GrammarAudit.Proofs.Yaml.DoubleQuoted
import GrammarAudit.Proofs.Yaml.SingleQuoted
import GrammarAudit.Proofs.Yaml.Plain
import GrammarAudit.Proofs.Yaml.Scanning
import GrammarAudit.Proofs.Yaml.Block
import GrammarAudit.Proofs.Yaml.Legible
import GrammarAudit.Proofs.Yaml.Tree
import GrammarAudit.Proofs.Yaml.RoundTrip
import GrammarAudit.Proofs.Yaml.FieldOrder
import GrammarAudit.Proofs.Report.Reordered
import GrammarAudit.Proofs.Report.YamlText
import GrammarAudit.Proofs.Grammar.Alphabet
import GrammarAudit.Proofs.Graph.Cycles
import GrammarAudit.Proofs.Graph.Search
import GrammarAudit.Proofs.Grammar.Splitting
import GrammarAudit.Proofs.Grammar.HeaderWord
import GrammarAudit.Proofs.Grammar.Header
import GrammarAudit.Proofs.Finding.Unused
import GrammarAudit.Proofs.Finding.TokenClasses
import GrammarAudit.Proofs.Fingerprint
import GrammarAudit.Proofs.Options.Merge
import GrammarAudit.Proofs.Grammar.MarkFree
import GrammarAudit.Proofs.Finding.Ordering
import GrammarAudit.Proofs.Grammar.UnitContents
import GrammarAudit.Proofs.Finding.Lookahead
import GrammarAudit.Proofs.Grammar.UnitEnd
import GrammarAudit.Proofs.Grammar.LiteralLine
import GrammarAudit.Proofs.Grammar.ContextWalk
import GrammarAudit.Proofs.Grammar.Loop
import GrammarAudit.Proofs.Grammar.ActionWalk
