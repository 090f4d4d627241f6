import PipelineLang.Program.ConfigJson
import PipelineLang.Server.Session
import PipelineLang.Text.JsonReader
import PipelineLang.Main
import PipelineLang.Proofs.Grammar.Indentation
import PipelineLang.Proofs.Grammar.SuiteReading
import PipelineLang.Proofs.Server.Cacheless
import PipelineLang.Proofs.Grammar.Spelling
import PipelineLang.Proofs.Grammar.Derivation
import PipelineLang.Proofs.Grammar.Placement
import PipelineLang.Proofs.Grammar.Recording
import PipelineLang.Proofs.Index.Declared
import PipelineLang.Proofs.Reference.Search
import PipelineLang.Proofs.Reference.Shapes
import PipelineLang.Proofs.Reference.Steps
import PipelineLang.Proofs.Template.Regions
import PipelineLang.Proofs.Template.Usages
import PipelineLang.Proofs.Index.Faults
import PipelineLang.Proofs.Reference.Names
import PipelineLang.Proofs.Reference.Line
import PipelineLang.Proofs.Source.Position
import PipelineLang.Proofs.Index.Context
import PipelineLang.Proofs.Index.Heads
import PipelineLang.Proofs.Source.Fenced
import PipelineLang.Proofs.Template.Names
import PipelineLang.Proofs.Editor.Occurrences
import PipelineLang.Proofs.Editor.TestNames
import PipelineLang.Proofs.Editor.Renaming
import PipelineLang.Proofs.Template.Scopes
import PipelineLang.Proofs.Server.CacheHistory
import PipelineLang.Proofs.Grammar.ReturnedDocument
import PipelineLang.Proofs.Server.Conversation
import PipelineLang.Proofs.Server.Stores
import PipelineLang.Proofs.Editor.Expected
import PipelineLang.Proofs.Grammar.BranchReports
import PipelineLang.Proofs.Grammar.Ownership
import PipelineLang.Proofs.Check.Report
import PipelineLang.Proofs.Index.Comment
import PipelineLang.Proofs.Server.Eviction
import PipelineLang.Proofs.Source.RoundTrip
import PipelineLang.Proofs.Editor.PartialItems
import PipelineLang.Proofs.Grammar.WrittenConfig
import PipelineLang.Proofs.Grammar.QuotedText
import PipelineLang.Proofs.Server.Freshness
import PipelineLang.Proofs.Source.LineColumn
import PipelineLang.Proofs.Editor.Outline
import PipelineLang.Proofs.Grammar.Kinds
import PipelineLang.Proofs.Grammar.UnrecognizedLines
import PipelineLang.Proofs.Grammar.Traversal
import PipelineLang.Proofs.Template.Blocks
