import QueryAdvisor.Main
import QueryAdvisor.Proofs.Recogniser.Grammar
import QueryAdvisor.Proofs.Recogniser.Edit
import QueryAdvisor.Proofs.Schema.Grammar
import QueryAdvisor.Proofs.Block.Scanner
import QueryAdvisor.Proofs.Block.Span
import QueryAdvisor.Proofs.Schema.Declaration
import QueryAdvisor.Proofs.Recogniser.Keyword
import QueryAdvisor.Proofs.Schema.Contents
import QueryAdvisor.Proofs.Schema.Dump
import QueryAdvisor.Proofs.Schema.DumpLine
import QueryAdvisor.Proofs.Block.Passage
import QueryAdvisor.Proofs.Schema.RoundTrip
import QueryAdvisor.Proofs.Schema.AddedIndex
import QueryAdvisor.Proofs.LineEnding.Occurrence
import QueryAdvisor.Proofs.LineEnding.Block
import QueryAdvisor.Proofs.LineEnding.Finding
import QueryAdvisor.Proofs.Finding.Aggregate
import QueryAdvisor.Proofs.Finding.ByType
import QueryAdvisor.Proofs.Finding.ColumnPreview
import QueryAdvisor.Proofs.Pipeline.Outcome
import QueryAdvisor.Proofs.Pipeline.Standard
import QueryAdvisor.Proofs.Pipeline.Independence
import QueryAdvisor.Proofs.Connection.Merge
import QueryAdvisor.Proofs.Disk.Locked
import QueryAdvisor.Proofs.Project.Locked
import QueryAdvisor.Proofs.Pipeline.Unopened
import QueryAdvisor.Proofs.Recogniser.Search
import QueryAdvisor.Proofs.Query.Line
import QueryAdvisor.Proofs.Pipeline.ExitCode
import QueryAdvisor.Proofs.Json.String
import QueryAdvisor.Proofs.Json.Number
import QueryAdvisor.Proofs.Json.Value
import QueryAdvisor.Proofs.Report.Contents
import QueryAdvisor.Proofs.Report.RoundTrip
import QueryAdvisor.Proofs.Schema.Reading
import QueryAdvisor.Proofs.Ordered
import QueryAdvisor.Registry.Change
import QueryAdvisor.Proofs.Registry.Call
import QueryAdvisor.Proofs.Registry.Acceptance
import QueryAdvisor.Proofs.Registry.Session
import QueryAdvisor.Proofs.Log.Stream
import QueryAdvisor.Proofs.Log.Line
import QueryAdvisor.Proofs.Registry.Answers
import QueryAdvisor.Proofs.Options.Grammar
import QueryAdvisor.Proofs.Recogniser.Place
import QueryAdvisor.Proofs.Query.CallSite
import QueryAdvisor.Proofs.Rule.FilteredColumn
import QueryAdvisor.Proofs.Schema.ForeignKey
import QueryAdvisor.Proofs.Erasure.InPlace
import QueryAdvisor.Proofs.Erasure.Nesting
import QueryAdvisor.Proofs.Block.CheckedSearch
import QueryAdvisor.Proofs.Query.LineNumber
import QueryAdvisor.Proofs.Rule.Severity
import QueryAdvisor.Proofs.Finding.Reordering
import QueryAdvisor.Proofs.Options.ListFlag
import QueryAdvisor.Proofs.Path.Upward
import QueryAdvisor.Proofs.Project.Root
import QueryAdvisor.Proofs.Path.Names
import QueryAdvisor.Proofs.Project.Scope
import QueryAdvisor.Proofs.Project.Reading
import QueryAdvisor.Proofs.Json.ByteString
import QueryAdvisor.Proofs.Query.WholeWord
import QueryAdvisor.Proofs.Pattern.Agreement
