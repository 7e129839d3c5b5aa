import TrackerQuery.Attempt
import TrackerQuery.Calendar.Date
import TrackerQuery.Calendar.Instant
import TrackerQuery.Calendar.KnownZone
import TrackerQuery.Calendar.Literal
import TrackerQuery.Calendar.Locale
import TrackerQuery.Calendar.Timestamp
import TrackerQuery.Calendar.Zone
import TrackerQuery.Catalog
import TrackerQuery.Catalog.Read
import TrackerQuery.CommandLine
import TrackerQuery.CommandLine.Options
import TrackerQuery.Compile
import TrackerQuery.Completion
import TrackerQuery.Console
import TrackerQuery.Console.Folder
import TrackerQuery.Console.Stage
import TrackerQuery.Console.Terminal
import TrackerQuery.Decimal.Binary
import TrackerQuery.Decimal.Double
import TrackerQuery.Decimal.Integer
import TrackerQuery.Decimal.Shortest
import TrackerQuery.Document
import TrackerQuery.Document.Condition
import TrackerQuery.Document.Links
import TrackerQuery.Document.Text
import TrackerQuery.Error
import TrackerQuery.Expr
import TrackerQuery.Expr.Bind
import TrackerQuery.Expr.Parse
import TrackerQuery.Expr.Print
import TrackerQuery.Json
import TrackerQuery.Main
import TrackerQuery.Operator
import TrackerQuery.Report
import TrackerQuery.Report.Table
import TrackerQuery.Schema
import TrackerQuery.Select
import TrackerQuery.Select.Bind
import TrackerQuery.Select.Parse
import TrackerQuery.Select.Print
import TrackerQuery.Select.Simplify
import TrackerQuery.Session
import TrackerQuery.Session.Reduce
import TrackerQuery.Session.Rules
import TrackerQuery.Settings
import TrackerQuery.Simplify
import TrackerQuery.Span
import TrackerQuery.Text.Blank
import TrackerQuery.Text.Bytes
import TrackerQuery.Text.Case
import TrackerQuery.Text.Cluster
import TrackerQuery.Text.Cluster.Kind
import TrackerQuery.Text.Cluster.Marks
import TrackerQuery.Text.Columns
import TrackerQuery.Text.Emoji
import TrackerQuery.Text.Letter
import TrackerQuery.Text.Ligature
import TrackerQuery.Text.Numeral
import TrackerQuery.Text.Ranges
import TrackerQuery.Text.Split
import TrackerQuery.Text.Typed
import TrackerQuery.Text.Width
import TrackerQuery.Token
import TrackerQuery.Token.Scan
import TrackerQuery.Token.Stream
import TrackerQuery.Xml
import TrackerQuery.Proofs.Outcome
import TrackerQuery.Proofs.Resolved
import TrackerQuery.Proofs.EverOperand
import TrackerQuery.Proofs.DocumentTruth
import TrackerQuery.Proofs.OperandValue
import TrackerQuery.Proofs.Filed
import TrackerQuery.Proofs.SimplifiedTruth
import TrackerQuery.Proofs.Grammar
import TrackerQuery.Proofs.GrammarSound
import TrackerQuery.Proofs.GrammarComplete
import TrackerQuery.Proofs.QueryGrammar
import TrackerQuery.Proofs.Lexeme
import TrackerQuery.Proofs.Scanned
import TrackerQuery.Proofs.TextGrammar
import TrackerQuery.Proofs.PrintedText
import TrackerQuery.Proofs.BareName
import TrackerQuery.Proofs.Printable
import TrackerQuery.Proofs.Unplaced
import TrackerQuery.Proofs.PrintedCondition
import TrackerQuery.Proofs.PrintedFilter
import TrackerQuery.Proofs.PrintedQuery
import TrackerQuery.Proofs.PrintedTooDeep
import TrackerQuery.Proofs.RoundTrip
import TrackerQuery.Proofs.Rebound
import TrackerQuery.Proofs.DaySplit
import TrackerQuery.Proofs.SimplifiedClause
import TrackerQuery.Proofs.BoundQuery
import TrackerQuery.Proofs.LinkSides
import TrackerQuery.Proofs.DayNumber
import TrackerQuery.Proofs.ZoneReading
import TrackerQuery.Proofs.DateText
import TrackerQuery.Proofs.Stable
import TrackerQuery.Proofs.ComparisonRules
import TrackerQuery.Proofs.BoundAgain
import TrackerQuery.Proofs.Features
import TrackerQuery.Proofs.LinkTypes
import TrackerQuery.Proofs.RecursiveLinks
import TrackerQuery.Proofs.Alike
import TrackerQuery.Proofs.AlikeBound
import TrackerQuery.Proofs.AlikeSimplified
import TrackerQuery.Proofs.AlikeDocument
import TrackerQuery.Proofs.Truncated
import TrackerQuery.Proofs.Places
import TrackerQuery.Proofs.Tiling
import TrackerQuery.Proofs.ReadingStops
import TrackerQuery.Proofs.PlacedTree
import TrackerQuery.Proofs.PlacedBound
import TrackerQuery.Proofs.PlacedFault
import TrackerQuery.Proofs.ClauseEnd
import TrackerQuery.Proofs.Respelled
import TrackerQuery.Proofs.Moved
import TrackerQuery.Proofs.ClauseOrder
import TrackerQuery.Proofs.SpelledOut
import TrackerQuery.Proofs.SpelledOutSimplified
import TrackerQuery.Proofs.SpelledOutQuery
import TrackerQuery.Proofs.SimplifiedConditions
import TrackerQuery.Proofs.WrittenClause
import TrackerQuery.Proofs.NormalForm
import TrackerQuery.Proofs.NumberText
import TrackerQuery.Proofs.Regrouped
import TrackerQuery.Proofs.PrintedSimplified
import TrackerQuery.Proofs.IdentityOperand
import TrackerQuery.Proofs.DayOrder
import TrackerQuery.Proofs.ComparedByDay
import TrackerQuery.Proofs.DateRoundTrip
import TrackerQuery.Proofs.SpacedTokens
import TrackerQuery.Proofs.PathWeight
import TrackerQuery.Proofs.SpelledLevels
import TrackerQuery.Proofs.NestingCounter
import TrackerQuery.Proofs.SimplifiedHeight
import TrackerQuery.Proofs.RepeatedClause
import TrackerQuery.Proofs.NestedSpans
import TrackerQuery.Proofs.ComparedValues
import TrackerQuery.Proofs.XmlReading
import TrackerQuery.Proofs.WellFormedDocument
import TrackerQuery.Proofs.DateSpelling
import TrackerQuery.Proofs.CaretLine
import TrackerQuery.Proofs.TypedWord
import TrackerQuery.Proofs.ServerMacros
import TrackerQuery.Proofs.WrittenSum
import TrackerQuery.Proofs.TreePath
