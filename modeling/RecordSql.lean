import RecordSql.Calendar.Date
import RecordSql.Calendar.DateTime
import RecordSql.Calendar.Format
import RecordSql.Calendar.Part
import RecordSql.Dict
import RecordSql.Eval.Aggregate
import RecordSql.Eval.Error
import RecordSql.Eval.Expr
import RecordSql.Eval.Fold
import RecordSql.Eval.Function
import RecordSql.Eval.Like
import RecordSql.Fetch.Condition
import RecordSql.Fetch.DateRange
import RecordSql.Fetch.Evaluate
import RecordSql.Fetch.Operator
import RecordSql.Fetch.Query
import RecordSql.Fetch.Xml
import RecordSql.Grouping
import RecordSql.Guid
import RecordSql.Json.Basic
import RecordSql.Json.Numeral
import RecordSql.Json.Reader
import RecordSql.Number.Binary
import RecordSql.Number.Layout
import RecordSql.Number.Read
import RecordSql.Number.Shortest
import RecordSql.Number.Word
import RecordSql.Plan.Basic
import RecordSql.Plan.Context
import RecordSql.Plan.Error
import RecordSql.Plan.Filter
import RecordSql.Plan.From
import RecordSql.Plan.Groups
import RecordSql.Plan.Limit
import RecordSql.Plan.Ordering
import RecordSql.Plan.Qualify
import RecordSql.Plan.SelectList
import RecordSql.Plan.Statement
import RecordSql.Platform.Client
import RecordSql.Platform.Error
import RecordSql.Platform.Recorder
import RecordSql.Platform.Seed
import RecordSql.Platform.Store
import RecordSql.Proofs.Binding
import RecordSql.Proofs.Calendar.Parts
import RecordSql.Proofs.Calendar.Periods
import RecordSql.Proofs.Canonical.Values
import RecordSql.Proofs.Changes.Bulk
import RecordSql.Proofs.Changes.Joined
import RecordSql.Proofs.Changes.SingleTable
import RecordSql.Proofs.Changes.Stages
import RecordSql.Proofs.Changes.Trace
import RecordSql.Proofs.Conjuncts
import RecordSql.Proofs.Cuts
import RecordSql.Proofs.DistinctPlans
import RecordSql.Proofs.DistinctRows
import RecordSql.Proofs.DocumentText
import RecordSql.Proofs.EqualRows
import RecordSql.Proofs.Execution
import RecordSql.Proofs.FilterAgreement
import RecordSql.Proofs.Folding
import RecordSql.Proofs.GroupColumns
import RecordSql.Proofs.GroupEngines
import RecordSql.Proofs.GroupOrder
import RecordSql.Proofs.GroupPartition
import RecordSql.Proofs.GroupPlans
import RecordSql.Proofs.GroupResults
import RecordSql.Proofs.GroupRows
import RecordSql.Proofs.GroupSpecs
import RecordSql.Proofs.GroupSteps
import RecordSql.Proofs.Grouping
import RecordSql.Proofs.GuidText
import RecordSql.Proofs.IntegerTests
import RecordSql.Proofs.Join.Meaning
import RecordSql.Proofs.Join.Picks
import RecordSql.Proofs.Join.Rows
import RecordSql.Proofs.Join.Tree
import RecordSql.Proofs.LikePatterns
import RecordSql.Proofs.Limits
import RecordSql.Proofs.LinkFilters
import RecordSql.Proofs.MixedOrder
import RecordSql.Proofs.NativeForms
import RecordSql.Proofs.Negation
import RecordSql.Proofs.Occurrences
import RecordSql.Proofs.Outcome
import RecordSql.Proofs.PageSizes
import RecordSql.Proofs.Paging
import RecordSql.Proofs.Parsing.Batches
import RecordSql.Proofs.Parsing.Rounds
import RecordSql.Proofs.Parsing.Spans
import RecordSql.Proofs.Printing.RoundTrip
import RecordSql.Proofs.Qualification
import RecordSql.Proofs.QueryText.Elements
import RecordSql.Proofs.QueryText.Queries
import RecordSql.Proofs.Reading
import RecordSql.Proofs.Retrieved
import RecordSql.Proofs.RowLimits
import RecordSql.Proofs.RowSteps
import RecordSql.Proofs.ScopeNames
import RecordSql.Proofs.ScopeOrder
import RecordSql.Proofs.ScopePlaces
import RecordSql.Proofs.ScopeRows
import RecordSql.Proofs.ScopeTree
import RecordSql.Proofs.Searches
import RecordSql.Proofs.SelectItems
import RecordSql.Proofs.SortedRows
import RecordSql.Proofs.SourcedSteps
import RecordSql.Proofs.StableSort
import RecordSql.Proofs.StepReads
import RecordSql.Proofs.StoreIdentity
import RecordSql.Proofs.Stored
import RecordSql.Proofs.StoredValues
import RecordSql.Proofs.Substitution
import RecordSql.Proofs.TextQuery.Answer
import RecordSql.Proofs.TextQuery.Condition
import RecordSql.Proofs.TextQuery.Evaluation
import RecordSql.Proofs.TextQuery.Meaning
import RecordSql.Proofs.TextQuery.Ordering
import RecordSql.Proofs.TextQuery.Records
import RecordSql.Proofs.TextQuery.Rows
import RecordSql.Proofs.TextQuery.SelectList
import RecordSql.Proofs.Totals
import RecordSql.Proofs.TupleKeys
import RecordSql.Proofs.UngroupedColumns
import RecordSql.Proofs.ValueOrder
import RecordSql.Proofs.VirtualPages
import RecordSql.Proofs.WhereSplit
import RecordSql.Record
import RecordSql.Record.Document
import RecordSql.Regex.Basic
import RecordSql.Regex.Standard
import RecordSql.Run.Change
import RecordSql.Run.Error
import RecordSql.Run.Host
import RecordSql.Run.Journal
import RecordSql.Run.Query
import RecordSql.Run.Retrieve
import RecordSql.Schema.Basic
import RecordSql.Schema.Catalog
import RecordSql.Schema.Document
import RecordSql.Schema.Virtual
import RecordSql.Session
import RecordSql.Sorting
import RecordSql.Sql.Cursor
import RecordSql.Sql.Document
import RecordSql.Sql.Expr
import RecordSql.Sql.ExprParser
import RecordSql.Sql.ExprText
import RecordSql.Sql.Literal
import RecordSql.Sql.Negation
import RecordSql.Sql.Operator
import RecordSql.Sql.Statement
import RecordSql.Sql.StatementParser
import RecordSql.Sql.Substitution
import RecordSql.Sql.Token
import RecordSql.Sql.Truth
import RecordSql.Step.Apply
import RecordSql.Step.Basic
import RecordSql.Text.Ascii
import RecordSql.Text.Case
import RecordSql.Text.CaseTable
import RecordSql.Text.Letter
import RecordSql.Text.Pieces
import RecordSql.Value.Basic
import RecordSql.Value.Compare
