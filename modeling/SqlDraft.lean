import SqlDraft.Kind
import SqlDraft.Catalog
import SqlDraft.Fault
import SqlDraft.Ty.Basic
import SqlDraft.Ty.Fit
import SqlDraft.Ty.Match
import SqlDraft.Decimal.Binary
import SqlDraft.Decimal.Shortest
import SqlDraft.Decimal.Text
import SqlDraft.Instant
import SqlDraft.Value
import SqlDraft.Table
import SqlDraft.Command
import SqlDraft.Query.Basic
import SqlDraft.Signature.Basic
import SqlDraft.Signature.Builtin
import SqlDraft.Text.Upper
import SqlDraft.Text.Replace
import SqlDraft.Sql.Token
import SqlDraft.Registry
import SqlDraft.Signature.Registry
import SqlDraft.Dialect.Keyword
import SqlDraft.Dialect.Quoting
import SqlDraft.Dialect.Literal
import SqlDraft.Dialect.Rule
import SqlDraft.Dialect.Basic
import SqlDraft.Dialect.Standard
import SqlDraft.Dialect.Registry
import SqlDraft.Sql.Outcomes
import SqlDraft.Sql.Site
import SqlDraft.Sql.Call
import SqlDraft.Sql.Layout
import SqlDraft.Sql.Statement
import SqlDraft.Sql.Compile
import SqlDraft.Query.Start
import SqlDraft.Query.Condition
import SqlDraft.Query.Shape
import SqlDraft.Query.Payload
import SqlDraft.Record
import SqlDraft.Signature.Term
import SqlDraft.Query.Step
import SqlDraft.Query.Handle
import SqlDraft.Proofs.Tree.Induction
import SqlDraft.Proofs.Reading.Scan
import SqlDraft.Proofs.Reading.Nest
import SqlDraft.Proofs.Dialect.Flavor
import SqlDraft.Proofs.Dialect.Spelling
import SqlDraft.Proofs.Reading.Weave
import SqlDraft.Proofs.Tree.Texts
import SqlDraft.Proofs.Tree.Data
import SqlDraft.Proofs.Layout.Blank
import SqlDraft.Proofs.Layout.Weave
import SqlDraft.Proofs.Literals
import SqlDraft.Proofs.Reading.Phrase
import SqlDraft.Proofs.Dialect.Grammar
import SqlDraft.Proofs.Reading.Atom
import SqlDraft.Proofs.Reading.Expression
import SqlDraft.Proofs.Reading.Printed
import SqlDraft.Proofs.Precedence
import SqlDraft.Proofs.Condition.Chain
import SqlDraft.Proofs.Decimal.Distinct
import SqlDraft.Proofs.Formula.Alike
import SqlDraft.Proofs.Formula.Unmixed
import SqlDraft.Proofs.Tree.Occurrence
import SqlDraft.Proofs.Matching.Position
import SqlDraft.Proofs.Matching.Ruling
import SqlDraft.Proofs.Drafting.Method
import SqlDraft.Proofs.Drafting.Sound
import SqlDraft.Proofs.Drafting.Made
import SqlDraft.Proofs.Layout.Inclusion
import SqlDraft.Proofs.Layout.Faults
import SqlDraft.Proofs.Drafting.Written
import SqlDraft.Proofs.Drafting.Complete
import SqlDraft.Proofs.Condition.Phrase
import SqlDraft.Proofs.Condition.Reading
import SqlDraft.Proofs.Condition.Drafting
import SqlDraft.Proofs.Condition.Meaning
import SqlDraft.Proofs.Layout.Parallel
import SqlDraft.Proofs.Scope.Widening
import SqlDraft.Proofs.Scope.Sight
import SqlDraft.Proofs.Scope.Reference
import SqlDraft.Proofs.Typing.Rules
import SqlDraft.Proofs.Drafting.Joins
import SqlDraft.Proofs.Drafting.Payload
import SqlDraft.Proofs.Typing.Blueprint
import SqlDraft.Proofs.Drafting.Field
import SqlDraft.Proofs.Drafting.Action
import SqlDraft.Proofs.Drafting.Handle
import SqlDraft.Proofs.Drafting.Local
import SqlDraft.Proofs.Drafting.Order
import SqlDraft.Proofs.Decimal.Count
import SqlDraft.Proofs.Drafting.Typed
import SqlDraft.Proofs.Matching.Accord
import SqlDraft.Proofs.Matching.Bindings
import SqlDraft.Proofs.Matching.Rematch
import SqlDraft.Proofs.Matching.Blame
import SqlDraft.Proofs.Matching.Permuted
import SqlDraft.Proofs.Matching.Neutral
import SqlDraft.Proofs.Drafting.Handed
import SqlDraft.Proofs.Drafting.Batch
import SqlDraft.Proofs.Layout.Arguments
import SqlDraft.Proofs.Dialect.Extension
import SqlDraft.Proofs.Reading.Dotted
import SqlDraft.Proofs.LetterCase
import SqlDraft.Proofs.Instant.Text
import SqlDraft.Proofs.Typing.Sameness
import SqlDraft.Proofs.Registry.History
import SqlDraft.Proofs.Drafting.Embedding
import SqlDraft.Proofs.Reading.Literal
import SqlDraft.Proofs.Drafting.Additions
import SqlDraft.Proofs.Layout.Paging
