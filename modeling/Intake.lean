import Intake.Text.Blank
import Intake.Text.Digits
import Intake.Text.Letters
import Intake.Text.Lowercase
import Intake.Text.Pieces
import Intake.Text.Quoted
import Intake.Number.Reading
import Intake.Number.Decimal
import Intake.Calendar.Iso
import Intake.Pattern.Matcher
import Intake.Pattern.Reader
import Intake.Calendar.Layout
import Intake.Uuid
import Intake.Value.Display
import Intake.Scalar
import Intake.Json.Reader
import Intake.Model.Zero
import Intake.Shape.Rejection
import Intake.Shape.Build
import Intake.Applicability
import Intake.Email
import Intake.Validation.Record
import Intake.Model.Declaration
import Intake.Failure.Reply
import Intake.Binding.Demand
import Intake.Journal.Line
import Intake.Request.Cookie
import Intake.Request.Form
import Intake.Markup.Reader
import Intake.Markup.Document
import Intake.Schema.Components
import Intake.Schema.Reader
import Intake.Sample.Service
import Intake.Proofs.Outcome
import Intake.Proofs.Schema.Satisfaction
import Intake.Proofs.Validation.Verdict
import Intake.Proofs.Schema.Traversal
import Intake.Proofs.Validation.Report
import Intake.Proofs.Model.Description
import Intake.Proofs.Schema.Agreement
import Intake.Proofs.Schema.Finished
import Intake.Proofs.Schema.Closure
import Intake.Proofs.Schema.Example
import Intake.Proofs.Schema.Components
import Intake.Proofs.Text.Digits
import Intake.Proofs.Number.Integer
import Intake.Proofs.Uuid
import Intake.Proofs.Calendar.Place
import Intake.Proofs.Calendar.Iso
import Intake.Proofs.Calendar.Stamp
import Intake.Proofs.Scalar
import Intake.Proofs.Value.Entries
import Intake.Proofs.Shape.Document
import Intake.Proofs.Binding.Keys
import Intake.Proofs.Model.Instance
import Intake.Proofs.Binding.FormPairs
import Intake.Proofs.Binding.FormRoundTrip
import Intake.Proofs.Markup.Layout
import Intake.Proofs.Markup.Written
import Intake.Proofs.Markup.Read
import Intake.Proofs.Markup.Fields
import Intake.Proofs.Markup.RoundTrip
import Intake.Proofs.Binding.Typing
import Intake.Proofs.Binding.Termination
import Intake.Proofs.Binding.Isolation
import Intake.Proofs.Shape.Refusal
import Intake.Proofs.Binding.Recovery
import Intake.Proofs.Shape.Built
import Intake.Proofs.Validation.Safety
import Intake.Proofs.Validation.Typed
import Intake.Proofs.Validation.Composition
import Intake.Proofs.Binding.Places
import Intake.Proofs.Shape.Blame
import Intake.Proofs.Binding.Passing
import Intake.Proofs.Binding.Clearing
import Intake.Proofs.Binding.Body
import Intake.Proofs.Binding.Leniency
import Intake.Proofs.Json.Document
import Intake.Proofs.Binding.Strictness
import Intake.Proofs.Binding.UnknownKeys
import Intake.Proofs.Binding.MissingKeys
import Intake.Proofs.Schema.Misapplied
import Intake.Proofs.Schema.Filling
import Intake.Proofs.Schema.Frozen
import Intake.Proofs.Schema.Placed
import Intake.Proofs.Markup.Documented
import Intake.Proofs.Validation.Diagnostics
import Intake.Proofs.Validation.Walk
import Intake.Proofs.Validation.ZeroRecord
import Intake.Proofs.Binding.OneSource
import Intake.Proofs.Binding.Data
import Intake.Proofs.Validation.Reliable
import Intake.Proofs.Binding.Return
import Intake.Proofs.Sample.Status
import Intake.Proofs.Email
import Intake.Proofs.Validation.Unique
import Intake.Proofs.Validation.Checking
import Intake.Proofs.Binding.Nesting
import Intake.Proofs.Binding.MapErrors
import Intake.Proofs.Markup.Edits
import Intake.Proofs.Binding.Undeclared
import Intake.Proofs.Markup.RecordMap
import Intake.Proofs.Schema.Expansion
import Intake.Proofs.Binding.Naming
import Intake.Proofs.Binding.ContentType
import Intake.Proofs.Binding.RulesApart
import Intake.Proofs.Annotation
import Intake.Proofs.Schema.Spelling
import Intake.Proofs.Schema.Interrupted
import Intake.Proofs.Shape.Completion
import Intake.Proofs.Journal.Redaction
