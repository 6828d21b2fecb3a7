import TypeSchema.Text.Utf8
import TypeSchema.Text.CodePoint
import TypeSchema.Limits
import TypeSchema.Text.Similarity
import TypeSchema.Number.Literal
import TypeSchema.Json.Reader
import TypeSchema.Json.Writer
import TypeSchema.Format.Reader
import TypeSchema.Schema.Encoder
import TypeSchema.Resolution.Resolver
import TypeSchema.Settings
import TypeSchema.Command.Run
import TypeSchema.Main
import TypeSchema.Proofs.Resolution.Closed
import TypeSchema.Proofs.Denotation.Place
import TypeSchema.Proofs.Denotation.Agreement
import TypeSchema.Proofs.Denotation.Modes
import TypeSchema.Proofs.Resolution.Transfer
import TypeSchema.Proofs.Resolution.Growth
import TypeSchema.Proofs.Resolution.Settling
import TypeSchema.Proofs.Resolution.Termination
import TypeSchema.Proofs.Failure.Comparison
import TypeSchema.Proofs.Reachability.Course
import TypeSchema.Proofs.Reachability.Finished
import TypeSchema.Proofs.Failure.Origin
import TypeSchema.Proofs.Failure.Modes
import TypeSchema.Proofs.Failure.Support
import TypeSchema.Proofs.Translation.Basic
import TypeSchema.Proofs.Translation.Keyword
import TypeSchema.Proofs.Translation.Shared
import TypeSchema.Proofs.Translation.Inlined
import TypeSchema.Schema.Decoder
import TypeSchema.Proofs.Schema.RoundTrip
import TypeSchema.Proofs.Constant.Values
import TypeSchema.Proofs.Schema.WellFormed
import TypeSchema.Proofs.Schema.SourceOrder
import TypeSchema.Proofs.Command.Account
import TypeSchema.Proofs.Command.Functions
import TypeSchema.Proofs.Command.Recording
import TypeSchema.Proofs.Command.Selection
import TypeSchema.Format.Range
import TypeSchema.Format.Writer
import TypeSchema.Proofs.Format.Rules
import TypeSchema.Source.Unlocated
import TypeSchema.Proofs.Format.Range
import TypeSchema.Proofs.Format.RoundTrip
import TypeSchema.Proofs.Resolution.Locality
import TypeSchema.Format.Fragment
import TypeSchema.Proofs.Format.Path
import TypeSchema.Proofs.Format.Budget
import TypeSchema.Proofs.Format.Fault
import TypeSchema.Proofs.Format.Acceptance
import TypeSchema.Format.Grammar
import TypeSchema.Proofs.Format.Origin
import TypeSchema.Proofs.Definition.Order
import TypeSchema.Proofs.Definition.Occurrence
import TypeSchema.Proofs.Failure.Foreseen
import TypeSchema.Source.Stripped
import TypeSchema.Proofs.Spelling.Unwrapping
import TypeSchema.Proofs.Spelling.Influence
import TypeSchema.Proofs.Number.Integers
import TypeSchema.Proofs.Number.Spelling
import TypeSchema.Proofs.Constant.Numbering
import TypeSchema.Proofs.Constant.Complement
import TypeSchema.Proofs.Definition.Renaming
import TypeSchema.Proofs.Resolution.Aliases
import TypeSchema.Proofs.Definition.Journal
import TypeSchema.Proofs.Command.Reading
import TypeSchema.Proofs.Command.Files
import TypeSchema.Proofs.Command.Repetition
import TypeSchema.Proofs.Resolution.Invariant
import TypeSchema.Proofs.Format.SourceFile
import TypeSchema.Json.Grammar
import TypeSchema.Proofs.Number.Shortest
import TypeSchema.Proofs.Number.Decimal
import TypeSchema.Proofs.Number.Layout
import TypeSchema.Proofs.Text.CodePoint
import TypeSchema.Proofs.Json.Parts
import TypeSchema.Proofs.Json.Writing
import TypeSchema.Proofs.Json.Quotation
import TypeSchema.Proofs.Json.Numbers
import TypeSchema.Proofs.Json.Reading
import TypeSchema.Proofs.Json.Stability
import TypeSchema.Proofs.Number.Finite
import TypeSchema.Proofs.Schema.Finite
import TypeSchema.Proofs.Command.Completion
