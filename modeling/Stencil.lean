import Stencil.Text.Basic
import Stencil.Text.Blank
import Stencil.Text.Case
import Stencil.Text.Cased
import Stencil.Text.Digit
import Stencil.Text.LineBreak
import Stencil.Text.Quoted
import Stencil.Text.SmallLetter
import Stencil.Text.Word
import Stencil.Template.Directive
import Stencil.Template.Piece
import Stencil.Template.Segment
import Stencil.Decimal
import Stencil.Number
import Stencil.Table
import Stencil.Log.Entry
import Stencil.Log.Session
import Stencil.Settings.Basic
import Stencil.Settings.EnvFile
import Stencil.Settings.Directions
import Stencil.Settings.EnvFile.Encoding
import Stencil.Settings.EnvFile.Reference
import Stencil.Settings.Load
import Stencil.Scope.Fragments
import Stencil.Scope.Listening
import Stencil.Scope.Reference
import Stencil.Scope.Tracker
import Stencil.Scope.Operation
import Stencil.Scope.Emit
import Stencil.Json.Basic
import Stencil.Json.Merge
import Stencil.Json.Order
import Stencil.Validation.Detail
import Stencil.Validation.Numeral
import Stencil.Validation.Coerce
import Stencil.Options.Spelling
import Stencil.Options.Basic
import Stencil.Options.Read
import Stencil.Placeholder.Format
import Stencil.Placeholder.Protect
import Stencil.Html.Attribute
import Stencil.Html.Minify
import Stencil.Html.RawText
import Stencil.Html.Request
import Stencil.Html.StartTag
import Stencil.Failure
import Stencil.Compile.Compiler
import Stencil.Compile.Stage
import Stencil.Proofs.Digits
import Stencil.Proofs.Escape
import Stencil.Proofs.Pieces
import Stencil.Proofs.Cuts
import Stencil.Proofs.Placeholders
import Stencil.Proofs.Emission
import Stencil.Proofs.Reading
import Stencil.Proofs.Partition
import Stencil.Proofs.Tree
import Stencil.Proofs.StringLiteral
import Stencil.Proofs.Strictness
import Stencil.Proofs.Lexing
import Stencil.Proofs.Completion
import Stencil.Proofs.Protection
import Stencil.Proofs.Thinning
import Stencil.Proofs.Elements
import Stencil.Proofs.Markup
import Stencil.Proofs.Attributes
import Stencil.Proofs.Retention
import Stencil.Proofs.Binding
import Stencil.Proofs.Naming
import Stencil.Proofs.Handover
import Stencil.Proofs.Separation
import Stencil.Proofs.BooleanAttributes
import Stencil.Proofs.Tracking
import Stencil.Proofs.Scanning
import Stencil.Proofs.AttributeContent
import Stencil.Proofs.Tidiness
import Stencil.Proofs.ScriptBodies
import Stencil.Proofs.Padding
import Stencil.Proofs.AttributeFrame
import Stencil.Proofs.Discipline
import Stencil.Proofs.Transparency
import Stencil.Proofs.Keys
import Stencil.Proofs.Quotes
import Stencil.Proofs.Expressions
import Stencil.Proofs.LineEndings
import Stencil.Proofs.SingleLine
import Stencil.Proofs.Concatenation
import Stencil.Proofs.Tables
import Stencil.Proofs.Merging
import Stencil.Proofs.Verbosity
import Stencil.Proofs.Runs
import Stencil.Proofs.Spellings
import Stencil.Proofs.MinifierOptions
import Stencil.Proofs.Resolution
import Stencil.Proofs.Requests
import Stencil.Proofs.Unwrapping
import Stencil.Proofs.Parents
