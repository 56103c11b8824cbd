import BitPattern.Bits.Basic
import BitPattern.Bits.Bitstring
import BitPattern.Bits.Order
import BitPattern.Bits.Scalar
import BitPattern.Bits.Window
import BitPattern.Bits.Writer
import BitPattern.Callable
import BitPattern.Case
import BitPattern.Command.Arguments
import BitPattern.Command.Execute
import BitPattern.Command.Files
import BitPattern.Command.Path
import BitPattern.Command.Request
import BitPattern.Dispatch
import BitPattern.Expr.Basic
import BitPattern.Expr.Fold
import BitPattern.Fault
import BitPattern.Field.Basic
import BitPattern.Field.Qualifier
import BitPattern.Field.Spec
import BitPattern.Grammar.Expr
import BitPattern.Grammar.Field
import BitPattern.Grammar.Parse
import BitPattern.Grammar.Pattern
import BitPattern.Grammar.Reader
import BitPattern.Grammar.Source
import BitPattern.Grammar.Token
import BitPattern.Integer
import BitPattern.Log
import BitPattern.Main
import BitPattern.Matcher
import BitPattern.Plan.Basic
import BitPattern.Plan.Build
import BitPattern.Plan.Emitter
import BitPattern.Plan.Listing
import BitPattern.Plan.Run
import BitPattern.Plan.Scope
import BitPattern.Proofs.Bits.Digits
import BitPattern.Proofs.Bits.History
import BitPattern.Proofs.Bits.InPlace
import BitPattern.Proofs.Bits.Integer
import BitPattern.Proofs.Bits.Number
import BitPattern.Proofs.Bits.Octets
import BitPattern.Proofs.Bits.Positional
import BitPattern.Proofs.Bits.Update
import BitPattern.Proofs.Bits.Window
import BitPattern.Proofs.Bits.Writer
import BitPattern.Proofs.Command.Accept
import BitPattern.Proofs.Expr.Division
import BitPattern.Proofs.Expr.Eval
import BitPattern.Proofs.Expr.Fold
import BitPattern.Proofs.Expr.Mention
import BitPattern.Proofs.Expr.Part
import BitPattern.Proofs.Field.Qualifier
import BitPattern.Proofs.Grammar.Chain
import BitPattern.Proofs.Grammar.Expr
import BitPattern.Proofs.Grammar.Field
import BitPattern.Proofs.Grammar.Image
import BitPattern.Proofs.Grammar.Integer
import BitPattern.Proofs.Grammar.Located
import BitPattern.Proofs.Grammar.Numeral
import BitPattern.Proofs.Grammar.Operator
import BitPattern.Proofs.Grammar.Pattern
import BitPattern.Proofs.Grammar.PatternText
import BitPattern.Proofs.Grammar.Precedence
import BitPattern.Proofs.Grammar.Punctuation
import BitPattern.Proofs.Grammar.Quoted
import BitPattern.Proofs.Grammar.Reading
import BitPattern.Proofs.Grammar.Rendered
import BitPattern.Proofs.Grammar.Rendering
import BitPattern.Proofs.Grammar.Reread
import BitPattern.Proofs.Grammar.Source
import BitPattern.Proofs.Grammar.Spelling
import BitPattern.Proofs.Grammar.Token
import BitPattern.Proofs.Grammar.Tower
import BitPattern.Proofs.Grammar.Tree
import BitPattern.Proofs.Grammar.Turn
import BitPattern.Proofs.Grammar.Unit
import BitPattern.Proofs.Grammar.Visible
import BitPattern.Proofs.Grammar.Whole
import BitPattern.Proofs.Layout.Field
import BitPattern.Proofs.Layout.RoundTrip
import BitPattern.Proofs.Layout.Shape
import BitPattern.Proofs.Plan.Admitted
import BitPattern.Proofs.Plan.Agree
import BitPattern.Proofs.Plan.Alike
import BitPattern.Proofs.Plan.Alone
import BitPattern.Proofs.Plan.Binding
import BitPattern.Proofs.Plan.Build
import BitPattern.Proofs.Plan.Code
import BitPattern.Proofs.Plan.Compiled
import BitPattern.Proofs.Plan.Completed
import BitPattern.Proofs.Plan.Cursor
import BitPattern.Proofs.Plan.Deferred
import BitPattern.Proofs.Plan.Dispatch
import BitPattern.Proofs.Plan.Emission
import BitPattern.Proofs.Plan.Faithful
import BitPattern.Proofs.Plan.Framing
import BitPattern.Proofs.Plan.Lexical
import BitPattern.Proofs.Plan.Lines
import BitPattern.Proofs.Plan.Literal
import BitPattern.Proofs.Plan.Loadable
import BitPattern.Proofs.Plan.Longer
import BitPattern.Proofs.Plan.Numbering
import BitPattern.Proofs.Plan.Reading
import BitPattern.Proofs.Plan.Replace
import BitPattern.Proofs.Plan.Scope
import BitPattern.Proofs.Plan.Scoping
import BitPattern.Proofs.Plan.Sequencing
import BitPattern.Proofs.Plan.Signature
import BitPattern.Proofs.Plan.Step
import BitPattern.Proofs.Plan.Unbound
import BitPattern.Proofs.Plan.Uses
import BitPattern.Proofs.Plan.View
import BitPattern.Proofs.Plan.Wildcard
import BitPattern.Proofs.Report.Line
import BitPattern.Proofs.Run.Lift
import BitPattern.Proofs.Text.Digit
import BitPattern.Proofs.Text.Escape
import BitPattern.Proofs.Text.Hidden
import BitPattern.Proofs.Text.Lines
import BitPattern.Proofs.Text.Local
import BitPattern.Proofs.Text.Name
import BitPattern.Proofs.Text.SExpr
import BitPattern.Proofs.Text.Written
import BitPattern.Proofs.Value.Content
import BitPattern.Proofs.Value.Faults
import BitPattern.Render.Dump
import BitPattern.Render.Text
import BitPattern.Render.Tree
import BitPattern.Report.Code
import BitPattern.Report.Diagnostic
import BitPattern.Report.Span
import BitPattern.Text.Blank
import BitPattern.Text.Encoding
import BitPattern.Text.Escape
import BitPattern.Text.Json
import BitPattern.Text.Name
import BitPattern.Text.Numeral
import BitPattern.Text.Quoted
import BitPattern.Text.Ranges
import BitPattern.Text.SExpr
import BitPattern.Value.Arithmetic
import BitPattern.Value.Basic
import BitPattern.Value.Builtin
import BitPattern.Value.Display
import BitPattern.Value.Order
import BitPattern.Value.Run
import BitPattern.Value.Subject
