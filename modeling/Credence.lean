import Credence.Arena.Attribute
import Credence.Arena.Basic
import Credence.Arena.Display
import Credence.Arena.Inherit
import Credence.Arena.Operation
import Credence.Arena.Subtype
import Credence.Builtin.Call
import Credence.Builtin.Member
import Credence.Builtin.Signature
import Credence.Check.Ascription
import Credence.Check.Assign
import Credence.Check.Call
import Credence.Check.Config
import Credence.Check.Definition
import Credence.Check.Expr
import Credence.Check.Import
import Credence.Check.Memo
import Credence.Check.Run
import Credence.Check.Session
import Credence.Check.Signature
import Credence.Check.Stmt
import Credence.Command.Options
import Credence.Command.Run
import Credence.Decimal.Double
import Credence.Decimal.Nearest
import Credence.Decimal.Shortest
import Credence.Fault
import Credence.Grammar.Cursor
import Credence.Grammar.Expr
import Credence.Grammar.Power
import Credence.Grammar.Source
import Credence.Grammar.Stmt
import Credence.Json.Basic
import Credence.Json.Number
import Credence.Json.Read
import Credence.Json.Write
import Credence.Main
import Credence.Operator
import Credence.Report.Diagnostic
import Credence.Report.Hub
import Credence.Report.Number
import Credence.Scope.Adopt
import Credence.Scope.Basic
import Credence.Scope.Bind
import Credence.Scope.Guard
import Credence.Scope.World
import Credence.Source.Line
import Credence.Source.Position
import Credence.Table
import Credence.Text.Blank
import Credence.Text.Letter
import Credence.Text.Quoted
import Credence.Text.Ranges
import Credence.Text.Visible
import Credence.Token.Basic
import Credence.Token.Kind
import Credence.Token.Lexeme
import Credence.Token.Literal
import Credence.Token.Scan
import Credence.Tree.Expr
import Credence.Tree.Names
import Credence.Tree.Numeral
import Credence.Tree.Returns
import Credence.Tree.Stmt
import Credence.Tree.Weight
import Credence.Types.Alike
import Credence.Types.Basic
import Credence.Types.Container
import Credence.Types.Prim
import Credence.Types.Union
import Credence.Proofs.Discipline
import Credence.Proofs.Lawful
import Credence.Proofs.Adoption
import Credence.Proofs.Annotation
import Credence.Proofs.Balance
import Credence.Proofs.Sharing
import Credence.Proofs.Alternatives
import Credence.Proofs.Recall
import Credence.Proofs.Adequacy
import Credence.Proofs.Joins
import Credence.Proofs.Preorder
import Credence.Proofs.WellFormed
import Credence.Proofs.ShortCircuit
import Credence.Proofs.Isolation
import Credence.Proofs.Resolution
import Credence.Proofs.Dotted
import Credence.Proofs.Importer
import Credence.Proofs.Path
import Credence.Proofs.Acceptance
import Credence.Proofs.Silence
import Credence.Proofs.Unavailable
import Credence.Proofs.Layout
import Credence.Proofs.Precedence
import Credence.Proofs.Totality
import Credence.Proofs.Escape
import Credence.Proofs.Coverage
import Credence.Proofs.Binding
import Credence.Proofs.Defaults
import Credence.Proofs.Footprint
import Credence.Proofs.Lineage
import Credence.Proofs.Retention
import Credence.Proofs.Operators
import Credence.Proofs.Derived
import Credence.Proofs.Mentions
import Credence.Proofs.Identity
import Credence.Proofs.Nesting
import Credence.Proofs.Excerpt
import Credence.Proofs.Closing
import Credence.Proofs.Reference
import Credence.Proofs.Unpacking
import Credence.Proofs.Predicting
import Credence.Proofs.Stamping
import Credence.Proofs.Cursor
import Credence.Proofs.Mixing
