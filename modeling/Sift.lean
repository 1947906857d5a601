import Sift.Filter
import Sift.Registry.Builder
import Sift.Whitelist.File
import Sift.Proofs.Grammar.Derivation
import Sift.Proofs.Grammar.Soundness
import Sift.Proofs.Grammar.Completeness
import Sift.Proofs.Grammar.Acceptance
import Sift.Proofs.Expr.Typed
import Sift.Proofs.Sample
import Sift.Proofs.Registry.Boundary
import Sift.Proofs.Evaluation.Equations
import Sift.Proofs.Evaluation.Soundness
import Sift.Proofs.Calendar
import Sift.Proofs.Text.Digits
import Sift.Proofs.Text.Quoted
import Sift.Proofs.Timestamp.Slices
import Sift.Proofs.Timestamp.Written
import Sift.Proofs.Decimal.Written
import Sift.Proofs.Token.Lexeme
import Sift.Proofs.Token.Lexing
import Sift.Proofs.Expr.Equality
import Sift.Proofs.Expr.Written
import Sift.Proofs.Expr.RoundTrip
import Sift.Proofs.Evaluation.Connection
import Sift.Proofs.Evaluation.Correspondence
import Sift.Proofs.Evaluation.Equality
import Sift.Proofs.Evaluation.Walk
import Sift.Proofs.Token.Tiling
import Sift.Proofs.Grammar.Height
import Sift.Proofs.Registry.Extension
import Sift.Proofs.Expr.Reread
import Sift.Proofs.Grammar.Fault
import Sift.Proofs.Registry.Log
import Sift.Proofs.Text.Order
import Sift.Proofs.Grammar.Lockstep
import Sift.Proofs.Grammar.Respelling
import Sift.Proofs.Token.Lookahead
import Sift.Proofs.Token.NullSafe
import Sift.Proofs.Grammar.NullSafe
import Sift.Proofs.Evaluation.NullSafe
import Sift.Proofs.Token.Spacing
import Sift.Proofs.Registry.Configuration
import Sift.Proofs.Token.Quoted
import Sift.Proofs.Timestamp.Decoding
import Sift.Proofs.Token.Operator
import Sift.Proofs.Token.Munch
import Sift.Proofs.Value.Comparison
import Sift.Proofs.Token.RightOperand
import Sift.Proofs.Literal.Quoted
import Sift.Proofs.Grammar.Quoted
import Sift.Proofs.Timestamp.Form
import Sift.Proofs.Token.DateTime
import Sift.Proofs.Decimal.Rounding
import Sift.Proofs.Decimal.Numeral
import Sift.Proofs.Evaluation.Numeral
