import ExprLang.Main
import ExprLang.Number.ReadBack
import ExprLang.Session
import ExprLang.Proofs.Output
import ExprLang.Proofs.Refusal
import ExprLang.Proofs.Tiling
import ExprLang.Proofs.Types
import ExprLang.Proofs.Lines
import ExprLang.Proofs.Boundary
import ExprLang.Proofs.Scanning
import ExprLang.Proofs.Composition
import ExprLang.Proofs.Layout
import ExprLang.Proofs.WrittenForm
import ExprLang.Proofs.Alphabet
import ExprLang.Proofs.Continuation
import ExprLang.Proofs.LineLaw
import ExprLang.Proofs.Modes
import ExprLang.Proofs.Diagnostics
import ExprLang.Proofs.Sessions
import ExprLang.Proofs.Nodes
import ExprLang.Proofs.Sources
import ExprLang.Proofs.Commands
import ExprLang.Proofs.Lookahead
import ExprLang.Proofs.Parentheses
import ExprLang.Proofs.Listing
import ExprLang.Proofs.Literals
import ExprLang.Proofs.Additions
import ExprLang.Proofs.Progress
