import InlineExpr.Main
import InlineExpr.Proofs.Expansion
import InlineExpr.Proofs.FileLayout
import InlineExpr.Proofs.Invisibility
import InlineExpr.Proofs.Neighbours
import InlineExpr.Proofs.Resolution
import InlineExpr.Proofs.Subexpression
import InlineExpr.Proofs.Termination
import InlineExpr.Proofs.Dispatch
import InlineExpr.Proofs.Confinement
import InlineExpr.Proofs.Unreferenced
import InlineExpr.Proofs.ChainDiscipline
import InlineExpr.Proofs.Shortage
import InlineExpr.Proofs.CallSeparators
import InlineExpr.Proofs.SmallerRegistry
import InlineExpr.Proofs.Quotient
import InlineExpr.Proofs.ExactArithmetic
import InlineExpr.Proofs.NumericOrder
import InlineExpr.Proofs.TokenLayout
import InlineExpr.Proofs.DiagnosticOffset
import InlineExpr.Proofs.EmptySpans
import InlineExpr.Proofs.Footprints
import InlineExpr.Proofs.Slices
import InlineExpr.Proofs.SpanSearch
import InlineExpr.Proofs.Suggestions
