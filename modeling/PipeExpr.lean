import PipeExpr.Expr.Build
import PipeExpr.Expr.Same
import PipeExpr.Main
import PipeExpr.Reading.Outcome
import PipeExpr.Proofs.Grammar.Derivation
import PipeExpr.Proofs.Reading.Shifts
import PipeExpr.Proofs.Reading.Completeness
import PipeExpr.Proofs.Reading.Steps
import PipeExpr.Proofs.Reading.Soundness
import PipeExpr.Proofs.Reading.ErrorPlace
import PipeExpr.Proofs.Expr.Regular
import PipeExpr.Proofs.Grammar.Canonical
import PipeExpr.Proofs.Grammar.Nesting
import PipeExpr.Proofs.Number.Numeral
import PipeExpr.Proofs.Scanning.Lexemes
import PipeExpr.Proofs.Scanning.Scanned
import PipeExpr.Proofs.Writing.RoundTrip
import PipeExpr.Proofs.Scanning.Delivery
import PipeExpr.Proofs.Reading.NestingLimit
import PipeExpr.Proofs.Reading.Regularity
import PipeExpr.Proofs.Reading.Relabelling
import PipeExpr.Proofs.Reading.Spacing
import PipeExpr.Proofs.Reading.Ends
import PipeExpr.Proofs.Scanning.Places
import PipeExpr.Proofs.Reading.ErrorLocation
import PipeExpr.Proofs.Reading.Safety
import PipeExpr.Proofs.Scanning.Pasting
import PipeExpr.Proofs.Reading.Composition
import PipeExpr.Proofs.Expr.Height
import PipeExpr.Proofs.Reading.TreeHeight
import PipeExpr.Proofs.Grammar.Groups
import PipeExpr.Proofs.Writing.FewestGroups
import PipeExpr.Proofs.Reading.Locality
import PipeExpr.Proofs.Scanning.QuotedUnits
import PipeExpr.Proofs.Expr.Preorder
import PipeExpr.Proofs.Scanning.Events
import PipeExpr.Proofs.Reading.WithoutSource
import PipeExpr.Proofs.Grammar.WrittenPaths
import PipeExpr.Proofs.Reading.ReferenceOrder
import PipeExpr.Proofs.Writing.Quotation
import PipeExpr.Proofs.Expr.Typed
import PipeExpr.Proofs.Writing.Failure
import PipeExpr.Proofs.Number.Value
import PipeExpr.Proofs.Expr.Sameness
import PipeExpr.Proofs.Data.Faithful
import PipeExpr.Proofs.Number.Nearest
import PipeExpr.Proofs.Scanning.Numerals
import PipeExpr.Proofs.Writing.FixedNotation
