import TemplateLint.Text.Position
import TemplateLint.Concrete.Expr
import TemplateLint.Concrete.Failure
import TemplateLint.Concrete.Read.Expr
import TemplateLint.Concrete.Statement
import TemplateLint.Concrete.Read.Element
import TemplateLint.Concrete.Read.Statement
import TemplateLint.Tree.Expr
import TemplateLint.Tree.Layout
import TemplateLint.Tree.Node
import TemplateLint.Tree.Parse
import TemplateLint.Diagnostic.Basic
import TemplateLint.Edit.Apply
import TemplateLint.Edit.Builder
import TemplateLint.Edit.LineDiff
import TemplateLint.Error
import TemplateLint.Decimal.Binary64
import TemplateLint.Decimal.Shortest
import TemplateLint.Json.Printer
import TemplateLint.Component.Registry
import TemplateLint.Component.Suggestion
import TemplateLint.Config.Basic
import TemplateLint.Linter
import TemplateLint.Text.Letter
import TemplateLint.Text.Quoted
import TemplateLint.Config.Reader
import TemplateLint.Config.Load
import TemplateLint.Diagnostic.Json
import TemplateLint.Proofs.Edit.Sequence
import TemplateLint.Proofs.Fixing.Alone
import TemplateLint.Proofs.Fixing.Nested
import TemplateLint.Proofs.Fixing.Outcome
import TemplateLint.Proofs.Layout.Nesting
import TemplateLint.Proofs.Layout.Tiling
import TemplateLint.Proofs.Layout.Composition
import TemplateLint.Proofs.Reporting.TripleCurlies
import TemplateLint.Proofs.Fixing.EitherOrder
import TemplateLint.Proofs.Migration.Strings
import TemplateLint.Proofs.Migration.Together
import TemplateLint.Proofs.Fixing.Edits
import TemplateLint.Proofs.Edit.Composed
import TemplateLint.Proofs.Edit.Reordered
import TemplateLint.Proofs.Layout.Verbatim
import TemplateLint.Proofs.Cursor.Statement
import TemplateLint.Proofs.Progress.Foresight
import TemplateLint.Proofs.Progress.Rounds
import TemplateLint.Proofs.Text.Positions
import TemplateLint.Proofs.Layout.Texts
import TemplateLint.Proofs.Layout.Walk
import TemplateLint.Proofs.Flagged.Chains
import TemplateLint.Proofs.Component.Nearest
import TemplateLint.Proofs.Config.Enabling
import TemplateLint.Proofs.Config.Document
