import SqlDialect.CallKind
import SqlDialect.DataType
import SqlDialect.Decimal.Binary64
import SqlDialect.Decimal.Shortest
import SqlDialect.Decimal.Text
import SqlDialect.Diagnostic
import SqlDialect.Dialect
import SqlDialect.Dialect.Builtin
import SqlDialect.Dialect.Change
import SqlDialect.Dialect.Error
import SqlDialect.Dialect.Registry
import SqlDialect.Expr
import SqlDialect.Expr.Build
import SqlDialect.Front
import SqlDialect.Grammar.Expression
import SqlDialect.Grammar.Name
import SqlDialect.Grammar.Read
import SqlDialect.Grammar.Statement
import SqlDialect.Keyword
import SqlDialect.Lexeme
import SqlDialect.Lexeme.Scan
import SqlDialect.NodeKind
import SqlDialect.Overrides
import SqlDialect.ParseError
import SqlDialect.Rendering
import SqlDialect.Rendering.Base
import SqlDialect.Rendering.Fragment
import SqlDialect.Rendering.Renderer
import SqlDialect.Settings
import SqlDialect.Settings.Registry
import SqlDialect.Settings.Toml
import SqlDialect.Text.Ascii
import SqlDialect.Text.Blank
import SqlDialect.Text.Letter
import SqlDialect.Text.Quoted
import SqlDialect.Text.Split
import SqlDialect.Token
import SqlDialect.Toml.DateTime
import SqlDialect.Toml.Document
import SqlDialect.Toml.Item
import SqlDialect.Toml.Key
import SqlDialect.Toml.Number
import SqlDialect.Toml.Quoted
import SqlDialect.Toml.Scalar
import SqlDialect.Toml.Value
import SqlDialect.Transpile
import SqlDialect.TypeKind
import SqlDialect.Validation
import SqlDialect.Proofs.Decimal.Readback
import SqlDialect.Proofs.Grammar.Complete
import SqlDialect.Proofs.Grammar.Proper
import SqlDialect.Proofs.Rendering.Aggregate
import SqlDialect.Proofs.Rendering.Compound
import SqlDialect.Proofs.Rendering.Primary
import SqlDialect.Proofs.Rendering.Query
import SqlDialect.Proofs.Grammar.Formed
import SqlDialect.Proofs.Lexeme.Extent
import SqlDialect.Proofs.Lexeme.Layout
import SqlDialect.Proofs.Lexeme.Quoting
import SqlDialect.Proofs.Rendering.Sqlite
import SqlDialect.Proofs.Grammar.Parse
import SqlDialect.Proofs.Rendering.Ready
import SqlDialect.Proofs.Rendering.Reread
import SqlDialect.Proofs.Rendering.Arrow
import SqlDialect.Proofs.Rendering.Statement
import SqlDialect.Proofs.Rendering.Unwrap
import SqlDialect.Proofs.Grammar.Inversion
import SqlDialect.Proofs.Grammar.Literal
import SqlDialect.Proofs.Grammar.Script
import SqlDialect.Proofs.Rendering.Generic
import SqlDialect.Proofs.Rendering.DateUnit
import SqlDialect.Proofs.Dialect.Registry
import SqlDialect.Proofs.Dialect.Layers
import SqlDialect.Proofs.Rendering.Remarks
import SqlDialect.Proofs.Rendering.Grouped
import SqlDialect.Proofs.Rendering.HexInteger
import SqlDialect.Proofs.Rendering.Options
import SqlDialect.Proofs.Rendering.Override
import SqlDialect.Proofs.Columns.Kept
import SqlDialect.Proofs.Settings.Enters
import SqlDialect.Proofs.Settings.Kept
import SqlDialect.Proofs.Settings.Inheritance
import SqlDialect.Proofs.Settings.Usual
import SqlDialect.Proofs.DataType.Reading
import SqlDialect.Proofs.Grammar.Identifier
import SqlDialect.Proofs.Grammar.Pointing
import SqlDialect.Proofs.Tree.CallArguments
import SqlDialect.Proofs.Tree.Stored
import SqlDialect.Proofs.Grammar.RowLimit
import SqlDialect.Proofs.Grammar.Progress
