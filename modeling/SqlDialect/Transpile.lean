import SqlDialect.Dialect.Registry
import SqlDialect.Grammar.Statement
import SqlDialect.Rendering

/-!
# SqlDialect.Transpile

From the text of one dialect to that of another: every statement is read in
the one and printed in the other.
-/

namespace SqlDialect

/-- Why a script cannot be carried over. -/
inductive TranspileError where
  | parse (error : ParseError)
  | render (error : RenderError)
  | dialect (error : DialectError)
  deriving DecidableEq, Repr

/-- The wording of an error. -/
def TranspileError.message : TranspileError → String
  | parse error => s!"parse error: {error.message}"
  | render error => s!"render error: {error.message}"
  | dialect error => error.message

/-- Carries a script over, statement by statement. -/
def transpile (sql : String) (read write : Dialect) (o : RenderOptions) :
    Except TranspileError (List Rendered) :=
  match read.parse sql with
  | .error e => .error (.parse e)
  | .ok statements => statements.mapM fun e => (e.render write o).mapError .render

/-- Carries a script over between dialects given by name.  The one read is
looked up first. -/
def Registry.transpile (r : Registry) (sql read write : String) (o : RenderOptions) :
    Except TranspileError (List Rendered) := do
  let read ← (r.resolve read).mapError .dialect
  let write ← (r.resolve write).mapError .dialect
  SqlDialect.transpile sql read write o

end SqlDialect
