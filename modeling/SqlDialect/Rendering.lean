import SqlDialect.Rendering.Renderer
import SqlDialect.Validation

/-!
# SqlDialect.Rendering

Printing a tree in a dialect.  At each node the dialect's table decides
between the base form and one of the other printers, which print the nodes
below in the same way.

A tree is refused when it is malformed, and also when there are remarks about
the output and the options forbid them.
-/

namespace SqlDialect

/-! ## options and results -/

/-- What becomes of remarks about the output. -/
inductive UnsupportedLevel where
  | ignore
  | warn
  /-- Refuse output with remarks. -/
  | raise
  deriving DecidableEq, Repr

/-- How to print. -/
structure RenderOptions where
  level : UnsupportedLevel := .warn
  /-- Delimit every identifier, not only those delimited in the source. -/
  identify : Bool := false
  deriving DecidableEq, Repr

/-- Printed text and the remarks about it. -/
structure Rendered where
  sql : String
  diagnostics : List Diagnostic
  deriving DecidableEq, Repr

namespace Style

/-! ## trees -/

/-- One node, printed as the dialect says. -/
def node (s : Style) (sub : Expr → Fragment) (e : Expr) : Fragment :=
  match s.dialect.transform? e.kind with
  | none => s.base sub e
  | some (.rename name) =>
    match e.callArgs? with
    | some args => .call name (args.map sub)
    | none => s.base sub e
  | some .unsupported => s.degraded sub e
  | some .inner => s.operandOnly sub e
  | some (.custom r) => r.apply s sub e

/-- A tree down to a number of levels, and nothing of what is below. -/
def toDepth (s : Style) : Nat → Expr → Fragment
  | 0, _ => {}
  | n + 1, e => s.node (s.toDepth n) e

/-- A whole tree. -/
def fragment (s : Style) (e : Expr) : Fragment := s.toDepth e.depth e

end Style

namespace Expr

/-- Prints a tree in a dialect. -/
def render (e : Expr) (d : Dialect) (o : RenderOptions) : Except RenderError Rendered := do
  e.validate
  let f := Style.fragment ⟨d, o.identify⟩ e
  if o.level = .raise ∧ ¬ f.diagnostics.isEmpty then throw (.unsupported d.name f.diagnostics)
  return ⟨d.spell f.tokens, f.diagnostics⟩

end Expr

end SqlDialect
