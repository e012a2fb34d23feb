import SqlDialect.Rendering.Base

/-!
# SqlDialect.Rendering.Renderer

The ways of printing a node other than the base form.  Each is meant for one
kind of node, and prints any other kind in the base form.
-/

namespace SqlDialect

namespace Style

variable (s : Style) (sub : Expr → Fragment)

/-! ## approximations -/

/-- `ILIKE` as `LIKE` on the lower case of the operand. -/
def lowerLike : Expr → Fragment
  | .ilike negated a pattern =>
    .remark .ilike ++ .call "LOWER" [sub a] ++ .ofTokens [.space] ++ negation negated ++
      .ofTokens [.keyword .LIKE, .space] ++ sub pattern
  | e => s.base sub e

/-- `TRY_CAST` as `CAST`. -/
def plainCast : Expr → Fragment
  | .tryCast a target => .remark .tryCast ++ s.cast sub .CAST a target
  | e => s.base sub e

/-- A sampled table without the sample. -/
def unsampled : Expr → Fragment
  | .tableSample a _ _ _ => .remark .tableSample ++ sub a
  | e => s.base sub e

/-- The approximation of whatever kind has one. -/
def degraded (e : Expr) : Fragment :=
  match e.kind with
  | .ilike => s.lowerLike sub e
  | .tryCast => s.plainCast sub e
  | .tableSample => s.unsampled sub e
  | _ => s.base sub e

/-- The wrapped operand alone. -/
def operandOnly (e : Expr) : Fragment :=
  match e.inner? with
  | some a => sub a
  | none => s.base sub e

/-! ## JSON -/

/-- A JSON extraction as an operator between operand and path. -/
def arrow (op : String) : Expr → Fragment
  | .jsonExtract a path | .jsonExtractScalar a path | .jsonbExtract a path
  | .jsonbExtractScalar a path => sub a ++ .ofTokens [.space, .raw op, .space] ++ sub path
  | e => s.base sub e

/-! ## aggregates -/

/-- The value that a grouped concatenation aggregates: the first expression of
a `DISTINCT` anywhere in the argument, else what an ordering orders, else the
argument. -/
def aggregated (a : Expr) : Expr :=
  match (a.find? fun e => e.kind = .distinct).bind Expr.distinctExprs?, a with
  | some exprs, a => exprs.head?.getD a
  | none, .order operand _ => operand
  | none, a => a

/-- `GROUP_CONCAT` with a comma before the separator.  An ordering is dropped
with a remark, and a `DISTINCT` is written in front. -/
def groupConcat : Expr → Fragment
  | .groupConcat a separator =>
    (if a.kind = .order then .remark .groupConcatOrder else {}) ++
      .ofTokens [.raw "GROUP_CONCAT", .lparen] ++
      (if (a.find? fun e => e.kind = .distinct).isSome then
        .ofTokens [.keyword .DISTINCT, .space]
      else {}) ++
      .commaSeparated ((aggregated a :: separator.toList).map sub) ++ .ofTokens [.rparen]
  | e => s.base sub e

/-- A call where there are several arguments, a single one bare. -/
def callOrOperand (name : String) (args : List Expr) : Fragment :=
  if 1 < args.length then .call name (args.map sub) else .commaSeparated (args.map sub)

/-- `MIN` of several arguments. -/
def least : Expr → Fragment
  | .least args => callOrOperand sub "MIN" args
  | e => s.base sub e

/-- `MAX` of several arguments. -/
def greatest : Expr → Fragment
  | .greatest args => callOrOperand sub "MAX" args
  | e => s.base sub e

/-! ## dates -/

/-- What a date is moved by: the text of a string literal, or the text that
anything else is printed as. -/
def amount (e : Expr) : String × List Diagnostic :=
  match e.stringValue? with
  | some text => (text, [])
  | none =>
    let f := sub e
    (s.dialect.spell f.tokens, f.diagnostics)

/-- `DATE` with amount and unit in one string.  The remarks about the amount
come before those about the date. -/
def dateAdd : Expr → Fragment
  | .dateAdd a e unit =>
    let (text, remarks) := s.amount sub e
    let moved := match unit with
      | some u => text ++ " " ++ u
      | none => text
    ⟨[], remarks⟩ ++ .call "DATE" [sub a, .raw (Text.quoteString moved)]
  | e => s.base sub e

/-! ## statements -/

/-- A fetch as `LIMIT`, of one row where none is counted. -/
def fetch : Expr → Fragment
  | .fetch _ count percent withTies =>
    (if percent then .remark .fetchPercent else {}) ++
      (if withTies then .remark .fetchTies else {}) ++
      .ofTokens [.keyword .LIMIT, .space] ++
      (match count with
        | some e => sub e
        | none => .raw "1")
  | e => s.base sub e

/-- A query whose offset, where there is no limit, has one of `-1` in front of
it, which limits nothing. -/
def offsetBehindLimit : Expr → Fragment
  | .select q =>
    if q.limit.isNone && q.offset.isSome then
      s.query sub q (some (.ofTokens [.keyword .LIMIT, .space, .raw "-1"]))
    else s.base sub (.select q)
  | e => s.base sub e

/-- The start of a transaction with `TRANSACTION` written out. -/
def transaction : Expr → Fragment
  | .transaction modifier =>
    .keyword .BEGIN ++ optional [.space] (modifier.map .raw) ++
      .ofTokens [.space, .keyword .TRANSACTION]
  | e => s.base sub e

end Style

/-- A node printed by a renderer. -/
def Renderer.apply (r : Renderer) (s : Style) (sub : Expr → Fragment) (e : Expr) : Fragment :=
  match r with
  | groupConcat => s.groupConcat sub e
  | dateAdd => s.dateAdd sub e
  | least => s.least sub e
  | greatest => s.greatest sub e
  | fetch => s.fetch sub e
  | transaction => s.transaction sub e
  | select => s.offsetBehindLimit sub e
  | degraded => s.degraded sub e
  | lowerLike => s.lowerLike sub e
  | plainCast => s.plainCast sub e
  | unsampled => s.unsampled sub e
  | operandOnly => s.operandOnly sub e
  | arrow => s.arrow sub "->" e
  | doubleArrow => s.arrow sub "->>" e

end SqlDialect
