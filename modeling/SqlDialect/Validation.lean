import SqlDialect.Diagnostic
import SqlDialect.Expr
import SqlDialect.Text.Blank

/-!
# SqlDialect.Validation

Trees that no dialect can print, whatever its tables say: lists that may not
be empty, numbers that cannot be written down, slots that hold the wrong kind
of node.  A tree is refused for the first node that is at fault, counted from
the top.
-/

namespace SqlDialect

/-- What is wrong with a node. -/
inductive Fault where
  | noArgument
  | notTwoArguments
  | noExpression
  | noOrderItem
  | noValue
  | noWhenBranch
  | emptyName
  | notFinite
  | notHexDigits
  | noProjection
  | misplacedLimit (kind : NodeKind)
  | noColumn
  | notATable
  deriving DecidableEq, Repr

/-- The wording of a fault. -/
def Fault.message : Fault → String
  | noArgument => "requires at least one argument"
  | notTwoArguments => "requires two arguments"
  | noExpression => "requires at least one expression"
  | noOrderItem => "requires at least one ordering item"
  | noValue => "requires at least one value"
  | noWhenBranch => "requires at least one WHEN branch"
  | emptyName => "function name is empty"
  | notFinite => "float literal is not finite"
  | notHexDigits => "hex literal needs one or more hex digits"
  | noProjection => "requires at least one projection"
  | misplacedLimit kind => s!"limit slot holds a {kind.name} node"
  | noColumn => "requires at least one column"
  | notATable => "target is not a table"

/-- Why a tree is not printed. -/
inductive RenderError where
  /-- A node is malformed; no dialect could print it. -/
  | structural (node : NodeKind) (fault : Fault)
  /-- There are remarks, and the options forbid them. -/
  | unsupported (dialect : String) (diagnostics : List Diagnostic)
  deriving DecidableEq, Repr

/-- The wording of an error. -/
def RenderError.message : RenderError → String
  | structural node fault => s!"malformed {node.name} node: {fault.message}"
  | unsupported dialect diagnostics =>
    s!"{dialect} cannot render: " ++ "; ".intercalate (diagnostics.map Diagnostic.text)

/-- Whether a text is one or more digits of base 16. -/
def isHexLiteral (digits : String) : Bool :=
  !digits.toList.isEmpty && digits.toList.all Text.isHexDigit

namespace Literal

/-- What is wrong with a literal, if anything. -/
def fault? : Literal → Option Fault
  | .float f => if f.isFinite then none else some .notFinite
  | .hexString digits | .hexNumber digits =>
    if isHexLiteral digits then none else some .notHexDigits
  | _ => none

end Literal

namespace Select

/-- What is wrong with a query, if anything: it projects something, and its
row limit is a limit or a fetch. -/
def fault? (q : Select Expr) : Option Fault :=
  if q.projections.isEmpty then some .noProjection
  else match q.limit.map Expr.kind with
    | none | some .limit | some .fetch => none
    | some kind => some (.misplacedLimit kind)

end Select

namespace CreateTable

/-- What is wrong with a table definition, if anything. -/
def fault? (t : CreateTable Expr) : Option Fault :=
  if t.columns.isEmpty then some .noColumn
  else if t.table.kind = .table then none else some .notATable

end CreateTable

namespace Expr

/-- What is wrong with a node, apart from what is below it. -/
def fault? : Expr → Option Fault
  | least args | greatest args => if args.isEmpty then some .noArgument else none
  | levenshtein args => if args.length < 2 then some .notTwoArguments else none
  | distinct exprs => if exprs.isEmpty then some .noExpression else none
  | order _ items => if items.isEmpty then some .noOrderItem else none
  | inList _ _ list => if list.isEmpty then some .noValue else none
  | caseWhen _ whens _ => if whens.isEmpty then some .noWhenBranch else none
  | function name _ => if Text.isBlankText name then some .emptyName else none
  | literal value => value.fault?
  | select q => q.fault?
  | createTable t => t.fault?
  | _ => none

/-- The error of a node, apart from what is below it. -/
def structuralError? (e : Expr) : Option RenderError := e.fault?.map (.structural e.kind)

/-- Refuses a tree for its first malformed node.  A node is checked before what
it holds, and one child before the next. -/
def validate (e : Expr) : Except RenderError Unit :=
  match e.structuralError? with
  | some error => .error error
  | none => e.children.attach.forM fun ⟨c, _⟩ => c.validate
termination_by e
decreasing_by exact sizeOf_lt_of_mem_children ‹_›

/-- A node is checked before its children. -/
theorem validate_eq (e : Expr) :
    e.validate = match e.structuralError? with
      | some error => .error error
      | none => e.children.forM validate := by
  rw [validate]
  cases e.structuralError? with
  | some error => rfl
  | none =>
    calc e.children.attach.forM (fun x => validate x.1)
        = (e.children.attach.map Subtype.val).forM validate := (List.forM_map ..).symm
      _ = e.children.forM validate := by rw [List.attach_map_subtype_val]

end Expr

end SqlDialect
