import Mathlib.Algebra.Group.Nat.Defs
import SqlDialect.Dialect.Builtin
import SqlDialect.Proofs.Tree.Rebuild

/-!
# SqlDialect.Proofs.Tree.Shape

How tightly a tree is bound when it is printed, and how tightly its operands
have to be.

* `core` -- the tree whose text is printed: SQLite prints some calls as their
  bare operand.
* `tier` -- the level of precedence of the text of a tree.
* `places`, `slots` -- the operands of a node, each with the loosest level that
  the grammar reads there, in the text that was read and in the one printed.
* `starred`, `dashed`, `namesRows` -- what the text of a tree starts with.
-/

namespace SqlDialect

open Text

/-! ## levels -/

/-- The level of precedence of an operator, counted from the tightest one. -/
def BinaryOperator.level : BinaryOperator → Nat
  | .concat => 2
  | .mul | .div | .mod => 3
  | .plus | .minus => 4
  | .eq | .ne | .lt | .gt | .lte | .gte => 5
  | .and => 7
  | .or => 8

theorem BinaryOperator.level_bounds (op : BinaryOperator) : 2 ≤ op.level ∧ op.level ≤ 8 := by
  cases op <;> decide

namespace Expr

/-- Whether a tree gathers the arguments of a call. -/
def gathers : Expr → Bool
  | distinct _ | order _ _ => true
  | _ => false

/-- The value of an integer in base 16 does not fit into 64 bits with a
sign. -/
def wraps (digits : String) : Bool := 2 ^ 63 ≤ hexValue digits.toList

/-- The tree whose text is printed.  SQLite prints a call of `LEAST` or
`GREATEST` with one argument, and a conversion of a text to a date or a time,
as the bare argument. -/
def core : Builtin → Expr → Expr
  | .sqlite, least [a] => core .sqlite a
  | .sqlite, greatest [a] => core .sqlite a
  | .sqlite, dateStrToDate a => core .sqlite a
  | .sqlite, timeStrToTime a => core .sqlite a
  | _, e => e

/-- The level of precedence of a node.  What gathers arguments is looser than
any expression, and a node of any other kind looser still. -/
def level (b : Builtin) : Expr → Nat
  | literal (.hexNumber digits) => if b = .generic ∧ wraps digits = true then 1 else 0
  | binaryOp op _ _ => op.level
  | unaryOp .minus _ => 1
  | unaryOp .not _ => 6
  | like .. | ilike .. | isNull .. | between .. | inList .. => 5
  | jsonExtract .. | jsonExtractScalar .. | jsonbExtract .. | jsonbExtractScalar .. =>
    match b with
    | .generic => 0
    | .sqlite => 2
  | distinct _ | order _ _ => 9
  | aliased .. | table .. | tableSample .. | select _ | limit _ | fetch .. | transaction _ | commit
  | rollback | createTable _ => 10
  | _ => 0

/-- The level of precedence of the text of a tree. -/
def tier (b : Builtin) (e : Expr) : Nat := (e.core b).level b

/-! ## operands -/

/-- The arguments of a call, the first of which may gather some. -/
def arguments : List Expr → List (Nat × Expr)
  | [] => []
  | a :: es => (9, a) :: es.map (8, ·)

/-- The operands of a node, each with the loosest level that is read in its
place. -/
def places : Expr → List (Nat × Expr)
  | binaryOp op a b => [(op.level, a), (op.level - 1, b)]
  | unaryOp .not a => [(6, a)]
  | unaryOp .minus a => [(1, a)]
  | like _ a p | ilike _ a p => [(5, a), (4, p)]
  | isNull _ a => [(5, a)]
  | between _ a l h => [(5, a), (4, l), (4, h)]
  | inList _ a es => (5, a) :: es.map (8, ·)
  | paren (select _) => []
  | paren a | aliased a _ | cast a _ | tryCast a _ | limit a | tableSample _ _ a _ => [(8, a)]
  | caseWhen o ws b =>
    (o.toList ++ ws.flatMap (fun w => [w.1, w.2]) ++ b.toList).map (8, ·)
  | function _ es | least es | greatest es | levenshtein es => arguments es
  | groupConcat a s => arguments (a :: s.toList)
  | dateAdd a n _ | jsonExtract a n | jsonExtractScalar a n | jsonbExtract a n
  | jsonbExtractScalar a n => arguments [a, n]
  | dateStrToDate a | timeStrToTime a => arguments [a]
  | distinct es => es.map (8, ·)
  | order a is => (9, a) :: is.map fun i => (8, i.expr)
  | select q =>
    (q.filter.toList ++ q.groupBy ++ q.having.toList ++ q.orderBy.map OrderItem.expr ++
      q.offset.toList).map (8, ·)
  | fetch _ n _ _ => n.toList.map (1, ·)
  | createTable t => (t.columns.flatMap ColumnDef.exprs).map (1, ·)
  | _ => []

/-- The same for the text that a dialect prints. -/
def slots : Builtin → Expr → List (Nat × Expr)
  | .sqlite, ilike _ a p => [(8, a), (4, p)]
  | .sqlite, jsonExtract a p | .sqlite, jsonExtractScalar a p | .sqlite, jsonbExtract a p
  | .sqlite, jsonbExtractScalar a p => [(2, a), (1, p)]
  | .generic, jsonExtract a p | .generic, jsonExtractScalar a p | .generic, jsonbExtract a p
  | .generic, jsonbExtractScalar a p => [(8, a), (8, p)]
  | .sqlite, dateAdd a _ _ => [(9, a)]
  | .generic, dateAdd a n _ => [(8, a), (8, n)]
  | .sqlite, fetch _ n _ _ => n.toList.map (8, ·)
  | .sqlite, least [a] | .sqlite, greatest [a] | _, dateStrToDate a | _, timeStrToTime a => [(8, a)]
  | _, levenshtein es => es.map (8, ·)
  | _, e => e.places

/-- How many arguments are read where these are written. -/
def callCount : List Expr → Nat
  | [] => 0
  | a :: es => if a.gathers then 1 else es.length + 1

/-! ## first lexemes -/

/-- The text of a tree starts with a star. -/
def starred (b : Builtin) : Expr → Bool
  | star none => true
  | binaryOp _ a _ | like _ a _ | isNull _ a | between _ a _ _ | inList _ a _ => starred b a
  | ilike _ a _ => b = .generic && starred b a
  | jsonExtract a _ | jsonExtractScalar a _ | jsonbExtract a _ | jsonbExtractScalar a _
  | least [a] | greatest [a] | dateStrToDate a | timeStrToTime a => b = .sqlite && starred b a
  | _ => false

/-- The text of a node starts with a minus sign, provided nothing looser than
a minus sign is printed. -/
def dashed (b : Builtin) : Expr → Bool
  | unaryOp .minus _ => true
  | literal (.hexNumber digits) => b = .generic && wraps digits
  | _ => false

/-- The name is a word for rows. -/
def isRowsWord (name : String) : Bool :=
  Keyword.ofSpelling? name = some .ROW || Keyword.ofSpelling? name = some .ROWS

/-- A node that starts with a word for rows. -/
def namesRows : Expr → Bool
  | column none i | column (some i) _ | star (some i) => !i.quoted && isRowsWord i.name
  | function name _ => isRowsWord name
  | _ => false

/-! ## lemmas -/

variable {b : Builtin} {e a : Expr}

@[simp] theorem core_generic (e : Expr) : e.core .generic = e := by
  unfold core
  rfl

/-- Parentheses ask nothing of a query. -/
theorem mem_places_paren {s : Nat × Expr} (h : s ∈ (paren a).places) : s = (8, a) := by
  unfold places at h
  split at h <;> simp_all

theorem places_paren (h : ∀ q, a ≠ select q) : (paren a).places = [(8, a)] := by
  unfold places
  split <;> simp_all

@[simp] theorem starred_least (es : List Expr) : (least es).starred .generic = false := by
  unfold starred
  split <;> simp_all

@[simp] theorem starred_greatest (es : List Expr) : (greatest es).starred .generic = false := by
  unfold starred
  split <;> simp_all

@[simp] theorem tier_generic (e : Expr) : e.tier .generic = e.level .generic := by
  rw [tier, core_generic]

end Expr

end SqlDialect
