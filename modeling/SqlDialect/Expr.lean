import SqlDialect.DataType
import SqlDialect.Decimal.Binary64
import SqlDialect.NodeKind

/-!
# SqlDialect.Expr

The syntax tree of statements and expressions, free of any dialect.  Every
construct is one kind of node.  The clauses of a statement are structures
over the type of expressions, so the same shapes serve for the tree and for
what is made of it.

`children` lists what a node holds directly, in source order; recursion over
a tree goes through it, and `sizeOf_lt_of_mem_children` is why it ends.
-/

namespace SqlDialect

open Decimal (Binary64)

/-! ## leaves -/

/-- A name; one that the source delimited is delimited again on output. -/
structure Ident where
  name : String
  quoted : Bool := false
  deriving DecidableEq

/-- The values that can be written down.  The two kinds of hexadecimal
literals hold their digits: those of a binary string, and those of an
integer. -/
inductive Literal where
  | int (value : Int64)
  | float (value : Binary64)
  | string (value : String)
  | hexString (digits : String)
  | hexNumber (digits : String)
  | bool (value : Bool)
  | null
  deriving DecidableEq

/-- The operators between two operands. -/
inductive BinaryOperator where
  | eq | ne | lt | gt | lte | gte | and | or | plus | minus | mul | div | mod | concat
  deriving DecidableEq, Repr

/-- The operators in front of one operand. -/
inductive UnaryOperator where
  | not | minus
  deriving DecidableEq, Repr

inductive SortDirection where
  | asc | desc
  deriving DecidableEq, Repr

inductive FetchDirection where
  | first | next
  deriving DecidableEq, Repr

/-- What the size of a table sample counts. -/
inductive SampleUnit where
  | percent | rows
  deriving DecidableEq, Repr

/-! ## clauses -/

/-- One item of an ordering; without a direction it is the default one. -/
structure OrderItem (ε : Type) where
  expr : ε
  direction : Option SortDirection := none

/-- What may be demanded of a column. -/
inductive ColumnConstraint (ε : Type) where
  | primaryKey
  | notNull
  | unique
  | autoIncrement
  | default (value : ε)

/-- A column of a new table. -/
structure ColumnDef (ε : Type) where
  name : Ident
  dataType : Option DataType := none
  constraints : List (ColumnConstraint ε) := []

/-- The clauses of a query.  The row limit is a limit or a fetch node. -/
structure Select (ε : Type) where
  distinct : Bool := false
  projections : List ε := []
  source : Option ε := none
  filter : Option ε := none
  groupBy : List ε := []
  having : Option ε := none
  orderBy : List (OrderItem ε) := []
  limit : Option ε := none
  offset : Option ε := none

/-- The parts of a table definition. -/
structure CreateTable (ε : Type) where
  table : ε
  ifNotExists : Bool := false
  columns : List (ColumnDef ε) := []

/-! ## trees -/

/-- A statement or expression. -/
inductive Expr where
  | column (table : Option Ident) (name : Ident)
  | literal (value : Literal)
  | star (table : Option Ident)
  | aliased (operand : Expr) (name : Ident)
  | paren (operand : Expr)
  | binaryOp (op : BinaryOperator) (left right : Expr)
  | unaryOp (op : UnaryOperator) (operand : Expr)
  | like (negated : Bool) (operand pattern : Expr)
  | ilike (negated : Bool) (operand pattern : Expr)
  | isNull (negated : Bool) (operand : Expr)
  | between (negated : Bool) (operand low high : Expr)
  | inList (negated : Bool) (operand : Expr) (list : List Expr)
  | caseWhen (operand : Option Expr) (whens : List (Expr × Expr)) (otherwise : Option Expr)
  | cast (operand : Expr) (target : DataType)
  /-- A cast that yields `NULL` where it cannot convert. -/
  | tryCast (operand : Expr) (target : DataType)
  /-- A call of any function without a kind of its own. -/
  | function (name : String) (args : List Expr)
  /-- `DISTINCT` among the arguments of an aggregate. -/
  | distinct (exprs : List Expr)
  /-- `ORDER BY` among the arguments of an aggregate. -/
  | order (operand : Expr) (items : List (OrderItem Expr))
  | groupConcat (operand : Expr) (separator : Option Expr)
  /-- A date moved by an amount of units. -/
  | dateAdd (operand amount : Expr) (unit : Option String)
  | least (args : List Expr)
  | greatest (args : List Expr)
  /-- The edit distance between texts. -/
  | levenshtein (args : List Expr)
  | jsonExtract (operand path : Expr)
  | jsonExtractScalar (operand path : Expr)
  | jsonbExtract (operand path : Expr)
  | jsonbExtractScalar (operand path : Expr)
  | dateStrToDate (operand : Expr)
  | timeStrToTime (operand : Expr)
  | table (schema : Option Ident) (name : Ident) (aliasName : Option Ident)
  | tableSample (operand : Expr) (method : Option String) (size : Expr) (unit : SampleUnit)
  | select (query : Select Expr)
  | limit (count : Expr)
  | fetch (direction : FetchDirection) (count : Option Expr) (percent withTies : Bool)
  /-- The start of a transaction, with the words in between as written. -/
  | transaction (modifier : Option String)
  | commit
  | rollback
  | createTable (definition : CreateTable Expr)

/-! ## parts of clauses -/

/-- The expressions in a column constraint. -/
def ColumnConstraint.exprs {ε : Type} : ColumnConstraint ε → List ε
  | .default value => [value]
  | _ => []

/-- The expressions in a column definition. -/
def ColumnDef.exprs {ε : Type} (c : ColumnDef ε) : List ε :=
  c.constraints.flatMap ColumnConstraint.exprs

/-- The expressions in a query, clause by clause. -/
def Select.exprs {ε : Type} (q : Select ε) : List ε :=
  q.projections ++ q.source.toList ++ q.filter.toList ++ q.groupBy ++ q.having.toList ++
    q.orderBy.map OrderItem.expr ++ q.limit.toList ++ q.offset.toList

/-- The expressions in a table definition. -/
def CreateTable.exprs {ε : Type} (t : CreateTable ε) : List ε :=
  t.table :: t.columns.flatMap ColumnDef.exprs

namespace Expr

/-! ## views of a node -/

/-- The kind of a node. -/
def kind : Expr → NodeKind
  | column .. => .column
  | literal .. => .literal
  | star .. => .star
  | aliased .. => .aliased
  | paren .. => .paren
  | binaryOp .. => .binaryOp
  | unaryOp .. => .unaryOp
  | like .. => .like
  | ilike .. => .ilike
  | isNull .. => .isNull
  | between .. => .between
  | inList .. => .inList
  | caseWhen .. => .caseWhen
  | cast .. => .cast
  | tryCast .. => .tryCast
  | function .. => .function
  | distinct .. => .distinct
  | order .. => .order
  | groupConcat .. => .groupConcat
  | dateAdd .. => .dateAdd
  | least .. => .least
  | greatest .. => .greatest
  | levenshtein .. => .levenshtein
  | jsonExtract .. => .jsonExtract
  | jsonExtractScalar .. => .jsonExtractScalar
  | jsonbExtract .. => .jsonbExtract
  | jsonbExtractScalar .. => .jsonbExtractScalar
  | dateStrToDate .. => .dateStrToDate
  | timeStrToTime .. => .timeStrToTime
  | table .. => .table
  | tableSample .. => .tableSample
  | select .. => .select
  | limit .. => .limit
  | fetch .. => .fetch
  | transaction .. => .transaction
  | commit => .commit
  | rollback => .rollback
  | createTable .. => .createTable

/-- The nodes that a node holds directly, in source order. -/
def children : Expr → List Expr
  | column .. | literal .. | star .. | table .. | transaction .. | commit | rollback => []
  | aliased a _ | paren a | cast a _ | tryCast a _ | dateStrToDate a | timeStrToTime a
  | isNull _ a | unaryOp _ a | limit a => [a]
  | binaryOp _ a b | like _ a b | ilike _ a b | dateAdd a b _ | jsonExtract a b
  | jsonExtractScalar a b | jsonbExtract a b | jsonbExtractScalar a b | tableSample a _ b _ =>
    [a, b]
  | between _ a b c => [a, b, c]
  | inList _ a as => a :: as
  | caseWhen a whens b => a.toList ++ whens.flatMap (fun w => [w.1, w.2]) ++ b.toList
  | function _ as | least as | greatest as | levenshtein as | distinct as => as
  | order a items => a :: items.map OrderItem.expr
  | groupConcat a separator => a :: separator.toList
  | select q => q.exprs
  | fetch _ count _ _ => count.toList
  | createTable t => t.exprs

/-- The arguments of a call-shaped node, in the order of the call. -/
def callArgs? : Expr → Option (List Expr)
  | function _ as | least as | greatest as | levenshtein as => some as
  | groupConcat a separator => some (a :: separator.toList)
  | jsonExtract a b | jsonExtractScalar a b | jsonbExtract a b | jsonbExtractScalar a b =>
    some [a, b]
  | _ => none

/-- The operand of a node that wraps exactly one. -/
def inner? : Expr → Option Expr
  | paren a | aliased a _ | cast a _ | tryCast a _ | dateStrToDate a | timeStrToTime a => some a
  | _ => none

/-- The text of a string literal. -/
def stringValue? : Expr → Option String
  | literal (.string s) => some s
  | _ => none

/-- The expressions of a `DISTINCT`. -/
def distinctExprs? : Expr → Option (List Expr)
  | distinct exprs => some exprs
  | _ => none

/-! ## recursion over a tree -/

private theorem sizeOf_lt_of_mem_toList {o : Option Expr} {c : Expr} (h : c ∈ o.toList) :
    sizeOf c < sizeOf o := by
  cases o <;> simp_all

private theorem sizeOf_lt_of_mem_constraint {k : ColumnConstraint Expr} {c : Expr}
    (h : c ∈ k.exprs) : sizeOf c < sizeOf k := by
  cases k <;> simp_all [ColumnConstraint.exprs]

private theorem sizeOf_lt_of_mem_column {d : ColumnDef Expr} {c : Expr} (h : c ∈ d.exprs) :
    sizeOf c < sizeOf d := by
  obtain ⟨name, type, constraints⟩ := d
  simp only [ColumnDef.exprs, List.mem_flatMap] at h
  obtain ⟨k, hk, hc⟩ := h
  have h₁ := List.sizeOf_lt_of_mem hk
  have h₂ := sizeOf_lt_of_mem_constraint hc
  simp only [ColumnDef.mk.sizeOf_spec]
  omega

private theorem sizeOf_lt_of_mem_items {items : List (OrderItem Expr)} {c : Expr}
    (h : c ∈ items.map OrderItem.expr) : sizeOf c < sizeOf items := by
  obtain ⟨item, hi, rfl⟩ := List.mem_map.1 h
  have h₁ := List.sizeOf_lt_of_mem hi
  obtain ⟨e, d⟩ := item
  simp only [OrderItem.mk.sizeOf_spec] at *
  omega

private theorem sizeOf_lt_of_mem_whens {whens : List (Expr × Expr)} {c : Expr}
    (h : c ∈ whens.flatMap fun w => [w.1, w.2]) : sizeOf c < sizeOf whens := by
  simp only [List.mem_flatMap, List.mem_cons, List.not_mem_nil, or_false] at h
  obtain ⟨⟨a, b⟩, hw, hc⟩ := h
  have h₁ := List.sizeOf_lt_of_mem hw
  simp only [Prod.mk.sizeOf_spec] at *
  rcases hc with rfl | rfl <;> omega

private theorem sizeOf_lt_of_mem_select {q : Select Expr} {c : Expr} (h : c ∈ q.exprs) :
    sizeOf c < sizeOf q := by
  obtain ⟨distinct, projections, source, filter, groupBy, having, orderBy, limit, offset⟩ := q
  simp only [Select.exprs, List.mem_append] at h
  simp only [Select.mk.sizeOf_spec]
  rcases h with ((((((h | h) | h) | h) | h) | h) | h) | h
  · have := List.sizeOf_lt_of_mem h; omega
  · have := sizeOf_lt_of_mem_toList h; omega
  · have := sizeOf_lt_of_mem_toList h; omega
  · have := List.sizeOf_lt_of_mem h; omega
  · have := sizeOf_lt_of_mem_toList h; omega
  · have := sizeOf_lt_of_mem_items h; omega
  · have := sizeOf_lt_of_mem_toList h; omega
  · have := sizeOf_lt_of_mem_toList h; omega

private theorem sizeOf_lt_of_mem_createTable {t : CreateTable Expr} {c : Expr}
    (h : c ∈ t.exprs) : sizeOf c < sizeOf t := by
  obtain ⟨table, ifNotExists, columns⟩ := t
  simp only [CreateTable.exprs, List.mem_cons, List.mem_flatMap] at h
  simp only [CreateTable.mk.sizeOf_spec]
  rcases h with rfl | ⟨d, hd, hc⟩
  · omega
  · have h₁ := List.sizeOf_lt_of_mem hd
    have h₂ := sizeOf_lt_of_mem_column hc
    omega

/-- What a node holds is smaller than the node. -/
theorem sizeOf_lt_of_mem_children {e c : Expr} (h : c ∈ e.children) : sizeOf c < sizeOf e := by
  cases e <;> simp only [children, List.mem_cons, List.mem_append, List.not_mem_nil, or_false] at h
  case inList negated a as =>
    simp only [inList.sizeOf_spec]
    rcases h with rfl | h
    · omega
    · have := List.sizeOf_lt_of_mem h; omega
  case caseWhen a whens b =>
    simp only [caseWhen.sizeOf_spec]
    rcases h with (h | h) | h
    · have := sizeOf_lt_of_mem_toList h; omega
    · have := sizeOf_lt_of_mem_whens h; omega
    · have := sizeOf_lt_of_mem_toList h; omega
  case order a items =>
    simp only [order.sizeOf_spec]
    rcases h with rfl | h
    · omega
    · have := sizeOf_lt_of_mem_items h; omega
  case groupConcat a separator =>
    simp only [groupConcat.sizeOf_spec]
    rcases h with rfl | h
    · omega
    · have := sizeOf_lt_of_mem_toList h; omega
  case select q => have := sizeOf_lt_of_mem_select h; simp only [select.sizeOf_spec]; omega
  case fetch direction count percent withTies =>
    have := sizeOf_lt_of_mem_toList h; simp only [fetch.sizeOf_spec]; omega
  case createTable t =>
    have := sizeOf_lt_of_mem_createTable h; simp only [createTable.sizeOf_spec]; omega
  case function name as => have := List.sizeOf_lt_of_mem h; simp only [function.sizeOf_spec]; omega
  case distinct as => have := List.sizeOf_lt_of_mem h; simp only [distinct.sizeOf_spec]; omega
  case least as => have := List.sizeOf_lt_of_mem h; simp only [least.sizeOf_spec]; omega
  case greatest as => have := List.sizeOf_lt_of_mem h; simp only [greatest.sizeOf_spec]; omega
  case levenshtein as => have := List.sizeOf_lt_of_mem h; simp only [levenshtein.sizeOf_spec]; omega
  case between => rcases h with rfl | rfl | rfl <;> simp +arith
  all_goals rcases h with rfl | rfl <;> simp +arith

/-- A node and everything below it, the node first and its children in
order. -/
def preorder (e : Expr) : List Expr :=
  e :: e.children.attach.flatMap fun ⟨c, _⟩ => c.preorder
termination_by e
decreasing_by exact sizeOf_lt_of_mem_children ‹_›

/-- The first node, in that order, with a property. -/
def find? (p : Expr → Bool) (e : Expr) : Option Expr :=
  if p e then some e else e.children.attach.findSome? fun ⟨c, _⟩ => c.find? p
termination_by e
decreasing_by exact sizeOf_lt_of_mem_children ‹_›

/-- The number of levels of a tree. -/
def depth (e : Expr) : Nat :=
  (e.children.attach.map fun ⟨c, _⟩ => c.depth).foldr max 0 + 1
termination_by e
decreasing_by exact sizeOf_lt_of_mem_children ‹_›

/-- A node comes first, then what its children are the tops of. -/
theorem preorder_eq (e : Expr) : e.preorder = e :: e.children.flatMap preorder := by
  rw [preorder]; simp [List.flatMap_subtype, List.unattach_attach]

/-- A node is tried before its children. -/
theorem find?_eq (p : Expr → Bool) (e : Expr) :
    e.find? p = if p e then some e else e.children.findSome? (find? p) := by
  rw [find?]; simp [List.findSome?_subtype, List.unattach_attach]

theorem depth_eq (e : Expr) : e.depth = (e.children.map depth).foldr max 0 + 1 := by
  rw [depth]; simp [List.map_subtype, List.unattach_attach]

private theorem le_foldr_max {n : Nat} {ns : List Nat} (h : n ∈ ns) : n ≤ ns.foldr max 0 := by
  induction ns with
  | nil => simp at h
  | cons m ms ih =>
    simp only [List.foldr_cons]
    rcases List.mem_cons.1 h with rfl | h
    · omega
    · have := ih h; omega

/-- What a node holds has fewer levels than the node. -/
theorem depth_lt_of_mem_children {e c : Expr} (h : c ∈ e.children) : c.depth < e.depth := by
  have := le_foldr_max (List.mem_map_of_mem (f := depth) h)
  rw [depth_eq e]
  omega

/-- To prove a property of every tree, prove it of a node from its
children. -/
theorem induction {motive : Expr → Prop}
    (node : ∀ e, (∀ c ∈ e.children, motive c) → motive e) (e : Expr) : motive e :=
  node e fun c _ => induction node c
termination_by e
decreasing_by exact sizeOf_lt_of_mem_children ‹_›

/-! ## lemmas -/

theorem callArgs?_isSome (e : Expr) : e.callArgs?.isSome = e.kind.isCallShaped := by
  cases e <;> rfl

end Expr

end SqlDialect
