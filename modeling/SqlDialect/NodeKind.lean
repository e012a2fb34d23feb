import SqlDialect.Text.Ascii
import SqlDialect.Text.Blank

/-!
# SqlDialect.NodeKind

The kinds of nodes of a syntax tree.  Dialects override the printing of a
node by its kind, and which override fits a kind is decided here: three
classes of kinds say which nodes print as a call, which wrap one operand and
which have an approximation.
-/

namespace SqlDialect

/-- The kinds of nodes of a syntax tree. -/
inductive NodeKind where
  | column | literal | star | aliased | paren | binaryOp | unaryOp | like | ilike | isNull
  | between | inList | caseWhen | cast | tryCast | function | distinct | order | groupConcat
  | dateAdd | least | greatest | levenshtein | jsonExtract | jsonExtractScalar | jsonbExtract
  | jsonbExtractScalar | dateStrToDate | timeStrToTime | table | tableSample | select | limit
  | fetch | transaction | commit | rollback | createTable
  deriving DecidableEq, Repr

namespace NodeKind

/-- Every kind, in the order of the tables that list them. -/
def all : List NodeKind :=
  [.column, .literal, .star, .aliased, .paren, .binaryOp, .unaryOp, .like, .ilike, .isNull,
   .between, .inList, .caseWhen, .cast, .tryCast, .function, .distinct, .order, .groupConcat,
   .dateAdd, .least, .greatest, .levenshtein, .jsonExtract, .jsonExtractScalar, .jsonbExtract,
   .jsonbExtractScalar, .dateStrToDate, .timeStrToTime, .table, .tableSample, .select, .limit,
   .fetch, .transaction, .commit, .rollback, .createTable]

theorem mem_all (k : NodeKind) : k ∈ all := by cases k <;> decide

/-- The name of a kind in configurations and diagnostics. -/
def name : NodeKind → String
  | .column => "column"
  | .literal => "literal"
  | .star => "star"
  | .aliased => "alias"
  | .paren => "paren"
  | .binaryOp => "binary_op"
  | .unaryOp => "unary_op"
  | .like => "like"
  | .ilike => "ilike"
  | .isNull => "is_null"
  | .between => "between"
  | .inList => "in_list"
  | .caseWhen => "case"
  | .cast => "cast"
  | .tryCast => "try_cast"
  | .function => "function"
  | .distinct => "distinct"
  | .order => "order"
  | .groupConcat => "group_concat"
  | .dateAdd => "date_add"
  | .least => "least"
  | .greatest => "greatest"
  | .levenshtein => "levenshtein"
  | .jsonExtract => "json_extract"
  | .jsonExtractScalar => "json_extract_scalar"
  | .jsonbExtract => "jsonb_extract"
  | .jsonbExtractScalar => "jsonb_extract_scalar"
  | .dateStrToDate => "date_str_to_date"
  | .timeStrToTime => "time_str_to_time"
  | .table => "table"
  | .tableSample => "table_sample"
  | .select => "select"
  | .limit => "limit"
  | .fetch => "fetch"
  | .transaction => "transaction"
  | .commit => "commit"
  | .rollback => "rollback"
  | .createTable => "create_table"

/-- The place of a kind among all of them. -/
def index (k : NodeKind) : Nat := all.idxOf k

/-- The kind of that name, in any case and with blanks around it. -/
def ofName? (s : String) : Option NodeKind :=
  all.find? fun k => k.name == Text.lower (Text.trim s)

/-- The kinds that print as a name and arguments in parentheses.  Only these
can be printed under another name. -/
def isCallShaped : NodeKind → Bool
  | .function | .groupConcat | .least | .greatest | .levenshtein
  | .jsonExtract | .jsonExtractScalar | .jsonbExtract | .jsonbExtractScalar => true
  | _ => false

/-- The kinds that wrap exactly one operand, which can stand in for them. -/
def hasInnerOperand : NodeKind → Bool
  | .paren | .aliased | .cast | .tryCast | .dateStrToDate | .timeStrToTime => true
  | _ => false

/-- The kinds with an approximation for dialects that lack them. -/
def hasDegradedForm : NodeKind → Bool
  | .ilike | .tryCast | .tableSample => true
  | _ => false

/-! ## lemmas -/

/-- Each name is the name of its kind only. -/
theorem ofName?_name (k : NodeKind) : ofName? k.name = some k := by cases k <;> decide

end NodeKind

end SqlDialect
