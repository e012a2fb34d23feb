import SqlDialect.Decimal.Text
import SqlDialect.Rendering.Fragment
import SqlDialect.Text.Quoted

/-!
# SqlDialect.Rendering.Base

The base form of every kind of node.  How the nodes below are printed is a
parameter, `sub`: a dialect prints them in its own way, whatever it does with
the node itself.
-/

namespace SqlDialect

/-- How output is written: for which dialect, and whether every identifier is
delimited or only those delimited in the source. -/
structure Style where
  dialect : Dialect
  identify : Bool

namespace Style

variable (s : Style)

/-! ## leaves -/

/-- An identifier, between the dialect's first pair of delimiters where it
needs them. -/
def identifier (i : Ident) : Fragment :=
  if i.quoted || s.identify then
    let (opening, closing) := s.dialect.identifierPair
    .raw (Text.quoteWith opening closing i.name)
  else .raw i.name

/-- A name behind another one and a point, or alone. -/
def qualified (qualifier : Option Ident) (i : Ident) : Fragment :=
  match qualifier with
  | some q => s.identifier q ++ .raw "." ++ s.identifier i
  | none => s.identifier i

/-- A type, its parameters behind the dialect's spelling. -/
def dataType (t : DataType) : Fragment :=
  .raw (s.dialect.typeSpelling t.kind ++ DataType.paramsText t.params)

/-- A binary literal between the dialect's first closed pair of marks.  An
odd number of digits gets a zero in front. -/
def hexBlob (digits : String) : Fragment :=
  let whole := if digits.length % 2 = 1 then "0" ++ digits else digits
  let (start, stop) := s.dialect.blobPair?.getD ("X'", "'")
  let text := .raw (start ++ whole ++ stop)
  if digits.length % 2 = 1 then .remark (.oddHexBlob digits) ++ text else text

/-- An integer in base 16 behind the dialect's mark; without a mark, its value
in base 10 with the wrap-around of 64 bits. -/
def hexNumber (digits : String) : Fragment :=
  match s.dialect.hexNumberMark? with
  | some mark => .raw (mark ++ digits)
  | none =>
    let n := Text.hexValue digits.toList
    if n < UInt64.size then .raw (toString (Int64.ofNat n).toInt)
    else .remark (.wideHexNumber digits) ++ .raw ("0x" ++ digits)

/-- A literal. -/
def literal : Literal → Fragment
  | .int n => .raw (toString n.toInt)
  | .float f => .raw f.text
  | .string value => .raw (Text.quoteString value)
  | .hexString digits => s.hexBlob digits
  | .hexNumber digits => s.hexNumber digits
  | .bool true => .keyword .TRUE
  | .bool false => .keyword .FALSE
  | .null => .keyword .NULL

/-- A binary operator. -/
def operator : BinaryOperator → Token
  | .eq => .raw "="
  | .ne => .raw "<>"
  | .lt => .raw "<"
  | .gt => .raw ">"
  | .lte => .raw "<="
  | .gte => .raw ">="
  | .and => .keyword .AND
  | .or => .keyword .OR
  | .plus => .raw "+"
  | .minus => .raw "-"
  | .mul => .raw "*"
  | .div => .raw "/"
  | .mod => .raw "%"
  | .concat => .raw "||"

/-! ## parts of nodes -/

variable (sub : Expr → Fragment)

/-- `NOT` in front of a predicate, if it is negated. -/
def negation (negated : Bool) : Fragment :=
  if negated then .ofTokens [.keyword .NOT, .space] else {}

/-- An operand, the word of a predicate, and a second operand. -/
def predicate (k : Keyword) (negated : Bool) (a b : Expr) : Fragment :=
  sub a ++ .ofTokens [.space] ++ negation negated ++ .ofTokens [.keyword k, .space] ++ sub b

/-- A cast, spelled with either word. -/
def cast (k : Keyword) (a : Expr) (target : DataType) : Fragment :=
  .ofTokens [.keyword k, .lparen] ++ sub a ++ .ofTokens [.space, .keyword .AS, .space] ++
    s.dataType target ++ .ofTokens [.rparen]

/-- An item of an ordering. -/
def orderItem (i : OrderItem Expr) : Fragment :=
  match i.direction with
  | some .asc => sub i.expr ++ .ofTokens [.space, .keyword .ASC]
  | some .desc => sub i.expr ++ .ofTokens [.space, .keyword .DESC]
  | none => sub i.expr

/-- An ordering. -/
def ordering (items : List (OrderItem Expr)) : Fragment :=
  .ofTokens [.keyword .ORDER, .space, .keyword .BY, .space] ++
    .commaSeparated (items.map (orderItem sub))

/-- A part behind words, if it is there; nothing at all if it is not. -/
def optional (words : List Token) (part : Option Fragment) : Fragment :=
  match part with
  | some f => .ofTokens words ++ f
  | none => {}

/-- A demand on a column. -/
def constraint : ColumnConstraint Expr → Fragment
  | .primaryKey => .ofTokens [.keyword .PRIMARY, .space, .keyword .KEY]
  | .notNull => .ofTokens [.keyword .NOT, .space, .keyword .NULL]
  | .unique => .keyword .UNIQUE
  | .autoIncrement => .keyword .AUTO_INCREMENT
  | .default value => .ofTokens [.keyword .DEFAULT, .space] ++ sub value

/-- A column of a new table. -/
def columnDef (c : ColumnDef Expr) : Fragment :=
  s.identifier c.name ++ optional [.space] (c.dataType.map s.dataType) ++
    .concat (c.constraints.map fun k => .ofTokens [.space] ++ constraint sub k)

/-- Whether a query is limited by a fetch that the dialect prints in the base
form.  Such a fetch follows the offset; any other limit precedes it. -/
def fetchesLast (q : Select Expr) : Bool :=
  q.limit.map Expr.kind = some .fetch && s.dialect.transform? .fetch = none

/-- A query with a given text of its row limit. -/
def query (q : Select Expr) (limit : Option Fragment) : Fragment :=
  .ofTokens [.keyword .SELECT, .space] ++
    (if q.distinct then .ofTokens [.keyword .DISTINCT, .space] else {}) ++
    .commaSeparated (q.projections.map sub) ++
    optional [.space, .keyword .FROM, .space] (q.source.map sub) ++
    optional [.space, .keyword .WHERE, .space] (q.filter.map sub) ++
    (if q.groupBy.isEmpty then {}
      else .ofTokens [.space, .keyword .GROUP, .space, .keyword .BY, .space] ++
        .commaSeparated (q.groupBy.map sub)) ++
    optional [.space, .keyword .HAVING, .space] (q.having.map sub) ++
    (if q.orderBy.isEmpty then {} else .ofTokens [.space] ++ ordering sub q.orderBy) ++
    (if s.fetchesLast q then
      optional [.space, .keyword .OFFSET, .space]
          (q.offset.map fun e => sub e ++ .ofTokens [.space, .keyword .ROWS]) ++
        optional [.space] limit
    else
      optional [.space] limit ++
        optional [.space, .keyword .OFFSET, .space] (q.offset.map sub))

/-- A table definition. -/
def createTable (t : CreateTable Expr) : Fragment :=
  .ofTokens [.keyword .CREATE, .space, .keyword .TABLE, .space] ++
    (if t.ifNotExists then
      .ofTokens [.keyword .IF, .space, .keyword .NOT, .space, .keyword .EXISTS, .space]
    else {}) ++
    sub t.table ++ .ofTokens [.space, .lparen] ++
    .commaSeparated (t.columns.map (s.columnDef sub)) ++ .ofTokens [.rparen]

/-! ## nodes -/

/-- The base form of a node. -/
def base : Expr → Fragment
  | .column table name => s.qualified table name
  | .literal value => s.literal value
  | .star table =>
    match table with
    | some t => s.identifier t ++ .raw ".*"
    | none => .raw "*"
  | .aliased a name => sub a ++ .ofTokens [.space, .keyword .AS, .space] ++ s.identifier name
  | .paren a => .ofTokens [.lparen] ++ sub a ++ .ofTokens [.rparen]
  | .binaryOp op a b => sub a ++ .ofTokens [.space, operator op, .space] ++ sub b
  | .unaryOp .not a => .ofTokens [.keyword .NOT, .space] ++ sub a
  | .unaryOp .minus a => .raw "-" ++ sub a
  | .like negated a b => predicate sub .LIKE negated a b
  | .ilike negated a b => predicate sub .ILIKE negated a b
  | .isNull negated a =>
    sub a ++ .ofTokens [.space, .keyword .IS, .space] ++ negation negated ++ .keyword .NULL
  | .between negated a low high =>
    predicate sub .BETWEEN negated a low ++ .ofTokens [.space, .keyword .AND, .space] ++ sub high
  | .inList negated a list =>
    sub a ++ .ofTokens [.space] ++ negation negated ++ .ofTokens [.keyword .IN, .space, .lparen] ++
      .commaSeparated (list.map sub) ++ .ofTokens [.rparen]
  | .caseWhen operand whens otherwise =>
    .keyword .CASE ++ optional [.space] (operand.map sub) ++
      .concat (whens.map fun w =>
        .ofTokens [.space, .keyword .WHEN, .space] ++ sub w.1 ++
          .ofTokens [.space, .keyword .THEN, .space] ++ sub w.2) ++
      optional [.space, .keyword .ELSE, .space] (otherwise.map sub) ++
      .ofTokens [.space, .keyword .END]
  | .cast a target => s.cast sub .CAST a target
  | .tryCast a target => s.cast sub .TRY_CAST a target
  | .function name args => .call name (args.map sub)
  | .distinct exprs => .ofTokens [.keyword .DISTINCT, .space] ++ .commaSeparated (exprs.map sub)
  | .order a items => sub a ++ .ofTokens [.space] ++ ordering sub items
  | .groupConcat a separator =>
    .ofTokens [.raw "GROUP_CONCAT", .lparen] ++ sub a ++
      optional [.space, .raw "SEPARATOR", .space] (separator.map sub) ++ .ofTokens [.rparen]
  | .dateAdd a amount unit =>
    .ofTokens [.raw "DATE_ADD", .lparen] ++ .commaSeparated [sub a, sub amount] ++
      optional [.comma, .space] (unit.map fun u => .raw (Text.upper u)) ++ .ofTokens [.rparen]
  | .least args => .call "LEAST" (args.map sub)
  | .greatest args => .call "GREATEST" (args.map sub)
  | .levenshtein args => .call "LEVENSHTEIN" (args.map sub)
  | .jsonExtract a path => .call "JSON_EXTRACT" [sub a, sub path]
  | .jsonExtractScalar a path => .call "JSON_EXTRACT_SCALAR" [sub a, sub path]
  | .jsonbExtract a path => .call "JSONB_EXTRACT" [sub a, sub path]
  | .jsonbExtractScalar a path => .call "JSONB_EXTRACT_SCALAR" [sub a, sub path]
  | .dateStrToDate a => s.cast sub .CAST a (.ofKind .date)
  | .timeStrToTime a => s.cast sub .CAST a (.ofKind .timestamp)
  | .table schema name aliasName =>
    s.qualified schema name ++ optional [.space, .keyword .AS, .space] (aliasName.map s.identifier)
  | .tableSample a method size unit =>
    sub a ++ .ofTokens [.space, .keyword .TABLESAMPLE, .space] ++
      (match method with
        | some m => .ofTokens [.raw m, .space]
        | none => {}) ++
      .ofTokens [.lparen] ++ sub size ++
      .ofTokens [.space, .keyword (match unit with
        | .percent => .PERCENT
        | .rows => .ROWS), .rparen]
  | .select q => s.query sub q (q.limit.map sub)
  | .limit count => .ofTokens [.keyword .LIMIT, .space] ++ sub count
  | .fetch direction count percent withTies =>
    .ofTokens [.keyword .FETCH, .space, .keyword (match direction with
        | .first => .FIRST
        | .next => .NEXT)] ++
      optional [.space] (count.map sub) ++
      (if percent then .ofTokens [.space, .keyword .PERCENT] else {}) ++
      .ofTokens [.space, .keyword .ROWS, .space] ++
      (if withTies then .ofTokens [.keyword .WITH, .space, .keyword .TIES] else .keyword .ONLY)
  | .transaction modifier =>
    .keyword .BEGIN ++ optional [.space] (modifier.map .raw)
  | .commit => .keyword .COMMIT
  | .rollback => .keyword .ROLLBACK
  | .createTable t => s.createTable sub t

end Style

end SqlDialect
