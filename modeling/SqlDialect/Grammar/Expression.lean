import SqlDialect.Dialect
import SqlDialect.Grammar.Name

/-!
# SqlDialect.Grammar.Expression

The grammar of expressions and of the queries inside them.  The levels of
precedence are, from the loosest to the tightest: `OR`, `AND`, `NOT`, the
predicates and comparisons, sums, products, concatenation with the JSON
arrows, the minus sign, and operands.

A production is given the means to read an expression in any strictly
shorter list of lexemes (`Below`).  Every production that recurs takes a
lexeme first, which is how `expression` closes the recursion.
-/

namespace SqlDialect.Grammar

/-- The two levels of the grammar that productions ask for. -/
inductive Level where
  /-- Any expression. -/
  | loose
  /-- An operand, perhaps with minus signs in front. -/
  | tight
  deriving DecidableEq, Repr

/-- Reading an expression in any list of less than `n` lexemes. -/
abbrev Below (n : Nat) : Type :=
  Level → (ts : List Lexeme) → ts.length < n → Reading Expr ts.length

/-! ## operators -/

def orOperator? : LexemeKind → Option (Expr → Expr → Expr)
  | .keyword .OR => some (.binaryOp .or)
  | _ => none

def andOperator? : LexemeKind → Option (Expr → Expr → Expr)
  | .keyword .AND => some (.binaryOp .and)
  | _ => none

def sumOperator? : LexemeKind → Option (Expr → Expr → Expr)
  | .plus => some (.binaryOp .plus)
  | .minus => some (.binaryOp .minus)
  | _ => none

def productOperator? : LexemeKind → Option (Expr → Expr → Expr)
  | .star => some (.binaryOp .mul)
  | .slash => some (.binaryOp .div)
  | .percent => some (.binaryOp .mod)
  | _ => none

/-- Concatenation and the JSON arrows share the tightest level. -/
def joinOperator? : LexemeKind → Option (Expr → Expr → Expr)
  | .concat => some (.binaryOp .concat)
  | .arrow => some .jsonExtract
  | .doubleArrow => some .jsonExtractScalar
  | _ => none

def comparison? : LexemeKind → Option BinaryOperator
  | .eq => some .eq
  | .ne => some .ne
  | .lt => some .lt
  | .gt => some .gt
  | .lte => some .lte
  | .gte => some .gte
  | _ => none

/-- The predicates that may be negated by a `NOT` in front. -/
inductive Predicate where
  | like | ilike | between | inList
  deriving DecidableEq, Repr

def predicate? : LexemeKind → Option Predicate
  | .keyword .LIKE => some .like
  | .keyword .ILIKE => some .ilike
  | .keyword .BETWEEN => some .between
  | .keyword .IN => some .inList
  | _ => none

section

variable (d : Dialect) {n : Nat} (sub : Below n)

/-! ## lists -/

/-- One item of an ordering. -/
def orderItem (ts : List Lexeme) (h : ts.length < n) : Reading (OrderItem Expr) ts.length := do
  let ⟨e, ts₁, h₁⟩ ← sub .loose ts h
  match ts₁, h₁ with
  | [], h₁ => return ⟨⟨e, none⟩, [], h₁⟩
  | t :: ts₂, h₁ =>
    match t.kind with
    | .keyword .ASC => return ⟨⟨e, some .asc⟩, ts₂, Front.tail_lt h₁⟩
    | .keyword .DESC => return ⟨⟨e, some .desc⟩, ts₂, Front.tail_lt h₁⟩
    | _ => return ⟨⟨e, none⟩, t :: ts₂, h₁⟩

/-- Expressions with commas between them. -/
def exprList (ts : List Lexeme) (h : ts.length < n) : Reading (Expr × List Expr) ts.length :=
  commaList (sub .loose) ts h

/-- The items of an ordering, behind `ORDER`. -/
def ordering (ts : List Lexeme) (h : ts.length < n) :
    Reading (OrderItem Expr × List (OrderItem Expr)) ts.length := do
  let ⟨_, ts₁, h₁⟩ ← expectKeyword .BY ts
  let r ← commaList (orderItem sub) ts₁ (by omega)
  return r.widen (by omega)

/-! ## queries -/

/-- An expression, if a keyword comes in front of it. -/
def clause? (k : Keyword) (ts : List Lexeme) (h : ts.length < n) :
    Reading (Option Expr) (ts.length + 1) := do
  match acceptKeyword k ts with
  | ⟨true, ts₁, h₁⟩ =>
    let ⟨e, ts₂, h₂⟩ ← sub .loose ts₁ (by omega)
    return ⟨some e, ts₂, by omega⟩
  | ⟨false, ts₁, h₁⟩ => return ⟨none, ts₁, h₁⟩

/-- The expressions of `GROUP BY`, if it comes. -/
def groupClause (ts : List Lexeme) (h : ts.length < n) :
    Reading (List Expr) (ts.length + 1) := do
  match acceptKeyword .GROUP ts with
  | ⟨true, ts₁, h₁⟩ =>
    let ⟨_, ts₂, h₂⟩ ← expectKeyword .BY ts₁
    let ⟨(first, others), ts₃, h₃⟩ ← exprList sub ts₂ (by omega)
    return ⟨first :: others, ts₃, by omega⟩
  | ⟨false, ts₁, h₁⟩ => return ⟨[], ts₁, h₁⟩

/-- The items of `ORDER BY`, if it comes. -/
def orderClause (ts : List Lexeme) (h : ts.length < n) :
    Reading (List (OrderItem Expr)) (ts.length + 1) := do
  match acceptKeyword .ORDER ts with
  | ⟨true, ts₁, h₁⟩ =>
    let ⟨(first, others), ts₂, h₂⟩ ← ordering sub ts₁ (by omega)
    return ⟨first :: others, ts₂, by omega⟩
  | ⟨false, ts₁, h₁⟩ => return ⟨[], ts₁, h₁⟩

/-- Limit and offset by `LIMIT`, if it comes: the limit alone, or the offset,
a comma and the limit. -/
def limitClause (ts : List Lexeme) (h : ts.length < n) :
    Reading (Option Expr × Option Expr) (ts.length + 1) := do
  match acceptKeyword .LIMIT ts with
  | ⟨true, ts₁, h₁⟩ =>
    let ⟨first, ts₂, h₂⟩ ← sub .loose ts₁ (by omega)
    match accept .comma ts₂ with
    | ⟨true, ts₃, h₃⟩ =>
      let ⟨count, ts₄, h₄⟩ ← sub .loose ts₃ (by omega)
      return ⟨(some (.limit count), some first), ts₄, by omega⟩
    | ⟨false, ts₃, h₃⟩ => return ⟨(some (.limit first), none), ts₃, by omega⟩
  | ⟨false, ts₁, h₁⟩ => return ⟨(none, none), ts₁, h₁⟩

/-- The offset by `OFFSET`, if it comes, and the word for rows behind it. -/
def offsetClause (ts : List Lexeme) (h : ts.length < n) :
    Reading (Option Expr) (ts.length + 1) := do
  match ← clause? sub .OFFSET ts h with
  | ⟨some e, ts₁, h₁⟩ =>
    match acceptKeyword .ROWS ts₁ with
    | ⟨true, ts₂, h₂⟩ => return ⟨some e, ts₂, by omega⟩
    | ⟨false, ts₂, h₂⟩ =>
      let r := acceptKeyword .ROW ts₂
      return ⟨some e, r.rest, by have := r.lt; omega⟩
  | ⟨none, ts₁, h₁⟩ => return ⟨none, ts₁, h₁⟩

/-- The word `FIRST` or `NEXT`. -/
def fetchDirection : (ts : List Lexeme) → Reading FetchDirection ts.length
  | [] => .error (.unexpectedEnd .firstOrNext)
  | t :: ts =>
    match t.kind with
    | .keyword .FIRST => .ok (.step .first t ts)
    | .keyword .NEXT => .ok (.step .next t ts)
    | _ => .error (unexpected .firstOrNext (t :: ts))

/-- The count of a fetch, unless the word for rows comes at once. -/
def fetchCount (ts : List Lexeme) (h : ts.length < n) :
    Reading (Option Expr) (ts.length + 1) := do
  if comes (.keyword .ROW) ts || comes (.keyword .ROWS) ts then
    return .stay none ts
  else
    let r ← sub .tight ts h
    return (r.map some).loosen

/-- The word for rows. -/
def rowsWord (ts : List Lexeme) : Reading Unit (ts.length + 1) := do
  match acceptKeyword .ROWS ts with
  | ⟨true, ts₁, h₁⟩ => return ⟨(), ts₁, h₁⟩
  | ⟨false, ts₁, h₁⟩ =>
    let ⟨_, ts₂, h₂⟩ ← expectKeyword .ROW ts₁
    return ⟨(), ts₂, by omega⟩

/-- A fetch, behind `FETCH`. -/
def fetch (ts : List Lexeme) (h : ts.length < n) : Reading Expr ts.length := do
  let ⟨direction, ts₁, h₁⟩ ← fetchDirection ts
  let ⟨count, ts₂, h₂⟩ ← fetchCount sub ts₁ (by omega)
  let ⟨percent, ts₃, h₃⟩ := acceptKeyword .PERCENT ts₂
  let ⟨_, ts₄, h₄⟩ ← rowsWord ts₃
  let ⟨ties, ts₅, h₅⟩ := acceptKeyword .WITH ts₄
  let ⟨_, ts₆, h₆⟩ ← expectKeyword (if ties then .TIES else .ONLY) ts₅
  return ⟨.fetch direction count percent ties, ts₆, by omega⟩

/-- A row limit by `FETCH`, if it comes. -/
def fetchClause (ts : List Lexeme) (h : ts.length < n) :
    Reading (Option Expr) (ts.length + 1) := do
  match acceptKeyword .FETCH ts with
  | ⟨true, ts₁, h₁⟩ =>
    let ⟨e, ts₂, h₂⟩ ← fetch sub ts₁ (by omega)
    return ⟨some e, ts₂, by omega⟩
  | ⟨false, ts₁, h₁⟩ => return ⟨none, ts₁, h₁⟩

/-- An expression, with an alias if one comes. -/
def aliasedExpr (ts : List Lexeme) (h : ts.length < n) : Reading Expr ts.length := do
  let ⟨e, ts₁, h₁⟩ ← sub .loose ts h
  let ⟨name?, ts₂, h₂⟩ ← aliasName? ts₁
  match name? with
  | some name => return ⟨.aliased e name, ts₂, by omega⟩
  | none => return ⟨e, ts₂, by omega⟩

/-- A projection: a star alone, or an expression with an alias if one
comes. -/
def projection : (ts : List Lexeme) → ts.length < n → Reading Expr ts.length
  | [], h => aliasedExpr sub [] h
  | t :: ts, h =>
    if t.kind = .star then .ok (.step (.star none) t ts) else aliasedExpr sub (t :: ts) h

/-- The method of a sample, if it is named. -/
def sampleMethod : (ts : List Lexeme) → Read (Option String) (ts.length + 1)
  | [] => .stay none []
  | t :: ts =>
    if t.kind = .word then (Front.step (some (Text.upper t.text)) t ts).loosen
    else .stay none (t :: ts)

/-- What the size of a sample counts: a percentage unless rows are named. -/
def sampleUnit (ts : List Lexeme) : Read SampleUnit (ts.length + 1) :=
  match acceptKeyword .ROWS ts with
  | ⟨true, ts₁, h₁⟩ => ⟨.rows, ts₁, h₁⟩
  | ⟨false, ts₁, h₁⟩ =>
    let r := acceptKeyword .PERCENT ts₁
    ⟨.percent, r.rest, by have := r.lt; omega⟩

/-- A sample of a table, if one is asked for: a method, a size and what the
size counts. -/
def sampled (table : Expr) (ts : List Lexeme) (h : ts.length < n) :
    Reading Expr (ts.length + 1) := do
  match acceptKeyword .TABLESAMPLE ts with
  | ⟨false, ts₁, h₁⟩ => return ⟨table, ts₁, h₁⟩
  | ⟨true, ts₁, h₁⟩ =>
    let ⟨method, ts₂, h₂⟩ := sampleMethod ts₁
    let ⟨_, ts₃, h₃⟩ ← expect .lparen .openParen ts₂
    let ⟨size, ts₄, h₄⟩ ← sub .loose ts₃ (by omega)
    let ⟨unit, ts₅, h₅⟩ := sampleUnit ts₄
    let ⟨_, ts₆, h₆⟩ ← expect .rparen .closeParen ts₅
    return ⟨.tableSample table method size unit, ts₆, by omega⟩

/-- A table to read from, perhaps with an alias, perhaps sampled. -/
def tableSource (ts : List Lexeme) (h : ts.length < n) : Reading Expr ts.length := do
  let ⟨(schema, name), ts₁, h₁⟩ ← tableName ts
  let ⟨alias?, ts₂, h₂⟩ ← aliasName? ts₁
  let ⟨e, ts₃, h₃⟩ ← sampled sub (.table schema name alias?) ts₂ (by omega)
  return ⟨e, ts₃, by omega⟩

/-- The table behind `FROM`, if it comes. -/
def sourceClause (ts : List Lexeme) (h : ts.length < n) :
    Reading (Option Expr) (ts.length + 1) := do
  match acceptKeyword .FROM ts with
  | ⟨true, ts₁, h₁⟩ =>
    let ⟨e, ts₂, h₂⟩ ← tableSource sub ts₁ (by omega)
    return ⟨some e, ts₂, by omega⟩
  | ⟨false, ts₁, h₁⟩ => return ⟨none, ts₁, h₁⟩

/-- Row limit and offset, in whichever style comes. -/
def rowLimit (ts : List Lexeme) (h : ts.length < n) :
    Reading (Option Expr × Option Expr) (ts.length + 1) := do
  let ⟨(limit?, offset?), ts₁, h₁⟩ ← limitClause sub ts h
  let ⟨offset?, ts₂, h₂⟩ ← match offset? with
    | some e => (return ⟨some e, ts₁, by omega⟩ : Reading (Option Expr) (ts₁.length + 1))
    | none => offsetClause sub ts₁ (by omega)
  let ⟨limit?, ts₃, h₃⟩ ← match limit? with
    | some e => (return ⟨some e, ts₂, by omega⟩ : Reading (Option Expr) (ts₂.length + 1))
    | none => fetchClause sub ts₂ (by omega)
  return ⟨(limit?, offset?), ts₃, by omega⟩

/-- A query, behind `SELECT`. -/
def query (ts : List Lexeme) (h : ts.length < n) : Reading (Select Expr) ts.length := do
  let ⟨distinct, ts₁, h₁⟩ := acceptKeyword .DISTINCT ts
  let ⟨(first, others), ts₂, h₂⟩ ← commaList (projection sub) ts₁ (by omega)
  let ⟨source, ts₃, h₃⟩ ← sourceClause sub ts₂ (by omega)
  let ⟨filter, ts₄, h₄⟩ ← clause? sub .WHERE ts₃ (by omega)
  let ⟨groupBy, ts₅, h₅⟩ ← groupClause sub ts₄ (by omega)
  let ⟨having, ts₆, h₆⟩ ← clause? sub .HAVING ts₅ (by omega)
  let ⟨orderBy, ts₇, h₇⟩ ← orderClause sub ts₆ (by omega)
  let ⟨(limit, offset), ts₈, h₈⟩ ← rowLimit sub ts₇ (by omega)
  let q : Select Expr :=
    { distinct, projections := first :: others, source, filter, groupBy, having, orderBy, limit,
      offset }
  return ⟨q, ts₈, by omega⟩

/-! ## operands -/

/-- The separator behind the arguments of an aggregate, if it comes. -/
def separator? : (ts : List Lexeme) → ts.length < n → Reading (Option Expr) (ts.length + 1)
  | [], _ => .ok (.stay none [])
  | t :: ts, h => do
    if t.kind = .word ∧ Text.sameWord t.text "SEPARATOR" then
      let r ← sub .loose ts (Nat.lt_of_succ_lt h)
      return ((r.map some).behind t).loosen
    else return .stay none (t :: ts)

/-- The arguments of a call, behind the opening parenthesis.  `DISTINCT`
gathers them into one argument, and an ordering belongs to the first. -/
def callArgs (ts : List Lexeme) (h : ts.length < n) : Reading (List Expr) ts.length := do
  if hp : comes .rparen ts = true then
    let ⟨_, ts₁, h₁⟩ ← expect .rparen .closeParen ts
    return ⟨[], ts₁, h₁⟩
  else
    let ⟨distinct, ts₁, h₁⟩ := acceptKeyword .DISTINCT ts
    let ⟨(first, others), ts₂, h₂⟩ ← exprList sub ts₁ (by omega)
    let (first, others) := if distinct then (.distinct (first :: others), []) else (first, others)
    let ⟨items, ts₃, h₃⟩ ← orderClause sub ts₂ (by omega)
    let first := if items.isEmpty then first else .order first items
    let ⟨separator, ts₄, h₄⟩ ← separator? sub ts₃ (by omega)
    let ⟨_, ts₅, h₅⟩ ← expect .rparen .closeParen ts₄
    return ⟨first :: (others ++ separator.toList), ts₅, by omega⟩

/-- A column of a table or all of them, behind the table and the point. -/
def columnOf (table : Ident) : (ts : List Lexeme) → Reading Expr ts.length
  | [] => .error (.unexpectedEnd .columnName)
  | t :: ts =>
    if t.kind = .star then .ok (.step (.star (some table)) t ts)
    else do
      let r ← ident .columnName (t :: ts)
      return r.map (.column (some table))

/-- A column, all columns of a table, or a call. -/
def columnOrCall (ts : List Lexeme) (h : ts.length ≤ n) : Reading Expr ts.length := do
  let ⟨name, ts₁, h₁⟩ ← ident .expression ts
  match ts₁, h₁ with
  | [], h₁ => return ⟨.column none name, [], h₁⟩
  | t :: ts₂, h₁ =>
    have hlt := Front.tail_lt h₁
    if t.kind = .lparen ∧ name.quoted = false then
      let ⟨args, ts₃, h₃⟩ ← callArgs sub ts₂ (Front.lt_of_lt_of_le hlt h)
      let e ← d.call name.name args
      return ⟨e, ts₃, Front.lt_trans h₃ hlt⟩
    else if t.kind = .dot then
      let r ← columnOf name ts₂
      return r.after hlt
    else return ⟨.column none name, t :: ts₂, h₁⟩

/-- The branches of a case, as long as they come. -/
def whenBranches (ts : List Lexeme) (h : ts.length < n) :
    Reading (List (Expr × Expr)) (ts.length + 1) := do
  match acceptKeyword .WHEN ts with
  | ⟨true, ts₁, h₁⟩ =>
    let ⟨condition, ts₂, h₂⟩ ← sub .loose ts₁ (by omega)
    let ⟨_, ts₃, h₃⟩ ← expectKeyword .THEN ts₂
    let ⟨result, ts₄, h₄⟩ ← sub .loose ts₃ (by omega)
    have : ts₄.length < ts.length := by omega
    let ⟨others, ts₅, h₅⟩ ← whenBranches ts₄ (by omega)
    return ⟨(condition, result) :: others, ts₅, by omega⟩
  | ⟨false, ts₁, h₁⟩ => return ⟨[], ts₁, h₁⟩
termination_by ts.length

/-- The operand of a case, unless a branch comes at once. -/
def caseOperand (ts : List Lexeme) (h : ts.length < n) :
    Reading (Option Expr) (ts.length + 1) := do
  if comes (.keyword .WHEN) ts then return .stay none ts
  else
    let r ← sub .loose ts h
    return (r.map some).loosen

/-- A case, behind `CASE`: an operand unless a branch comes at once, at least
one branch, and perhaps what holds otherwise. -/
def caseExpr (ts : List Lexeme) (h : ts.length < n) : Reading Expr ts.length := do
  let ⟨operand, ts₁, h₁⟩ ← caseOperand sub ts h
  let ⟨whens, ts₂, h₂⟩ ← whenBranches sub ts₁ (by omega)
  if whens.isEmpty then throw (unexpected .whenBranch ts₂)
  let ⟨otherwise, ts₃, h₃⟩ ← clause? sub .ELSE ts₂ (by omega)
  let ⟨_, ts₄, h₄⟩ ← expectKeyword .END ts₃
  return ⟨.caseWhen operand whens otherwise, ts₄, by omega⟩

/-- The operand and the type of a cast, behind `CAST`. -/
def castParts (ts : List Lexeme) (h : ts.length < n) : Reading (Expr × DataType) ts.length := do
  let ⟨_, ts₁, h₁⟩ ← expect .lparen .openParen ts
  let ⟨e, ts₂, h₂⟩ ← sub .loose ts₁ (by omega)
  let ⟨_, ts₃, h₃⟩ ← expectKeyword .AS ts₂
  let ⟨type, ts₄, h₄⟩ ← dataType ts₃
  let ⟨_, ts₅, h₅⟩ ← expect .rparen .closeParen ts₄
  return ⟨(e, type), ts₅, by omega⟩

/-- A query or an expression. -/
def queryOrExpr (ts : List Lexeme) (h : ts.length < n) : Reading Expr ts.length := do
  match acceptKeyword .SELECT ts with
  | ⟨true, ts₁, h₁⟩ =>
    let ⟨q, ts₂, h₂⟩ ← query sub ts₁ (by omega)
    return ⟨.select q, ts₂, by omega⟩
  | ⟨false, _, _⟩ => sub .loose ts h

/-- A query or an expression with a closing parenthesis behind it. -/
def parenthesized (ts : List Lexeme) (h : ts.length < n) : Reading Expr ts.length := do
  let ⟨e, ts₁, h₁⟩ ← queryOrExpr sub ts h
  let ⟨_, ts₂, h₂⟩ ← expect .rparen .closeParen ts₁
  return ⟨.paren e, ts₂, by omega⟩

/-- An operand. -/
def primary : (ts : List Lexeme) → ts.length ≤ n → Reading Expr ts.length
  | [], _ => .error (.unexpectedEnd .expression)
  | t :: ts, h => do
    match t.kind with
    | .number =>
      let value ← numberOf t
      return .step (.literal value) t ts
    | .string value => return .step (.literal (.string value)) t ts
    | .hexString digits => return .step (.literal (.hexString digits)) t ts
    | .hexNumber digits => return .step (.literal (.hexNumber digits)) t ts
    | .keyword .TRUE => return .step (.literal (.bool true)) t ts
    | .keyword .FALSE => return .step (.literal (.bool false)) t ts
    | .keyword .NULL => return .step (.literal .null) t ts
    | .star => return .step (.star none) t ts
    | .keyword .CASE =>
      let r ← caseExpr sub ts (Front.tail_lt_of_le h)
      return r.behind t
    | .keyword .CAST =>
      let r ← castParts sub ts (Front.tail_lt_of_le h)
      return (r.map fun p => .cast p.1 p.2).behind t
    | .keyword .TRY_CAST =>
      let r ← castParts sub ts (Front.tail_lt_of_le h)
      return (r.map fun p => .tryCast p.1 p.2).behind t
    | .lparen =>
      let r ← parenthesized sub ts (Front.tail_lt_of_le h)
      return r.behind t
    | _ => columnOrCall d sub (t :: ts) h

/-! ## levels of precedence -/

/-- An operand with any number of minus signs in front. -/
def signed : (ts : List Lexeme) → ts.length ≤ n → Reading Expr ts.length
  | [], h => primary d sub [] h
  | t :: ts, h => do
    if t.kind = .minus then
      let r ← signed ts (Front.tail_le h)
      return (r.map (.unaryOp .minus)).behind t
    else primary d sub (t :: ts) h

/-- Concatenations and JSON arrows. -/
def joined (ts : List Lexeme) (h : ts.length ≤ n) : Reading Expr ts.length :=
  leftAssoc (signed d sub) joinOperator? ts h

/-- Products. -/
def product (ts : List Lexeme) (h : ts.length ≤ n) : Reading Expr ts.length :=
  leftAssoc (joined d sub) productOperator? ts h

/-- Sums. -/
def sum (ts : List Lexeme) (h : ts.length ≤ n) : Reading Expr ts.length :=
  leftAssoc (product d sub) sumOperator? ts h

/-- What follows the word of a predicate, applied to the operand in front of
it. -/
def predicate (p : Predicate) (negated : Bool) (left : Expr) (ts : List Lexeme)
    (h : ts.length < n) : Reading Expr ts.length := do
  match p with
  | .like =>
    let r ← sum d sub ts (by omega)
    return r.map (.like negated left)
  | .ilike =>
    let r ← sum d sub ts (by omega)
    return r.map (.ilike negated left)
  | .between =>
    let ⟨low, ts₁, h₁⟩ ← sum d sub ts (by omega)
    let ⟨_, ts₂, h₂⟩ ← expectKeyword .AND ts₁
    let ⟨high, ts₃, h₃⟩ ← sum d sub ts₂ (by omega)
    return ⟨.between negated left low high, ts₃, by omega⟩
  | .inList =>
    let ⟨_, ts₁, h₁⟩ ← expect .lparen .openParen ts
    let ⟨(first, others), ts₂, h₂⟩ ← exprList sub ts₁ (by omega)
    let ⟨_, ts₃, h₃⟩ ← expect .rparen .closeParen ts₂
    return ⟨.inList negated left (first :: others), ts₃, by omega⟩

/-- The null test behind `IS`, applied to the operand in front of it. -/
def nullTest (left : Expr) (ts : List Lexeme) : Reading Expr ts.length := do
  let ⟨negated, ts₁, h₁⟩ := acceptKeyword .NOT ts
  let ⟨_, ts₂, h₂⟩ ← expectKeyword .NULL ts₁
  return ⟨.isNull negated left, ts₂, by omega⟩

/-- The comparison or predicate that a lexeme starts, applied to the operand
in front of it; none if the lexeme starts none. -/
def test? (left : Expr) (t : Lexeme) (ts : List Lexeme) (h : ts.length < n) :
    Option (Reading Expr ts.length) :=
  match comparison? t.kind with
  | some op => some do
    let r ← sum d sub ts (by omega)
    return r.map (.binaryOp op left)
  | none =>
    match predicate? t.kind with
    | some p => some (predicate d sub p false left ts h)
    | none =>
      match t.kind, ts, h with
      | .keyword .IS, ts, _ => some (nullTest left ts)
      | .keyword .NOT, u :: ts, h =>
        (predicate? u.kind).map fun p => do
          let r ← predicate d sub p true left ts (Nat.lt_of_succ_lt h)
          return r.behind u
      | _, _, _ => none

/-- Comparisons and predicates as long as they come, each applied to all in
front of it. -/
def tests (left : Expr) : (ts : List Lexeme) → ts.length ≤ n → Reading Expr (ts.length + 1)
  | [], _ => .ok (.stay left [])
  | t :: ts, h =>
    match test? d sub left t ts (Front.tail_lt_of_le h) with
    | none => .ok (.stay left (t :: ts))
    | some reading => do
      let ⟨e, ts₁, h₁⟩ ← reading
      let r ← tests e ts₁ (Front.le_of_lt_of_le h₁ (Front.tail_le h))
      return ((r.widen h₁).behind t).loosen
termination_by ts => ts.length
decreasing_by simp only [List.length_cons]; omega

/-- Sums with comparisons and predicates between and behind them. -/
def comparison (ts : List Lexeme) (h : ts.length ≤ n) : Reading Expr ts.length := do
  let ⟨first, ts₁, h₁⟩ ← sum d sub ts h
  let r ← tests d sub first ts₁ (Front.le_of_lt_of_le h₁ h)
  return r.widen h₁

/-- A comparison with any number of `NOT` in front. -/
def negation : (ts : List Lexeme) → ts.length ≤ n → Reading Expr ts.length
  | [], h => comparison d sub [] h
  | t :: ts, h => do
    if t.kind = .keyword .NOT then
      let r ← negation ts (Front.tail_le h)
      return (r.map (.unaryOp .not)).behind t
    else comparison d sub (t :: ts) h

/-- Conjunctions. -/
def conjunction (ts : List Lexeme) (h : ts.length ≤ n) : Reading Expr ts.length :=
  leftAssoc (negation d sub) andOperator? ts h

/-- Disjunctions. -/
def disjunction (ts : List Lexeme) (h : ts.length ≤ n) : Reading Expr ts.length :=
  leftAssoc (conjunction d sub) orOperator? ts h

end

/-- An expression of a level. -/
def expression (d : Dialect) (level : Level) (ts : List Lexeme) :
    Reading Expr ts.length :=
  match level with
  | .loose => disjunction d (fun level ts _ => expression d level ts) ts (Front.le_self ts)
  | .tight => signed d (fun level ts _ => expression d level ts) ts (Front.le_self ts)
termination_by ts.length

end SqlDialect.Grammar
