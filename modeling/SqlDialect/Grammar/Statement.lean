import SqlDialect.Grammar.Expression
import SqlDialect.Lexeme.Scan

/-!
# SqlDialect.Grammar.Statement

The grammar of statements: queries, transactions and table definitions, and
scripts of statements with semicolons between them.
-/

namespace SqlDialect.Grammar

section

variable (d : Dialect)

/-- Expressions in any list of lexemes, as the productions of a query ask for
them. -/
def within (n : Nat) : Below n := fun level ts _ => expression d level ts

/-! ## transactions -/

/-- The start of a transaction, behind `BEGIN`: words, which are kept, and
perhaps the word for it. -/
def beginning (ts : List Lexeme) : Read Expr (ts.length + 1) :=
  let r := words ts
  let modifier := if r.value.isEmpty then none else some (" ".intercalate r.value)
  let last := acceptKeyword .TRANSACTION r.rest
  ⟨.transaction modifier, last.rest, by have := r.lt; have := last.lt; omega⟩

/-- The end of a transaction, behind its verb. -/
def ending (e : Expr) (ts : List Lexeme) : Read Expr (ts.length + 1) :=
  (acceptKeyword .TRANSACTION ts).map fun _ => e

/-! ## table definitions -/

/-- Skips the direction of a key, if it comes. -/
def skipDirection (ts : List Lexeme) : Read Unit (ts.length + 1) :=
  match acceptKeyword .ASC ts with
  | ⟨true, ts₁, h₁⟩ => ⟨(), ts₁, h₁⟩
  | ⟨false, ts₁, h₁⟩ => ((acceptKeyword .DESC ts₁).map fun _ => ()).widen h₁

/-- One demand on a column, if a lexeme starts one; that the column may be
`NULL` demands nothing. -/
def constraint? (t : Lexeme) (ts : List Lexeme) :
    Option (Reading (Option (ColumnConstraint Expr)) (ts.length + 1)) :=
  match t.kind with
  | .keyword .PRIMARY => some do
    let ⟨_, ts₁, h₁⟩ ← expectKeyword .KEY ts
    let ⟨_, ts₂, h₂⟩ := skipDirection ts₁
    return ⟨some .primaryKey, ts₂, by omega⟩
  | .keyword .NOT => some do
    let ⟨_, ts₁, h₁⟩ ← expectKeyword .NULL ts
    return ⟨some .notNull, ts₁, by omega⟩
  | .keyword .NULL => some (.ok (.stay none ts))
  | .keyword .UNIQUE => some (.ok (.stay (some .unique) ts))
  | .keyword .AUTO_INCREMENT => some (.ok (.stay (some .autoIncrement) ts))
  | .keyword .DEFAULT => some do
    let r ← expression d .tight ts
    return (r.map fun e => some (.default e)).loosen
  | _ => none

/-- Demands on a column as long as they come. -/
def constraints : (ts : List Lexeme) → Reading (List (ColumnConstraint Expr)) (ts.length + 1)
  | [] => .ok (.stay [] [])
  | t :: ts =>
    match constraint? d t ts with
    | none => .ok (.stay [] (t :: ts))
    | some reading => do
      let ⟨k?, ts₁, h₁⟩ ← reading
      let r ← constraints ts₁
      return ((r.map (k?.toList ++ ·)).widen h₁).loosen
termination_by ts => ts.length
decreasing_by simp only [List.length_cons]; omega

/-- The type of a column, if a bare word comes. -/
def columnType? (ts : List Lexeme) : Reading (Option DataType) (ts.length + 1) := do
  if comes .word ts then
    let r ← dataType ts
    return (r.map some).loosen
  else return .stay none ts

/-- A column: a name, perhaps a type, and what is demanded of it. -/
def columnDef (ts : List Lexeme) : Reading (ColumnDef Expr) ts.length := do
  let ⟨name, ts₁, h₁⟩ ← ident .columnName ts
  let ⟨type?, ts₂, h₂⟩ ← columnType? ts₁
  let ⟨ks, ts₃, h₃⟩ ← constraints d ts₂
  return ⟨⟨name, type?, ks⟩, ts₃, by omega⟩

/-- The words `IF NOT EXISTS`, if the first of them comes. -/
def ifNotExists (ts : List Lexeme) : Reading Bool (ts.length + 1) := do
  match acceptKeyword .IF ts with
  | ⟨true, ts₁, h₁⟩ =>
    let ⟨_, ts₂, h₂⟩ ← expectKeyword .NOT ts₁
    let ⟨_, ts₃, h₃⟩ ← expectKeyword .EXISTS ts₂
    return ⟨true, ts₃, by omega⟩
  | ⟨false, ts₁, h₁⟩ => return ⟨false, ts₁, h₁⟩

/-- A table definition, behind `CREATE`. -/
def createTable (ts : List Lexeme) : Reading Expr ts.length := do
  let ⟨_, ts₁, h₁⟩ ← expectKeyword .TABLE ts
  let ⟨conditional, ts₂, h₂⟩ ← ifNotExists ts₁
  let ⟨(schema, name), ts₃, h₃⟩ ← tableName ts₂
  let ⟨_, ts₄, h₄⟩ ← expect .lparen .openParen ts₃
  let ⟨(first, others), ts₅, h₅⟩ ← commaList (fun ts _ => columnDef d ts) ts₄ (Front.lt_succ ts₄)
  let ⟨_, ts₆, h₆⟩ ← expect .rparen .closeParen ts₅
  return ⟨.createTable ⟨.table schema name none, conditional, first :: others⟩, ts₆, by omega⟩

/-! ## statements -/

/-- A statement. -/
def statement : (ts : List Lexeme) → Reading Expr ts.length
  | [] => .error (.unexpectedEnd .statement)
  | t :: ts =>
    match t.kind with
    | .keyword .SELECT => do
      let r ← query (within d (ts.length + 1)) ts (Front.lt_succ ts)
      return (r.map .select).behind t
    | .keyword .BEGIN => .ok (beginning ts)
    | .keyword .COMMIT => .ok (ending .commit ts)
    | .keyword .ROLLBACK => .ok (ending .rollback ts)
    | .keyword .CREATE => do
      let r ← createTable d ts
      return r.behind t
    | _ => .error (unexpected .statement (t :: ts))

/-- Statements with semicolons between them, to the end.  Semicolons may also
stand at either end, and any number of them in a row. -/
def script : List Lexeme → Except ParseError (List Expr)
  | [] => .ok []
  | t :: ts =>
    if t.kind = .semicolon then script ts
    else do
      let ⟨first, ts₁, h₁⟩ ← statement d (t :: ts)
      match ts₁, h₁ with
      | [], _ => return [first]
      | u :: ts₂, h₁ =>
        if u.kind = .semicolon then
          have : ts₂.length < (t :: ts).length := by simp only [List.length_cons] at h₁ ⊢; omega
          let others ← script ts₂
          return first :: others
        else throw (unexpected .semicolon (u :: ts₂))
termination_by ts => ts.length
decreasing_by
  · simp only [List.length_cons]; omega
  · assumption

end

end SqlDialect.Grammar

namespace SqlDialect.Dialect

/-! ## reading a text -/

/-- The statements of a script. -/
def parse (d : Dialect) (sql : String) : Except ParseError (List Expr) := do
  let lexemes ← d.scan sql
  Grammar.script d lexemes

/-- The statement of a script that has to hold exactly one. -/
def parseOne (d : Dialect) (sql : String) : Except ParseError Expr := do
  match ← d.parse sql with
  | [statement] => return statement
  | statements => throw (.notSingleStatement statements.length)

/-- The expression that a text consists of. -/
def parseExpr (d : Dialect) (sql : String) : Except ParseError Expr := do
  let lexemes ← d.scan sql
  match ← Grammar.expression d .loose lexemes with
  | ⟨e, [], _⟩ => return e
  | ⟨_, t :: ts, _⟩ => throw (Grammar.unexpected .endOfInput (t :: ts))

end SqlDialect.Dialect
