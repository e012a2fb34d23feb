import SqlDialect.Text.Ascii
import SqlDialect.Text.Blank

/-!
# SqlDialect.Keyword

The words with a meaning in the grammar.  A keyword stands for itself in
every dialect; a dialect may spell it differently, and may know more words
for it.
-/

namespace SqlDialect

/-- The words with a meaning in the grammar. -/
inductive Keyword where
  | SELECT | DISTINCT | FROM | WHERE | GROUP | BY | HAVING | ORDER
  | ASC | DESC | AS | LIMIT | OFFSET | FETCH | FIRST | NEXT
  | ROW | ROWS | ONLY | PERCENT | WITH | TIES | TABLESAMPLE | AND
  | OR | NOT | IS | NULL | TRUE | FALSE | LIKE | ILIKE
  | BETWEEN | IN | CASE | WHEN | THEN | ELSE | END | CAST
  | TRY_CAST | BEGIN | TRANSACTION | COMMIT | ROLLBACK | CREATE | TABLE | IF
  | EXISTS | PRIMARY | KEY | UNIQUE | DEFAULT | AUTO_INCREMENT
  deriving DecidableEq, Repr

namespace Keyword

/-- Every keyword. -/
def all : List Keyword :=
  [.SELECT, .DISTINCT, .FROM, .WHERE, .GROUP, .BY, .HAVING, .ORDER, .ASC, .DESC, .AS, .LIMIT,
   .OFFSET, .FETCH, .FIRST, .NEXT, .ROW, .ROWS, .ONLY, .PERCENT, .WITH, .TIES, .TABLESAMPLE,
   .AND, .OR, .NOT, .IS, .NULL, .TRUE, .FALSE, .LIKE, .ILIKE, .BETWEEN, .IN, .CASE, .WHEN,
   .THEN, .ELSE, .END, .CAST, .TRY_CAST, .BEGIN, .TRANSACTION, .COMMIT, .ROLLBACK, .CREATE,
   .TABLE, .IF, .EXISTS, .PRIMARY, .KEY, .UNIQUE, .DEFAULT, .AUTO_INCREMENT]

theorem mem_all (k : Keyword) : k ∈ all := by cases k <;> decide

/-- How the base dialect spells a keyword. -/
def spelling : Keyword → String
  | .SELECT => "SELECT"
  | .DISTINCT => "DISTINCT"
  | .FROM => "FROM"
  | .WHERE => "WHERE"
  | .GROUP => "GROUP"
  | .BY => "BY"
  | .HAVING => "HAVING"
  | .ORDER => "ORDER"
  | .ASC => "ASC"
  | .DESC => "DESC"
  | .AS => "AS"
  | .LIMIT => "LIMIT"
  | .OFFSET => "OFFSET"
  | .FETCH => "FETCH"
  | .FIRST => "FIRST"
  | .NEXT => "NEXT"
  | .ROW => "ROW"
  | .ROWS => "ROWS"
  | .ONLY => "ONLY"
  | .PERCENT => "PERCENT"
  | .WITH => "WITH"
  | .TIES => "TIES"
  | .TABLESAMPLE => "TABLESAMPLE"
  | .AND => "AND"
  | .OR => "OR"
  | .NOT => "NOT"
  | .IS => "IS"
  | .NULL => "NULL"
  | .TRUE => "TRUE"
  | .FALSE => "FALSE"
  | .LIKE => "LIKE"
  | .ILIKE => "ILIKE"
  | .BETWEEN => "BETWEEN"
  | .IN => "IN"
  | .CASE => "CASE"
  | .WHEN => "WHEN"
  | .THEN => "THEN"
  | .ELSE => "ELSE"
  | .END => "END"
  | .CAST => "CAST"
  | .TRY_CAST => "TRY_CAST"
  | .BEGIN => "BEGIN"
  | .TRANSACTION => "TRANSACTION"
  | .COMMIT => "COMMIT"
  | .ROLLBACK => "ROLLBACK"
  | .CREATE => "CREATE"
  | .TABLE => "TABLE"
  | .IF => "IF"
  | .EXISTS => "EXISTS"
  | .PRIMARY => "PRIMARY"
  | .KEY => "KEY"
  | .UNIQUE => "UNIQUE"
  | .DEFAULT => "DEFAULT"
  | .AUTO_INCREMENT => "AUTO_INCREMENT"

/-- The name of a keyword in configurations: its spelling in lower case. -/
def name (k : Keyword) : String := Text.lower k.spelling

/-- The keyword of that name, in any case and with blanks around it. -/
def ofName? (s : String) : Option Keyword :=
  all.find? fun k => k.name == Text.lower (Text.trim s)

/-- The keyword that the base dialect spells this way, in any case. -/
def ofSpelling? (word : String) : Option Keyword :=
  all.find? fun k => Text.sameWord k.spelling word

/-- Whether a keyword may not stand for a name.  The words that only qualify a
row limit, a key or a transaction may. -/
def isReserved : Keyword → Bool
  | .FIRST | .NEXT | .ROW | .ROWS | .ONLY | .PERCENT | .TIES | .KEY | .TRANSACTION | .BEGIN
  | .COMMIT | .ROLLBACK | .FETCH | .OFFSET | .AUTO_INCREMENT => false
  | _ => true

/-! ## lemmas -/

/-- Each name is the name of its keyword only. -/
theorem ofName?_name (k : Keyword) : ofName? k.name = some k := by cases k <;> decide

/-- Each spelling is the spelling of its keyword only. -/
theorem ofSpelling?_spelling (k : Keyword) : ofSpelling? k.spelling = some k := by
  cases k <;> decide

end Keyword

end SqlDialect
