import SqlDialect.Expr

/-!
# SqlDialect.Expr.Build

Short ways to write trees by hand: leaves from plain values, operators
between trees, and queries clause by clause.  Every name given here is an
undelimited one, and nothing given here is negated.
-/

namespace SqlDialect

open Decimal (Binary64)

namespace Expr

/-! ## leaves -/

/-- A column. -/
def col (name : String) : Expr := column none ⟨name, false⟩

/-- A column of a table. -/
def tableCol (table name : String) : Expr := column (some ⟨table, false⟩) ⟨name, false⟩

/-- An integer literal. -/
def ofInt (n : Int64) : Expr := literal (.int n)

/-- A floating-point literal. -/
def ofFloat (f : Binary64) : Expr := literal (.float f)

/-- A string literal. -/
def ofString (s : String) : Expr := literal (.string s)

/-- A truth value. -/
def ofBool (b : Bool) : Expr := literal (.bool b)

/-- The value `NULL`. -/
def null : Expr := literal .null

/-- All columns. -/
def allColumns : Expr := star none

/-- A table. -/
def tableNamed (name : String) : Expr := table none ⟨name, false⟩ none

/-- `FETCH FIRST n ROWS ONLY`. -/
def fetchFirst (n : Int64) : Expr := fetch .first (some (ofInt n)) false false

instance : Coe String Expr := ⟨ofString⟩
instance : Coe Bool Expr := ⟨ofBool⟩
instance : Coe Int64 Expr := ⟨ofInt⟩
instance : Coe Binary64 Expr := ⟨ofFloat⟩

/-! ## operators -/

def eq (a b : Expr) : Expr := binaryOp .eq a b
def gt (a b : Expr) : Expr := binaryOp .gt a b
def lt (a b : Expr) : Expr := binaryOp .lt a b
def and (a b : Expr) : Expr := binaryOp .and a b
def or (a b : Expr) : Expr := binaryOp .or a b
def add (a b : Expr) : Expr := binaryOp .plus a b
def concat (a b : Expr) : Expr := binaryOp .concat a b

/-- `a LIKE pattern`. -/
def matching (a pattern : Expr) : Expr := like false a pattern

/-- `a ILIKE pattern`. -/
def matchingAnyCase (a pattern : Expr) : Expr := ilike false a pattern

/-- `a IS NULL`. -/
def missing (a : Expr) : Expr := isNull false a

/-- `a IS NOT NULL`. -/
def present (a : Expr) : Expr := isNull true a

/-- `a IN (…)`. -/
def among (a : Expr) (values : List Expr) : Expr := inList false a values

/-- `a ORDER BY …`, as the argument of an aggregate. -/
def ordered (a : Expr) (items : List (OrderItem Expr)) : Expr := order a items

/-- `a AS name`. -/
def named (a : Expr) (name : String) : Expr := aliased a ⟨name, false⟩

end Expr

/-! ## clauses -/

namespace ColumnDef

/-- A column of a type, with nothing demanded of it. -/
def ofType (name : String) (type : DataType) : ColumnDef Expr := ⟨⟨name, false⟩, some type, []⟩

/-- One more demand on a column. -/
def demanding (c : ColumnDef Expr) (k : ColumnConstraint Expr) : ColumnDef Expr :=
  { c with constraints := c.constraints ++ [k] }

end ColumnDef

namespace Select

variable (q : Select Expr)

/-- One more projection. -/
def project (e : Expr) : Select Expr := { q with projections := q.projections ++ [e] }

/-- More projections. -/
def projectAll (es : List Expr) : Select Expr := { q with projections := q.projections ++ es }

/-- Distinct rows only. -/
def distinctRows : Select Expr := { q with distinct := true }

/-- The table to read from. -/
def reading (e : Expr) : Select Expr := { q with source := some e }

/-- The condition on rows. -/
def filtering (e : Expr) : Select Expr := { q with filter := some e }

/-- The expressions to group by. -/
def grouping (es : List Expr) : Select Expr := { q with groupBy := es }

/-- The condition on groups. -/
def keepingGroups (e : Expr) : Select Expr := { q with having := some e }

/-- The ordering of the rows. -/
def ordering (items : List (OrderItem Expr)) : Select Expr := { q with orderBy := items }

/-- At most so many rows. -/
def limitedTo (n : Int64) : Select Expr := { q with limit := some (.limit (.ofInt n)) }

/-- A row limit given as a node. -/
def limitedBy (e : Expr) : Select Expr := { q with limit := some e }

/-- Without the first so many rows. -/
def skipping (n : Int64) : Select Expr := { q with offset := some (.ofInt n) }

end Select

end SqlDialect
