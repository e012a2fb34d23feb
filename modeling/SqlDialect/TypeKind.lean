import SqlDialect.Text.Ascii
import SqlDialect.Text.Blank

/-!
# SqlDialect.TypeKind

The kinds of data types, without their parameters.
-/

namespace SqlDialect

/-- The kinds of data types. -/
inductive TypeKind where
  | boolean | tinyInt | smallInt | int | bigInt | float | double | decimal
  | char | nChar | varchar | nVarchar | text | binary | varBinary | blob
  | date | time | timestamp | timestampTz | json | uuid
  deriving DecidableEq, Repr

namespace TypeKind

/-- Every kind, in the order of the tables that list them. -/
def all : List TypeKind :=
  [.boolean, .tinyInt, .smallInt, .int, .bigInt, .float, .double, .decimal, .char, .nChar,
   .varchar, .nVarchar, .text, .binary, .varBinary, .blob, .date, .time, .timestamp,
   .timestampTz, .json, .uuid]

theorem mem_all (k : TypeKind) : k ∈ all := by cases k <;> decide

/-- How the base dialect spells a kind. -/
def spelling : TypeKind → String
  | .boolean => "BOOLEAN"
  | .tinyInt => "TINYINT"
  | .smallInt => "SMALLINT"
  | .int => "INT"
  | .bigInt => "BIGINT"
  | .float => "FLOAT"
  | .double => "DOUBLE"
  | .decimal => "DECIMAL"
  | .char => "CHAR"
  | .nChar => "NCHAR"
  | .varchar => "VARCHAR"
  | .nVarchar => "NVARCHAR"
  | .text => "TEXT"
  | .binary => "BINARY"
  | .varBinary => "VARBINARY"
  | .blob => "BLOB"
  | .date => "DATE"
  | .time => "TIME"
  | .timestamp => "TIMESTAMP"
  | .timestampTz => "TIMESTAMPTZ"
  | .json => "JSON"
  | .uuid => "UUID"

/-- The name of a kind in configurations: its spelling in lower case. -/
def name (k : TypeKind) : String := Text.lower k.spelling

/-- The place of a kind among all of them. -/
def index (k : TypeKind) : Nat := all.idxOf k

/-- The kind of that name, in any case and with blanks around it. -/
def ofName? (s : String) : Option TypeKind :=
  all.find? fun k => k.name == Text.lower (Text.trim s)

/-! ## lemmas -/

/-- Each name is the name of its kind only. -/
theorem ofName?_name (k : TypeKind) : ofName? k.name = some k := by cases k <;> decide

end TypeKind

end SqlDialect
