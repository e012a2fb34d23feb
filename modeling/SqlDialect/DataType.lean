import SqlDialect.Text.Split
import SqlDialect.TypeKind

/-!
# SqlDialect.DataType

A data type is a kind with the parameters written behind it.  Written, the
parameters follow the spelling in parentheses; read, a type may go by any of
the names that dialects in use have for it.
-/

namespace SqlDialect

/-- A data type: a kind and its parameters. -/
structure DataType where
  kind : TypeKind
  params : List UInt32
  deriving DecidableEq

namespace DataType

/-- A type without parameters. -/
def ofKind (kind : TypeKind) : DataType := ⟨kind, []⟩

instance : Coe TypeKind DataType := ⟨ofKind⟩

/-! ## writing -/

/-- A parameter list in parentheses, or nothing when there are none. -/
def paramsText (params : List UInt32) : String :=
  if params.isEmpty then ""
  else "(" ++ ", ".intercalate (params.map fun p => toString p.toNat) ++ ")"

/-- A type spelled in the base dialect. -/
def text (t : DataType) : String := t.kind.spelling ++ paramsText t.params

/-! ## reading -/

/-- The kind that goes by a name, given in lower case. -/
def kindOfAlias? : String → Option TypeKind
  | "bool" | "boolean" => some .boolean
  | "tinyint" => some .tinyInt
  | "smallint" | "int2" => some .smallInt
  | "int" | "integer" | "int4" | "mediumint" => some .int
  | "bigint" | "int8" => some .bigInt
  | "float" | "real" | "float4" => some .float
  | "double" | "double precision" | "float8" => some .double
  | "decimal" | "numeric" | "number" => some .decimal
  | "char" | "character" => some .char
  | "nchar" | "native character" => some .nChar
  | "varchar" | "character varying" | "varying character" => some .varchar
  | "nvarchar" => some .nVarchar
  | "text" | "string" | "clob" => some .text
  | "binary" => some .binary
  | "varbinary" => some .varBinary
  | "blob" | "bytea" => some .blob
  | "date" => some .date
  | "time" => some .time
  | "timestamp" | "datetime" => some .timestamp
  | "timestamptz" | "timestamp with time zone" => some .timestampTz
  | "json" | "jsonb" => some .json
  | "uuid" => some .uuid
  | _ => none

/-- A parameter: decimal digits, a plus sign in front allowed, below
`2 ^ 32`. -/
def param? (cs : List Char) : Option UInt32 :=
  let ds := match cs with
    | '+' :: ds => ds
    | ds => ds
  let n := Text.decimalValue ds
  if ds.isEmpty ∨ !ds.all Char.isDigit ∨ UInt32.size ≤ n then none else some (UInt32.ofNat n)

/-- Reads the parameters behind the opening parenthesis; the closing one must
be the last character. -/
def params? (cs : List Char) : Option (List UInt32) :=
  if cs.getLast? = some ')' then
    (Text.splitOn ',' cs.dropLast).mapM fun part => param? (Text.trimChars part)
  else none

/-- Reads a type by any of its names, in any case and with blanks around it,
with an optional parameter list. -/
def ofText? (s : String) : Option DataType :=
  let cs := Text.trimChars s.toList |>.map Char.toLower
  let name := cs.takeWhile (· ≠ '(')
  match cs.dropWhile (· ≠ '(') with
  | [] => (kindOfAlias? (String.ofList name)).map fun k => ⟨k, []⟩
  | _ :: inner =>
    (params? inner).bind fun params =>
      (kindOfAlias? (String.ofList (Text.trimChars name))).map fun k => ⟨k, params⟩

end DataType

end SqlDialect
