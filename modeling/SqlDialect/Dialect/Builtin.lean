import SqlDialect.Dialect.Change

/-!
# SqlDialect.Dialect.Builtin

The dialects that are always there: the base dialect itself and SQLite.
-/

namespace SqlDialect

namespace Dialect

/-- The base dialect: no exceptions at all. -/
def generic : Dialect := { name := "generic" }

/-- What sets SQLite apart.  It reads three styles of delimiters and integers
in base 16, has one storage class for each family of types, and limits rows
by `LIMIT` only. -/
def sqliteChanges : List Change :=
  [.identifiers [('"', '"'), ('[', ']'), ('\x60', '\x60')],
   .hexStrings [("x'", "'"), ("X'", "'"), ("0x", ""), ("0X", "")],
   .keyword "AUTOINCREMENT" .AUTO_INCREMENT,
   .function "EDITDIST3" CallKind.levenshtein,
   .type .boolean "INTEGER",
   .type .tinyInt "INTEGER",
   .type .smallInt "INTEGER",
   .type .int "INTEGER",
   .type .bigInt "INTEGER",
   .type .float "REAL",
   .type .double "REAL",
   .type .decimal "REAL",
   .type .char "TEXT",
   .type .nChar "TEXT",
   .type .varchar "TEXT",
   .type .nVarchar "TEXT",
   .type .binary "BLOB",
   .type .varBinary "BLOB",
   .token .AUTO_INCREMENT "AUTOINCREMENT",
   .transform .dateAdd (.custom .dateAdd),
   .transform .ilike .unsupported,
   .transform .jsonExtract (.custom .arrow),
   .transform .jsonExtractScalar (.custom .doubleArrow),
   .transform .jsonbExtract (.custom .arrow),
   .transform .jsonbExtractScalar (.custom .doubleArrow),
   .transform .levenshtein (.rename "EDITDIST3"),
   .transform .tableSample .unsupported,
   .transform .dateStrToDate .inner,
   .transform .timeStrToTime .inner,
   .transform .tryCast .unsupported,
   .transform .groupConcat (.custom .groupConcat),
   .transform .fetch (.custom .fetch),
   .transform .least (.custom .least),
   .transform .greatest (.custom .greatest),
   .transform .transaction (.custom .transaction),
   .transform .select (.custom .select)]

/-- The dialect of SQLite. -/
def sqlite : Dialect := Dialect.applyAll { name := "sqlite" } sqliteChanges

end Dialect

/-- The dialects that are always there. -/
inductive Builtin where
  | generic | sqlite
  deriving DecidableEq, Repr

namespace Builtin

/-- Every built-in dialect. -/
def all : List Builtin := [.generic, .sqlite]

/-- The name of a built-in dialect. -/
def name : Builtin → String
  | generic => "generic"
  | sqlite => "sqlite"

/-- The tables of a built-in dialect. -/
def dialect : Builtin → Dialect
  | generic => .generic
  | sqlite => .sqlite

/-- The built-in dialect of that name, in any case and with blanks around
it. -/
def ofName? (s : String) : Option Builtin :=
  all.find? fun b => b.name = Text.lower (Text.trim s)

/-- Like `ofName?`, with an unknown name an error. -/
def resolve (s : String) : Except DialectError Builtin :=
  match ofName? s with
  | some b => .ok b
  | none => .error (.unknownDialect s)

/-- The function whose constructor a built-in dialect knows by a name, in any
case. -/
def function? (b : Builtin) (name : String) : Option CallKind :=
  match b with
  | generic => CallKind.ofName? (Text.upper name)
  | sqlite =>
    if Text.upper name = "EDITDIST3" then some .levenshtein
    else CallKind.ofName? (Text.upper name)

/-! ## lemmas -/

theorem ofName?_name (b : Builtin) : ofName? b.name = some b := by cases b <;> rfl

/-- A built-in dialect constructs what the usual functions do. -/
theorem function?_dialect (b : Builtin) (name : String) :
    b.dialect.function? name = (b.function? name).map CallKind.build := by
  cases b with
  | generic => rfl
  | sqlite =>
    have hfunctions : Dialect.sqlite.functions = ⟨[("EDITDIST3", CallKind.levenshtein)]⟩ := rfl
    rw [dialect, Dialect.function?, hfunctions, Overrides.get?, function?]
    by_cases hname : Text.upper name = "EDITDIST3"
    · simp [hname]
    · simp [hname, Ne.symm hname]

/-- A call in a built-in dialect is that of a usual function or a plain one. -/
theorem call_dialect (b : Builtin) (name : String) (args : List Expr) :
    b.dialect.call name args = match b.function? name with
      | some k => k.build args
      | none => .ok (.function name args) := by
  rw [Dialect.call, function?_dialect]
  cases b.function? name <;> rfl

/-- A built-in dialect knows the usual functions only. -/
theorem usualFunctions (b : Builtin) : b.dialect.UsualFunctions := by
  intro name f h
  cases b with
  | generic => cases h
  | sqlite =>
    have hfunctions : Dialect.sqlite.functions = ⟨[("EDITDIST3", CallKind.levenshtein)]⟩ := rfl
    rw [dialect, hfunctions, Overrides.get?] at h
    obtain ⟨entry, hentry, rfl⟩ := Option.map_eq_some_iff.1 h
    rw [List.mem_singleton.1 (List.mem_of_find?_eq_some hentry)]
    exact ⟨.levenshtein, rfl⟩

end Builtin

end SqlDialect
