import SqlDialect.Dialect
import SqlDialect.Dialect.Error
import SqlDialect.Text.Blank
import SqlDialect.Text.Split

/-!
# SqlDialect.Dialect.Change

New dialects from old ones.  A dialect is extended by a list of changes, each
a write to one slot of one table, and is accepted only when all its tables
are well formed: something to delimit identifiers with, marks that are not
empty, words that are single words, and transforms that fit their kinds.
-/

namespace SqlDialect

/-- A write to one slot of a dialect. -/
inductive Change where
  | identifiers (pairs : List (Char × Char))
  | hexStrings (pairs : List (String × String))
  | keyword (word : String) (k : Keyword)
  | function (name : String) (f : Constructor)
  | type (k : TypeKind) (spelling : String)
  | token (k : Keyword) (spelling : String)
  | transform (k : NodeKind) (t : Transform)
  /-- Back to the base form of a kind of node. -/
  | clear (k : NodeKind)

namespace Dialect

/-! ## changes -/

/-- The dialect after one change. -/
def apply (d : Dialect) : Change → Dialect
  | .identifiers pairs => { d with lexis := { d.lexis with identifiers := pairs } }
  | .hexStrings pairs => { d with lexis := { d.lexis with hexStrings := pairs } }
  | .keyword word k =>
    { d with lexis := { d.lexis with keywords := d.lexis.keywords.set (Text.upper word) k } }
  | .function name f => { d with functions := d.functions.set (Text.upper name) f }
  | .type k spelling => { d with types := d.types.set k spelling }
  | .token k spelling => { d with tokens := d.tokens.set k spelling }
  | .transform k t => { d with transforms := d.transforms.set k t }
  | .clear k => { d with transforms := d.transforms.erase k }

/-- The dialect after a list of changes, the first one first. -/
def applyAll (d : Dialect) (changes : List Change) : Dialect := changes.foldl apply d

/-! ## well-formed tables -/

/-- Demands a single word. -/
def checkWord (what : Spelled) (value : String) : Except DialectError Unit :=
  if Text.isPlainWord value then .ok () else .error (.invalidSpelling what value)

/-- Demands words with one space between them. -/
def checkTypeSpelling (value : String) : Except DialectError Unit :=
  if Text.isBlankText value then .error (.invalidSpelling .type value)
  else (Text.splitOn ' ' value.toList).forM fun word => checkWord .type (String.ofList word)

/-- Demands that the transform of a kind, if there is one, fits it. -/
def checkTransform (d : Dialect) (k : NodeKind) : Except DialectError Unit :=
  match d.transform? k with
  | none => .ok ()
  | some t =>
    if t.appliesTo k then
      match t with
      | .rename name => checkWord .function name
      | _ => .ok ()
    else .error (.incompatibleTransform k t.label)

/-- Demands that all tables are well formed; the first fault counts. -/
def check (d : Dialect) : Except DialectError Unit := do
  if d.lexis.identifiers.isEmpty then throw (.noIdentifierDelimiters d.name)
  d.lexis.hexStrings.forM fun p =>
    if p.1 = "" then throw (.invalidSpelling .hexDelimiter p.1) else pure ()
  d.lexis.keywords.keys.forM (checkWord .keyword)
  d.functions.keys.forM (checkWord .function)
  (TypeKind.all.filterMap d.types.get?).forM checkTypeSpelling
  d.tokens.values.forM (checkWord .keyword)
  NodeKind.all.forM d.checkTransform

/-! ## building -/

/-- The dialect, if its tables are well formed. -/
def checked (d : Dialect) : Except DialectError Dialect := do
  d.check
  return d

/-- A dialect over the base one. -/
def ofBase (name : String) (changes : List Change) : Except DialectError Dialect :=
  (Dialect.applyAll { name } changes).checked

/-- A dialect over another one, from which it takes whatever the changes leave
alone. -/
def extend (parent : Dialect) (name : String) (changes : List Change) :
    Except DialectError Dialect :=
  ({ parent with name }.applyAll changes).checked

end Dialect

end SqlDialect
