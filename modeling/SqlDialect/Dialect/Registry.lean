import SqlDialect.Dialect.Builtin

/-!
# SqlDialect.Dialect.Registry

Dialects by name: the built-in ones and any number registered beside them.
A registered dialect goes by its name in lower case, and a name that is taken
cannot be taken again.
-/

namespace SqlDialect

/-- The registered dialects, each under its name in lower case. -/
structure Registry where
  entries : List (String × Dialect) := []

namespace Registry

/-- No dialect but the built-in ones. -/
def empty : Registry := {}

/-- The dialect registered under a key. -/
def entry? (r : Registry) (key : String) : Option Dialect :=
  (r.entries.find? fun e => e.1 = key).map (·.2)

/-- The dialect of a name, in any case and with blanks around it. -/
def get? (r : Registry) (name : String) : Option Dialect :=
  match Builtin.ofName? name with
  | some b => some b.dialect
  | none => r.entry? (Text.lower (Text.trim name))

/-- Like `get?`, with an unknown name an error. -/
def resolve (r : Registry) (name : String) : Except DialectError Dialect :=
  match r.get? name with
  | some d => .ok d
  | none => .error (.unknownDialect name)

/-- Whether a name cannot be registered any more. -/
def isTaken (r : Registry) (key : String) : Bool :=
  (Builtin.ofName? key).isSome || (r.entry? key).isSome

/-- The registry with one more dialect, under its own name. -/
def register (r : Registry) (d : Dialect) : Except DialectError Registry :=
  let key := Text.lower d.name
  if r.isTaken key then .error (.duplicateName d.name)
  else .ok ⟨r.entries ++ [(key, d)]⟩

/-- The known names: the built-in ones, then the others in ascending order. -/
def names (r : Registry) : List String :=
  Builtin.all.map Builtin.name ++ (r.entries.map (·.1)).mergeSort fun a b => decide (a ≤ b)

end Registry

end SqlDialect
