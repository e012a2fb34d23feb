import SqlDialect.NodeKind

/-!
# SqlDialect.Dialect.Error

Why a dialect cannot be built, registered or found.
-/

namespace SqlDialect

/-- What a refused spelling was meant to spell. -/
inductive Spelled where
  | hexDelimiter | keyword | function | type
  deriving DecidableEq, Repr

/-- The words for what was to be spelled. -/
def Spelled.text : Spelled → String
  | hexDelimiter => "hex string delimiter"
  | keyword => "keyword"
  | function => "function"
  | type => "type"

/-- Why a dialect cannot be built, registered or found. -/
inductive DialectError where
  | unknownNodeKind (name : String)
  | unknownType (name : String)
  | unknownKeyword (name : String)
  | unknownDialect (name : String)
  | inheritanceCycle (name : String)
  | duplicateName (name : String)
  | incompatibleTransform (kind : NodeKind) (label : String)
  | unknownTransform (name : String)
  | notConstructible (kind : NodeKind)
  | noIdentifierDelimiters (dialect : String)
  | invalidSpelling (what : Spelled) (value : String)
  deriving DecidableEq, Repr

/-- The wording of an error. -/
def DialectError.message : DialectError → String
  | unknownNodeKind name => s!"unknown node kind: {name}"
  | unknownType name => s!"unknown type: {name}"
  | unknownKeyword name => s!"unknown keyword: {name}"
  | unknownDialect name => s!"unknown dialect: {name}"
  | inheritanceCycle name => s!"dialect '{name}' inherits from itself"
  | duplicateName name => s!"dialect name '{name}' is already registered"
  | incompatibleTransform kind label =>
    s!"transform '{label}' does not apply to {kind.name} nodes"
  | unknownTransform name => s!"unrecognized transform: {name}"
  | notConstructible kind => s!"{kind.name} nodes cannot be built from a function call"
  | noIdentifierDelimiters dialect => s!"dialect '{dialect}' has no identifier delimiters"
  | invalidSpelling what value => s!"invalid {what.text} spelling: '{value}'"

end SqlDialect
