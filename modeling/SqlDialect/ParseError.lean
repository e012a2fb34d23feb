import SqlDialect.Keyword

/-!
# SqlDialect.ParseError

Why a text is refused: what was found, what was expected instead and at which
byte offset.  The wording is all in `message`.
-/

namespace SqlDialect

/-- What the grammar expects at a place. -/
inductive Expected where
  | keyword (k : Keyword)
  | statement
  | expression
  | columnName
  | tableName
  | aliasName
  | typeName
  | typeParameter
  | whenBranch
  | firstOrNext
  | openParen
  | closeParen
  | semicolon
  | endOfInput
  deriving DecidableEq, Repr

/-- The words for what is expected. -/
def Expected.text : Expected → String
  | keyword k => k.spelling
  | statement => "a statement"
  | expression => "an expression"
  | columnName => "a column name"
  | tableName => "a table name"
  | aliasName => "an alias"
  | typeName => "a type name"
  | typeParameter => "a type parameter"
  | whenBranch => "WHEN"
  | firstOrNext => "FIRST or NEXT"
  | openParen => "'('"
  | closeParen => "')'"
  | semicolon => "';'"
  | endOfInput => "end of input"

/-- How many arguments a call takes; without an upper bound, any number from
the lower one on. -/
structure Arity where
  least : Nat
  most : Option Nat
  deriving DecidableEq, Repr

/-- The words for a number of arguments. -/
def Arity.text (a : Arity) : String :=
  match a.most with
  | some m => if m = a.least then s!"{m}" else s!"{a.least} to {m}"
  | none => s!"at least {a.least}"

/-- Why a text cannot be read. -/
inductive ParseError where
  | unexpectedChar (char : Char) (offset : Nat)
  | unterminatedString (offset : Nat)
  | unterminatedIdentifier (offset : Nat)
  | unterminatedComment (offset : Nat)
  | invalidHexString (text : String) (offset : Nat)
  | invalidNumber (text : String) (offset : Nat)
  | unexpectedToken (found : String) (expected : Expected) (offset : Nat)
  | unexpectedEnd (expected : Expected)
  | unknownType (spelled : String)
  | wrongArgumentCount (function : String) (expected : Arity) (found : Nat)
  | invalidUnit (function : String)
  | notSingleStatement (found : Nat)
  deriving DecidableEq, Repr

/-- The wording of an error. -/
def ParseError.message : ParseError → String
  | unexpectedChar c offset => s!"unexpected character '{c}' at offset {offset}"
  | unterminatedString offset => s!"unterminated string starting at offset {offset}"
  | unterminatedIdentifier offset => s!"unterminated identifier starting at offset {offset}"
  | unterminatedComment offset => s!"unterminated comment starting at offset {offset}"
  | invalidHexString text offset => s!"invalid hex string '{text}' at offset {offset}"
  | invalidNumber text offset => s!"invalid number '{text}' at offset {offset}"
  | unexpectedToken found expected offset =>
    s!"expected {expected.text}, found '{found}' at offset {offset}"
  | unexpectedEnd expected => s!"expected {expected.text}, found end of input"
  | unknownType spelled => s!"unknown type '{spelled}'"
  | wrongArgumentCount function expected found =>
    s!"invalid arguments to {function}: expected {expected.text} arguments, got {found}"
  | invalidUnit function =>
    s!"invalid arguments to {function}: unit must be a word or a string"
  | notSingleStatement found => s!"expected exactly one statement, found {found}"

end SqlDialect
