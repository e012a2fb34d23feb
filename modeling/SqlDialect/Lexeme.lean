import SqlDialect.Keyword

/-!
# SqlDialect.Lexeme

The units that a text falls into.  A lexeme keeps its text as it stands,
delimiters included, and the byte offset at which it starts; what the
delimiters enclose is in its kind.
-/

namespace SqlDialect

/-- The sorts of lexemes. -/
inductive LexemeKind where
  | keyword (k : Keyword)
  /-- A bare word that is no keyword. -/
  | word
  /-- A delimited identifier: the name meant. -/
  | quotedIdent (name : String)
  /-- A string literal: the text meant. -/
  | string (value : String)
  /-- A binary literal: its digits. -/
  | hexString (digits : String)
  /-- An integer in base 16: its digits. -/
  | hexNumber (digits : String)
  | number
  | comma | dot | lparen | rparen | semicolon
  | star | plus | minus | slash | percent | concat
  | eq | ne | lt | gt | lte | gte
  | arrow | doubleArrow
  deriving DecidableEq

/-- One unit of a text. -/
structure Lexeme where
  kind : LexemeKind
  text : String
  offset : Nat
  deriving DecidableEq

end SqlDialect
