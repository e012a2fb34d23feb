import SqlDialect.Dialect

/-!
# SqlDialect.Token

The pieces of output: keywords, which each dialect spells in its own way, a
little punctuation, and text that is written as it is.
-/

namespace SqlDialect

/-- A piece of output. -/
inductive Token where
  | keyword (k : Keyword)
  | space
  | comma
  | lparen
  | rparen
  | raw (text : String)
  deriving DecidableEq, Repr

/-- The text of a piece in a dialect. -/
def Token.text (d : Dialect) : Token → String
  | keyword k => d.spelling k
  | space => " "
  | comma => ","
  | lparen => "("
  | rparen => ")"
  | raw text => text

/-- The text of a list of pieces, with nothing in between. -/
def Dialect.spell (d : Dialect) : List Token → String
  | [] => ""
  | t :: ts => t.text d ++ d.spell ts

/-- The text of two lists in a row is their texts in a row. -/
theorem Dialect.spell_append (d : Dialect) (ts us : List Token) :
    d.spell (ts ++ us) = d.spell ts ++ d.spell us := by
  induction ts with
  | nil => simp [spell]
  | cons t ts ih => simp [spell, ih, String.append_assoc]

end SqlDialect
