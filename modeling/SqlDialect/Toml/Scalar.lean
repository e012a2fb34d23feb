import SqlDialect.Toml.DateTime
import SqlDialect.Toml.Item
import SqlDialect.Toml.Quoted

/-!
# SqlDialect.Toml.Scalar

The values without delimiters: truth values, numbers, dates and times.  Such a
value is read from all the characters that it takes up.
-/

namespace SqlDialect.Toml

/-- A value without delimiters. -/
def scalar? (cs : List Char) : Option Item :=
  if cs = "true".toList then some (.boolean true)
  else if cs = "false".toList then some (.boolean false)
  else ((Number.ofChars? cs).map .number).or ((dateTime? cs).map .dateTime)

/-- Whether a character can be part of a value without delimiters: any but
blanks, line ends and the marks between values. -/
def inScalar (c : Char) : Bool := !"=,[]\x7b\x7d \t#\r\n".toList.contains c

/-- Whether a character may start a word of a value without delimiters. -/
def startsScalar (c : Char) : Bool := inScalar c && c != '"' && c != '\x27'

/-- The number of characters that a value without delimiters takes up.  It is
made of words with blanks between them, as the time behind a date may be
apart from it. -/
def scalarLength (cs : List Char) : Nat :=
  let rest := cs.dropWhile inScalar
  let next := rest.dropWhile isSpace
  if _h : next.length < rest.length ∧ next.head?.any startsScalar then
    cs.length - next.length + scalarLength next
  else cs.length - rest.length
termination_by cs.length
decreasing_by exact Nat.lt_of_lt_of_le _h.1 (length_dropWhile_le inScalar cs)

end SqlDialect.Toml
