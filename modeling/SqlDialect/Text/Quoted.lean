/-!
# SqlDialect.Text.Quoted

Text between delimiters.  A closing delimiter inside the text is written
twice, so a lone one ends it; the opening delimiter needs no care.  Reading
starts behind the opening delimiter and says how many characters it took.
-/

namespace SqlDialect.Text

/-- Writes every occurrence of the closing delimiter twice. -/
def doubled (closing : Char) : List Char → List Char
  | [] => []
  | c :: cs => if c = closing then c :: c :: doubled closing cs else c :: doubled closing cs

/-- The text between a pair of delimiters. -/
def quoteWith (opening closing : Char) (s : String) : String :=
  String.ofList (opening :: (doubled closing s.toList ++ [closing]))

/-- A string literal: the text between single quotes. -/
def quoteString (s : String) : String := quoteWith '\x27' '\x27' s

/-- Reads up to the closing delimiter.  The result is the text meant and the
number of characters read, the closing delimiter among them; there is none
when the delimiter never comes. -/
def readQuoted (closing : Char) : List Char → Option (List Char × Nat)
  | [] => none
  | [c] => if c = closing then some ([], 1) else none
  | c :: d :: cs =>
    if c = closing then
      if d = closing then (readQuoted closing cs).map fun r => (c :: r.1, r.2 + 2)
      else some ([], 1)
    else (readQuoted closing (d :: cs)).map fun r => (c :: r.1, r.2 + 1)

/-! ## lemmas -/

@[simp] theorem toList_quoteWith (opening closing : Char) (s : String) :
    (quoteWith opening closing s).toList = opening :: (doubled closing s.toList ++ [closing]) := by
  simp [quoteWith]

end SqlDialect.Text
