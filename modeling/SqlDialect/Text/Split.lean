/-!
# SqlDialect.Text.Split

Cutting a text at a separator.  There is one part more than there are
separators, so a text always has a first part.
-/

namespace SqlDialect.Text

/-- The parts of a text between separators: the first one and the others. -/
def splitAround (separator : Char) : List Char → List Char × List (List Char)
  | [] => ([], [])
  | c :: cs =>
    let (part, parts) := splitAround separator cs
    if c = separator then ([], part :: parts) else (c :: part, parts)

/-- The parts of a text between separators. -/
def splitOn (separator : Char) (cs : List Char) : List (List Char) :=
  let (part, parts) := splitAround separator cs
  part :: parts

end SqlDialect.Text
