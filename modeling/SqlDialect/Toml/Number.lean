import SqlDialect.Decimal.Text
import SqlDialect.Text.Split

/-!
# SqlDialect.Toml.Number

Numbers.  Reading one settles its form only: which base it is in, and that
points, signs and underscores stand where they may.  Whether it also has a
value is asked by `fits` where the number is used, so a number that nobody
uses may be too great for any type, have a base but no digits, or have
something else than digits behind an underscore.
-/

namespace SqlDialect.Toml

/-- A number as it is written, without the underscores and without the mark of
its base. -/
inductive Number where
  | integer (base : Nat) (text : List Char)
  | float (text : List Char)

namespace Number

/-! ## underscores -/

/-- The text without its underscores.  Each stands between two digits. -/
def ungrouped? (isDigit : Char → Bool) (cs : List Char) : Option (List Char) :=
  let parts := Text.splitOn '_' cs
  if parts.dropLast.all (·.getLast?.any isDigit) ∧ parts.tail.all (·.head?.any isDigit) then
    some parts.flatten
  else none

/-! ## forms -/

/-- The text without a sign at its front. -/
def withoutSign : List Char → List Char
  | '+' :: cs => cs
  | '-' :: cs => cs
  | cs => cs

/-- A character of a group of digits. -/
def inGroup (c : Char) : Bool := c.isDigit || c == '_'

/-- What follows a group of digits, of which there is at least one. -/
def behindGroup? (cs : List Char) : Option (List Char) :=
  if (cs.takeWhile inGroup).any Char.isDigit then some (cs.dropWhile inGroup) else none

/-- Whether a group of digits starts with a zero that others follow. -/
def hasIdleZero (group : List Char) : Bool :=
  group.head? = some '0' && 1 < (group.filter Char.isDigit).length

/-- Whether a text is an exponent or empty. -/
def isExponent : List Char → Bool
  | [] => true
  | e :: cs => (e == 'e' || e == 'E') && behindGroup? (withoutSign cs) == some []

/-- Whether a text without a sign has the form of a floating-point number:
digits, then a point with digits behind it, an exponent or both. -/
def hasFloatForm (cs : List Char) : Bool :=
  !hasIdleZero (cs.takeWhile inGroup) &&
    match behindGroup? cs with
    | none => false
    | some ('.' :: part) => (behindGroup? part).any isExponent
    | some rest => isExponent rest

/-- Whether a text without a sign has the form of a decimal integer.  Behind its
first underscore anything but a space is let through. -/
def hasIntegerForm (cs : List Char) : Bool :=
  let rest := cs.dropWhile Char.isDigit
  !cs.isEmpty && (rest.isEmpty || rest.head? == some '_') && !rest.contains ' ' &&
    (cs == ['0'] || cs.head? != some '0')

/-- Whether a character tells that a number is no integer. -/
def marksFloat (c : Char) : Bool := c == '.' || c == 'e' || c == 'E'

/-- A decimal number, with or without a sign. -/
def decimal? (cs : List Char) : Option Number :=
  let unsigned := withoutSign cs
  if unsigned = "inf".toList ∨ unsigned = "nan".toList then some (.float cs)
  else if (unsigned.dropWhile Char.isDigit).any marksFloat then
    if hasFloatForm unsigned then (ungrouped? Char.isDigit cs).map .float else none
  else if hasIntegerForm unsigned then (ungrouped? Text.isHexDigit cs).map (.integer 10)
  else none

/-- Whether a character is a digit of a base up to 16. -/
def isDigitOf (base : Nat) (c : Char) : Bool :=
  Text.isHexDigit c && Text.hexDigitValue c < base

/-- An integer behind the mark of its base. -/
def marked? (base : Nat) (cs : List Char) : Option Number :=
  if cs.all fun c => isDigitOf base c || c == '_' then
    (ungrouped? Text.isHexDigit cs).map (.integer base)
  else none

/-- The number that a text has the form of. -/
def ofChars? : List Char → Option Number
  | '0' :: 'x' :: cs => marked? 16 cs
  | '0' :: 'o' :: cs => marked? 8 cs
  | '0' :: 'b' :: cs => marked? 2 cs
  | cs => decimal? cs

/-! ## values -/

/-- The integer that a text spells in a base, with or without a sign. -/
def integerOf? (base : Nat) (cs : List Char) : Option Int :=
  let digits := withoutSign cs
  if digits.isEmpty ∨ !digits.all (isDigitOf base) then none
  else
    let n : Int := (digits.foldl (fun n c => base * n + Text.hexDigitValue c) 0 : Nat)
    some (if cs.head? = some '-' then -n else n)

/-- Whether a number has a value: an integer in the range of so many bits, with
the sign among them or without one, and a floating-point number that is finite
unless it is written as a word. -/
def fits (bits : Nat) : Number → Bool
  | .integer base cs =>
    match integerOf? base cs with
    | some n => -(Nat.pow 2 (bits - 1) : Int) ≤ n && n < (Nat.pow 2 bits : Int)
    | none => false
  | .float cs =>
    match Decimal.Binary64.ofText? (String.ofList cs) with
    | some f => f.isFinite || !cs.any Char.isDigit
    | none => false

end Number

end SqlDialect.Toml
