/-!
# SqlDialect.Text.Ascii

Case and digits as SQL knows them: ASCII only.  A letter outside ASCII is
left as it is, so two words are the same word exactly when they agree letter
by letter up to the case of `a` to `z`.
-/

namespace SqlDialect.Text

/-- The text with the letters `a` to `z` in upper case. -/
def upper (s : String) : String := String.ofList (s.toList.map Char.toUpper)

/-- The text with the letters `A` to `Z` in lower case. -/
def lower (s : String) : String := String.ofList (s.toList.map Char.toLower)

/-- Equality up to the case of ASCII letters. -/
def sameWord (s t : String) : Bool := lower s == lower t

/-- The digits of base 16, in either case. -/
def isHexDigit (c : Char) : Bool :=
  c.isDigit || ('a' ≤ c && c ≤ 'f') || ('A' ≤ c && c ≤ 'F')

/-- The value of a digit of base 16; `0` for any other character. -/
def hexDigitValue (c : Char) : Nat :=
  if c.isDigit then c.toNat - '0'.toNat
  else if 'a' ≤ c && c ≤ 'f' then c.toNat - 'a'.toNat + 10
  else if 'A' ≤ c && c ≤ 'F' then c.toNat - 'A'.toNat + 10
  else 0

/-- The number that decimal digits spell, the most significant one first. -/
def decimalValue (digits : List Char) : Nat :=
  digits.foldl (fun n c => 10 * n + (c.toNat - '0'.toNat)) 0

/-- The number that hexadecimal digits spell, the most significant one
first. -/
def hexValue (digits : List Char) : Nat :=
  digits.foldl (fun n c => 16 * n + hexDigitValue c) 0

/-- A single SQL word: ASCII letters, digits and underscores, the first one
no digit. -/
def isPlainWord (s : String) : Bool :=
  match s.toList with
  | [] => false
  | c :: cs => (c.isAlpha || c == '_') && cs.all fun c => c.isAlphanum || c == '_'

/-! ## lemmas -/

@[simp] theorem toList_upper (s : String) : (upper s).toList = s.toList.map Char.toUpper := by
  simp [upper]

@[simp] theorem toList_lower (s : String) : (lower s).toList = s.toList.map Char.toLower := by
  simp [lower]

theorem sameWord_iff {s t : String} : sameWord s t = true ↔ lower s = lower t := by
  simp [sameWord]

end SqlDialect.Text
