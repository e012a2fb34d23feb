import SqlDialect.Decimal.Shortest
import SqlDialect.Text.Ascii

/-!
# SqlDialect.Decimal.Text

The text of a floating-point number, read and written.

Written, a finite number has the fewest digits that read back to it.  It is
positional while the point falls within sixteen digits or at most four zeros
behind the point, and scientific otherwise (`1e16`, `1.5e-7`); a whole number
keeps one zero behind the point.

Read, a number is digits with an optional point among them, a sign in front
and an exponent behind, or one of the words `inf`, `infinity` and `nan` in
any case.
-/

namespace SqlDialect.Decimal

/-! ## writing -/

/-- The decimal digits of a natural number. -/
def digitChars (n : Nat) : List Char := Nat.toDigits 10 n

/-- The text of a whole exponent: a minus sign where it is negative, no plus
sign, no leading zeros. -/
def exponentChars (e : Int) : List Char :=
  if e < 0 then '-' :: digitChars e.natAbs else digitChars e.natAbs

/-- The layout of a positive decimal; `point` is where the decimal point
falls, counted from the first digit. -/
def Scientific.chars (d : Scientific) : List Char :=
  let ds := digitChars d.digits
  let point : Int := ds.length + d.exponent
  if 0 ≤ d.exponent ∧ point ≤ 16 then
    ds ++ List.replicate d.exponent.toNat '0' ++ ['.', '0']
  else if 0 < point ∧ point ≤ 16 then
    ds.take point.toNat ++ ['.'] ++ ds.drop point.toNat
  else if -5 < point ∧ point ≤ 0 then
    ['0', '.'] ++ List.replicate (-point).toNat '0' ++ ds
  else
    ds.take 1 ++ (if ds.length = 1 then [] else '.' :: ds.drop 1) ++
      ['e'] ++ exponentChars (point - 1)

/-- The shortest text of a magnitude. -/
def Magnitude.chars (m : Magnitude) : List Char :=
  if m.significand = 0 then ['0', '.', '0'] else m.shortest.chars

/-- The shortest text that reads back to the number. -/
def Binary64.text : Binary64 → String
  | .finite negative m => String.ofList (if negative then '-' :: m.chars else m.chars)
  | .infinite negative => if negative then "-inf" else "inf"
  | .notANumber => "NaN"

/-! ## reading -/

/-- The magnitude nearest to a decimal, with its sign.  Decimals beyond
`10 ^ 310` or below `10 ^ -330` are settled by their size alone. -/
def Scientific.toBinary64 (negative : Bool) (d : Scientific) : Binary64 :=
  let places : Int := digitCount d.digits + d.exponent
  if d.digits = 0 ∨ places < -330 then .finite negative Magnitude.zero
  else if 310 < places then .infinite negative
  else if 0 ≤ d.exponent then .ofRatio negative (d.digits * Nat.pow 10 d.exponent.toNat) 1
  else .ofRatio negative d.digits (Nat.pow 10 (-d.exponent).toNat)

/-- Reads the exponent behind a number: nothing at all, or `e`, an optional
sign and at least one digit, up to the end of the text. -/
def exponentOfChars? : List Char → Option Int
  | [] => some 0
  | c :: cs =>
    if c = 'e' ∨ c = 'E' then
      let (negative, ds) := match cs with
        | '-' :: ds => (true, ds)
        | '+' :: ds => (false, ds)
        | ds => (false, ds)
      if ds.isEmpty ∨ !ds.all Char.isDigit then none
      else
        let n : Int := Text.decimalValue ds
        some (if negative then -n else n)
    else none

/-- Reads an unsigned decimal that takes up the whole text. -/
def Scientific.ofChars? (cs : List Char) : Option Scientific :=
  let whole := cs.takeWhile Char.isDigit
  let (part, rest) := match cs.dropWhile Char.isDigit with
    | '.' :: ds => (ds.takeWhile Char.isDigit, ds.dropWhile Char.isDigit)
    | ds => ([], ds)
  if whole.isEmpty ∧ part.isEmpty then none
  else (exponentOfChars? rest).map fun e =>
    ⟨Text.decimalValue (whole ++ part), e - part.length⟩

/-- Reads an unsigned number that takes up the whole text. -/
def Binary64.ofUnsigned? (negative : Bool) (cs : List Char) : Option Binary64 :=
  let word := String.ofList (cs.map Char.toLower)
  if word = "inf" ∨ word = "infinity" then some (.infinite negative)
  else if word = "nan" then some .notANumber
  else (Scientific.ofChars? cs).map (·.toBinary64 negative)

/-- Reads a number that takes up the whole text. -/
def Binary64.ofText? (s : String) : Option Binary64 :=
  match s.toList with
  | '-' :: cs => ofUnsigned? true cs
  | '+' :: cs => ofUnsigned? false cs
  | cs => ofUnsigned? false cs

end SqlDialect.Decimal
