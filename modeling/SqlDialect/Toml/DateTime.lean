import SqlDialect.Text.Ascii

/-!
# SqlDialect.Toml.DateTime

Dates and times.  A date has to be one of the calendar; the normal form of a
time has seconds, and a part of a second only as far as it is not zero.
-/

namespace SqlDialect.Toml

/-- A number written with exactly two digits. -/
def two? (a b : Char) : Option Nat :=
  if a.isDigit && b.isDigit then some (Text.decimalValue [a, b]) else none

/-- The number of days of a month. -/
def daysIn (year month : Nat) : Nat :=
  if month = 2 then
    if year % 4 = 0 ∧ (year % 100 ≠ 0 ∨ year % 400 = 0) then 29 else 28
  else if month = 4 ∨ month = 6 ∨ month = 9 ∨ month = 11 then 30
  else 31

/-- A date at the front of a text, and what follows it. -/
def date? : List Char → Option (String × List Char)
  | y₁ :: y₂ :: y₃ :: y₄ :: '-' :: m₁ :: m₂ :: '-' :: d₁ :: d₂ :: rest => do
    let century ← two? y₁ y₂
    let year ← two? y₃ y₄
    let month ← two? m₁ m₂
    let day ← two? d₁ d₂
    if 1 ≤ month ∧ month ≤ 12 ∧ 1 ≤ day ∧ day ≤ daysIn (100 * century + year) month then
      return (String.ofList [y₁, y₂, y₃, y₄, '-', m₁, m₂, '-', d₁, d₂], rest)
    else none
  | _ => none

/-- The part of a second behind a point, nine digits at most, without zeros at
its end. -/
def secondFraction (digits : List Char) : List Char :=
  let kept := ((digits.take 9).reverse.dropWhile (· = '0')).reverse
  if kept.isEmpty then [] else '.' :: kept

/-- The seconds of a time, if they come, and what follows them. -/
def seconds? : List Char → Option (List Char × List Char)
  | ':' :: s₁ :: s₂ :: rest => do
    let second ← two? s₁ s₂
    if 60 < second then none
    else match rest with
      | '.' :: cs =>
        let digits := cs.takeWhile Char.isDigit
        if digits.isEmpty then none
        else return ([':', s₁, s₂] ++ secondFraction digits, cs.dropWhile Char.isDigit)
      | rest => return ([':', s₁, s₂], rest)
  | rest => some ([':', '0', '0'], rest)

/-- A time of day at the front of a text, and what follows it. -/
def time? : List Char → Option (String × List Char)
  | h₁ :: h₂ :: ':' :: m₁ :: m₂ :: rest => do
    let hour ← two? h₁ h₂
    let minute ← two? m₁ m₂
    if hour ≤ 23 ∧ minute ≤ 59 then
      let (second, rest) ← seconds? rest
      return (String.ofList ([h₁, h₂, ':', m₁, m₂] ++ second), rest)
    else none
  | _ => none

/-- The distance from universal time, which ends a text.  No distance at all
has a plus sign. -/
def offset? : List Char → Option String
  | [] => some ""
  | ['Z'] | ['z'] => some "Z"
  | [sign, h₁, h₂, ':', m₁, m₂] => do
    let hour ← two? h₁ h₂
    let minute ← two? m₁ m₂
    if (sign = '+' ∨ sign = '-') ∧ hour ≤ 23 ∧ minute ≤ 59 then
      let sign := if hour = 0 ∧ minute = 0 then '+' else sign
      return String.ofList [sign, h₁, h₂, ':', m₁, m₂]
    else none
  | _ => none

/-- The normal form of a date, a time or both. -/
def dateTime? (cs : List Char) : Option String :=
  match date? cs with
  | some (date, []) => some date
  | some (date, separator :: rest) => do
    if separator = 'T' ∨ separator = 't' ∨ separator = ' ' then
      let (time, rest) ← time? rest
      let offset ← offset? rest
      return date ++ "T" ++ time ++ offset
    else none
  | none => do
    let (time, rest) ← time? cs
    if rest.isEmpty then return time else none

end SqlDialect.Toml
