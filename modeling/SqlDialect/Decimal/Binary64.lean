/-!
# SqlDialect.Decimal.Binary64

Floating-point numbers of 64 bits as exact values: a finite one is
`± significand · 2 ^ (exponent - 1074)`.  The significand has at most 53 bits
and, unless the exponent is the least one, exactly 53, so every number has
one representation and equality of representations is equality of numbers
(with `0` and `-0` told apart).

`Magnitude.ofRatio?` rounds a quotient of naturals to the nearest number, a
half going to the even significand.
-/

namespace SqlDialect.Decimal

/-! ## rounding -/

/-- The natural number nearest to `a / b`; a half goes to the even one. -/
def roundHalfEven (a b : Nat) : Nat :=
  let q := a / b
  let r := a % b
  if b < 2 * r ∨ (b = 2 * r ∧ q % 2 = 1) then q + 1 else q

/-! ## numbers -/

/-- A finite absolute value `significand · 2 ^ (exponent - 1074)` in its only
representation.  The significand is below `2 ^ 53`, and at least `2 ^ 52`
unless the exponent is the least one. -/
structure Magnitude where
  significand : Nat
  exponent : Nat
  significand_lt : significand < 0x20000000000000
  exponent_le : exponent ≤ 2045
  normal : exponent = 0 ∨ 0x10000000000000 ≤ significand
  deriving DecidableEq

/-- A floating-point number of 64 bits. -/
inductive Binary64 where
  | finite (negative : Bool) (magnitude : Magnitude)
  | infinite (negative : Bool)
  | notANumber
  deriving DecidableEq

namespace Magnitude

/-- Zero. -/
def zero : Magnitude := ⟨0, 0, by decide, by decide, .inl rfl⟩

/-- The magnitude with a given significand and exponent, where they are a
representation. -/
def ofParts? (significand exponent : Nat) : Option Magnitude :=
  if h : significand < 0x20000000000000 ∧ exponent ≤ 2045 ∧
      (exponent = 0 ∨ 0x10000000000000 ≤ significand) then
    some ⟨significand, exponent, h.1, h.2.1, h.2.2⟩
  else none

/-- The magnitude nearest to `num / den`, or nothing where that is beyond the
greatest one.  The quotient is counted in units of `2 ^ -1074`; `excess` is
how many of its bits do not fit into a significand. -/
def ofRatio? (num den : Nat) : Option Magnitude :=
  let units := num * Nat.pow 2 1074
  let whole := units / den
  let excess := if whole = 0 then 0 else whole.log2 + 1 - 53
  let rounded := roundHalfEven units (den * Nat.pow 2 excess)
  if rounded < 0x20000000000000 then ofParts? rounded excess
  else ofParts? 0x10000000000000 (excess + 1)

end Magnitude

namespace Binary64

/-- Neither infinite nor not a number. -/
def isFinite : Binary64 → Bool
  | .finite _ _ => true
  | _ => false

/-- A magnitude with a sign; without one, the number is beyond the greatest
one. -/
def ofMagnitude (negative : Bool) : Option Magnitude → Binary64
  | some m => .finite negative m
  | none => .infinite negative

/-- The number nearest to `± num / den`; infinite beyond the greatest one. -/
def ofRatio (negative : Bool) (num den : Nat) : Binary64 :=
  ofMagnitude negative (Magnitude.ofRatio? num den)

end Binary64

end SqlDialect.Decimal
