import SqlDialect.Decimal.Binary64

/-!
# SqlDialect.Decimal.Shortest

The shortest decimal that stands for a magnitude: of the decimals that round
to it, one with the fewest digits, and of those the nearest.

A magnitude stands for the interval between the midpoints to its two
neighbours, the ends included exactly when its significand is even.  For one
digit, two digits and so on the two neighbours of the value on the grid of
decimals with that many digits are tried; seventeen digits always suffice.
All quantities are naturals, counted in units of `2 ^ -1076 · 10 ^ -400`.
-/

namespace SqlDialect.Decimal

/-- A decimal `digits · 10 ^ exponent`. -/
structure Scientific where
  digits : Nat
  exponent : Int
  deriving DecidableEq

/-- How many decimal digits a natural number has; none for zero. -/
def digitCount (n : Nat) : Nat := if n = 0 then 0 else (Nat.toDigits 10 n).length

/-- The decimal without the zeros at its end. -/
def Scientific.stripped (d : Scientific) : Scientific :=
  if h : d.digits % 10 = 0 ∧ 0 < d.digits then
    stripped ⟨d.digits / 10, d.exponent + 1⟩
  else d
termination_by d.digits
decreasing_by omega

/-- The interval of a magnitude: the value and its two ends. -/
structure Span where
  low : Nat
  value : Nat
  high : Nat
  closed : Bool

namespace Span

/-- The span of a magnitude.  The neighbour below a power of two is only half
as far away as the one above. -/
def ofMagnitude (m : Magnitude) : Span :=
  let unit := Nat.pow 2 m.exponent * Nat.pow 10 400
  let below := if m.significand = 0x10000000000000 ∧ m.exponent ≠ 0 then 1 else 2
  { low := (4 * m.significand - below) * unit
    value := 4 * m.significand * unit
    high := (4 * m.significand + 2) * unit
    closed := m.significand % 2 = 0 }

/-- Whether a number of units lies in the span. -/
def holds (s : Span) (n : Nat) : Bool :=
  if s.closed then s.low ≤ n && n ≤ s.high else s.low < n && n < s.high

/-- The multiple of `grid` in the span that is nearest to the value, if one of
the value's two neighbours is in the span; a tie goes to the even one. -/
def nearest? (s : Span) (grid : Nat) : Option Nat :=
  let q := s.value / grid
  let r := s.value % grid
  match s.holds (q * grid), s.holds ((q + 1) * grid) with
  | true, true => some (if 2 * r < grid ∨ (2 * r = grid ∧ q % 2 = 0) then q else q + 1)
  | true, false => some q
  | false, true => some (q + 1)
  | false, false => none

end Span

/-- The shortest decimal that rounds to a magnitude. -/
def Magnitude.shortest (m : Magnitude) : Scientific :=
  let s := Span.ofMagnitude m
  let places := digitCount (s.value / Nat.pow 2 1076)
  let found := (List.range 17).findSome? fun n =>
    (s.nearest? (Nat.pow 10 (places - (n + 1)) * Nat.pow 2 1076)).map fun d =>
      (⟨d, ((places - (n + 1) : Nat) : Int) - 400⟩ : Scientific)
  ((found.getD ⟨0, 0⟩)).stripped

end SqlDialect.Decimal
