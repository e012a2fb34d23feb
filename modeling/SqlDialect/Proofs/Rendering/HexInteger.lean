import Mathlib
import SqlDialect.Proofs.Rendering.Quiet
import SqlDialect.Proofs.Rendering.Reread

/-!
# SqlDialect.Proofs.Rendering.HexInteger

Integers in base 16 in a dialect that has none: they are printed in base 10, as
signed numbers of 64 bits, and the sign is read as an operator of its own.

* `wrapped` -- a number below `2 ^ 64` as a signed one.
* `render_hexNumber` -- the text of such an integer.
* `parseExpr_toString` -- what the text of a signed integer is read as.
* `hex_integer_kept` -- an integer in base 16 stays the same integer, but for
  the least one, whose digits without the sign are no integer of 64 bits.
-/

namespace SqlDialect

open Text Grammar

/-- A number below `2 ^ 64` as a signed one of 64 bits. -/
def wrapped (n : Nat) : Int := if n < 2 ^ 63 then n else n - 2 ^ 64

/-- The integer that an expression writes down, with or without a sign. -/
def Expr.integer? : Expr → Option Int
  | literal (.int n) => some n.toInt
  | unaryOp .minus (literal (.int n)) => some (-n.toInt)
  | _ => none

variable {digits : String} {n : Nat}

theorem toInt_ofNat_eq_wrapped (h : n < 2 ^ 64) : (Int64.ofNat n).toInt = wrapped n := by
  have hsize : (Int64.size : Int) = 2 ^ 64 := rfl
  rw [Int64.toInt_ofNat', Int.bmod_def, hsize, wrapped]
  split <;> split <;> omega

/-- An integer in base 16 is printed in base 10, without remarks. -/
theorem render_hexNumber (hd : isHexLiteral digits = true) (h : hexValue digits.toList < 2 ^ 64)
    (o : RenderOptions) : (Expr.literal (.hexNumber digits)).render .generic o =
      .ok ⟨toString (Int64.ofNat (hexValue digits.toList)).toInt, []⟩ := by
  have hfault : (Expr.literal (.hexNumber digits)).fault? = none := by
    simp [Expr.fault?, Literal.fault?, hd]
  have hwell : (Expr.literal (.hexNumber digits)).WellFormed :=
    .node hfault (by simp [Expr.children])
  have hfragment : (style .generic o.identify).fragment (.literal (.hexNumber digits)) =
      .raw (toString (Int64.ofNat (hexValue digits.toList)).toInt) := by
    have hsize : hexValue digits.toList < UInt64.size := h
    refine (fragment_generic _).trans ?_
    simp [Style.base, Style.literal, Style.hexNumber, style, Builtin.dialect,
      hexNumberMark?_generic, hsize]
  have htext := Fragment.text_raw .generic (toString (Int64.ofNat (hexValue digits.toList)).toInt)
  rw [← hfragment] at htext
  exact (hwell.render_quiet (congrArg Fragment.diagnostics hfragment)).trans
    (congrArg (fun text => Except.ok (⟨text, []⟩ : Rendered)) htext)

/-- The text of a signed integer is read as the same integer, but for the least
one: its digits stand behind the sign, and are read before it. -/
theorem parseExpr_toString (h : n < 2 ^ 64) :
    ∃ e, Dialect.generic.parseExpr (toString (Int64.ofNat n).toInt) = .ok e ∧
      e.integer? = if n = 2 ^ 63 then none else some (wrapped n) := by
  rw [← Fragment.text_raw .generic (toString (Int64.ofNat n).toInt)]
  by_cases hlt : n < 2 ^ 63
  · obtain ⟨-, hw⟩ := @natural_written .generic n hlt
    refine ⟨.literal (.int (Int64.ofNat n)), Loose.parseExpr (b := .generic) (hw.imp ?_), ?_⟩
    · rintro _ ⟨t, rfl, ht⟩
      exact (Derives.literal ht).raise (Nat.zero_le 8) (Nat.le_refl 8)
    · rw [Expr.integer?, toInt_ofNat_eq_wrapped h, if_neg (by omega)]
  · obtain ⟨v, hint, hfloat, hv⟩ := literalOf?_natural (2 ^ 64 - n)
    refine ⟨.unaryOp .minus (.literal v), Loose.parseExpr (b := .generic) ?_, ?_⟩
    · refine Written.negative (toString_negative (by omega) h) (numberText_toDigits _) (by simp)
        fun t u ht hu htext => ?_
      have hdigits := (Derives.literal (d := Dialect.generic) (hv u hu htext)).raise
        (Nat.zero_le 1) (by decide)
      exact .nil ((Derives.minus ht hdigits).raise (by decide) (Nat.le_refl 8))
    · by_cases hleast : n = 2 ^ 63
      · obtain ⟨f, rfl⟩ := hfloat (by omega)
        rw [if_pos hleast]
        rfl
      · obtain rfl := hint (by omega)
        rw [Expr.integer?, toInt_ofNat_eq_wrapped (by omega), if_neg hleast, wrapped, wrapped,
          if_pos (by omega), if_neg hlt]
        exact congrArg some (by omega)

/-- An integer in base 16 is printed without remarks in a dialect that has none,
and read as the same integer of 64 bits; but the least one is read as no integer
at all. -/
theorem hex_integer_kept (hd : isHexLiteral digits = true) (h : hexValue digits.toList < 2 ^ 64)
    (o : RenderOptions) :
    ∃ r e, (Expr.literal (.hexNumber digits)).render .generic o = .ok r ∧ r.diagnostics = [] ∧
      Dialect.generic.parseExpr r.sql = .ok e ∧
      e.integer? = if hexValue digits.toList = 2 ^ 63 then none
        else some (wrapped (hexValue digits.toList)) := by
  obtain ⟨e, hread, hvalue⟩ := parseExpr_toString h
  exact ⟨_, e, render_hexNumber hd h o, rfl, hread, hvalue⟩

/-- The integer below zero. -/
theorem hex_integer_kept_ones :
    isHexLiteral "00fFFFffFFffffFFFF" = true ∧ hexValue "00fFFFffFFffffFFFF".toList < 2 ^ 64 ∧
      ∃ r e, (Expr.literal (.hexNumber "00fFFFffFFffffFFFF")).render .generic {} = .ok r ∧
        Dialect.generic.parseExpr r.sql = .ok e ∧ e.integer? = some (-1) := by
  have hd : isHexLiteral "00fFFFffFFffffFFFF" = true := by decide
  have hvalue : hexValue "00fFFFffFFffffFFFF".toList = 2 ^ 64 - 1 := by decide
  have hlt : hexValue "00fFFFffFFffffFFFF".toList < 2 ^ 64 := by omega
  obtain ⟨r, e, hrender, -, hread, hinteger⟩ := hex_integer_kept hd hlt {}
  rw [hvalue] at hinteger
  exact ⟨hd, hlt, r, e, hrender, hread, hinteger⟩

/-- The least integer is no integer when it is read again. -/
example :
    ∃ e, (Expr.literal (.hexNumber "8000000000000000")).render .generic {} =
        .ok ⟨"-9223372036854775808", []⟩ ∧
      Dialect.generic.parseExpr "-9223372036854775808" = .ok e ∧ e.integer? = none := by
  have hvalue : hexValue "8000000000000000".toList = 2 ^ 63 := by decide
  have htext : toString (Int64.ofNat (2 ^ 63)).toInt = "-9223372036854775808" := by decide
  have hrender := @render_hexNumber "8000000000000000" (by decide) (by omega) {}
  obtain ⟨e, hread, hinteger⟩ := parseExpr_toString (n := 2 ^ 63) (by decide)
  rw [hvalue, htext] at hrender
  rw [htext] at hread
  exact ⟨e, hrender, hread, hinteger⟩

end SqlDialect
