import SqlDialect.Proofs.Grammar.Parse
import SqlDialect.Proofs.Rendering.Ready

/-!
# SqlDialect.Proofs.Rendering.Reread

The text that a tree is printed as, read again.

* `Loose.parseExpr` -- pieces that spell an expression are read as it.
* `parseExpr_rendered` -- the text of an expression without hazards is read as
  an expression, and as the settled tree where it is faithful.
-/

namespace SqlDialect

open Text Grammar

variable {b : Builtin} {i : Bool} {e : Expr}

/-- The operator of a node between two operands. -/
def Expr.operator? : Expr → Option BinaryOperator
  | binaryOp op _ _ => some op
  | _ => none

/-- An expression that reading accepts has proper nodes only, and is no looser
than any operator. -/
theorem parseExpr_proper {sql : String} (h : b.dialect.parseExpr sql = .ok e) :
    e.All Proper ∧ e.tier .generic ≤ 8 := by
  obtain ⟨ls, hscan, hd⟩ := parseExpr_eq_ok_iff.1 h
  exact (hd.proper (scan_genuine hscan)).operand

/-- The text of pieces that spell an expression is read as that expression. -/
theorem Loose.parseExpr {ts : List Token} (h : Loose b ts e) :
    b.dialect.parseExpr (b.dialect.spell ts) = .ok e := by
  obtain ⟨ls, hd, hscan⟩ := Scans.scan h .nil
  exact parseExpr_eq_ok_iff.2 ⟨ls, hscan, hd⟩

/-- The text of an expression that is printed without hazards is read as an
expression, and as the settled tree where it is faithful. -/
theorem parseExpr_rendered (h : e.All (Ready b i)) (ht : e.tier b ≤ 8) :
    ∃ e', b.dialect.parseExpr (b.dialect.spell (tokensOf b i e)) = .ok e' ∧
      (e.All (Faithful b) → e' = e.settled b i) := by
  obtain ⟨e', hw, hf⟩ := (h.self.shown ht).loose ht
  exact ⟨e', Loose.parseExpr hw, hf⟩

end SqlDialect
