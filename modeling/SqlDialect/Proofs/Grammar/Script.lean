import Mathlib
import SqlDialect.Proofs.Grammar.Parse
import SqlDialect.Proofs.Grammar.Shift
import SqlDialect.Proofs.Lexeme.Line

/-!
# SqlDialect.Proofs.Grammar.Script

Scripts in a row.

* `scan_line` -- the lexemes of two texts with a line break and a semicolon
  between them.
* `scripts_compose` -- such a text is read as the statements of both.

The line break ends a comment that the first text may end with; the semicolon
ends its last statement.
-/

namespace SqlDialect

open Text Grammar

variable {b : Builtin}

/-- A semicolon on a line of its own, and a text behind it. -/
theorem scanFrom_semicolon (offset : Nat) (cs : List Char) :
    scanFrom b.dialect offset ('\n' :: ';' :: cs) =
      (scanFrom b.dialect (offset + 2) cs).map fun ls => ⟨.semicolon, ";", offset + 1⟩ :: ls := by
  have hline : frontPiece b.dialect offset '\n' (';' :: cs) = .ok (.gap 0) := rfl
  have hsemicolon : frontPiece b.dialect (offset + 1) ';' cs = .ok (.ofKind .semicolon 0) := by
    cases b <;> rfl
  have hgap := @scanFrom_piece _ _ _ [] _ _ hline rfl
  have hlexeme := @scanFrom_piece _ _ _ [] _ _ hsemicolon rfl
  rw [List.nil_append] at hgap hlexeme
  have hbyte : byteLength ['\n'] = 1 := rfl
  rw [hgap, hbyte, hlexeme, map_append_map]
  rfl

/-- The lexemes of two texts with a line break and a semicolon between them:
those of the first one, the semicolon, and those of the second one, which
stand further on. -/
theorem scan_line {s₁ s₂ : String} {ls₁ ls₂ : List Lexeme} (h₁ : b.dialect.scan s₁ = .ok ls₁)
    (h₂ : b.dialect.scan s₂ = .ok ls₂) :
    ∃ n t, t.kind = .semicolon ∧
      b.dialect.scan (s₁ ++ "\n" ++ ";" ++ s₂) = .ok (ls₁ ++ t :: ls₂.map (Lexeme.shift n)) := by
  have htext : (s₁ ++ "\n" ++ ";" ++ s₂).toList = s₁.toList ++ '\n' :: (';' :: s₂.toList) := by
    simp
  refine ⟨byteLength s₁.toList + 2, ⟨.semicolon, ";", byteLength s₁.toList + 1⟩, rfl, ?_⟩
  unfold Dialect.scan at h₁ h₂ ⊢
  rw [htext, scanFrom_line h₁, scanFrom_semicolon, Nat.zero_add,
    ← Nat.add_zero (byteLength s₁.toList + 2), scanFrom_shift, h₂]
  rfl

/-- Two scripts with a line break and a semicolon between them are one script:
the statements of the first one and those of the second one.  Nothing that is
read looks past the end of its statement. -/
theorem scripts_compose (b : Builtin) (s₁ s₂ : String) (es₁ es₂ : List Expr)
    (h₁ : b.dialect.parse s₁ = .ok es₁) (h₂ : b.dialect.parse s₂ = .ok es₂) :
    b.dialect.parse (s₁ ++ "\n" ++ ";" ++ s₂) = .ok (es₁ ++ es₂) := by
  obtain ⟨ls₁, hscan₁, hs₁⟩ := parse_eq_ok_iff.1 h₁
  obtain ⟨ls₂, hscan₂, hs₂⟩ := parse_eq_ok_iff.1 h₂
  obtain ⟨n, t, ht, hscan⟩ := scan_line hscan₁ hscan₂
  exact parse_eq_ok_iff.2 ⟨_, hscan, hs₁.append ht hs₂.shift⟩

/-- A comment that runs to the end of the first text does not swallow the
second one. -/
theorem scripts_compose_comment :
    Dialect.sqlite.parse ("COMMIT -- done" ++ "\n" ++ ";" ++ "ROLLBACK;") =
      .ok [.commit, .rollback] :=
  scripts_compose .sqlite "COMMIT -- done" "ROLLBACK;" [.commit] [.rollback] (by cbv) (by cbv)

end SqlDialect
