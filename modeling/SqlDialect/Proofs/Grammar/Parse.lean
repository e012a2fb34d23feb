import SqlDialect.Proofs.Grammar.Complete
import SqlDialect.Proofs.Grammar.Statement

/-!
# SqlDialect.Proofs.Grammar.Parse

Parsing a text is scanning it and deriving what its lexemes spell.

* `parseExpr_eq_ok_iff` -- a text is read as an expression exactly when its
  lexemes spell the expression.
* `parse_eq_ok_iff` -- a text is read as a script exactly when its lexemes spell
  the script.
* `parseOne_of_statement` -- a text whose lexemes spell a statement is read as
  that statement.
-/

namespace SqlDialect

open Grammar

variable {d : Dialect} {sql : String} {e : Expr}

/-- A text is read as an expression exactly when its lexemes spell it. -/
theorem parseExpr_eq_ok_iff : d.parseExpr sql = .ok e ↔
    ∃ ls, d.scan sql = .ok ls ∧ Derives d (.expr 8 e) ls := by
  constructor
  · intro h
    unfold Dialect.parseExpr at h
    cases hscan : d.scan sql with
    | error => rw [hscan] at h; cases h
    | ok ls =>
      rw [hscan] at h
      simp only [bind, Except.bind] at h
      cases hread : expression d .loose ls with
      | error => rw [hread] at h; cases h
      | ok r =>
        rw [hread] at h
        obtain ⟨ls', hls, hd⟩ := expression_sound d .loose ls r hread
        obtain ⟨e', rest, hlt⟩ := r
        cases rest with
        | cons => cases h
        | nil =>
          cases h
          obtain rfl : ls = ls' := by simpa using hls
          exact ⟨ls, rfl, hd⟩
  · rintro ⟨ls, hscan, hd⟩
    have hread : Gives (expression d .loose (ls ++ [])) e [] := by
      rw [expression]
      exact Reads.expr hd.reads .nil (Nat.le_refl _)
    rw [List.append_nil] at hread
    obtain ⟨h₁, hread⟩ := hread
    rw [Dialect.parseExpr, hscan]
    simp only [bind, Except.bind, hread]
    rfl

/-- A text is read as a script exactly when its lexemes spell it. -/
theorem parse_eq_ok_iff {es : List Expr} : d.parse sql = .ok es ↔
    ∃ ls, d.scan sql = .ok ls ∧ ScriptOf d es ls := by
  unfold Dialect.parse
  constructor
  · intro h
    cases hscan : d.scan sql with
    | error => rw [hscan] at h; cases h
    | ok ls =>
      rw [hscan] at h
      exact ⟨ls, rfl, script_sound ls es h⟩
  · rintro ⟨ls, hscan, hs⟩
    rw [hscan]
    exact hs.script

/-- A text whose lexemes spell a statement is a script of that statement. -/
theorem parse_of_statement {ls : List Lexeme} (hscan : d.scan sql = .ok ls)
    (h : StatementOf d e ls) : d.parse sql = .ok [e] :=
  parse_eq_ok_iff.2 ⟨ls, hscan, .last h⟩

/-- A text whose lexemes spell a statement is read as that statement. -/
theorem parseOne_of_statement {ls : List Lexeme} (hscan : d.scan sql = .ok ls)
    (h : StatementOf d e ls) : d.parseOne sql = .ok e := by
  rw [Dialect.parseOne, parse_of_statement hscan h]
  rfl

/-- The statements of a script are spelled by lexemes of its text. -/
theorem parse_sound {es : List Expr} (h : d.parse sql = .ok es) :
    ∃ ls, d.scan sql = .ok ls ∧
      ∀ e ∈ es, ∃ us, (∀ t ∈ us, t ∈ ls) ∧ StatementOf d e us := by
  obtain ⟨ls, hscan, hs⟩ := parse_eq_ok_iff.1 h
  refine ⟨ls, hscan, fun e he => ?_⟩
  obtain ⟨pre, us, post, rfl, hus⟩ := hs.stretch e he
  exact ⟨us, fun t ht => by simp [ht], hus⟩

end SqlDialect
