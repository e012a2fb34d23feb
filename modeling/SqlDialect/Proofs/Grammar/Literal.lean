import SqlDialect.Proofs.Grammar.Leaf

/-!
# SqlDialect.Proofs.Grammar.Literal

The literals of what the base dialect reads.

* `parse_generic_hexNumber` -- the base dialect, whose marks for digits of base
  16 are closed, reads no integers in base 16.
-/

namespace SqlDialect

open Grammar

/-- A closed mark makes a binary string. -/
theorem hexLiteral?_closed {offset : Nat} {cs : List Char} {pairs : List (String × String)}
    {p : Piece} (hclosed : ∀ q ∈ pairs, q.2.toList ≠ [])
    (h : hexLiteral? offset cs pairs = .ok (some p)) :
    ∃ digits, p.kind? = some (.hexString digits) := by
  induction pairs with
  | nil => cases h
  | cons q pairs ih =>
    obtain ⟨start, stop⟩ := q
    rw [List.forall_mem_cons] at hclosed
    rw [hexLiteral?] at h
    split at h
    · exact ih hclosed.2 h
    case h_2 body _ =>
      rw [dif_neg hclosed.1] at h
      split at h
      · cases h
      · dsimp only at h
        split at h
        · cases h
          exact ⟨_, rfl⟩
        · cases h

/-- The base dialect has no lexemes for integers in base 16. -/
theorem scan_generic_kind {sql : String} {ls : List Lexeme} (h : Dialect.generic.scan sql = .ok ls) :
    ∀ t ∈ ls, ∀ digits, t.kind ≠ .hexNumber digits := by
  refine scanBy_forall (fun offset c cs p hp t ht digits heq => ?_) 0 sql.toList ls h
  obtain ⟨k, hk, rfl⟩ := Piece.mem_lexemes ht
  obtain rfl : k = .hexNumber digits := heq
  rcases frontPiece_cases hp with hgap | hhex | hplain
  · rw [gap?_kind hgap] at hk
    cases hk
  · obtain ⟨ds, hk'⟩ := hexLiteral?_closed (by decide) hhex
    rw [hk] at hk'
    cases hk'
  · cases plainLexeme_cases hplain with
    | identifier _ _ hp => subst hp; cases hk
    | string _ _ hp => subst hp; cases hk
    | number _ hnumber =>
      rw [(number_genuine (d := Dialect.generic) hnumber).1] at hk
      cases hk
    | word _ hp =>
      subst hp
      rw [word] at hk
      dsimp only [Piece.ofKind] at hk
      split at hk <;> cases hk
    | symbol hsymbol =>
      unfold symbol? at hsymbol
      split at hsymbol <;> cases hsymbol <;> cases hk

/-- The base dialect reads no integers in base 16. -/
theorem parse_generic_hexNumber {sql : String} {es : List Expr}
    (h : Dialect.generic.parse sql = .ok es) :
    ∀ e ∈ es, e.All fun n => ∀ digits, n ≠ .literal (.hexNumber digits) := by
  intro e he
  obtain ⟨ls, hscan, hs⟩ := parse_sound h
  obtain ⟨us, hsub, hstatement⟩ := hs e he
  have hmeans : Means (fun v => ∀ digits, v ≠ .hexNumber digits) (fun _ => True) us := by
    refine fun t ht => ⟨fun v hv digits heq => ?_, fun _ _ => trivial⟩
    subst heq
    refine scan_generic_kind hscan t (hsub t ht) digits ?_
    unfold literalOf? at hv
    split at hv
    case h_1 =>
      unfold numberOf at hv
      simp only at hv
      split at hv
      · cases hv
      · split at hv <;> cases hv
    all_goals first
      | (cases hv; assumption)
      | cases hv
  refine (hstatement.leaves (Builtin.usualFunctions .generic) hmeans).imp fun n hn digits heq => ?_
  subst heq
  exact hn.1 _ rfl digits rfl

end SqlDialect
