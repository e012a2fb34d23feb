import SqlDialect.Proofs.Text.Bytes

/-!
# SqlDialect.Proofs.Lexeme.Front

What stands at the front of a text, by the rule that took it.

* `frontPiece_cases`, `plainLexeme_cases` -- a piece is a gap, a hexadecimal
  literal, a delimited identifier, a string, a number, a word or a symbol.
* `scanBy_place` -- a lexeme of a scan is that of the piece at its place.
* `scanBy_forall` -- what holds of the lexeme of every piece holds of all
  lexemes.

The rules are tried in a fixed order; everything that is proved of the lexemes
of a scan goes through these lemmas, so the order is taken apart only here.
-/

namespace SqlDialect

open Text

variable {d : Dialect} {offset : Nat} {c : Char} {cs : List Char} {p : Piece}

/-! ## the order of the rules -/

/-- A piece is a gap, a hexadecimal literal or a plain lexeme. -/
theorem frontPiece_cases (h : frontPiece d offset c cs = .ok p) :
    gap? offset c cs = .ok (some p) ∨
      hexLiteral? offset (c :: cs) d.lexis.hexStrings = .ok (some p) ∨
      plainLexeme d offset c cs = .ok p := by
  rw [frontPiece] at h
  simp only [bind, Except.bind] at h
  cases hg : gap? offset c cs with
  | error => rw [hg] at h; cases h
  | ok g =>
    rw [hg] at h
    cases g with
    | some q => cases h; exact .inl rfl
    | none =>
      dsimp only at h
      cases hx : hexLiteral? offset (c :: cs) d.lexis.hexStrings with
      | error => rw [hx] at h; cases h
      | ok x =>
        rw [hx] at h
        cases x with
        | some q => cases h; exact .inr (.inl rfl)
        | none => exact .inr (.inr h)

/-- A plain lexeme, by the character in front of it. -/
inductive PlainCase (d : Dialect) (offset : Nat) (c : Char) (cs : List Char) (p : Piece) : Prop where
  | identifier {o closing : Char} {name : List Char} {n : Nat}
      (hfind : (d.lexis.identifiers.find? fun q => q.1 = c) = some (o, closing))
      (hread : readQuoted closing cs = some (name, n))
      (hp : p = .ofKind (.quotedIdent (String.ofList name)) n)
  | string {value : List Char} {n : Nat} (hc : c = '\x27')
      (hread : readQuoted '\x27' cs = some (value, n))
      (hp : p = .ofKind (.string (String.ofList value)) n)
  | number (hstart : startsNumber c cs = true) (hnumber : number offset c cs hstart = .ok p)
  | word (hstart : startsWord c = true) (hp : p = word d c cs)
  | symbol (hsymbol : symbol? (c :: cs) = some p)

theorem plainLexeme_cases (h : plainLexeme d offset c cs = .ok p) :
    PlainCase d offset c cs p := by
  unfold plainLexeme at h
  split at h
  case h_1 hfind =>
    split at h
    case h_1 hread => cases h; exact .identifier hfind hread rfl
    case h_2 => cases h
  case h_2 =>
    split at h
    case isTrue hc =>
      split at h
      case h_1 hread => cases h; exact .string hc hread rfl
      case h_2 => cases h
    case isFalse =>
      split at h
      case isTrue hstart => exact .number hstart h
      case isFalse =>
        split at h
        case isTrue hstart => cases h; exact .word hstart rfl
        case isFalse =>
          split at h
          case h_1 hsymbol => cases h; exact .symbol hsymbol
          case h_2 => cases h

/-- A gap is no lexeme. -/
theorem gap?_kind (h : gap? offset c cs = .ok (some p)) : p.kind? = none := by
  unfold gap? at h
  split at h
  · cases h; rfl
  · unfold comment? at h
    split at h
    · cases h; rfl
    · split at h
      · cases h; rfl
      · cases h
    · cases h

/-- The other rules take lexemes. -/
theorem hexLiteral?_isSome {pairs : List (String × String)}
    (h : hexLiteral? offset cs pairs = .ok (some p)) : p.kind?.isSome = true := by
  induction pairs with
  | nil => cases h
  | cons q pairs ih =>
    obtain ⟨start, stop⟩ := q
    rw [hexLiteral?] at h
    split at h
    · exact ih h
    · split at h
      · dsimp only at h
        split at h
        · exact ih h
        · cases h; rfl
      · split at h
        · cases h
        · dsimp only at h
          split at h <;> cases h
          rfl

theorem symbol?_isSome (h : symbol? cs = some p) : p.kind?.isSome = true := by
  unfold symbol? at h
  split at h <;> cases h <;> rfl

theorem plainLexeme_isSome (h : plainLexeme d offset c cs = .ok p) : p.kind?.isSome = true := by
  cases plainLexeme_cases h with
  | identifier _ _ hp | string _ _ hp | word _ hp => subst hp; rfl
  | number hstart hnumber =>
    unfold number at hnumber
    dsimp only at hnumber
    split at hnumber <;> cases hnumber
    rfl
  | symbol hsymbol => exact symbol?_isSome hsymbol

/-- A piece without a kind is a gap. -/
theorem frontPiece_gap (h : frontPiece d offset c cs = .ok p) (hkind : p.kind? = none) :
    gap? offset c cs = .ok (some p) := by
  rcases frontPiece_cases h with hgap | hhex | hplain
  · exact hgap
  · have := hexLiteral?_isSome hhex
    rw [hkind] at this
    cases this
  · have := plainLexeme_isSome hplain
    rw [hkind] at this
    cases this

/-! ## all lexemes of a scan -/

theorem Piece.mem_lexemes {text : List Char} {t : Lexeme} (h : t ∈ p.lexemes text offset) :
    ∃ k, p.kind? = some k ∧ t = ⟨k, String.ofList text, offset⟩ := by
  unfold Piece.lexemes at h
  split at h
  case h_1 k hk => exact ⟨k, hk, List.mem_singleton.1 h⟩
  case h_2 => exact nomatch h

/-- A lexeme of a scan is that of the piece at the place where it stands. -/
theorem scanBy_place {front : Nat → Char → List Char → Except ParseError Piece} {offset : Nat}
    {cs : List Char} {ls : List Lexeme} (h : scanBy front offset cs = .ok ls) :
    ∀ t ∈ ls, ∃ pre c post p, cs = pre ++ c :: post ∧
      front (offset + byteLength pre) c post = .ok p ∧
      t ∈ p.lexemes ((c :: post).take p.length) (offset + byteLength pre) := by
  induction offset, cs using scanBy.induct generalizing ls with
  | case1 =>
    rw [scanBy] at h
    cases h
    exact fun t ht => nomatch ht
  | case2 offset c cs ih =>
    rw [scanBy] at h
    cases hp : front offset c cs with
    | error => rw [hp] at h; cases h
    | ok p =>
      rw [hp] at h
      simp only [bind, Except.bind] at h
      cases hrest : scanBy front (offset + byteLength ((c :: cs).take p.length))
          ((c :: cs).drop p.length) with
      | error => rw [hrest] at h; cases h
      | ok others =>
        rw [hrest] at h
        cases h
        intro t ht
        rcases List.mem_append.1 ht with ht | ht
        · exact ⟨[], c, cs, p, rfl, hp, ht⟩
        · obtain ⟨pre, c', post, p', hsplit, hp', ht'⟩ := ih p hrest t ht
          refine ⟨(c :: cs).take p.length ++ pre, c', post, p', ?_, ?_, ?_⟩
          · rw [List.append_assoc, ← hsplit, List.take_append_drop]
          · rwa [byteLength_append, ← Nat.add_assoc]
          · rwa [byteLength_append, ← Nat.add_assoc]

/-- What holds of the lexeme of every piece holds of all lexemes. -/
theorem scanBy_forall {front : Nat → Char → List Char → Except ParseError Piece}
    {Q : Lexeme → Prop} (hfront : ∀ offset c cs p, front offset c cs = .ok p →
      ∀ t ∈ p.lexemes ((c :: cs).take p.length) offset, Q t) (offset : Nat) (cs : List Char)
    (ls : List Lexeme) (h : scanBy front offset cs = .ok ls) : ∀ t ∈ ls, Q t := by
  intro t ht
  obtain ⟨pre, c, post, p, -, hp, hmem⟩ := scanBy_place h t ht
  exact hfront _ c post p hp t hmem

end SqlDialect
