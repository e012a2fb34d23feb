import Mathlib
import SqlDialect.Proofs.Lexeme.Layout
import SqlDialect.Proofs.Lexeme.Genuine

/-!
# SqlDialect.Proofs.Lexeme.Quoting

Writing a text between delimiters and reading it back are inverse, whatever
the text and whatever stands behind it.

* `doubled_of_readQuoted` -- what is read between delimiters is what is written
  between them.
* `scan_quoteString`, `scan_quoteWith` -- a quoted text in front of a rest is one
  lexeme, and the rest is scanned as if it stood alone.
* `scan_enclosed` -- every such lexeme of a scan is a quoted text.
* `quoting_exact` -- both, for the built-in dialects.

This is what keeps a text from ending its own quotes: the doubled delimiters
inside it are never taken for the closing one.
-/

namespace SqlDialect

open Text

/-! ## between delimiters -/

/-- What is read between delimiters is what is written between them. -/
theorem doubled_of_readQuoted {closing : Char} {cs value : List Char} {n : Nat}
    (h : readQuoted closing cs = some (value, n)) :
    cs.take n = doubled closing value ++ [closing] := by
  induction cs using readQuoted.induct closing generalizing value n with
  | case1 => cases h
  | case2 =>
    simp only [readQuoted, if_true] at h
    cases h
    rfl
  | case3 c hc => simp only [readQuoted, if_neg hc] at h; cases h
  | case4 cs ih =>
    simp only [readQuoted, if_true] at h
    obtain ⟨⟨value', n'⟩, hread, heq⟩ := Option.map_eq_some_iff.1 h
    cases heq
    rw [doubled, if_pos rfl, List.take_succ_cons, List.take_succ_cons, ih hread]
    rfl
  | case5 d cs hd =>
    simp only [readQuoted, if_true, if_neg hd] at h
    cases h
    rfl
  | case6 c d cs hc ih =>
    simp only [readQuoted, if_neg hc] at h
    obtain ⟨⟨value', n'⟩, hread, heq⟩ := Option.map_eq_some_iff.1 h
    cases heq
    rw [doubled, if_neg hc, List.take_succ_cons, ih hread]
    rfl

/-- The text of a delimited piece is the value between its delimiters. -/
theorem take_of_readQuoted {closing : Char} {cs value : List Char} {n : Nat} (c : Char)
    (kind : LexemeKind) (h : readQuoted closing cs = some (value, n)) :
    String.ofList ((c :: cs).take (Piece.ofKind kind n).length) =
      quoteWith c closing (String.ofList value) := by
  rw [Piece.ofKind, List.take_succ_cons, doubled_of_readQuoted h, quoteWith, String.toList_ofList]

/-! ## a quoted text in front of a rest -/

variable {b : Builtin} {offset : Nat} {c : Char} {cs : List Char} {p : Piece}

/-- The result of a scan behind a lexeme at the front of the text: the lexeme,
and what the rest gives, so many bytes further on as the lexeme takes up. -/
def scanBehind (t : Lexeme) (rest : Except ParseError (List Lexeme)) :
    Except ParseError (List Lexeme) :=
  (shifted t.text.utf8ByteSize rest).map fun ls => t :: ls

/-- A piece that takes up a given text, in front of a rest. -/
theorem scan_of_frontPiece {d : Dialect} {text rest : String} {k : LexemeKind}
    (htext : text.toList = c :: cs) (hp : frontPiece d 0 c (cs ++ rest.toList) = .ok p)
    (hkind : p.kind? = some k) (hlength : p.length = cs.length + 1) :
    d.scan (text ++ rest) = scanBehind ⟨k, text, 0⟩ (d.scan rest) := by
  have hlexemes : p.lexemes (c :: cs) 0 = [⟨k, text, 0⟩] := by
    rw [Piece.lexemes, hkind, ← htext, String.ofList_toList]
  rw [Dialect.scan, String.toList_append, htext, List.cons_append, scanFrom_piece hp hlength,
    hlexemes, ← htext, byteLength_toList, Nat.zero_add, ← Nat.add_zero text.utf8ByteSize,
    scanFrom_shift]
  rfl

/-- A string literal in front of a rest that does not go on with a quote. -/
theorem scan_quoteString (v rest : String) (hr : rest.toList.head? ≠ some '\x27') :
    b.dialect.scan (quoteString v ++ rest) =
      scanBehind ⟨.string v, quoteString v, 0⟩ (b.dialect.scan rest) := by
  have htext : (quoteString v).toList = '\x27' :: (doubled '\x27' v.toList ++ ['\x27']) := by
    rw [quoteString, toList_quoteWith]
  have hp := @frontPiece_string b 0 v.toList rest.toList hr
  rw [String.ofList_toList] at hp
  exact scan_of_frontPiece htext hp rfl (by simp [Piece.ofKind])

/-- A delimited identifier in front of a rest that does not go on with the
closing delimiter. -/
theorem scan_quoteWith {q : Char × Char} (hq : q ∈ b.dialect.lexis.identifiers)
    (name rest : String) (hr : rest.toList.head? ≠ some q.2) :
    b.dialect.scan (quoteWith q.1 q.2 name ++ rest) =
      scanBehind ⟨.quotedIdent name, quoteWith q.1 q.2 name, 0⟩ (b.dialect.scan rest) := by
  have hp := @frontPiece_identifier b q hq 0 name.toList rest.toList hr
  rw [String.ofList_toList] at hp
  exact scan_of_frontPiece (toList_quoteWith q.1 q.2 name) hp rfl (by simp [Piece.ofKind])

/-! ## the quoted texts of a scan -/

/-- The text of a lexeme between delimiters is its value, written between
them. -/
def Enclosed (d : Dialect) (t : Lexeme) : Prop :=
  match t.kind with
  | .string value => t.text = quoteString value
  | .quotedIdent name => ∃ q, (d.lexis.identifiers.find? fun r =>
      t.text.toList.head? = some r.1) = some q ∧ t.text = quoteWith q.1 q.2 name
  | _ => True

theorem frontPiece_enclosed {d : Dialect} (h : frontPiece d offset c cs = .ok p) :
    ∀ t ∈ p.lexemes ((c :: cs).take p.length) offset, Enclosed d t := by
  intro t ht
  obtain ⟨k, hk, rfl⟩ := Piece.mem_lexemes ht
  rcases frontPiece_cases h with hgap | hhex | hplain
  · rw [gap?_kind hgap] at hk
    cases hk
  · rcases hexLiteral?_kind hhex with ⟨ds, hk', -⟩ | ⟨ds, hk', -⟩ <;> rw [hk] at hk' <;>
      cases hk' <;> trivial
  · cases plainLexeme_cases hplain with
    | @identifier o closing name n hfind hread hp =>
      subst hp
      cases hk
      have ho : o = c := by simpa using List.find?_some hfind
      subst ho
      have htext := take_of_readQuoted o (.quotedIdent (String.ofList name)) hread
      refine ⟨(o, closing), ?_, htext⟩
      simp only [htext, toList_quoteWith, List.head?_cons, Option.some.injEq]
      rw [← hfind]
      exact congrArg (List.find? · d.lexis.identifiers) (funext fun r => by simp [eq_comm])
    | @string value n hc hread hp =>
      subst hp
      cases hk
      rw [hc]
      exact take_of_readQuoted '\x27' (.string (String.ofList value)) hread
    | number _ hnumber =>
      rw [(number_genuine (d := d) hnumber).1] at hk
      cases hk
      trivial
    | word _ hp =>
      subst hp
      unfold word at hk
      dsimp only at hk
      cases hkey : d.keyword? (String.ofList (c :: cs.takeWhile continuesWord)) <;>
        rw [hkey] at hk <;> cases hk <;> trivial
    | symbol hsymbol =>
      unfold symbol? at hsymbol
      split at hsymbol <;> cases hsymbol <;> cases hk <;> trivial

/-- Every string and every delimited identifier of a scan is its value, written
between delimiters. -/
theorem scan_enclosed {d : Dialect} {sql : String} {ls : List Lexeme} (h : d.scan sql = .ok ls) :
    ∀ t ∈ ls, Enclosed d t :=
  scanBy_forall (fun _ _ _ _ hp => frontPiece_enclosed hp) 0 sql.toList ls h

/-! ## both ways -/

/-- In both built-in dialects a text between single quotes, or a name between
any of the pairs of delimiters, is scanned as one lexeme with that text or name,
and then the rest as it is scanned alone, provided it does not go on with the
closing delimiter.  Conversely every string and every delimited identifier of a
scan is its value between delimiters, those of the only pair that opens as it
does. -/
theorem quoting_exact (b : Builtin) :
    (∀ v rest : String, rest.toList.head? ≠ some '\x27' →
      b.dialect.scan (quoteString v ++ rest) =
        scanBehind ⟨.string v, quoteString v, 0⟩ (b.dialect.scan rest)) ∧
    (∀ q ∈ b.dialect.lexis.identifiers, ∀ name rest : String, rest.toList.head? ≠ some q.2 →
      b.dialect.scan (quoteWith q.1 q.2 name ++ rest) =
        scanBehind ⟨.quotedIdent name, quoteWith q.1 q.2 name, 0⟩ (b.dialect.scan rest)) ∧
    ∀ sql ls, b.dialect.scan sql = .ok ls → ∀ t ∈ ls,
      (∀ v, t.kind = .string v → t.text = quoteString v) ∧
      ∀ name, t.kind = .quotedIdent name → ∃ q ∈ b.dialect.lexis.identifiers,
        (∀ r ∈ b.dialect.lexis.identifiers, t.text.toList.head? = some r.1 ↔ r = q) ∧
          t.text = quoteWith q.1 q.2 name := by
  refine ⟨scan_quoteString, fun q hq => scan_quoteWith hq, fun sql ls h t ht => ?_⟩
  have henclosed := scan_enclosed h t ht
  unfold Enclosed at henclosed
  refine ⟨fun v hk => by rwa [hk] at henclosed, fun name hk => ?_⟩
  rw [hk] at henclosed
  obtain ⟨q, hfind, htext⟩ := henclosed
  have hq : q ∈ b.dialect.lexis.identifiers := List.mem_of_find?_eq_some hfind
  refine ⟨q, hq, fun r hr => ?_, htext⟩
  have hunique : ∀ r ∈ b.dialect.lexis.identifiers, ∀ q ∈ b.dialect.lexis.identifiers,
      q.1 = r.1 ↔ r = q := by
    cases b <;> decide
  rw [htext, toList_quoteWith, List.head?_cons, Option.some_inj]
  exact hunique r hr q hq

/-- A string with a quote in it, a name with a bracket in it, and both read
back. -/
theorem quoting_exact_sqlite :
    Dialect.sqlite.scan ("'it''s'" ++ " x") =
        scanBehind ⟨.string "it's", "'it''s'", 0⟩ (Dialect.sqlite.scan " x") ∧
      Dialect.sqlite.scan ("[a]]b]" ++ "'") =
        scanBehind ⟨.quotedIdent "a]b", "[a]]b]", 0⟩ (Dialect.sqlite.scan "'") ∧
      Dialect.sqlite.scan "x 'it''s'" =
        .ok [⟨.word, "x", 0⟩, ⟨.string "it's", "'it''s'", 2⟩] ∧
      "'it''s'" = quoteString "it's" := by
  have hscan : Dialect.sqlite.scan "x 'it''s'" =
      .ok [⟨.word, "x", 0⟩, ⟨.string "it's", "'it''s'", 2⟩] := by cbv
  exact ⟨(quoting_exact .sqlite).1 "it's" " x" (by decide),
    (quoting_exact .sqlite).2.1 ('[', ']') (by decide) "a]b" "'" (by decide), hscan,
    ((quoting_exact .sqlite).2.2 _ _ hscan ⟨.string "it's", "'it''s'", 2⟩ (by simp)).1 "it's" rfl⟩

end SqlDialect
