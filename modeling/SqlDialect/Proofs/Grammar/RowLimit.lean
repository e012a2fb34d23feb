import SqlDialect.Proofs.Grammar.Script
import SqlDialect.Proofs.Lexeme.Name

/-!
# SqlDialect.Proofs.Grammar.RowLimit

Limits and offsets behind a query, in either order.

* `LineEnd`, `scans_text` -- a text that ends with its line is scanned by itself.
* `scans_query`, `scans_expr`, `Mark.scans` -- the texts that such a query is put
  together from, by what their lexemes spell.
* `Derives.limited` -- a query without limit and offset, with a row limit behind.
* `row_limits_agree` -- the offset in front of the limit, with a comma, is read like
  the offset behind it.
-/

namespace SqlDialect

open Text Grammar

variable {b : Builtin}

/-! ## texts on lines of their own -/

/-- The line ends here, or the whole text does. -/
def LineEnd (rest : List Char) : Prop := ∀ c ∈ rest.head?, c = '\n'

theorem LineEnd.nil : LineEnd [] := fun _ hc => nomatch hc

theorem LineEnd.cons (cs : List Char) : LineEnd ('\n' :: cs) := by
  intro c hc
  cases hc
  rfl

/-- A text is scanned by itself where its last line ends: the lexemes are the
same ones further on. -/
theorem scans_text {s : String} {ls : List Lexeme} (h : b.dialect.scan s = .ok ls) :
    Scans b.dialect LineEnd s.toList fun us => ∃ n, us = ls.map (Lexeme.shift n) := by
  intro offset rest hr
  have hscan : scanFrom b.dialect offset s.toList = .ok (ls.map (Lexeme.shift offset)) := by
    rw [← Nat.add_zero offset, scanFrom_shift]
    unfold Dialect.scan at h
    rw [h]
    rfl
  refine ⟨_, ⟨offset, rfl⟩, ?_⟩
  cases rest with
  | nil =>
    rw [List.append_nil, hscan, scanFrom.eq_def b.dialect _ [], scanBy]
    simp [Except.map]
  | cons c rest =>
    obtain rfl := hr c rfl
    exact scanFrom_line hscan rest

/-- A text in front of another one, each with what its lexemes are. -/
theorem Scans.both {d : Dialect} {F G : List Char → Prop} {P Q : List Lexeme → Prop}
    {cs ds : List Char} (h : Scans d F cs P) (hF : ∀ rest, G rest → F (ds ++ rest))
    (h' : Scans d G ds Q) :
    Scans d G (cs ++ ds) fun ls => ∃ us vs, ls = us ++ vs ∧ P us ∧ Q vs :=
  h.append hF fun us hus => h'.imp fun vs hvs => ⟨us, vs, rfl, hus, hvs⟩

/-- An expression on lines of its own. -/
theorem scans_expr {s : String} {e : Expr} (h : b.dialect.parseExpr s = .ok e) :
    Scans b.dialect LineEnd s.toList (Derives b.dialect (.expr 8 e)) := by
  obtain ⟨ls, hscan, hd⟩ := parseExpr_eq_ok_iff.1 h
  refine (scans_text hscan).imp ?_
  rintro _ ⟨n, rfl⟩
  exact hd.shift

/-- The statement of a text without semicolons is spelled by all its lexemes. -/
theorem statementOf_parseOne {d : Dialect} {s : String} {e : Expr} {ls : List Lexeme}
    (h : d.parseOne s = .ok e) (hscan : d.scan s = .ok ls) (hls : ∀ t ∈ ls, t.kind ≠ .semicolon) :
    StatementOf d e ls := by
  have hparse : d.parse s = .ok [e] := by
    unfold Dialect.parseOne at h
    cases hs : d.parse s with
    | error => rw [hs] at h; cases h
    | ok es =>
      rw [hs] at h
      simp only [bind, Except.bind] at h
      split at h
      case h_1 => cases h; rfl
      case h_2 => cases h
  obtain ⟨ls', hscan', hs⟩ := parse_eq_ok_iff.1 hparse
  obtain rfl : ls = ls' := Except.ok.inj (hscan.symm.trans hscan')
  generalize hes : [e] = es at hs
  cases hs with
  | nil => cases hes
  | skip ht => exact absurd ht (hls _ List.mem_cons_self)
  | last he => cases hes; exact he
  | next _ ht => exact absurd ht (hls _ (by simp))

/-- A query without semicolons on lines of its own. -/
theorem scans_query {s : String} {q : Select Expr} {ls : List Lexeme}
    (h : b.dialect.parseOne s = .ok (.select q)) (hscan : b.dialect.scan s = .ok ls)
    (hls : ∀ t ∈ ls, t.kind ≠ .semicolon) :
    Scans b.dialect LineEnd s.toList (StatementOf b.dialect (.select q)) := by
  refine (scans_text hscan).imp ?_
  rintro _ ⟨n, rfl⟩
  exact (statementOf_parseOne h hscan hls).shift

/-! ## marks between them -/

/-- A text that is one lexeme of a kind, whatever follows. -/
def Mark (b : Builtin) (kind : LexemeKind) (cs : List Char) : Prop :=
  Scans b.dialect (fun _ => True) cs fun ls => ∃ t, ls = [t] ∧ t.kind = kind

/-- A line break in front of a mark. -/
theorem Mark.newLine {kind : LexemeKind} {cs : List Char} (h : Mark b kind cs) :
    Mark b kind ('\n' :: cs) := by
  have hbreak : Scans b.dialect (fun _ => True) ['\n'] fun ls => ls = [] :=
    .gap (fun _ _ _ => ⟨.gap 0, rfl, rfl, rfl⟩) rfl
  refine hbreak.cons (fun _ _ => trivial) ?_
  rintro _ rfl
  exact h

/-- A keyword with a space behind it. -/
theorem mark_keyword (word : String) {k : Keyword} (hword : isWord word = true)
    (hkind : wordKind b.dialect word = .keyword k) : Mark b (.keyword k) (word.toList ++ [' ']) := by
  refine (scans_word hword).append (fun _ _ => .cons (by decide) _) ?_
  rintro _ ⟨t, rfl, ht, -⟩
  exact scans_space ⟨t, rfl, ht.trans hkind⟩

theorem mark_limit : Mark b (.keyword .LIMIT) ['L', 'I', 'M', 'I', 'T', ' '] :=
  mark_keyword "LIMIT" rfl (by cases b <;> rfl)

theorem mark_offset : Mark b (.keyword .OFFSET) ['O', 'F', 'F', 'S', 'E', 'T', ' '] :=
  mark_keyword "OFFSET" rfl (by cases b <;> rfl)

/-- A comma with a space behind it. -/
theorem mark_comma : Mark b .comma [',', ' '] := by
  refine (scans_comma (F := fun _ => True)).cons (fun _ _ => trivial) ?_
  rintro _ ⟨t, rfl, ht, -⟩
  exact scans_space ⟨t, rfl, ht⟩

/-- A mark in front of a text. -/
theorem Mark.scans {kind : LexemeKind} {P : List Lexeme → Prop} {mark cs : List Char}
    (hmark : Mark b kind mark) (h : Scans b.dialect LineEnd cs P) :
    Scans b.dialect LineEnd (mark ++ cs) fun ls => ∃ t us, ls = t :: us ∧ t.kind = kind ∧ P us := by
  refine (Scans.both hmark (fun _ _ => trivial) h).imp ?_
  rintro _ ⟨_, us, rfl, ⟨t, rfl, ht⟩, hus⟩
  exact ⟨t, us, rfl, ht, hus⟩

/-! ## row limits -/

section

variable {o c : String} {first count : Expr} (ho : b.dialect.parseExpr o = .ok first)
  (hc : b.dialect.parseExpr c = .ok count)

include ho hc

/-- The offset, a comma and the count. -/
theorem scans_limitPair : Scans b.dialect LineEnd ("\nLIMIT " ++ o ++ "\n, " ++ c).toList
    (Derives b.dialect (.rowLimit (some (.limit count)) (some first))) := by
  have hpair := (scans_expr ho).both (fun _ _ => .cons _) (mark_comma.newLine.scans (scans_expr hc))
  have hall := mark_limit.newLine.scans hpair
  simp only [String.toList_append, List.append_assoc]
  refine hall.imp ?_
  rintro _ ⟨t, _, rfl, ht, us, _, rfl, hfirst, u, vs, rfl, hu, hcount⟩
  exact .limitPair ht hfirst hu hcount

/-- The count, `OFFSET` and the offset. -/
theorem scans_limitOffset : Scans b.dialect LineEnd ("\nLIMIT " ++ c ++ "\nOFFSET " ++ o).toList
    (Derives b.dialect (.rowLimit (some (.limit count)) (some first))) := by
  have hpair := (scans_expr hc).both (fun _ _ => .cons _) (mark_offset.newLine.scans (scans_expr ho))
  have hall := mark_limit.newLine.scans hpair
  simp only [String.toList_append, List.append_assoc]
  refine hall.imp ?_
  rintro _ ⟨t, _, rfl, ht, us, _, rfl, hcount, u, vs, rfl, hu, hfirst⟩
  have hoffset := Derives.offset hu hfirst (.inl rfl)
  rw [List.append_nil] at hoffset
  exact .limit ht hcount hoffset

end

/-- Nothing stands where a row limit is missing. -/
theorem Grammar.Derives.eq_nil_of_unlimited {d : Dialect} {ls : List Lexeme}
    (h : Derives d (.rowLimit none none) ls) : ls = [] := by
  cases h with
  | offsetFetch ho hf =>
    cases ho
    cases hf
    rfl

/-- A query without limit and offset, with a row limit behind it. -/
theorem Grammar.Derives.limited {d : Dialect} {q : Select Expr} {limit offset : Option Expr}
    {ls us : List Lexeme} (h : Derives d (.query q) ls) (hl : q.limit = none)
    (ho : q.offset = none) (hr : Derives d (.rowLimit limit offset) us) :
    Derives d (.query { q with limit := limit, offset := offset }) (ls ++ us) := by
  cases h with
  | query hd hp hs hw hg hh horder hrows =>
    cases hl
    cases ho
    rw [hrows.eq_nil_of_unlimited, List.append_nil]
    exact .query hd hp hs hw hg hh horder hr

/-- A text on new lines that is a row limit, behind a query without one. -/
theorem parseOne_limited {s rows : String} {q : Select Expr} {limit offset : Option Expr}
    (hquery : Scans b.dialect LineEnd s.toList (StatementOf b.dialect (.select q)))
    (hl : q.limit = none) (ho : q.offset = none) (hline : rows.toList.head? = some '\n')
    (hrows : Scans b.dialect LineEnd rows.toList (Derives b.dialect (.rowLimit limit offset))) :
    b.dialect.parseOne (s ++ rows) =
      .ok (.select { q with limit := limit, offset := offset }) := by
  have hbreak (rest : List Char) : LineEnd (rows.toList ++ rest) := by
    obtain ⟨cs, hcs⟩ : ∃ cs, rows.toList = '\n' :: cs := List.head?_eq_some_iff.1 hline
    rw [hcs]
    exact .cons _
  have hall := hquery.both (fun rest _ => hbreak rest) hrows
  rw [← String.toList_append] at hall
  obtain ⟨_, ⟨us, vs, rfl, hst, hr⟩, hscan⟩ := hall.scan .nil
  cases hst with
  | select ht hq => exact parseOne_of_statement hscan (.select ht (hq.limited hl ho hr))

/-- A query without limit and offset takes both in either way: the offset, a comma
and the count are read like the count, `OFFSET` and the offset. -/
theorem row_limits_agree (b : Builtin) (p o c : String) (q : Select Expr) (first count : Expr)
    (ls : List Lexeme) (hp : b.dialect.parseOne p = .ok (.select q))
    (hscan : b.dialect.scan p = .ok ls) (hls : ∀ t ∈ ls, t.kind ≠ .semicolon)
    (hlimit : q.limit = none) (hoffset : q.offset = none)
    (ho : b.dialect.parseExpr o = .ok first) (hc : b.dialect.parseExpr c = .ok count) :
    b.dialect.parseOne (p ++ "\nLIMIT " ++ o ++ "\n, " ++ c) =
        .ok (.select { q with limit := some (.limit count), offset := some first }) ∧
      b.dialect.parseOne (p ++ "\nLIMIT " ++ c ++ "\nOFFSET " ++ o) =
        .ok (.select { q with limit := some (.limit count), offset := some first }) := by
  have hquery := scans_query hp hscan hls
  have hpair := parseOne_limited hquery hlimit hoffset (by simp) (scans_limitPair ho hc)
  have hoffset := parseOne_limited hquery hlimit hoffset (by simp) (scans_limitOffset ho hc)
  simp only [← String.append_assoc] at hpair hoffset
  exact ⟨hpair, hoffset⟩

/-- The words of the clauses are names too, and a comment ends with its line. -/
theorem row_limits_agree_named :
    let q : Select Expr :=
      { projections := [.column none ⟨"FETCH", false⟩],
        source := some (.table none ⟨"t", false⟩ none),
        limit := some (.limit
          (.binaryOp .or (.column none ⟨"ROW", false⟩) (.column none ⟨"ROWS", false⟩))),
        offset := some (.column none ⟨"OFFSET", false⟩) }
    Dialect.sqlite.parseOne
        ("SELECT FETCH FROM t -- all" ++ "\nLIMIT " ++ "OFFSET" ++ "\n, " ++ "ROW OR ROWS") =
      .ok (.select q) ∧
    Dialect.sqlite.parseOne
        ("SELECT FETCH FROM t -- all" ++ "\nLIMIT " ++ "ROW OR ROWS" ++ "\nOFFSET " ++ "OFFSET") =
      .ok (.select q) := by
  have hscan : ∃ ls, Dialect.sqlite.scan "SELECT FETCH FROM t -- all" = .ok ls ∧
      ∀ t ∈ ls, t.kind ≠ .semicolon := ⟨_, by cbv, by decide⟩
  obtain ⟨ls, hscan, hls⟩ := hscan
  exact row_limits_agree .sqlite "SELECT FETCH FROM t -- all" "OFFSET" "ROW OR ROWS"
    { projections := [.column none ⟨"FETCH", false⟩], source := some (.table none ⟨"t", false⟩ none) }
    (.column none ⟨"OFFSET", false⟩)
    (.binaryOp .or (.column none ⟨"ROW", false⟩) (.column none ⟨"ROWS", false⟩)) ls (by cbv) hscan hls
    rfl rfl (by cbv) (by cbv)

end SqlDialect
