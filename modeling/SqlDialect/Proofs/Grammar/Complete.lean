import SqlDialect.Proofs.Grammar.Operand

/-!
# SqlDialect.Proofs.Grammar.Complete

Whatever the lexemes of a phrase spell is read from them, whatever follows,
as long as what follows cannot continue the phrase.

* `After`, `Derives.opens` -- the clauses of a query come in one order, and
  each starts with its own keyword, so what comes behind one cannot be taken
  for a part of it.
* `Derives.reads` -- the result, by induction on the derivation.
-/

namespace SqlDialect.Grammar

section

variable {d : Dialect} {n : Nat}

/-! ## the order of clauses -/

/-- The place of the clause that a lexeme starts, or that of the end of a
query; `0` for any other lexeme. -/
def closes : LexemeKind → Nat
  | .keyword .FROM => 1
  | .keyword .WHERE => 2
  | .keyword .GROUP => 3
  | .keyword .HAVING => 4
  | .keyword .ORDER => 5
  | .keyword .LIMIT => 6
  | .keyword .OFFSET => 7
  | .keyword .FETCH => 8
  | .rparen | .semicolon => 9
  | _ => 0

/-- A clause of a place or a later one comes next, or the query ends. -/
def After (r : Nat) (rest : List Lexeme) : Prop := ∀ t ∈ rest.head?, r ≤ closes t.kind

omit n in
theorem joins_of_closes {kind : LexemeKind} (h : 0 < closes kind) : joins kind = 9 := by
  unfold closes at h
  split at h <;> first | rfl | exact absurd h (by decide)

namespace After

variable {r : Nat} {rest : List Lexeme}

theorem mono {j : Nat} (h : After r rest) (hj : j ≤ r) : After j rest :=
  fun t ht => Nat.le_trans hj (h t ht)

theorem cons {t : Lexeme} (ht : r ≤ closes t.kind) (ts : List Lexeme) : After r (t :: ts) := by
  intro u hu
  cases hu
  exact ht

theorem lacks (h : After r rest) {kind : LexemeKind} (hk : closes kind < r) :
    Lacks kind rest := by
  intro t ht heq
  have := h t ht
  rw [heq] at this
  omega

theorem stops (h : After r rest) (hr : 0 < r) : Stops 8 rest := by
  intro t ht
  rw [joins_of_closes (Nat.lt_of_lt_of_le hr (h t ht))]
  decide

theorem noAlias (h : After r rest) (hr : 0 < r) : NoAlias rest := by
  intro t ht
  have := h t ht
  constructor
  · intro heq
    rw [heq] at this
    exact absurd (Nat.lt_of_lt_of_le hr this) (by decide)
  · unfold isBareAlias
    split
    case h_1 hk =>
      rw [hk] at this
      exact absurd (Nat.lt_of_lt_of_le hr this) (by decide)
    case h_2 hk =>
      rw [hk] at this
      exact absurd (Nat.lt_of_lt_of_le hr this) (Nat.lt_irrefl 0)
    case h_3 => rfl

theorem avoids {kinds : List LexemeKind} (h : After r rest) (hk : ∀ k ∈ kinds, closes k < r) :
    Avoids kinds rest :=
  fun t ht hm => h.lacks (hk _ hm) t ht rfl

end After

theorem QueryEnds.after {rest : List Lexeme} (h : QueryEnds rest) : After 9 rest := by
  intro t ht
  rcases h t ht with hk | hk <;> rw [hk] <;> decide

/-- The place of the clause that a phrase is. -/
def Phrase.place? : Phrase → Option Nat
  | .source _ => some 1
  | .clause .WHERE _ => some 2
  | .groupBy _ => some 3
  | .clause .HAVING _ => some 4
  | .orderBy _ => some 5
  | .rowLimit _ _ => some 6
  | .offset _ => some 7
  | .fetch _ => some 8
  | _ => none

/-- A clause that is there starts with its keyword. -/
theorem Derives.opens {p : Phrase} {ls : List Lexeme} (h : Derives d p ls) :
    ∀ r ∈ p.place?, ls = [] ∨ ∃ t us, ls = t :: us ∧ r ≤ closes t.kind := by
  induction h <;> intro r hr <;> try cases hr
  case noSource => exact .inl rfl
  case source ht _ _ => exact .inr ⟨_, _, rfl, by rw [ht]; decide⟩
  case noClause => exact .inl rfl
  case clause t k _ _ ht _ _ =>
    refine .inr ⟨_, _, rfl, ?_⟩
    rw [ht]
    unfold Phrase.place? at hr
    split at hr <;> cases hr <;> simp_all [closes]
  case noGroupBy => exact .inl rfl
  case groupBy ht _ _ _ => exact .inr ⟨_, _, rfl, by rw [ht]; decide⟩
  case noOrderBy => exact .inl rfl
  case orderBy ht _ _ _ => exact .inr ⟨_, _, rfl, by rw [ht]; decide⟩
  case limitPair ht _ _ _ _ _ => exact .inr ⟨_, _, rfl, by rw [ht]; decide⟩
  case limit ht _ _ _ _ => exact .inr ⟨_, _, rfl, by rw [ht]; decide⟩
  case noOffset => exact .inl rfl
  case offset ht _ _ _ => exact .inr ⟨_, _, rfl, by rw [ht]; decide⟩
  case noFetch => exact .inl rfl
  case fetch ht _ _ _ _ _ _ _ => exact .inr ⟨_, _, rfl, by rw [ht]; decide⟩
  case offsetFetch iho ihf =>
    rcases iho 7 rfl with rfl | ⟨t, us, rfl, ht⟩
    · rcases ihf 8 rfl with rfl | ⟨t, us, rfl, ht⟩
      · exact .inl rfl
      · exact .inr ⟨t, us, rfl, Nat.le_trans (by decide) ht⟩
    · exact .inr ⟨t, _, rfl, Nat.le_trans (by decide) ht⟩

theorem Derives.after {p : Phrase} {ls rest : List Lexeme} {r : Nat} (h : Derives d p ls)
    (hp : p.place? = some r) (hr : After r rest) : After r (ls ++ rest) := by
  rcases h.opens r hp with rfl | ⟨t, us, rfl, ht⟩
  · exact hr
  · exact .cons ht _

/-! ## clauses -/

theorem reads_noGroupBy : Reads d (.groupBy []) [] := by
  intro n rest h _ hr
  obtain ⟨h₁, heq⟩ := accept_of_lacks (hr.lacks (k := .keyword .GROUP) (by simp))
  unfold groupClause acceptKeyword
  simp only [List.nil_append, heq]
  exact .pure

theorem reads_groupBy {t u : Lexeme} {es : List Expr} {ls : List Lexeme}
    (ht : t.kind = .keyword .GROUP) (hu : u.kind = .keyword .BY) (hs : Reads d (.exprs es) ls) :
    Reads d (.groupBy es) (t :: u :: ls) := by
  intro n rest h hstop hr
  obtain ⟨a, as, rfl, hs⟩ := hs
  obtain ⟨h₁, heq⟩ := accept_cons ht (u :: (ls ++ rest))
  unfold groupClause acceptKeyword
  simp only [List.cons_append, heq]
  refine (expectKeyword_gives hu _).bind fun h₂ => ?_
  exact (hs rest _ hstop (hr.lacks (by simp))).bind fun h₃ => .pure

theorem reads_noOrderBy : Reads d (.orderBy []) [] := by
  intro n rest h _ hr
  obtain ⟨h₁, heq⟩ := accept_of_lacks (hr.lacks (k := .keyword .ORDER) (by simp))
  unfold orderClause acceptKeyword
  simp only [List.nil_append, heq]
  exact .pure

theorem reads_orderBy {t u : Lexeme} {is : List (OrderItem Expr)} {ls : List Lexeme}
    (ht : t.kind = .keyword .ORDER) (hu : u.kind = .keyword .BY) (hs : Reads d (.items is) ls) :
    Reads d (.orderBy is) (t :: u :: ls) := by
  intro n rest h hstop hr
  obtain ⟨a, as, rfl, hs⟩ := hs
  obtain ⟨h₁, heq⟩ := accept_cons ht (u :: (ls ++ rest))
  have hordering {m : Nat} (h : (u :: (ls ++ rest)).length < m) :
      Gives (ordering (within d m) (u :: (ls ++ rest)) h) (a, as) rest := by
    unfold ordering
    refine (expectKeyword_gives hu _).bind fun h₂ => ?_
    exact (hs rest _ hstop (hr.mono (by simp))).bind fun h₃ => .pure
  unfold orderClause acceptKeyword
  simp only [List.cons_append, heq]
  exact (hordering _).bind fun h₂ => .pure

theorem reads_allColumns {t : Lexeme} (ht : t.kind = .star) :
    Reads d (.projection (.star none)) [t] := by
  intro n rest h _ _
  show Gives (projection _ (t :: rest) h) _ _
  rw [projection, if_pos ht]
  exact .pure

/-- A projection that is not a star alone. -/
theorem projection_of_lacks {sub : Below n} {ts : List Lexeme} {h : ts.length < n}
    (hs : Lacks .star ts) : projection sub ts h = aliasedExpr sub ts h := by
  cases ts with
  | nil => rfl
  | cons t ts => rw [projection, if_neg (hs t rfl)]

theorem lacks_append {kind : LexemeKind} {ls : List Lexeme} (hfirst : Leads 8 ls)
    (hs : ∀ t ∈ ls.head?, t.kind ≠ kind) (rest : List Lexeme) : Lacks kind (ls ++ rest) := by
  obtain ⟨t, us, rfl, _⟩ := hfirst
  exact .cons (hs t rfl)

theorem reads_projection {e : Expr} {ls : List Lexeme} (he : Reads d (.expr 8 e) ls)
    (hfirst : Leads 8 ls) (hs : ∀ t ∈ ls.head?, t.kind ≠ .star) : Reads d (.projection e) ls := by
  intro n rest h hstop hr
  rw [projection_of_lacks (lacks_append hfirst hs rest)]
  unfold aliasedExpr
  refine (he.loose hstop h).bind fun h₁ => ?_
  refine (aliasName?_gives .none fun _ => hr).bind fun h₂ => ?_
  exact .pure

theorem alias_stops {i : Ident} {ls : List Lexeme} (h : AliasOf (some i) ls)
    (rest : List Lexeme) : Stops 8 (ls ++ rest) := by
  cases h with
  | named ht _ => exact .cons (by rw [ht]; decide)
  | @bare t _ hb _ =>
    refine .cons ?_
    unfold isBareAlias at hb
    split at hb
    case h_1 hk => rw [hk]; decide
    case h_2 hk => rw [hk]; exact Nat.lt_succ_self 8
    case h_3 => cases hb

theorem reads_aliased {e : Expr} {i : Ident} {ls₁ ls₂ : List Lexeme}
    (he : Reads d (.expr 8 e) ls₁) (hfirst : Leads 8 ls₁)
    (hs : ∀ t ∈ ls₁.head?, t.kind ≠ .star) (ha : AliasOf (some i) ls₂) :
    Reads d (.projection (.aliased e i)) (ls₁ ++ ls₂) := by
  intro n rest h _ _
  revert h
  rw [List.append_assoc]
  intro h
  rw [projection_of_lacks (lacks_append hfirst hs _)]
  unfold aliasedExpr
  refine (he.loose (alias_stops ha rest) h).bind fun h₁ => ?_
  refine (aliasName?_gives ha fun hn => nomatch hn).bind fun h₂ => ?_
  exact .pure

theorem reads_projectionsOne {e : Expr} {ls : List Lexeme} (he : Reads d (.projection e) ls) :
    Reads d (.projections [e]) ls :=
  ⟨e, [], rfl, fun rest h hs ha hr => commaList_one (he rest h hs ha) hr⟩

theorem reads_projectionsMore {t : Lexeme} {e : Expr} {es : List Expr} {ls₁ ls₂ : List Lexeme}
    (he : Reads d (.projection e) ls₁) (ht : t.kind = .comma) (hs : Reads d (.projections es) ls₂) :
    Reads d (.projections (e :: es)) (ls₁ ++ t :: ls₂) := by
  obtain ⟨a, as, rfl, hs⟩ := hs
  refine ⟨e, a :: as, rfl, fun rest h hstop ha hr => ?_⟩
  revert h
  rw [List.append_assoc, List.cons_append]
  intro h
  have hna : NoAlias (t :: (ls₂ ++ rest)) := by
    intro u hu
    cases hu
    exact ⟨by rw [ht]; decide, by simp [isBareAlias, ht]⟩
  exact commaList_more (he _ h (.cons (by rw [ht]; decide)) hna) ht
    fun h => hs rest h hstop ha hr

/-! ## tables -/

omit n in
theorem sampled_none {n : Nat} {sub : Below n} {e : Expr} {rest : List Lexeme}
    {h : rest.length < n} (hr : Lacks (.keyword .TABLESAMPLE) rest) :
    Gives (sampled sub e rest h) e rest := by
  obtain ⟨h₁, heq⟩ := accept_of_lacks hr
  unfold sampled acceptKeyword
  simp only [heq]
  exact .pure

/-- No point comes behind the name of a table. -/
theorem alias_lacks_dot {a : Option Ident} {ls rest : List Lexeme} (h : AliasOf a ls)
    (hr : Lacks .dot rest) : Lacks .dot (ls ++ rest) := by
  cases h with
  | none => exact hr
  | named ht _ => exact .cons (by rw [ht]; decide)
  | bare hb _ => exact .cons fun heq => by simp [isBareAlias, heq] at hb

theorem reads_table {schema : Option Ident} {name : Ident} {aliasName : Option Ident}
    {ls₁ ls₂ : List Lexeme} (hn : NameOf schema name ls₁) (ha : AliasOf aliasName ls₂) :
    Reads d (.table (.table schema name aliasName)) (ls₁ ++ ls₂) := by
  intro n rest h hna hr
  revert h
  rw [List.append_assoc]
  intro h
  have hdot := alias_lacks_dot ha (hr.lacks (by simp))
  unfold tableSource
  refine (hn.gives hdot).bind fun h₁ => ?_
  refine (aliasName?_gives ha fun _ => hna).bind fun h₂ => ?_
  exact (sampled_none (hr.lacks (by simp))).bind fun h₃ => .pure

theorem sampleMethod_gives {m : Option String} {ls : List Lexeme} (h : MethodOf m ls)
    (rest : List Lexeme) (hr : Lacks .word rest) :
    ∃ h, sampleMethod (ls ++ rest) = ⟨m, rest, h⟩ := by
  cases h with
  | none =>
    cases rest with
    | nil => exact ⟨_, rfl⟩
    | cons t rest =>
      refine ⟨Front.lt_succ _, ?_⟩
      show sampleMethod (t :: rest) = _
      rw [sampleMethod, if_neg (hr t rfl)]
      rfl
  | @named t ht =>
    refine ⟨Nat.lt_succ_of_lt (Front.lt_cons t rest), ?_⟩
    show sampleMethod (t :: rest) = _
    rw [sampleMethod, if_pos ht]
    rfl

theorem sampleUnit_gives {u : SampleUnit} {ls : List Lexeme} (h : UnitOf u ls)
    {rest : List Lexeme} (hr : Avoids [.keyword .ROWS, .keyword .PERCENT] rest) :
    ∃ h, sampleUnit (ls ++ rest) = ⟨u, rest, h⟩ := by
  have hrows : Lacks (.keyword .ROWS) rest := hr.lacks (by simp)
  have hpercent : Lacks (.keyword .PERCENT) rest := hr.lacks (by simp)
  unfold sampleUnit acceptKeyword
  cases h with
  | rows ht =>
    obtain ⟨h₁, heq⟩ := accept_cons ht rest
    refine ⟨h₁, ?_⟩
    simp only [List.cons_append, List.nil_append, heq]
  | @percent t ht =>
    obtain ⟨h₁, heq⟩ := accept_of_ne (k := .keyword .ROWS) (by rw [ht]; decide) rest
    obtain ⟨h₂, heq₂⟩ := accept_cons ht rest
    refine ⟨h₂, ?_⟩
    simp only [List.cons_append, List.nil_append, heq, heq₂]
  | unsaid =>
    obtain ⟨h₁, heq⟩ := accept_of_lacks hrows
    obtain ⟨h₂, heq₂⟩ := accept_of_lacks hpercent
    refine ⟨h₂, ?_⟩
    simp only [List.nil_append, heq, heq₂]

theorem reads_tableSample {t u v : Lexeme} {schema : Option Ident} {name : Ident}
    {aliasName : Option Ident} {method : Option String} {size : Expr} {unit : SampleUnit}
    {ls₁ ls₂ ls₃ ls₄ ls₅ : List Lexeme} (hn : NameOf schema name ls₁)
    (ha : AliasOf aliasName ls₂) (ht : t.kind = .keyword .TABLESAMPLE) (hm : MethodOf method ls₃)
    (hu : u.kind = .lparen) (hs : Reads d (.expr 8 size) ls₄) (hr : UnitOf unit ls₅)
    (hv : v.kind = .rparen) :
    Reads d (.table (.tableSample (.table schema name aliasName) method size unit))
      (ls₁ ++ ls₂ ++ t :: ls₃ ++ u :: ls₄ ++ ls₅ ++ [v]) := by
  intro n rest h _ _
  have hls : ls₁ ++ ls₂ ++ t :: ls₃ ++ u :: ls₄ ++ ls₅ ++ [v] ++ rest =
      ls₁ ++ (ls₂ ++ t :: (ls₃ ++ u :: (ls₄ ++ (ls₅ ++ v :: rest)))) := by simp
  revert h
  rw [hls]
  intro h
  have hdot : Lacks .dot (ls₂ ++ t :: (ls₃ ++ u :: (ls₄ ++ (ls₅ ++ v :: rest)))) :=
    alias_lacks_dot ha (.cons (by rw [ht]; decide))
  have hna : NoAlias (t :: (ls₃ ++ u :: (ls₄ ++ (ls₅ ++ v :: rest)))) := by
    intro w hw
    cases hw
    exact ⟨by rw [ht]; decide, by simp [isBareAlias, ht]⟩
  have hstop : Stops 8 (ls₅ ++ v :: rest) := by
    cases hr with
    | rows hw => exact .cons (by rw [hw]; decide)
    | percent hw => exact .cons (by rw [hw]; decide)
    | unsaid => exact .cons (by rw [hv]; decide)
  obtain ⟨h₁, hsample⟩ := accept_cons ht (ls₃ ++ u :: (ls₄ ++ (ls₅ ++ v :: rest)))
  obtain ⟨h₂, hmethod⟩ := sampleMethod_gives hm (u :: (ls₄ ++ (ls₅ ++ v :: rest)))
    (.cons (by rw [hu]; decide))
  have havoid : Avoids [.keyword .ROWS, .keyword .PERCENT] (v :: rest) := by
    intro w hw
    cases hw
    rw [hv]
    decide
  obtain ⟨h₃, hunit⟩ := sampleUnit_gives hr havoid
  have hsampled {e : Expr} {m : Nat} (h) :
      Gives (sampled (within d m) e (t :: (ls₃ ++ u :: (ls₄ ++ (ls₅ ++ v :: rest)))) h)
        (.tableSample e method size unit) rest := by
    have hopen (ts : List Lexeme) (hts : ts = u :: (ls₄ ++ (ls₅ ++ v :: rest))) :
        Gives (expect .lparen .openParen ts) () (ls₄ ++ (ls₅ ++ v :: rest)) := by
      subst hts
      exact expect_gives _ hu _
    have hclose (ts : List Lexeme) (hts : ts = v :: rest) :
        Gives (expect .rparen .closeParen ts) () rest := by
      subst hts
      exact expect_gives _ hv _
    unfold sampled acceptKeyword
    simp only [hsample]
    refine (hopen _ (by rw [hmethod])).bind fun h₄ => ?_
    refine (hs.loose hstop _).bind fun h₅ => ?_
    dsimp only
    refine (hclose _ (by rw [hunit])).bind fun h₆ => ?_
    simp only [hmethod, hunit]
    exact .pure
  unfold tableSource
  refine (hn.gives hdot).bind fun h₄ => ?_
  refine (aliasName?_gives ha fun _ => hna).bind fun h₅ => ?_
  exact (hsampled _).bind fun h₆ => .pure

theorem reads_noSource : Reads d (.source none) [] := by
  intro n rest h _ hr
  obtain ⟨h₁, heq⟩ := accept_of_lacks (hr.lacks (k := .keyword .FROM) (by simp))
  unfold sourceClause acceptKeyword
  simp only [List.nil_append, heq]
  exact .pure

theorem reads_source {t : Lexeme} {e : Expr} {ls : List Lexeme} (ht : t.kind = .keyword .FROM)
    (he : Reads d (.table e) ls) : Reads d (.source (some e)) (t :: ls) := by
  intro n rest h hna hr
  obtain ⟨h₁, heq⟩ := accept_cons ht (ls ++ rest)
  unfold sourceClause acceptKeyword
  simp only [List.cons_append, heq]
  exact (he rest _ hna (hr.mono (by simp))).bind fun h₂ => .pure

/-! ## row limits -/

theorem reads_noOffset : Reads d (.offset none) [] := by
  intro n rest h hs hr
  unfold offsetClause
  exact (reads_noClause rest h hs (hr.lacks (by simp))).bind fun h₁ => .pure

theorem reads_offset {t : Lexeme} {e : Expr} {ls₁ ls₂ : List Lexeme}
    (ht : t.kind = .keyword .OFFSET) (he : Reads d (.expr 8 e) ls₁)
    (hr : ls₂ = [] ∨ RowsWord ls₂) : Reads d (.offset (some e)) (t :: ls₁ ++ ls₂) := by
  intro n rest h hs havoid
  revert h
  rw [List.append_assoc]
  intro h
  have hstop : Stops 8 (ls₂ ++ rest) := by
    rcases hr with rfl | hr
    · exact hs
    · cases hr with
      | rows hu => exact .cons (by rw [hu]; decide)
      | row hu => exact .cons (by rw [hu]; decide)
  have hclause : ∀ h, Gives (clause? (within d n) .OFFSET (t :: ls₁ ++ (ls₂ ++ rest)) h) (some e)
      (ls₂ ++ rest) := by
    intro h
    obtain ⟨h₁, heq⟩ := accept_cons ht (ls₁ ++ (ls₂ ++ rest))
    unfold clause? acceptKeyword
    simp only [List.cons_append, heq]
    exact (he.loose hstop _).bind fun h₂ => .pure
  unfold offsetClause
  refine (hclause h).bind fun h₁ => ?_
  have hrows : Lacks (.keyword .ROWS) rest := havoid.lacks (by simp)
  have hrow : Lacks (.keyword .ROW) rest := havoid.lacks (by simp)
  unfold acceptKeyword
  rcases hr with rfl | hr
  · obtain ⟨h₂, heq⟩ := accept_of_lacks hrows
    obtain ⟨h₃, heq₂⟩ := accept_of_lacks hrow
    simp only [List.nil_append, heq, heq₂]
    exact .pure
  · cases hr with
    | rows hu =>
      obtain ⟨h₂, heq⟩ := accept_cons hu rest
      simp only [List.cons_append, List.nil_append, heq]
      exact .pure
    | @row u hu =>
      obtain ⟨h₂, heq⟩ := accept_of_ne (k := .keyword .ROWS) (by rw [hu]; decide) rest
      obtain ⟨h₃, heq₂⟩ := accept_cons hu rest
      simp only [List.cons_append, List.nil_append, heq, heq₂]
      exact .pure

theorem reads_noCount : Reads d (.fetchCount none) [] := by
  intro n rest h _ hr
  show Gives (fetchCount _ rest h) _ _
  rw [fetchCount, if_pos (hr rfl)]
  exact .pure

theorem reads_fetchCount {e : Expr} {ls : List Lexeme} (he : Reads d (.expr 1 e) ls)
    (hfirst : Leads 1 ls)
    (hr : ∀ t ∈ ls.head?, t.kind ≠ .keyword .ROW ∧ t.kind ≠ .keyword .ROWS) :
    Reads d (.fetchCount (some e)) ls := by
  intro n rest h hs _
  have hfirst := hfirst.mono (j := 8) (by decide)
  have hrow := comes_of_lacks (lacks_append hfirst (fun t ht => (hr t ht).1) rest)
  have hrows := comes_of_lacks (lacks_append hfirst (fun t ht => (hr t ht).2) rest)
  rw [fetchCount, if_neg (by simp [hrow, hrows])]
  exact (he.tight hs h).bind fun h₁ => .pure

theorem rowsWord_gives {ls : List Lexeme} (h : RowsWord ls) (rest : List Lexeme) :
    Gives (rowsWord (ls ++ rest)) () rest := by
  unfold rowsWord acceptKeyword
  cases h with
  | rows ht =>
    obtain ⟨h₁, heq⟩ := accept_cons ht rest
    simp only [List.cons_append, List.nil_append, heq]
    exact .pure
  | @row t ht =>
    obtain ⟨h₁, heq⟩ := accept_of_ne (k := .keyword .ROWS) (by rw [ht]; decide) rest
    simp only [List.cons_append, List.nil_append, heq]
    exact (expectKeyword_gives ht rest).bind fun h₂ => .pure

theorem reads_noFetch : Reads d (.fetch none) [] := by
  intro n rest h hr
  obtain ⟨h₁, heq⟩ := accept_of_lacks hr
  unfold fetchClause acceptKeyword
  simp only [List.nil_append, heq]
  exact .pure

/-- The words behind the count of a fetch. -/
theorem behind_count {count : Option Expr} {percent : Bool} {ls₂ ls₃ : List Lexeme}
    (hp : Flag .PERCENT percent ls₂) (hcp : count = none → percent = false) (hr : RowsWord ls₃)
    (rest : List Lexeme) : Stops 1 (ls₂ ++ (ls₃ ++ rest)) ∧ (count = none →
      (comes (.keyword .ROW) (ls₂ ++ (ls₃ ++ rest)) ||
        comes (.keyword .ROWS) (ls₂ ++ (ls₃ ++ rest))) = true) := by
  cases hp with
  | present ht => exact ⟨.cons (by rw [ht]; decide), fun hn => nomatch hcp hn⟩
  | absent =>
    cases hr with
    | rows ht => exact ⟨.cons (by rw [ht]; decide), fun _ => by simp [comes, ht]⟩
    | row ht => exact ⟨.cons (by rw [ht]; decide), fun _ => by simp [comes, ht]⟩

theorem reads_fetch {t u : Lexeme} {direction : FetchDirection} {count : Option Expr}
    {percent withTies : Bool} {ls₁ ls₂ ls₃ ls₄ : List Lexeme} (ht : t.kind = .keyword .FETCH)
    (hd : FetchWord direction u) (hc : Reads d (.fetchCount count) ls₁)
    (hp : Flag .PERCENT percent ls₂) (hcp : count = none → percent = false) (hr : RowsWord ls₃)
    (he : FetchEnd withTies ls₄) :
    Reads d (.fetch (some (.fetch direction count percent withTies)))
      (t :: u :: ls₁ ++ ls₂ ++ ls₃ ++ ls₄) := by
  intro n rest h _
  have hls : t :: u :: ls₁ ++ ls₂ ++ ls₃ ++ ls₄ ++ rest =
      t :: u :: (ls₁ ++ (ls₂ ++ (ls₃ ++ (ls₄ ++ rest)))) := by simp
  revert h
  rw [hls]
  intro h
  obtain ⟨hstop, hcount⟩ := behind_count hp hcp hr (ls₄ ++ rest)
  have hlacks : percent = false → Lacks (.keyword .PERCENT) (ls₃ ++ (ls₄ ++ rest)) := by
    intro _
    cases hr with
    | rows hv => exact .cons (by rw [hv]; decide)
    | row hv => exact .cons (by rw [hv]; decide)
  obtain ⟨h₁, hpercent⟩ := hp.accept _ hlacks
  have hdirection (ts : List Lexeme) : Gives (fetchDirection (u :: ts)) direction ts := by
    cases hd with
    | first hu => simp only [fetchDirection, hu]; exact .pure
    | next hu => simp only [fetchDirection, hu]; exact .pure
  have hrows (ts : List Lexeme) (hts : ts = ls₃ ++ (ls₄ ++ rest)) :
      Gives (rowsWord ts) () (ls₄ ++ rest) := by
    subst hts
    exact rowsWord_gives hr _
  have hend : ∃ us h, acceptKeyword .WITH (ls₄ ++ rest) = ⟨withTies, us, h⟩ ∧
      Gives (expectKeyword (if withTies then .TIES else .ONLY) us) () rest := by
    unfold acceptKeyword
    cases he with
    | @only v hv =>
      obtain ⟨h₂, heq⟩ := accept_of_ne (k := .keyword .WITH) (by rw [hv]; decide) rest
      exact ⟨_, h₂, heq, expectKeyword_gives hv rest⟩
    | @ties v w hv hw =>
      obtain ⟨h₂, heq⟩ := accept_cons hv (w :: rest)
      exact ⟨_, h₂, heq, expectKeyword_gives hw rest⟩
  obtain ⟨us, h₂, hties, hend⟩ := hend
  have hlast (b : Bool) (ts : List Lexeme) (hb : b = withTies) (hts : ts = us) :
      Gives (expectKeyword (if b then .TIES else .ONLY) ts) () rest := by
    subst hb hts
    exact hend
  have hfetch {m : Nat} (h) :
      Gives (fetch (within d m) (u :: (ls₁ ++ (ls₂ ++ (ls₃ ++ (ls₄ ++ rest))))) h)
        (.fetch direction count percent withTies) rest := by
    unfold fetch
    refine (hdirection _).bind fun h₃ => ?_
    refine (hc _ _ hstop hcount).bind fun h₄ => ?_
    dsimp only
    refine (hrows _ (by rw [hpercent])).bind fun h₅ => ?_
    dsimp only
    refine (hlast _ _ (by rw [hties]) (by rw [hties])).bind fun h₆ => ?_
    simp only [hpercent, hties]
    exact .pure
  obtain ⟨h₃, heq⟩ := accept_cons ht (u :: (ls₁ ++ (ls₂ ++ (ls₃ ++ (ls₄ ++ rest)))))
  unfold fetchClause acceptKeyword
  simp only [heq]
  exact (hfetch _).bind fun h₄ => .pure

theorem limitClause_none {sub : Below n} {rest : List Lexeme} {h : rest.length < n}
    (hr : Lacks (.keyword .LIMIT) rest) : Gives (limitClause sub rest h) (none, none) rest := by
  obtain ⟨h₁, heq⟩ := accept_of_lacks hr
  unfold limitClause acceptKeyword
  simp only [heq]
  exact .pure

theorem limitClause_one {t : Lexeme} {e : Expr} {ls rest : List Lexeme}
    (ht : t.kind = .keyword .LIMIT) (he : Reads d (.expr 8 e) ls) (hs : Stops 8 rest)
    (hr : Lacks .comma rest) (h : (t :: (ls ++ rest)).length < n) :
    Gives (limitClause (within d n) (t :: (ls ++ rest)) h) (some (.limit e), none) rest := by
  obtain ⟨h₁, heq⟩ := accept_cons ht (ls ++ rest)
  obtain ⟨h₂, heq₂⟩ := accept_of_lacks hr
  unfold limitClause acceptKeyword
  simp only [heq]
  refine (he.loose hs _).bind fun h₃ => ?_
  simp only [heq₂]
  exact .pure

theorem limitClause_pair {t u : Lexeme} {count first : Expr} {ls₁ ls₂ rest : List Lexeme}
    (ht : t.kind = .keyword .LIMIT) (ho : Reads d (.expr 8 first) ls₁) (hu : u.kind = .comma)
    (hc : Reads d (.expr 8 count) ls₂) (hs : Stops 8 rest)
    (h : (t :: (ls₁ ++ u :: (ls₂ ++ rest))).length < n) :
    Gives (limitClause (within d n) (t :: (ls₁ ++ u :: (ls₂ ++ rest))) h)
      (some (.limit count), some first) rest := by
  obtain ⟨h₁, heq⟩ := accept_cons ht (ls₁ ++ u :: (ls₂ ++ rest))
  obtain ⟨h₂, heq₂⟩ := accept_cons hu (ls₂ ++ rest)
  unfold limitClause acceptKeyword
  simp only [heq]
  refine (ho.loose (.cons (by rw [hu]; decide)) _).bind fun h₃ => ?_
  simp only [heq₂]
  exact (hc.loose hs _).bind fun h₄ => .pure

theorem reads_limitPair {t u : Lexeme} {count first : Expr} {ls₁ ls₂ : List Lexeme}
    (ht : t.kind = .keyword .LIMIT) (ho : Reads d (.expr 8 first) ls₁) (hu : u.kind = .comma)
    (hc : Reads d (.expr 8 count) ls₂) :
    Reads d (.rowLimit (some (.limit count)) (some first)) (t :: ls₁ ++ u :: ls₂) := by
  intro n rest h hends
  have hls : t :: ls₁ ++ u :: ls₂ ++ rest = t :: (ls₁ ++ u :: (ls₂ ++ rest)) := by simp
  revert h
  rw [hls]
  intro h
  unfold rowLimit
  exact (limitClause_pair ht ho hu hc (hends.after.stops (by decide)) h).bind fun h₁ => .pure

theorem reads_limit {t : Lexeme} {count : Expr} {o : Option Expr} {ls₁ ls₂ : List Lexeme}
    (ht : t.kind = .keyword .LIMIT) (hc : Reads d (.expr 8 count) ls₁)
    (ho : Reads d (.offset o) ls₂) (ho' : Derives d (.offset o) ls₂) :
    Reads d (.rowLimit (some (.limit count)) o) (t :: ls₁ ++ ls₂) := by
  intro n rest h hends
  have hls : t :: ls₁ ++ ls₂ ++ rest = t :: (ls₁ ++ (ls₂ ++ rest)) := by simp
  revert h
  rw [hls]
  intro h
  have hafter : After 7 (ls₂ ++ rest) := ho'.after rfl (hends.after.mono (by decide))
  have hstop : Stops 8 rest := hends.after.stops (by decide)
  have havoid : Avoids [.keyword .OFFSET, .keyword .ROW, .keyword .ROWS] rest :=
    hends.after.avoids (by decide)
  unfold rowLimit
  refine (limitClause_one ht hc (hafter.stops (by decide)) (hafter.lacks (by decide)) h).bind
    fun h₁ => ?_
  exact (ho rest _ hstop havoid).bind fun h₂ => .pure

theorem reads_offsetFetch {o f : Option Expr} {ls₁ ls₂ : List Lexeme}
    (ho : Reads d (.offset o) ls₁) (ho' : Derives d (.offset o) ls₁) (hf : Reads d (.fetch f) ls₂)
    (hf' : Derives d (.fetch f) ls₂) : Reads d (.rowLimit f o) (ls₁ ++ ls₂) := by
  intro n rest h hends
  revert h
  rw [List.append_assoc]
  intro h
  have hafter₂ : After 8 (ls₂ ++ rest) := hf'.after rfl (hends.after.mono (by decide))
  have hafter₁ : After 7 (ls₁ ++ (ls₂ ++ rest)) := ho'.after rfl (hafter₂.mono (by decide))
  have hfetch : Lacks (.keyword .FETCH) rest := hends.after.lacks (by decide)
  unfold rowLimit
  refine (limitClause_none (hafter₁.lacks (by decide))).bind fun h₁ => ?_
  refine (ho _ _ (hafter₂.stops (by decide)) (hafter₂.avoids (by decide))).bind fun h₂ => ?_
  exact (hf rest _ hfetch).bind fun h₃ => .pure

/-! ## queries -/

theorem reads_query {distinct : Bool} {projections groupBy : List Expr}
    {source filter having limit offset : Option Expr} {orderBy : List (OrderItem Expr)}
    {ls₀ ls₁ ls₂ ls₃ ls₄ ls₅ ls₆ ls₇ : List Lexeme} (hd : Flag .DISTINCT distinct ls₀)
    (hp : Derives d (.projections projections) ls₁) (hs : Derives d (.source source) ls₂)
    (hw : Derives d (.clause .WHERE filter) ls₃) (hg : Derives d (.groupBy groupBy) ls₄)
    (hh : Derives d (.clause .HAVING having) ls₅) (ho : Derives d (.orderBy orderBy) ls₆)
    (hl : Derives d (.rowLimit limit offset) ls₇)
    (rp : Reads d (.projections projections) ls₁) (rs : Reads d (.source source) ls₂)
    (rw' : Reads d (.clause .WHERE filter) ls₃) (rg : Reads d (.groupBy groupBy) ls₄)
    (rh : Reads d (.clause .HAVING having) ls₅) (ro : Reads d (.orderBy orderBy) ls₆)
    (rl : Reads d (.rowLimit limit offset) ls₇) :
    Reads d (.query ⟨distinct, projections, source, filter, groupBy, having, orderBy, limit,
      offset⟩) (ls₀ ++ ls₁ ++ ls₂ ++ ls₃ ++ ls₄ ++ ls₅ ++ ls₆ ++ ls₇) := by
  intro n rest h hends
  have a₇ : After 6 (ls₇ ++ rest) := hl.after rfl (hends.after.mono (by decide))
  have a₆ : After 5 (ls₆ ++ (ls₇ ++ rest)) := ho.after rfl (a₇.mono (by decide))
  have a₅ : After 4 (ls₅ ++ (ls₆ ++ (ls₇ ++ rest))) := hh.after rfl (a₆.mono (by decide))
  have a₄ : After 3 (ls₄ ++ (ls₅ ++ (ls₆ ++ (ls₇ ++ rest)))) := hg.after rfl (a₅.mono (by decide))
  have a₃ : After 2 (ls₃ ++ (ls₄ ++ (ls₅ ++ (ls₆ ++ (ls₇ ++ rest))))) :=
    hw.after rfl (a₄.mono (by decide))
  have a₂ : After 1 (ls₂ ++ (ls₃ ++ (ls₄ ++ (ls₅ ++ (ls₆ ++ (ls₇ ++ rest)))))) :=
    hs.after rfl (a₃.mono (by decide))
  obtain ⟨h₀, hdistinct⟩ := hd.accept
    (ls₁ ++ (ls₂ ++ (ls₃ ++ (ls₄ ++ (ls₅ ++ (ls₆ ++ (ls₇ ++ rest)))))))
    fun _ => (hp.leads 8 rfl).lacks _ (by decide) _
  obtain ⟨first, others, rfl, rp⟩ := rp
  have hprojections (ts : List Lexeme)
      (hts : ts = ls₁ ++ (ls₂ ++ (ls₃ ++ (ls₄ ++ (ls₅ ++ (ls₆ ++ (ls₇ ++ rest))))))) (h) :
      Gives (commaList (projection (within d n)) ts h) (first, others)
        (ls₂ ++ (ls₃ ++ (ls₄ ++ (ls₅ ++ (ls₆ ++ (ls₇ ++ rest)))))) := by
    subst hts
    exact rp _ h (a₂.stops (by decide)) (a₂.noAlias (by decide)) (a₂.lacks (by decide))
  have hls : ls₀ ++ ls₁ ++ ls₂ ++ ls₃ ++ ls₄ ++ ls₅ ++ ls₆ ++ ls₇ ++ rest =
      ls₀ ++ (ls₁ ++ (ls₂ ++ (ls₃ ++ (ls₄ ++ (ls₅ ++ (ls₆ ++ (ls₇ ++ rest))))))) := by simp
  revert h
  rw [hls]
  intro h
  unfold query
  dsimp only
  refine (hprojections _ (by rw [hdistinct]) _).bind fun h₁ => ?_
  refine (rs _ _ (a₃.noAlias (by decide)) (a₃.avoids (by decide))).bind fun h₂ => ?_
  refine (rw' _ _ (a₄.stops (by decide)) (a₄.lacks (by decide))).bind fun h₃ => ?_
  refine (rg _ _ (a₅.stops (by decide)) (a₅.avoids (by decide))).bind fun h₄ => ?_
  refine (rh _ _ (a₆.stops (by decide)) (a₆.lacks (by decide))).bind fun h₅ => ?_
  refine (ro _ _ (a₇.stops (by decide)) (a₇.avoids (by decide))).bind fun h₆ => ?_
  refine (rl rest _ hends).bind fun h₇ => ?_
  simp only [hdistinct]
  exact .pure

end

/-! ## the result -/

/-- Whatever the lexemes of a phrase spell is read from them. -/
theorem Derives.reads {d : Dialect} {p : Phrase} {ls : List Lexeme} (h : Derives d p ls) :
    Reads d p ls := by
  induction h with
  | literal ht => exact reads_literal ht
  | star ht => exact reads_star ht
  | starOf ht hu hv => exact reads_qualified ht hu (columnOf_star hv)
  | column ht => exact reads_column ht
  | columnOf ht hu hv => exact reads_qualified ht hu (columnOf_column hv)
  | call ht hq hu _ hv he ih => exact reads_call ht hq hu ih hv he
  | caseWhen ht _ hw hne hb hu iho ihw ihb => exact reads_caseWhen ht iho ihw hw hne ihb hb hu
  | cast ht hk hu _ hv hT hw ih => exact reads_cast ht hk hu ih hv hT hw
  | paren ht he hu ih => exact reads_paren ht ih (he.leads 8 rfl) hu
  | subquery ht hu _ hv ih => exact reads_subquery ht hu ih hv
  | minus ht _ ih => exact reads_minus ht ih
  | not ht _ ih => exact reads_not ht ih
  | binary _ ht _ iha ihb => exact reads_binary iha ht ihb
  | tested _ _ iha iht => exact reads_tested iha iht
  | lift he hk ih => exact reads_lift ih (he.leads _ rfl) hk
  | compare ht _ ih => exact reads_compare ht ih
  | like hn ht _ ih => exact reads_like hn ht ih
  | ilike hn ht _ ih => exact reads_ilike hn ht ih
  | between hn ht _ hu _ ihl ihh => exact reads_between hn ht ihl hu ihh
  | inList hn ht hu _ hv ih => exact reads_inList hn ht hu ih hv
  | isNull ht hn hu => exact reads_isNull ht hn hu
  | exprsOne _ ih => exact reads_exprsOne ih
  | exprsMore _ ht _ ihe ihs => exact reads_exprsMore ihe ht ihs
  | item _ hd ih => exact reads_item ih hd
  | itemsOne _ ih => exact reads_itemsOne ih
  | itemsMore _ ht _ ihi ihs => exact reads_itemsMore ihi ht ihs
  | noSeparator => exact reads_noSeparator
  | separator ht hs _ ih => exact reads_separator ht hs ih
  | noArgs => exact reads_noArgs
  | args hd he ho hs ihe iho ihs => exact reads_args hd ihe (he.leads 8 rfl) iho ho ihs hs
  | noCaseOperand => exact reads_noCaseOperand
  | caseOperand he ih => exact reads_caseOperand ih (he.leads 8 rfl)
  | noWhens => exact reads_noWhens
  | whens ht _ hu _ hw iha ihb ihw => exact reads_whens ht iha hu ihb ihw hw
  | noClause => exact reads_noClause
  | clause ht _ ih => exact reads_clause ht ih
  | noGroupBy => exact reads_noGroupBy
  | groupBy ht hu _ ih => exact reads_groupBy ht hu ih
  | noOrderBy => exact reads_noOrderBy
  | orderBy ht hu _ ih => exact reads_orderBy ht hu ih
  | allColumns ht => exact reads_allColumns ht
  | projection he hs ih => exact reads_projection ih (he.leads 8 rfl) hs
  | aliased he hs ha ih => exact reads_aliased ih (he.leads 8 rfl) hs ha
  | projectionsOne _ ih => exact reads_projectionsOne ih
  | projectionsMore _ ht _ ihe ihs => exact reads_projectionsMore ihe ht ihs
  | table hn ha => exact reads_table hn ha
  | tableSample hn ha ht hm hu _ hr hv ih => exact reads_tableSample hn ha ht hm hu ih hr hv
  | noSource => exact reads_noSource
  | source ht _ ih => exact reads_source ht ih
  | noOffset => exact reads_noOffset
  | offset ht _ hr ih => exact reads_offset ht ih hr
  | noCount => exact reads_noCount
  | fetchCount he hr ih => exact reads_fetchCount ih (he.leads 1 rfl) hr
  | noFetch => exact reads_noFetch
  | fetch ht hd _ hp hcp hr he ih => exact reads_fetch ht hd ih hp hcp hr he
  | limitPair ht _ hu _ iho ihc => exact reads_limitPair ht iho hu ihc
  | limit ht _ ho ihc iho => exact reads_limit ht ihc iho ho
  | offsetFetch ho hf iho ihf => exact reads_offsetFetch iho ho ihf hf
  | query hd hp hs hw hg hh ho hl ihp ihs ihw ihg ihh iho ihl =>
    exact reads_query hd hp hs hw hg hh ho hl ihp ihs ihw ihg ihh iho ihl

end SqlDialect.Grammar
