import SqlDialect.Proofs.Rendering.Source

/-!
# SqlDialect.Proofs.Rendering.Query

The text of a query.

* `rowLimit_written` -- limits and offsets in either order.
* `shown_query` -- the clauses of a query, one behind the other.
-/

namespace SqlDialect

open Text Grammar

variable {b : Builtin} {i : Bool} {us : List Token} {Q : List Lexeme → Prop}

/-! ## pieces -/

/-- The pieces of a grouping, if there is one. -/
def groupTokens (b : Builtin) (i : Bool) (es : List Expr) : List Token :=
  if es.isEmpty then []
  else .space :: .keyword .GROUP :: .space :: .keyword .BY :: .space ::
    commas (es.map (tokensOf b i))

/-- The pieces of the word for rows. -/
def rowsTokens (rows : Bool) : List Token :=
  if rows then [.space, .keyword .ROWS] else []

/-- The pieces of an offset, if there is one. -/
def offsetTokens (b : Builtin) (i : Bool) (rows : Bool) (o : Option Expr) : List Token :=
  o.elim [] fun e => .space :: .keyword .OFFSET :: .space :: (tokensOf b i e ++ rowsTokens rows)

/-- The pieces of a row limit, if there is one. -/
def limitTokens (l : Option (List Token)) : List Token := l.elim [] fun ts => .space :: ts

/-- The pieces of the limit and the offset of a query. -/
def rowLimitTokens (b : Builtin) (i : Bool) (q : Select Expr) (l : Option (List Token)) :
    List Token :=
  if (style b i).fetchesLast q then offsetTokens b i true q.offset ++ limitTokens l
  else limitTokens l ++ offsetTokens b i false q.offset

/-- The pieces of a query in front of its limit and offset. -/
def clauseTokens (b : Builtin) (i : Bool) (q : Select Expr) (us : List Token) : List Token :=
  .keyword .SELECT :: .space :: (distinctTokens q.distinct ++
    (commas (q.projections.map (tokensOf b i)) ++
      (optionalTokens b i [.space, .keyword .FROM, .space] q.source ++
        (optionalTokens b i [.space, .keyword .WHERE, .space] q.filter ++
          (groupTokens b i q.groupBy ++
            (optionalTokens b i [.space, .keyword .HAVING, .space] q.having ++
              (orderTokens (q.orderBy.map (itemTokens b i)) ++ us)))))))

theorem tokens_query (q : Select Expr) (l : Option Fragment) :
    ((style b i).query (style b i).fragment q l).tokens =
      clauseTokens b i q (rowLimitTokens b i q (l.map Fragment.tokens)) := by
  have hdistinct : (if q.distinct then Fragment.ofTokens [.keyword .DISTINCT, .space]
      else {}).tokens = distinctTokens q.distinct := by
    cases q.distinct <;> rfl
  have hgroup : (if q.groupBy.isEmpty then {}
      else Fragment.ofTokens [.space, .keyword .GROUP, .space, .keyword .BY, .space] ++
        .commaSeparated (q.groupBy.map (style b i).fragment)).tokens = groupTokens b i q.groupBy := by
    unfold groupTokens
    split
    · rfl
    · rw [Fragment.tokens_append, tokens_commaSeparated, tokens_fragments]
      rfl
  have horder : (if q.orderBy.isEmpty then {} else Fragment.ofTokens [.space] ++
      Style.ordering (style b i).fragment q.orderBy).tokens =
        orderTokens (q.orderBy.map (itemTokens b i)) := by
    have hitems : (q.orderBy.map (Style.orderItem (style b i).fragment)).map Fragment.tokens =
        q.orderBy.map (itemTokens b i) := by
      rw [List.map_map]
      exact List.map_congr_left fun item _ => tokens_orderItem item
    unfold orderTokens
    rw [List.isEmpty_map]
    split
    · rfl
    · simp only [Style.ordering, Fragment.tokens_append, tokens_commaSeparated, hitems]
      rfl
  have hoffset (rows : Bool) (tail : List Token) (htail : tail = rowsTokens rows) :
      (Style.optional [.space, .keyword .OFFSET, .space]
        (q.offset.map fun e => (style b i).fragment e ++ Fragment.ofTokens tail)).tokens =
        offsetTokens b i rows q.offset := by
    subst htail
    cases q.offset <;> rfl
  have hplain : (Style.optional [.space, .keyword .OFFSET, .space]
      (q.offset.map (style b i).fragment)).tokens = offsetTokens b i false q.offset := by
    cases q.offset <;> simp [Style.optional, offsetTokens, rowsTokens, tokensOf, Fragment.ofTokens]
  have hlimit : (Style.optional [.space] l).tokens = limitTokens (l.map Fragment.tokens) := by
    cases l <;> rfl
  have htail : (if (style b i).fetchesLast q then
        Style.optional [.space, .keyword .OFFSET, .space]
          (q.offset.map fun e => (style b i).fragment e ++
            Fragment.ofTokens [.space, .keyword .ROWS]) ++ Style.optional [.space] l
      else Style.optional [.space] l ++ Style.optional [.space, .keyword .OFFSET, .space]
        (q.offset.map (style b i).fragment)).tokens =
      rowLimitTokens b i q (l.map Fragment.tokens) := by
    unfold rowLimitTokens
    split
    · rw [Fragment.tokens_append, hoffset true [.space, .keyword .ROWS] rfl, hlimit]
    · rw [Fragment.tokens_append, hplain, hlimit]
  unfold Style.query
  simp only [Fragment.tokens_append, hdistinct, tokens_commaSeparated, tokens_fragments,
    tokens_optional, hgroup, horder, htail]
  simp [clauseTokens, Fragment.ofTokens]

/-! ## clauses -/

/-- An expression behind `FROM`. -/
theorem from_written {s : Option Expr} (h : ∀ e ∈ s, e.All (Ready b i) ∧ Sourced e) :
    ∃ s', Written b (optionalTokens b i [.space, .keyword .FROM, .space] s)
        (fun ls => Derives b.dialect (.source s') ls) ∧
      (b = .generic → (∀ e ∈ s, e.All (Faithful b)) → s' = s.map (Expr.settled b i)) := by
  cases s with
  | none => exact ⟨none, .nil .noSource, fun _ _ => rfl⟩
  | some e =>
    obtain ⟨e', he, hf⟩ := source_written (h e rfl).1 (h e rfl).2
    refine ⟨some e', ?_, fun hb hfaith => ?_⟩
    · refine .space (.spacedKeyword fun t ht => ?_)
      exact he.imp fun ls h => .source ht h
    · rw [hf hb (hfaith e rfl)]
      rfl

theorem group_written {es : List Expr} (h : ∀ e ∈ es, Shown b i e ∧ e.tier b ≤ 8) :
    ∃ es', Written b (groupTokens b i es) (fun ls => Derives b.dialect (.groupBy es') ls) ∧
      ((∀ e ∈ es, e.All (Faithful b)) → es' = es.map (Expr.settled b i)) := by
  cases es with
  | nil => exact ⟨[], .nil .noGroupBy, fun _ => rfl⟩
  | cons e es =>
    obtain ⟨es', hs, hf⟩ := listed_of_shown h
    obtain _ | ⟨he, hrest⟩ := hs
    refine ⟨_, ?_, hf⟩
    refine .space (.spacedKeyword fun t ht => ?_)
    refine .spacedKeyword fun u hu => ?_
    exact (Listed.exprs (.cons he hrest)).imp fun ls h => .groupBy ht hu h

theorem order_written {items : List (OrderItem Expr)}
    (h : ∀ item ∈ items, Shown b i item.expr ∧ item.expr.tier b ≤ 8) :
    ∃ items', Written b (orderTokens (items.map (itemTokens b i)))
        (fun ls => Derives b.dialect (.orderBy items') ls) ∧
      ((∀ item ∈ items, item.expr.All (Faithful b)) →
        items' = items.map (OrderItem.map (Expr.settled b i))) := by
  obtain ⟨items', hs, hf⟩ := itemsListed_of_shown h
  refine ⟨items', ?_, hf⟩
  have horder := Written.orderBy hs (by simp : Ends []) fun ls h => .nil (by simpa using h)
  simpa using horder

theorem offset_written {rows : Bool} {o : Option Expr} (h : ∀ e ∈ o, Shown b i e ∧ e.tier b ≤ 8) :
    ∃ o', Written b (offsetTokens b i rows o) (fun ls => Derives b.dialect (.offset o') ls) ∧
      ((∀ e ∈ o, e.All (Faithful b)) → o' = o.map (Expr.settled b i)) := by
  cases o with
  | none => exact ⟨none, .nil .noOffset, fun _ => rfl⟩
  | some e =>
    obtain ⟨e', he, hf⟩ := (h e rfl).1.loose (h e rfl).2
    refine ⟨some e', ?_, fun hfaith => ?_⟩
    · refine .space (.spacedKeyword fun t ht => ?_)
      cases rows with
      | true =>
        refine Written.append he (by simp [rowsTokens]) fun ls h => ?_
        refine .space (.keyword (by simp) fun u hu => ?_)
        exact .nil (.offset ht h (.inr (.rows hu)))
      | false =>
        rw [rowsTokens, if_neg (by decide), List.append_nil]
        refine Written.imp he fun ls h => ?_
        have hoffset := Derives.offset ht h (.inl rfl)
        rwa [List.append_nil] at hoffset
    · rw [hf (hfaith e rfl)]
      rfl

/-- `LIMIT` and a count. -/
theorem limit_written {l : Option (List Token)} {ts : List Token} {count : Expr}
    {o : Option Expr} {o' : Option Expr} (hl : l = some (.keyword .LIMIT :: .space :: ts))
    (hc : Loose b ts count)
    (ho : Written b (offsetTokens b i false o) fun ls => Derives b.dialect (.offset o') ls) :
    Written b (limitTokens l ++ offsetTokens b i false o) fun ls =>
      Derives b.dialect (.rowLimit (some (.limit count)) o') ls := by
  subst hl
  have hends : Ends (offsetTokens b i false o) := by
    cases o <;> simp [offsetTokens]
  refine .space (.spacedKeyword fun t ht => ?_)
  refine Written.append hc hends fun ls h => ?_
  exact ho.imp fun ls' h' => .limit ht h h'

/-! ## fetches -/

/-- The pieces of the end of a fetch. -/
def fetchEndTokens (percent withTies : Bool) : List Token :=
  (if percent then [.space, .keyword .PERCENT] else []) ++ .space :: .keyword .ROWS :: .space ::
    (if withTies then [.keyword .WITH, .space, .keyword .TIES] else [.keyword .ONLY])

/-- The word for the direction of a fetch. -/
def directionWord : FetchDirection → Keyword
  | .first => .FIRST
  | .next => .NEXT

theorem tokensOf_fetch_generic (d : FetchDirection) (n : Option Expr) (percent withTies : Bool) :
    tokensOf .generic i (.fetch d n percent withTies) =
      .keyword .FETCH :: .space :: .keyword (directionWord d) ::
        (optionalTokens .generic i [.space] n ++ fetchEndTokens percent withTies) := by
  rw [tokensOf_base rfl]
  simp only [Style.base, Fragment.tokens_append, tokens_optional]
  cases d <;> cases percent <;> cases withTies <;>
    simp [Fragment.ofTokens, fetchEndTokens, directionWord, Fragment.keyword]

theorem fetchEnd_written {percent withTies : Bool} (hk : ∀ ls₂ ls₃ ls₄, Flag .PERCENT percent ls₂ →
      RowsWord ls₃ → FetchEnd withTies ls₄ → Q (ls₂ ++ ls₃ ++ ls₄)) :
    Written b (fetchEndTokens percent withTies) Q := by
  have htail (ls₂ : List Lexeme) (h₂ : Flag .PERCENT percent ls₂) :
      Written b (.space :: .keyword .ROWS :: .space ::
        (if withTies then [.keyword .WITH, .space, .keyword .TIES] else [.keyword .ONLY]))
        fun ls => Q (ls₂ ++ ls) := by
    refine .space (.spacedKeyword fun t ht => ?_)
    cases withTies with
    | true =>
      refine .spacedKeyword fun u hu => ?_
      refine .keyword (by simp) fun v hv => .nil ?_
      simpa using hk ls₂ [t] [u, v] h₂ (.rows ht) (.ties hu hv)
    | false =>
      refine .keyword (by simp) fun u hu => .nil ?_
      simpa using hk ls₂ [t] [u] h₂ (.rows ht) (.only hu)
  cases percent with
  | true => exact .space (.keyword (by simp) fun t ht => htail [t] (.present ht))
  | false => exact htail [] .absent

theorem ends_fetchEnd {percent withTies : Bool} : Ends (fetchEndTokens percent withTies) := by
  cases percent <;> simp [fetchEndTokens]

theorem fetch_written {d : FetchDirection} {n : Option Expr} {percent withTies : Bool}
    (h : (Expr.fetch d n percent withTies).All (Ready .generic i)) :
    ∃ e', Written .generic (tokensOf .generic i (.fetch d n percent withTies))
        (fun ls => Derives Builtin.generic.dialect (.fetch (some e')) ls) ∧
      ((Expr.fetch d n percent withTies).All (Faithful .generic) →
        e' = (Expr.fetch d n percent withTies).settled .generic i) := by
  obtain ⟨hpercent, hrows⟩ := h.self.proper.2
  have hmem : ∀ c ∈ n, c ∈ (Expr.fetch d n percent withTies).children :=
    fun c hc => Option.mem_toList.2 hc
  obtain ⟨n', hn, hnone, hf⟩ : ∃ n', Written .generic (optionalTokens .generic i [.space] n)
      (fun ls => Derives Builtin.generic.dialect (.fetchCount n') ls) ∧ (n' = none → n = none) ∧
      ((∀ c ∈ n, c.All (Faithful .generic)) → n' = n.map (Expr.settled .generic i)) := by
    cases n with
    | none => exact ⟨none, .nil .noCount, id, fun _ => rfl⟩
    | some c =>
      have hslot : c.tier .generic ≤ 1 := h.self.clear.1 (1, c) List.mem_cons_self
      obtain ⟨⟨c', hw, hf⟩, -⟩ := (h.child (hmem c rfl)).self.shown (by omega)
      refine ⟨some c', ?_, (fun h => by cases h), fun hfaith => ?_⟩
      · refine .space (hw.imp fun ls hls => ?_)
        refine .fetchCount (hls.derives.raise hslot (by decide)) (hls.rows hslot ?_)
        rw [Expr.core_generic]
        exact hrows c rfl
      · rw [hf (hfaith c rfl)]
        rfl
  refine ⟨.fetch d n' percent withTies, ?_, fun hfaith => ?_⟩
  · rw [tokensOf_fetch_generic]
    have hsplits : Splits (optionalTokens .generic i [.space] n ++ fetchEndTokens percent withTies) :=
      (ends_optional ends_fetchEnd).splits
    refine .spacedKeyword fun t ht => ?_
    refine .keyword hsplits fun u hu => ?_
    refine hn.append ends_fetchEnd fun ls₁ h₁ => ?_
    refine fetchEnd_written fun ls₂ ls₃ ls₄ h₂ h₃ h₄ => ?_
    have hword : FetchWord d u := by
      cases d with
      | first => exact .first hu
      | next => exact .next hu
    simpa using Derives.fetch ht hword h₁ h₂ (fun h => hpercent (hnone h)) h₃ h₄
  · rw [Expr.settled_eq, hf fun c hc => hfaith.child (hmem c hc)]
    rfl

/-! ## counts -/

theorem one_written : Loose b [.raw "1"] (.literal (.int 1)) := by
  obtain ⟨v, hint, -, hv⟩ := literalOf?_natural 1
  refine Written.number (numberText_toDigits 1) (by simp) fun t ht htext => .nil ?_
  have hvalue := hv t ht htext
  rw [hint (by decide)] at hvalue
  exact (Derives.literal hvalue).raise (Nat.zero_le 8) (Nat.le_refl 8)

theorem minusOne_written : Loose b [.raw "-1"] (.unaryOp .minus (.literal (.int 1))) := by
  obtain ⟨v, hint, -, hv⟩ := literalOf?_natural 1
  refine @Written.negative b _ _ ['1'] "-1" rfl (numberText_toDigits 1) (by simp)
    fun t u ht hu htext => .nil ?_
  have hvalue := hv u hu htext
  rw [hint (by decide)] at hvalue
  exact (Derives.minus ht ((Derives.literal hvalue).raise (Nat.zero_le 1) (by decide))).raise
    (by decide) (Nat.le_refl 8)

/-! ## row limits -/

/-- The pieces of the row limit of a query.  SQLite prints one in front of an
offset that has none. -/
def printedLimit (b : Builtin) (i : Bool) (q : Select Expr) : Option (List Token) :=
  if b = .sqlite ∧ q.limit = none ∧ q.offset.isSome then
    some [.keyword .LIMIT, .space, .raw "-1"]
  else q.limit.map (tokensOf b i)

theorem tokensOf_select (q : Select Expr) :
    tokensOf b i (.select q) = clauseTokens b i q (rowLimitTokens b i q (printedLimit b i q)) := by
  have hbase : ((style b i).base (style b i).fragment (.select q)).tokens =
      clauseTokens b i q (rowLimitTokens b i q (q.limit.map (tokensOf b i))) := by
    rw [Style.base, tokens_query, Option.map_map]
    rfl
  cases b with
  | generic => rw [tokensOf_base rfl, hbase, printedLimit, if_neg (by simp)]
  | sqlite =>
    rw [tokensOf_custom (r := .select) rfl, Renderer.apply, Style.offsetBehindLimit, printedLimit]
    by_cases hmissing : q.limit.isNone && q.offset.isSome
    · rw [if_pos hmissing, tokens_query, if_pos (by simpa using hmissing)]
      rfl
    · rw [if_neg hmissing, hbase, if_neg (by simpa using hmissing)]

theorem fetchesLast_sqlite (q : Select Expr) : (style .sqlite i).fetchesLast q = false := by
  unfold Style.fetchesLast
  exact Bool.and_false _

theorem tokensOf_limit (count : Expr) :
    tokensOf b i (.limit count) = .keyword .LIMIT :: .space :: tokensOf b i count := by
  rw [tokensOf_base (by cases b <;> rfl)]
  rfl

theorem tokensOf_fetch_sqlite (d : FetchDirection) (n : Option Expr) (percent withTies : Bool) :
    tokensOf .sqlite i (.fetch d n percent withTies) =
      .keyword .LIMIT :: .space :: n.elim [.raw "1"] (tokensOf .sqlite i) := by
  rw [tokensOf_custom (r := .fetch) rfl]
  cases n <;> cases percent <;> cases withTies <;> rfl

theorem Expr.settled_limit (count : Expr) :
    (limit count).settled b i = limit (count.settled b i) := by
  rw [settled_eq]
  cases b <;> rfl

/-- What a query limits its rows to. -/
theorem limit_cases {q : Select Expr} (h : (Expr.select q).fault? = none) :
    q.limit = none ∨ (∃ count, q.limit = some (.limit count)) ∨
      ∃ d n percent withTies, q.limit = some (.fetch d n percent withTies) := by
  cases hl : q.limit with
  | none => exact .inl rfl
  | some l =>
    have hkind : l.kind = .limit ∨ l.kind = .fetch := by
      simp only [Expr.fault?, Select.fault?, hl, Option.map_some] at h
      split at h
      · cases h
      · split at h
        case h_1 heq => cases heq
        case h_2 heq => exact .inl (Option.some.inj heq)
        case h_3 heq => exact .inr (Option.some.inj heq)
        case h_4 => cases h
    cases l with
    | limit count => exact .inr (.inl ⟨count, rfl⟩)
    | fetch d n percent withTies => exact .inr (.inr ⟨d, n, percent, withTies, rfl⟩)
    | _ => simp [Expr.kind] at hkind

theorem rowLimit_written {q : Select Expr} (hsound : (Expr.select q).fault? = none)
    (hl : ∀ l ∈ q.limit, l.All (Ready b i))
    (ho : ∀ e ∈ q.offset, Shown b i e ∧ e.tier b ≤ 8) :
    ∃ l' o', Written b (rowLimitTokens b i q (printedLimit b i q))
        (fun ls => Derives b.dialect (.rowLimit l' o') ls) ∧
      (b = .generic → (∀ l ∈ q.limit, l.All (Faithful b)) → (∀ e ∈ q.offset, e.All (Faithful b)) →
        l' = q.limit.map (Expr.settled b i) ∧ o' = q.offset.map (Expr.settled b i)) := by
  have hplain (h : ∀ d n p w, q.limit ≠ some (.fetch d n p w)) :
      (style b i).fetchesLast q = false := by
    unfold Style.fetchesLast
    rcases limit_cases hsound with h' | ⟨count, h'⟩ | ⟨d, n, p, w, h'⟩
    · simp [h']
    · simp [h', Expr.kind]
    · exact absurd h' (h d n p w)
  obtain ⟨o', howritten, hof⟩ := @offset_written b i false q.offset ho
  rcases limit_cases hsound with hlimit | ⟨count, hlimit⟩ | ⟨d, n, percent, withTies, hlimit⟩
  · rw [rowLimitTokens, hplain (by simp [hlimit]), if_neg (by decide)]
    by_cases hmissing : b = .sqlite ∧ q.limit = none ∧ q.offset.isSome
    · refine ⟨some (.limit (.unaryOp .minus (.literal (.int 1)))), o', ?_, fun hb => ?_⟩
      · exact limit_written (by rw [printedLimit, if_pos hmissing]) minusOne_written howritten
      · exact absurd hmissing.1 (by simp [hb])
    · refine ⟨none, o', ?_, fun _ _ hf => ⟨by rw [hlimit]; rfl, hof hf⟩⟩
      rw [printedLimit, if_neg hmissing, hlimit]
      refine Written.imp howritten fun ls h => ?_
      simpa using Derives.offsetFetch h .noFetch
  · have hready := hl (.limit count) hlimit
    have hcount : count ∈ (Expr.limit count).children := List.mem_cons_self
    have hslot : count.tier b ≤ 8 := hready.self.clear.1 (8, count) (by
      cases b <;> exact List.mem_cons_self)
    obtain ⟨count', hc, hf⟩ := ((hready.child hcount).self.shown hslot).loose hslot
    rw [rowLimitTokens, hplain (by simp [hlimit]), if_neg (by decide)]
    refine ⟨some (.limit count'), o', ?_, fun _ hfl hfo => ⟨?_, hof hfo⟩⟩
    · refine limit_written ?_ hc howritten
      rw [printedLimit, if_neg (by simp [hlimit]), hlimit, Option.map_some, tokensOf_limit]
    · have hfaith := hfl (.limit count) hlimit
      rw [hf (hfaith.child hcount), hlimit, Option.map_some, Expr.settled_limit]
  · have hready := hl _ hlimit
    have hprinted : printedLimit b i q = some (tokensOf b i (.fetch d n percent withTies)) := by
      rw [printedLimit, if_neg (by simp [hlimit]), hlimit, Option.map_some]
    cases b with
    | generic =>
      obtain ⟨o', howritten, hof⟩ := @offset_written .generic i true q.offset ho
      obtain ⟨e', he, hf⟩ := fetch_written hready
      have hlast : (style .generic i).fetchesLast q = true := by
        unfold Style.fetchesLast
        rw [hlimit]
        rfl
      rw [rowLimitTokens, if_pos hlast, hprinted]
      refine ⟨some e', o', ?_, fun _ hfl hfo => ⟨?_, hof hfo⟩⟩
      · refine howritten.append (by simp [limitTokens]) fun ls h => ?_
        exact .space (he.imp fun ls' h' => .offsetFetch h h')
      · rw [hf (hfl _ hlimit), hlimit, Option.map_some]
    | sqlite =>
      rw [rowLimitTokens, fetchesLast_sqlite, if_neg (by decide), hprinted]
      have hcount : ∃ count', Loose .sqlite (n.elim [.raw "1"] (tokensOf .sqlite i)) count' := by
        cases n with
        | none => exact ⟨_, one_written⟩
        | some c =>
          have hslot : c.tier .sqlite ≤ 8 := hready.self.clear.1 (8, c) List.mem_cons_self
          obtain ⟨c', hc, -⟩ :=
            ((hready.child (by simp [Expr.children])).self.shown hslot).loose hslot
          exact ⟨c', hc⟩
      obtain ⟨count', hc⟩ := hcount
      exact ⟨_, o', limit_written (by rw [tokensOf_fetch_sqlite]) hc howritten, fun hb => by cases hb⟩

/-! ## queries -/

theorem ends_group {es : List Expr} (hu : Ends us) : Ends (groupTokens b i es ++ us) := by
  unfold groupTokens
  split
  · exact hu
  · simp

theorem ends_rowLimit (q : Select Expr) (l : Option (List Token)) :
    Ends (rowLimitTokens b i q l) := by
  unfold rowLimitTokens
  split <;> cases l <;> cases q.offset <;> simp [limitTokens, offsetTokens]

/-- The parts of a query behind its clauses. -/
theorem Written.query {q q' : Select Expr} {ts : List Token}
    (hp : Written b (commas (q.projections.map (tokensOf b i)))
      fun ls => Derives b.dialect (.projections q'.projections) ls)
    (hs : Written b (optionalTokens b i [.space, .keyword .FROM, .space] q.source)
      fun ls => Derives b.dialect (.source q'.source) ls)
    (hw : Written b (optionalTokens b i [.space, .keyword .WHERE, .space] q.filter)
      fun ls => Derives b.dialect (.clause .WHERE q'.filter) ls)
    (hg : Written b (groupTokens b i q.groupBy)
      fun ls => Derives b.dialect (.groupBy q'.groupBy) ls)
    (hh : Written b (optionalTokens b i [.space, .keyword .HAVING, .space] q.having)
      fun ls => Derives b.dialect (.clause .HAVING q'.having) ls)
    (ho : Written b (orderTokens (q.orderBy.map (itemTokens b i)))
      fun ls => Derives b.dialect (.orderBy q'.orderBy) ls)
    (hl : Written b ts fun ls => Derives b.dialect (.rowLimit q'.limit q'.offset) ls)
    (hends : Ends ts) (hd : q'.distinct = q.distinct) :
    Written b (clauseTokens b i q ts) fun ls => ∃ t us, ls = t :: us ∧
      t.kind = .keyword .SELECT ∧ Derives b.dialect (.query q') us := by
  obtain ⟨distinct', projections', source', filter', groupBy', having', orderBy', limit',
    offset'⟩ := q'
  cases hd
  have horder : Ends (orderTokens (q.orderBy.map (itemTokens b i)) ++ ts) := ends_orderTokens hends
  have hhaving := @ends_optional b i [.keyword .HAVING, .space] _ q.having horder
  have hgroup := @ends_group b i _ q.groupBy hhaving
  have hfilter := @ends_optional b i [.keyword .WHERE, .space] _ q.filter hgroup
  have hsource := @ends_optional b i [.keyword .FROM, .space] _ q.source hfilter
  refine .spacedKeyword fun t ht => ?_
  refine .distinct fun ls₀ h₀ => ?_
  refine hp.append hsource fun ls₁ h₁ => ?_
  refine hs.append hfilter fun ls₂ h₂ => ?_
  refine hw.append hgroup fun ls₃ h₃ => ?_
  refine hg.append hhaving fun ls₄ h₄ => ?_
  refine hh.append horder fun ls₅ h₅ => ?_
  refine ho.append hends fun ls₆ h₆ => ?_
  refine hl.imp fun ls₇ h₇ => ⟨t, _, rfl, ht, ?_⟩
  simpa using Derives.query h₀ h₁ h₂ h₃ h₄ h₅ h₆ h₇

theorem shown_query {q : Select Expr} (h : Prepared b i (.select q)) : ShownQuery b i q := by
  have hmem : ∀ c ∈ q.exprs, c.All (Ready b i) := h.children
  have hparts : ∀ c ∈ q.filter.toList ++ q.groupBy ++ q.having.toList ++
      q.orderBy.map OrderItem.expr ++ q.offset.toList, Shown b i c ∧ c.tier b ≤ 8 := by
    intro c hc
    have hslot : c.tier b ≤ 8 := by
      refine h.clear.1 (8, c) ?_
      cases b <;> exact List.mem_map_of_mem hc
    refine ⟨(hmem c ?_).self.shown hslot, hslot⟩
    simp only [Select.exprs, List.mem_append] at hc ⊢
    rcases hc with (((hc | hc) | hc) | hc) | hc <;> simp [hc]
  obtain ⟨hprojected, hsourced⟩ := h.proper.2
  have hne : q.projections ≠ [] := by
    intro hp
    have hsound := h.sound
    simp [Expr.fault?, Select.fault?, hp] at hsound
  obtain ⟨projections', hp, hfp⟩ := projections_written (i := i) hne fun p hp =>
    ⟨hmem p (by simp [Select.exprs, hp]), hprojected p hp, h.clear.2 p hp⟩
  obtain ⟨source', hs, hfs⟩ := from_written (b := b) (i := i) (s := q.source) fun s hs =>
    ⟨hmem s (by simp_all [Select.exprs]), hsourced s hs⟩
  obtain ⟨filter', hw, hfw⟩ := clause_written (b := b) (i := i) (k := .WHERE) (e := q.filter)
    fun c hc => hparts c (by simp_all)
  obtain ⟨groupBy', hg, hfg⟩ := @group_written b i q.groupBy
    fun c hc => hparts c (by simp_all)
  obtain ⟨having', hh, hfh⟩ := clause_written (b := b) (i := i) (k := .HAVING) (e := q.having)
    fun c hc => hparts c (by simp_all)
  obtain ⟨orderBy', ho, hfo⟩ := @order_written b i q.orderBy
    fun item hitem => hparts item.expr (by simp [List.mem_map_of_mem hitem])
  obtain ⟨limit', offset', hl, hfl⟩ := rowLimit_written (b := b) (i := i) h.sound
    (fun l hl => hmem l (by simp_all [Select.exprs])) fun c hc => hparts c (by simp_all)
  refine ⟨⟨q.distinct, projections', source', filter', groupBy', having', orderBy', limit',
    offset'⟩, ?_, fun hf => ?_⟩
  · rw [tokensOf_select]
    exact Written.query hp hs hw hg hh ho hl (ends_rowLimit q _) rfl
  · have hfaith : ∀ c ∈ q.exprs, c.All (Faithful b) := fun c hc => hf.child hc
    cases b with
    | sqlite => exact absurd hf.self (by simp [Faithful])
    | generic =>
      obtain ⟨rfl, rfl⟩ := hfl rfl (fun l hl => hfaith l (by simp_all [Select.exprs]))
        fun c hc => hfaith c (by simp_all [Select.exprs])
      rw [hfp rfl fun c hc => hfaith c (by simp [Select.exprs, hc]),
        hfs rfl fun c hc => hfaith c (by simp_all [Select.exprs]),
        hfw fun c hc => hfaith c (by simp_all [Select.exprs]),
        hfg fun c hc => hfaith c (by simp [Select.exprs, hc]),
        hfh fun c hc => hfaith c (by simp_all [Select.exprs]),
        hfo fun item hitem => hfaith item.expr (by
          simp [Select.exprs, List.mem_map.1 (List.mem_map_of_mem (f := OrderItem.expr) hitem)]),
        Expr.settled_eq]
      rfl

end SqlDialect
