import SqlDialect.Proofs.Columns.Call
import SqlDialect.Proofs.Rendering.Query

/-!
# SqlDialect.Proofs.Columns.Query

The columns of SQLite's text of a query.

* `Sources`, `Limits`, `Queries` -- what the text of a table, of a row limit and
  of a query does where it stands.
* `queries_select` -- the clauses of a query, one behind the other.
-/

namespace SqlDialect

open Text Grammar Watch

variable {i : Bool} {s : State} {us : List Token} {R : State → Prop} {a e : Expr}
  {es : List Expr} {o : Option Expr}

/-! ## parts -/

/-- The columns that a part of a query spells out, if it is there. -/
def showsPart (i : Bool) (o : Option Expr) : List Expr := o.toList.flatMap (Expr.shows i)

/-- The text of a tree stands where a table is due, and shows its columns. -/
def Sources (i : Bool) (e : Expr) : Prop :=
  ∀ ⦃s⦄, s.mode = .source → Leads (tokensOf .sqlite i e) s fun s' => Rests s s' (e.shows i)

/-- The text of a tree limits the rows, and shows its columns. -/
def Limits (i : Bool) (e : Expr) : Prop :=
  ∀ s, Leads (tokensOf .sqlite i e) s fun s' => Adds s s' (e.shows i) ∧ s'.mode.awaits = false

/-- The text of a tree is a query where an operand is due, and shows its
columns. -/
def Queries (i : Bool) (e : Expr) : Prop :=
  ∀ ⦃s⦄, s.mode = .due → s.nest = .free → Leads (tokensOf .sqlite i e) s fun s' =>
    Adds s s' (e.shows i)

theorem kept_query (h : Queries i a) : Kept i (.paren a) := by
  rw [Kept, tokensOf_paren, shows_paren]
  exact .parens fun s hs hn => h hs hn

/-! ## names -/

/-- An alias is no column. -/
theorem Leads.alias {n : Ident} (hn : Named n) (hu : Splits us)
    (h : ∀ s', Rests s s' [] → Leads us s' R) :
    Leads (.space :: .keyword .AS :: .space :: .raw (identText i n) :: us) s R := by
  have hrests : Rests s (s.turn .labelled) [] := ⟨adds_turn rfl, rfl, rfl⟩
  refine .space (.spacedKeyword rfl rfl ?_)
  exact .ident hn rfl hu (h _ hrests)

theorem kept_aliased {n : Ident} (ha : Kept i a) (hn : Named n) : Kept i (.aliased a n) := by
  have hshows : (Expr.aliased a n).shows i = a.shows i := shows_one rfl rfl
  intro s hs
  rw [tokensOf_aliased, hshows]
  refine .operand ha hs (by simp) fun s₁ h₁ => ?_
  refine .alias hn (by simp) fun s₂ h₂ => .nil ?_
  simpa using h₁.trans h₂

theorem sources_table {q x : Option Ident} {n : Ident} (hw : Writable (.table q n x)) :
    Sources i (.table q n x) := by
  have hshows : (Expr.table q n x).shows i = [] := shows_node rfl
  rintro ⟨m, nest, outer, cs⟩ rfl
  rw [tokensOf_table, hshows]
  have halias : Leads (aliasTokens i x) ⟨.sourced, nest, outer, cs⟩ fun s' =>
      Rests ⟨.source, nest, outer, cs⟩ s' [] := by
    have hrests : Rests ⟨.source, nest, outer, cs⟩ ⟨.sourced, nest, outer, cs⟩ [] :=
      ⟨⟨rfl, (List.append_nil _).symm⟩, rfl, rfl⟩
    cases x with
    | none => exact .nil hrests
    | some x =>
      exact .alias (hw.2.2 x rfl) (by simp) fun s' h => .nil (by simpa using hrests.trans h)
  have hsplits : Splits (aliasTokens i x) := by
    simpa using splits_alias (i := i) (x := x) splits_nil
  cases q with
  | none => exact .ident hw.2.1 rfl hsplits halias
  | some q => exact .dotted (hw.1 q rfl) hw.2.1 hsplits rfl rfl rfl rfl halias

/-! ## row limits -/

theorem limits_count {ts : List Token} {cs : List Expr} (h : Spells ts cs)
    (htokens : tokensOf .sqlite i e = .keyword .LIMIT :: .space :: ts) (hshows : e.shows i = cs) :
    Limits i e := by
  intro s
  rw [htokens, hshows]
  refine .spacedKeyword rfl rfl ?_
  exact .last h rfl fun s' h => ⟨h.toAdds.of_due, h.rests⟩

theorem limits_limit (ha : Kept i a) : Limits i (.limit a) :=
  limits_count ha (tokensOf_limit a) (shows_one rfl rfl)

theorem limits_fetch {d : FetchDirection} {percent withTies : Bool} (h : ∀ c ∈ o, Kept i c) :
    Limits i (.fetch d o percent withTies) := by
  have htokens := tokensOf_fetch_sqlite (i := i) d o percent withTies
  cases o with
  | none =>
    exact limits_count (spells_number (s := "1") (numberText_toDigits 1)) htokens (shows_node rfl)
  | some c => exact limits_count (h c rfl) htokens (shows_one rfl rfl)

/-- The row limit that SQLite has in front of an offset without one. -/
theorem limits_missing : Spells [.raw "-1"] [] := by
  intro s hs
  refine Written.negative rfl (numberText_toDigits 1) (by simp) fun t u ht hu _ => ?_
  refine .nil ⟨s.turn .due |>.turn .whole, ?_, ?_⟩
  · rw [run_to ht rfl rfl, run_to hu rfl rfl, run_nil]
  · exact Rests.of_turn rfl ⟨adds_turn rfl, rfl, rfl⟩

/-! ## clauses -/

theorem Leads.source (ho : ∀ c ∈ o, Sources i c) (hs : s.mode.awaits = false) (hu : Ends us)
    (h : ∀ s', Rests s s' (showsPart i o) → Leads us s' R) :
    Leads (optionalTokens .sqlite i [.space, .keyword .FROM, .space] o ++ us) s R := by
  cases o with
  | none => exact h s ⟨.refl s, hs, rfl⟩
  | some c =>
    refine .space (.spacedKeyword rfl rfl ?_)
    refine (ho c rfl rfl).append hu fun s₁ h₁ => ?_
    exact h s₁ (by simpa [showsPart] using h₁.of_turn rfl)

theorem Leads.group (hes : ∀ e ∈ es, Kept i e) (hs : s.mode.awaits = false)
    (hn : s.nest.comma = some s.nest) (hu : Ends us)
    (h : ∀ s', Rests s s' (es.flatMap (Expr.shows i)) → Leads us s' R) :
    Leads (groupTokens .sqlite i es ++ us) s R := by
  unfold groupTokens
  cases es with
  | nil => exact h s ⟨.refl s, hs, rfl⟩
  | cons e es =>
    have hlist := Leads.list (s := (s.turn .due).turn .due) (kept_all hes) (by simp) rfl hn
    refine .space (.spacedKeyword rfl rfl ?_)
    refine .spacedKeyword rfl rfl ?_
    refine hlist.append hu fun s₁ h₁ => h s₁ ?_
    rw [flatten_shows] at h₁
    exact (h₁.of_turn rfl).of_turn rfl

theorem Leads.ordering {items : List (OrderItem Expr)} (hi : ∀ item ∈ items, Kept i item.expr)
    (hs : s.mode.awaits = false) (hn : s.nest = .free) (hu : Ends us)
    (h : ∀ s', Rests s s' ((items.map OrderItem.expr).flatMap (Expr.shows i)) → Leads us s' R) :
    Leads (orderTokens (items.map (itemTokens .sqlite i)) ++ us) s R := by
  obtain ⟨m, n, o, cs⟩ := s
  obtain rfl : n = .free := hn
  unfold orderTokens
  cases items with
  | nil => exact h _ ⟨.refl _, hs, rfl⟩
  | cons item items =>
    refine .space (.spacedKeyword rfl rfl ?_)
    refine .spacedKeyword rfl rfl ?_
    refine (Leads.list (spells_items hi) (by simp) rfl rfl).append hu fun s₁ h₁ => h s₁ ?_
    have hshows : ((item :: items).map fun item => item.expr.shows i).flatten =
        ((item :: items).map OrderItem.expr).flatMap (Expr.shows i) := by
      simp [List.flatMap_def, Function.comp_def]
    rw [hshows] at h₁
    exact (h₁.of_turn rfl).of_turn (m := .due) rfl

/-- The row limit and the offset of a query. -/
theorem leads_rowLimit {q : Select Expr} (hs : s.mode.awaits = false)
    (hl : ∀ l ∈ q.limit, Limits i l) (ho : ∀ c ∈ q.offset, Kept i c) :
    Leads (rowLimitTokens .sqlite i q (printedLimit .sqlite i q)) s fun s' =>
      Adds s s' (showsPart i q.limit ++ showsPart i q.offset) := by
  have hoffset {s₁ : State} {cs : List Expr} (h₁ : Adds s s₁ cs) (hs₁ : s₁.mode.awaits = false) :
      Leads (offsetTokens .sqlite i false q.offset) s₁ fun s' =>
        Adds s s' (cs ++ showsPart i q.offset) := by
    unfold offsetTokens
    cases hq : q.offset with
    | none => exact .nil (by simpa [showsPart] using h₁)
    | some c =>
      refine .space (.offset hs₁ (by simp) (.space ?_))
      rw [rowsTokens, if_neg (by decide), List.append_nil]
      refine .last (ho c hq) rfl fun s₂ h₂ => ?_
      simpa [showsPart] using h₁.trans (h₂.of_turn rfl).toAdds
  have hends : Ends (offsetTokens .sqlite i false q.offset) := by
    unfold offsetTokens
    cases q.offset <;> simp
  rw [rowLimitTokens, fetchesLast_sqlite, if_neg (by decide), printedLimit]
  split
  case isTrue hmissing =>
    rw [hmissing.2.1]
    refine .space (.spacedKeyword rfl rfl ?_)
    exact .operand limits_missing rfl hends fun s₁ h₁ => hoffset h₁.toAdds.of_due h₁.rests
  case isFalse =>
    cases hq : q.limit with
    | none => exact hoffset (.refl s) hs
    | some l =>
      refine .space ?_
      refine (hl l hq s).append hends fun s₁ h₁ => ?_
      simpa [showsPart] using hoffset h₁.1 h₁.2

/-! ## queries -/

/-- Perhaps distinct rows, within parentheses or none. -/
theorem Leads.distinct {distinct : Bool} (hs : s.mode = .due) (hn : s.nest = .free)
    (h : ∀ s', Adds s s' [] → s'.mode = .due → s'.nest = .free → Leads us s' R) :
    Leads (distinctTokens distinct ++ us) s R := by
  obtain ⟨m, n, outer, cs⟩ := s
  obtain rfl : n = .free := hn
  cases distinct with
  | true => exact .spacedKeyword rfl rfl (h _ (adds_turn rfl) rfl rfl)
  | false => exact h _ (.refl _) hs rfl

theorem shows_select (q : Select Expr) :
    (Expr.select q).shows i = q.projections.flatMap (Expr.shows i) ++ (showsPart i q.source ++
      (showsPart i q.filter ++ (q.groupBy.flatMap (Expr.shows i) ++ (showsPart i q.having ++
        ((q.orderBy.map OrderItem.expr).flatMap (Expr.shows i) ++
          (showsPart i q.limit ++ showsPart i q.offset)))))) := by
  rw [shows_node rfl]
  simp [Expr.spelled, Expr.children, Select.exprs, showsPart]

theorem queries_select {q : Select Expr} (hne : q.projections ≠ [])
    (hp : ∀ p ∈ q.projections, Kept i p) (ht : ∀ t ∈ q.source, Sources i t)
    (hw : ∀ c ∈ q.filter, Kept i c) (hg : ∀ c ∈ q.groupBy, Kept i c)
    (hh : ∀ c ∈ q.having, Kept i c) (ho : ∀ item ∈ q.orderBy, Kept i item.expr)
    (hl : ∀ l ∈ q.limit, Limits i l) (hx : ∀ c ∈ q.offset, Kept i c) :
    Queries i (.select q) := by
  intro s hs hn
  rw [tokensOf_select, shows_select, clauseTokens]
  have horder := @ends_orderTokens _ (q.orderBy.map (itemTokens .sqlite i))
    (ends_rowLimit (b := .sqlite) (i := i) q (printedLimit .sqlite i q))
  have hhaving := @ends_optional .sqlite i [.keyword .HAVING, .space] _ q.having horder
  have hgroup := @ends_group .sqlite i _ q.groupBy hhaving
  have hfilter := @ends_optional .sqlite i [.keyword .WHERE, .space] _ q.filter hgroup
  have hsource := @ends_optional .sqlite i [.keyword .FROM, .space] _ q.source hfilter
  refine .spacedKeyword rfl rfl ?_
  refine .distinct rfl hn fun s₁ h₁ hs₁ hn₁ => ?_
  have hcomma : s₁.nest.comma = some s₁.nest := by
    rw [hn₁]
    rfl
  refine (Leads.list (kept_all hp) (by simpa using hne) hs₁ hcomma).append hsource fun s₂ h₂ => ?_
  rw [flatten_shows] at h₂
  refine .source ht h₂.rests hfilter fun s₃ h₃ => ?_
  refine .clause (by simp) hw h₃.rests hgroup fun s₄ h₄ => ?_
  have h₁₄ := (h₂.trans h₃).trans h₄
  refine .group hg h₄.rests (by rwa [h₁₄.nest]) hhaving fun s₅ h₅ => ?_
  refine .clause (by simp) hh h₅.rests horder fun s₆ h₆ => ?_
  have h₁₆ := (h₁₄.trans h₅).trans h₆
  refine .ordering ho h₆.rests (h₁₆.nest.trans hn₁) (ends_rowLimit q _) fun s₇ h₇ => ?_
  refine (leads_rowLimit h₇.rests hl hx).imp fun s₈ h₈ => ?_
  have hadds := (h₁.of_turn rfl).trans ((h₁₆.trans h₇).toAdds.trans h₈)
  simpa [showsPart] using hadds

end SqlDialect
