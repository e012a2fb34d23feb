import SqlDialect.Proofs.Columns.Reading

/-!
# SqlDialect.Proofs.Columns.Phrase

Watching the lexemes of a phrase gives the columns of what they are read as.

* `Watches` -- what watching lexemes does, wherever it comes to an end.
* `watches_call`, `watches_binary`, `watches_query`, … -- one lemma for each way
  to spell a phrase.
* `Derives.watches` -- all phrases, by induction on the derivation.
-/

namespace SqlDialect

open Text Watch

namespace Grammar

/-- Wherever watching these lexemes comes to an end, it has done what the phrase
does. -/
def Watches (p : Phrase) (ls : List Lexeme) : Prop :=
  ∀ ⦃s s' : State⦄, run s ls = some s' → p.Watched s s'

variable {t u v w : Lexeme} {i j : Ident} {e a c : Expr} {es : List Expr} {negated : Bool}
  {ns ls ls₁ ls₂ ls₃ : List Lexeme}

/-! ## operands -/

theorem watches_literal {x : Literal} (ht : literalOf? t = some x) :
    Watches (.expr 0 (.literal x)) [t] := by
  intro s s' hr hs
  rw [run_literal ht hs] at hr
  cases hr
  rw [Expr.columns_literal]
  exact ⟨adds_turn rfl, rfl, rfl⟩

/-- A star where an operand is due is one. -/
theorem star_watched {s s' : State} (ht : t.kind = .star) (hs : s.mode = .due)
    (hr : run s [t] = some s') : Passes s s' (Expr.star none).columns := by
  have hstar : s.mark .star = some (s.turn .whole) := by
    change s.star = _
    rw [State.star, hs]
  rw [run_to ht rfl hstar] at hr
  cases hr
  rw [Expr.columns_star]
  exact ⟨adds_turn rfl, rfl, rfl⟩

theorem watches_star (ht : t.kind = .star) : Watches (.expr 0 (.star none)) [t] :=
  fun _ _ hr hs => star_watched ht hs hr

theorem watches_starOf (ht : identOf? t = some i) (hu : u.kind = .dot) (hv : v.kind = .star) :
    Watches (.expr 0 (.star (some i))) [t, u, v] := by
  rintro ⟨m, n, o, cs⟩ s' hr (rfl : m = .due)
  rw [run_due ht, run_to hu rfl rfl, run_to hv rfl rfl] at hr
  cases hr
  exact ⟨⟨rfl, by simp [State.columns, State.turn, Mode.columns]⟩, rfl, rfl⟩

theorem watches_column (ht : identOf? t = some i) : Watches (.expr 0 (.column none i)) [t] := by
  rintro ⟨m, n, o, cs⟩ s' hr (rfl : m = .due)
  rw [run_due ht] at hr
  cases hr
  exact ⟨⟨rfl, by simp [State.columns, Mode.columns]⟩, rfl, rfl⟩

theorem watches_columnOf (ht : identOf? t = some i) (hu : u.kind = .dot)
    (hv : identOf? v = some j) : Watches (.expr 0 (.column (some i) j)) [t, u, v] := by
  rintro ⟨m, n, o, cs⟩ s' hr (rfl : m = .due)
  rw [run_due ht, run_to hu rfl rfl, run_behind hv] at hr
  cases hr
  exact ⟨⟨rfl, by simp [State.columns, Mode.columns]⟩, rfl, rfl⟩

/-- A call by the name that moves dates is not watched to its end: its unit is
written as a column is, and is none. -/
theorem watches_call {b : Builtin} (ht : identOf? t = some i) (hu : u.kind = .lparen)
    (hv : v.kind = .rparen) (he : b.dialect.call i.name es = .ok e) (hes : Watches (.args es) ls) :
    Watches (.expr 0 e) (t :: u :: ls ++ [v]) := by
  rintro ⟨m, n, o, cs⟩ s' hr (rfl : m = .due)
  rw [List.cons_append, List.cons_append, run_due ht] at hr
  by_cases hname : upper i.name = CallKind.dateAdd.name
  · have henter : State.mark ⟨.named i, n, o, cs⟩ .lparen = none := if_pos hname
    rw [run_mark hu rfl, henter] at hr
    cases hr
  · have henter : State.mark ⟨.named i, n, o, cs⟩ .lparen = some ⟨.due, .call, n :: o, cs⟩ :=
      if_neg hname
    rw [run_to hu rfl henter, run_append_eq_some] at hr
    obtain ⟨s₁, h₁, hr⟩ := hr
    rw [call_columns hname he]
    exact leave_watched hv (hes h₁ rfl rfl) (List.append_nil _).symm hr

theorem watches_caseWhen {o x : Option Expr} {ws : List (Expr × Expr)}
    (ht : t.kind = .keyword .CASE) (ho : Watches (.caseOperand o) ls₁)
    (hw : Watches (.whens ws) ls₂) (hx : Watches (.clause .ELSE x) ls₃)
    (hu : u.kind = .keyword .END) :
    Watches (.expr 0 (.caseWhen o ws x)) (t :: ls₁ ++ ls₂ ++ ls₃ ++ [u]) := by
  intro s s' hr hs
  simp only [List.cons_append, List.append_assoc] at hr
  rw [run_to ht rfl rfl, run_append_eq_some] at hr
  obtain ⟨s₁, h₁, hr⟩ := hr
  obtain ⟨s₂, h₂, hr⟩ := run_append_eq_some.1 hr
  obtain ⟨s₃, h₃, hr⟩ := run_append_eq_some.1 hr
  obtain ⟨hoperand, hon⟩ := ho h₁ rfl
  obtain ⟨hwhens, hwn⟩ := hw h₂
  obtain ⟨helse, hxn, -⟩ := hx h₃ (by simp)
  rw [run_to hu rfl rfl] at hr
  cases hr
  have hadds := (((adds_turn (m := .due) rfl).trans hoperand).trans (hwhens.trans helse)).trans
    (adds_turn (s := s₃) (m := .whole) rfl)
  refine ⟨?_, rfl, hxn.trans (hwn.trans hon)⟩
  rw [columns_node rfl]
  simpa [Expr.children] using hadds

theorem watches_cast {k : Keyword} {make : Expr → DataType → Expr} {type : DataType}
    (ht : t.kind = .keyword k) (hk : castOf? k = some make) (hu : u.kind = .lparen)
    (he : Watches (.expr 8 e) ls₁) (hv : v.kind = .keyword .AS) (hT : TypeOf type ls₂)
    (hw : w.kind = .rparen) :
    Watches (.expr 0 (make e type)) (t :: u :: ls₁ ++ v :: ls₂ ++ [w]) := by
  intro s s' hr hs
  obtain ⟨hname, hmark, hmake⟩ : (LexemeKind.keyword k).isName = false ∧
      s.mark (.keyword k) = some (s.turn .due) ∧ (make e type).columns = e.columns := by
    unfold castOf? at hk
    split at hk <;> cases hk <;> exact ⟨rfl, rfl, columns_one rfl rfl⟩
  simp only [List.cons_append, List.append_assoc] at hr
  rw [run_to ht hname hmark, run_to hu rfl rfl] at hr
  obtain ⟨s₁, h₁, hr⟩ := run_append_eq_some.1 hr
  rw [run_to hv rfl rfl] at hr
  obtain ⟨s₂, h₂, hr⟩ := run_append_eq_some.1 hr
  obtain ⟨s₃, h₃, htype⟩ := run_type hT
  cases h₃.symm.trans h₂
  have hadds := (he h₁ rfl).toAdds.trans (htype.toAdds.of_turn rfl)
  rw [hmake]
  simpa using leave_watched (s := s) hw hadds rfl hr

theorem watches_paren (ht : t.kind = .lparen) (he : Watches (.expr 8 e) ls)
    (hu : u.kind = .rparen) : Watches (.expr 0 (.paren e)) (t :: ls ++ [u]) := by
  rintro ⟨m, n, o, cs⟩ s' hr (rfl : m = .due)
  rw [List.cons_append, run_to ht rfl rfl] at hr
  obtain ⟨s₁, h₁, hr⟩ := run_append_eq_some.1 hr
  rw [columns_one (e := .paren e) rfl rfl]
  exact leave_watched hu (he h₁ rfl).toAdds (List.append_nil _).symm hr

theorem watches_subquery {q : Select Expr} (ht : t.kind = .lparen) (hu : u.kind = .keyword .SELECT)
    (hq : Watches (.query q) ls) (hv : v.kind = .rparen) :
    Watches (.expr 0 (.paren (.select q))) (t :: u :: ls ++ [v]) := by
  rintro ⟨m, n, o, cs⟩ s' hr (rfl : m = .due)
  rw [List.cons_append, List.cons_append, run_to ht rfl rfl, run_to hu rfl rfl] at hr
  obtain ⟨s₁, h₁, hr⟩ := run_append_eq_some.1 hr
  rw [columns_one (e := .paren (.select q)) rfl rfl]
  have hadds := (adds_turn (m := .due) rfl).trans (hq h₁ rfl)
  exact leave_watched hv hadds (List.append_nil _).symm hr

/-! ## operators -/

theorem watches_unaryOp {op : UnaryOperator} {k : LexemeKind} {n : Nat} (ht : t.kind = k)
    (hname : k.isName = false) (hmark : ∀ s : State, s.mark k = some (s.turn .due))
    (he : Watches (.expr n e) ls) : Watches (.expr n (.unaryOp op e)) (t :: ls) := by
  intro s s' hr _
  rw [run_to ht hname (hmark s)] at hr
  rw [columns_one (e := .unaryOp op e) rfl rfl]
  exact .of_turn rfl (he hr rfl)

theorem watches_binary {k : Nat} {make : Expr → Expr → Expr} (ha : Watches (.expr (k + 1) a) ls₁)
    (ht : operatorAt? (k + 1) t.kind = some make) (hc : Watches (.expr k c) ls₂) :
    Watches (.expr (k + 1) (make a c)) (ls₁ ++ t :: ls₂) := by
  intro s s' hr hs
  obtain ⟨s₁, h₁, hr⟩ := run_append_eq_some.1 hr
  obtain ⟨hname, hmake, hmark⟩ := operatorAt?_watched ht a c
  have hleft := ha h₁ hs
  rw [run_to rfl hname (hmark s₁ hleft.closed)] at hr
  rw [hmake]
  exact hleft.toAdds.passes hleft.nest (.of_turn rfl (hc hr rfl))

theorem watches_tested (ha : Watches (.expr 5 a) ls₁) (ht : Watches (.test a e) ls₂) :
    Watches (.expr 5 e) (ls₁ ++ ls₂) := by
  intro s s' hr hs
  obtain ⟨s₁, h₁, hr⟩ := run_append_eq_some.1 hr
  have hleft := ha h₁ hs
  obtain ⟨cs, hcs, htest⟩ := ht hr
  rw [hcs]
  exact hleft.toAdds.passes hleft.nest htest

/-! ## comparisons and predicates -/

theorem watches_compare {op : BinaryOperator} (ht : comparison? t.kind = some op)
    (hc : Watches (.expr 4 c) ls) : Watches (.test a (.binaryOp op a c)) (t :: ls) := by
  intro s s' hr
  obtain ⟨hname, hmark⟩ := comparison?_watched ht
  rw [run_to rfl hname (hmark s)] at hr
  exact ⟨c.columns, columns_two rfl rfl, .of_turn rfl (hc hr rfl)⟩

/-- A predicate with a word and one operand behind it. -/
theorem watches_predicate {k : LexemeKind} (hn : Flag .NOT negated ns) (ht : t.kind = k)
    (hname : k.isName = false) (hmark : ∀ s : State, s.mark k = some (s.turn .due))
    (hc : Watches (.expr 4 c) ls) (hown : e.ownColumns = []) (hchildren : e.children = [a, c]) :
    Watches (.test a e) (ns ++ t :: ls) := by
  intro s s' hr
  obtain ⟨s₁, h₁, hr⟩ := run_append_eq_some.1 hr
  obtain ⟨hadds, hnest, -⟩ := negation_watched hn h₁
  rw [run_to ht hname (hmark s₁)] at hr
  exact ⟨c.columns, columns_two hown hchildren, hadds.passes hnest (.of_turn rfl (hc hr rfl))⟩

theorem watches_between {low high : Expr} (hn : Flag .NOT negated ns)
    (ht : t.kind = .keyword .BETWEEN) (hl : Watches (.expr 4 low) ls₁)
    (hu : u.kind = .keyword .AND) (hh : Watches (.expr 4 high) ls₂) :
    Watches (.test a (.between negated a low high)) (ns ++ t :: ls₁ ++ u :: ls₂) := by
  intro s s' hr
  simp only [List.append_assoc, List.cons_append] at hr
  obtain ⟨s₁, h₁, hr⟩ := run_append_eq_some.1 hr
  obtain ⟨hadds, hnest, -⟩ := negation_watched hn h₁
  rw [run_to ht rfl rfl] at hr
  obtain ⟨s₂, h₂, hr⟩ := run_append_eq_some.1 hr
  have hlow : Passes s₁ s₂ low.columns := .of_turn rfl (hl h₂ rfl)
  rw [run_to hu rfl rfl] at hr
  have hhigh : Passes s₂ s' high.columns := .of_turn rfl (hh hr rfl)
  exact ⟨low.columns ++ high.columns, (columns_node rfl).trans (by simp [Expr.children]),
    hadds.passes hnest (hlow.toAdds.passes hlow.nest hhigh)⟩

theorem watches_inList (hn : Flag .NOT negated ns) (ht : t.kind = .keyword .IN)
    (hu : u.kind = .lparen) (hes : Watches (.exprs es) ls) (hv : v.kind = .rparen) :
    Watches (.test a (.inList negated a es)) (ns ++ t :: u :: ls ++ [v]) := by
  intro s s' hr
  simp only [List.append_assoc, List.cons_append] at hr
  obtain ⟨s₁, h₁, hr⟩ := run_append_eq_some.1 hr
  obtain ⟨hadds, hnest, -⟩ := negation_watched hn h₁
  rw [run_to ht rfl rfl, run_to hu rfl rfl] at hr
  obtain ⟨s₂, h₂, hr⟩ := run_append_eq_some.1 hr
  have hlist := leave_watched (s := s₁) hv (hes h₂ rfl).1 rfl hr
  exact ⟨columnsOf es, (columns_node rfl).trans (by simp [Expr.children]),
    hadds.passes hnest hlist⟩

theorem watches_isNull (ht : t.kind = .keyword .IS) (hn : Flag .NOT negated ns)
    (hu : u.kind = .keyword .NULL) :
    Watches (.test a (.isNull negated a)) (t :: ns ++ [u]) := by
  intro s s' hr
  rw [List.cons_append, run_to ht rfl rfl] at hr
  obtain ⟨s₁, h₁, hr⟩ := run_append_eq_some.1 hr
  obtain ⟨hadds, hnest, hdue⟩ := negation_watched hn h₁
  have hvalue : s₁.mark (.keyword .NULL) = some (s₁.turn .whole) := if_pos (hdue rfl)
  rw [run_to hu rfl hvalue] at hr
  cases hr
  exact ⟨[], (columns_one rfl rfl).trans (List.append_nil _).symm,
    .of_turn rfl (hadds.passes hnest ⟨adds_turn rfl, rfl, rfl⟩)⟩

/-! ## lists -/

theorem watches_exprsOne (he : Watches (.expr 8 e) ls) : Watches (.exprs [e]) ls := by
  intro s s' hr hs
  have h := he hr hs
  exact ⟨by simpa using h.toAdds, h.closed, congrArg some h.nest.symm⟩

theorem watches_exprsMore (he : Watches (.expr 8 e) ls₁) (ht : t.kind = .comma)
    (hes : Watches (.exprs es) ls₂) : Watches (.exprs (e :: es)) (ls₁ ++ t :: ls₂) := by
  intro s s' hr hs
  obtain ⟨s₁, h₁, hr⟩ := run_append_eq_some.1 hr
  have hfirst := he h₁ hs
  obtain ⟨n, hn, hr⟩ := comma_watched ht hr
  obtain ⟨hadds, hclosed, hlists⟩ := hes hr rfl
  rw [hfirst.nest] at hn
  exact ⟨hfirst.toAdds.trans hadds.of_due, hclosed, Nest.lists_succ hn hlists⟩

theorem watches_item {direction : Option SortDirection} (he : Watches (.expr 8 e) ls₁)
    (hd : DirectionOf direction ls₂) : Watches (.item ⟨e, direction⟩) (ls₁ ++ ls₂) := by
  intro s s' hr hs
  obtain ⟨s₁, h₁, hr⟩ := run_append_eq_some.1 hr
  exact direction_watched hd (he h₁ hs) hr

theorem watches_itemsOne {x : OrderItem Expr} (hx : Watches (.item x) ls) :
    Watches (.items [x]) ls := by
  intro s s' hr hs
  have h := hx hr hs
  exact ⟨by simpa using h.toAdds, h.closed⟩

theorem watches_itemsMore {x : OrderItem Expr} {xs : List (OrderItem Expr)}
    (hx : Watches (.item x) ls₁) (ht : t.kind = .comma) (hxs : Watches (.items xs) ls₂) :
    Watches (.items (x :: xs)) (ls₁ ++ t :: ls₂) := by
  intro s s' hr hs
  obtain ⟨s₁, h₁, hr⟩ := run_append_eq_some.1 hr
  have hfirst := hx h₁ hs
  obtain ⟨n, hn, hr⟩ := comma_watched ht hr
  obtain ⟨hadds, hclosed⟩ := hxs hr rfl
  exact ⟨hfirst.toAdds.trans hadds.of_due, hclosed⟩

/-! ## parts of calls and cases -/

theorem watches_separator (ht : t.kind = .word) : Watches (.separator (some e)) (t :: ls) := by
  intro s s' hr hs
  have hnone : s.mark .word = none := if_neg (Watch.Mode.ne_labelled hs)
  rw [run_rests ht (Mode.awaits_of_closed hs), hnone] at hr
  cases hr

/-- What a call gathers has the columns of what was written, unless an ordering
came behind a comma. -/
theorem gatherArgs_columns {distinct : Bool} {first : Expr} {others : List Expr}
    {items : List (OrderItem Expr)}
    (h : distinct = true ∨ others = [] ∨ items = []) :
    columnsOf (gatherArgs distinct first others items none) =
      columnsOf (first :: others) ++ columnsOf (items.map OrderItem.expr) := by
  have hdistinct (es : List Expr) : (Expr.distinct es).columns = columnsOf es :=
    columns_node rfl
  have horder (a : Expr) (items : List (OrderItem Expr)) :
      (Expr.order a items).columns = a.columns ++ columnsOf (items.map OrderItem.expr) :=
    columns_node rfl
  unfold gatherArgs
  cases distinct <;> cases items <;> simp_all

theorem watches_args {distinct : Bool} {first : Expr} {others : List Expr}
    {items : List (OrderItem Expr)} {x : Option Expr} {ls₀ : List Lexeme}
    (hd : Flag .DISTINCT distinct ls₀) (hes : Watches (.exprs (first :: others)) ls₁)
    (ho : Watches (.orderBy items) ls₂) (hx : Watches (.separator x) ls₃) :
    Watches (.args (gatherArgs distinct first others items x)) (ls₀ ++ ls₁ ++ ls₂ ++ ls₃) := by
  intro s s' hr hs hn
  simp only [List.append_assoc] at hr
  obtain ⟨s₁, h₁, hr⟩ := run_append_eq_some.1 hr
  obtain ⟨s₂, h₂, hr⟩ := run_append_eq_some.1 hr
  obtain ⟨s₃, h₃, hr⟩ := run_append_eq_some.1 hr
  obtain ⟨hdistinct, hdue, hnest⟩ := distinct_watched hd hs h₁
  obtain ⟨hexprs, hclosed, hlists⟩ := hes h₂ hdue
  obtain ⟨hitems, hclosed', -, horder⟩ := ho h₃
  obtain ⟨rfl, rfl⟩ := hx hr (hclosed' hclosed)
  -- an ordering behind a comma stops the reader
  have hone : distinct = true ∨ others = [] ∨ items = [] := by
    by_contra hmany
    simp only [not_or, Bool.not_eq_true] at hmany
    obtain ⟨rfl, hothers, hitems⟩ := hmany
    obtain ⟨e, es, rfl⟩ := List.exists_cons_of_ne_nil hothers
    rw [hnest, hn] at hlists
    have hlisted : Nest.listed = s₂.nest := Option.some.inj hlists
    rw [← hlisted] at horder
    exact horder hitems rfl
  rw [gatherArgs_columns hone]
  exact hdistinct.trans (hexprs.trans hitems)

theorem watches_caseOperand (he : Watches (.expr 8 e) ls) :
    Watches (.caseOperand (some e)) ls := by
  intro s s' hr hs
  have h := he hr hs
  exact ⟨by simpa using h.toAdds, h.nest⟩

theorem watches_whens {ws : List (Expr × Expr)} (ht : t.kind = .keyword .WHEN)
    (ha : Watches (.expr 8 a) ls₁) (hu : u.kind = .keyword .THEN) (hc : Watches (.expr 8 c) ls₂)
    (hw : Watches (.whens ws) ls₃) :
    Watches (.whens ((a, c) :: ws)) (t :: ls₁ ++ u :: ls₂ ++ ls₃) := by
  intro s s' hr
  simp only [List.append_assoc, List.cons_append] at hr
  rw [run_to ht rfl rfl] at hr
  obtain ⟨s₁, h₁, hr⟩ := run_append_eq_some.1 hr
  have hcondition : Passes s s₁ a.columns := .of_turn rfl (ha h₁ rfl)
  rw [run_to hu rfl rfl] at hr
  obtain ⟨s₂, h₂, hr⟩ := run_append_eq_some.1 hr
  have hresult : Passes s₁ s₂ c.columns := .of_turn rfl (hc h₂ rfl)
  obtain ⟨hwhens, hwn⟩ := hw hr
  exact ⟨by simpa using (hcondition.toAdds.trans hresult.toAdds).trans hwhens,
    hwn.trans (hresult.nest.trans hcondition.nest)⟩

/-! ## clauses -/

theorem watches_clause {k : Keyword} (ht : t.kind = .keyword k) (he : Watches (.expr 8 e) ls) :
    Watches (.clause k (some e)) (t :: ls) := by
  intro s s' hr hk
  obtain ⟨hname, hmark⟩ : (LexemeKind.keyword k).isName = false ∧
      s.mark (.keyword k) = some (s.turn .due) := by
    simp only [List.mem_cons, List.not_mem_nil, or_false] at hk
    rcases hk with rfl | rfl | rfl <;> exact ⟨rfl, rfl⟩
  rw [run_to ht hname hmark] at hr
  have h : Passes s s' e.columns := .of_turn rfl (he hr rfl)
  exact ⟨by simpa using h.toAdds, h.nest, fun _ => h.rests⟩

theorem watches_groupBy (ht : t.kind = .keyword .GROUP) (hu : u.kind = .keyword .BY)
    (hes : Watches (.exprs es) ls) : Watches (.groupBy es) (t :: u :: ls) := by
  intro s s' hr
  rw [run_to ht rfl rfl, run_to hu rfl rfl] at hr
  obtain ⟨hadds, hclosed, -⟩ := hes hr rfl
  exact ⟨(hadds.of_turn rfl).of_turn rfl, fun _ => Mode.awaits_of_closed hclosed⟩

theorem watches_orderBy {xs : List (OrderItem Expr)} (ht : t.kind = .keyword .ORDER)
    (hu : u.kind = .keyword .BY) (hxs : Watches (.items xs) ls) :
    Watches (.orderBy xs) (t :: u :: ls) := by
  intro s s' hr
  rw [run_mark ht rfl, Option.bind_eq_some_iff] at hr
  obtain ⟨s₁, h₁, hr⟩ := hr
  obtain ⟨n, hn, rfl⟩ := Option.map_eq_some_iff.1 h₁
  rw [run_to hu rfl rfl] at hr
  obtain ⟨hadds, hclosed⟩ := hxs hr rfl
  refine ⟨(hadds.of_turn rfl).of_due, fun _ => hclosed, fun _ => Mode.awaits_of_closed hclosed,
    fun _ hnone => ?_⟩
  rw [hn] at hnone
  cases hnone

theorem watches_allColumns (ht : t.kind = .star) : Watches (.projection (.star none)) [t] := by
  intro s s' hr hs
  have h := star_watched ht hs hr
  exact ⟨h.toAdds, h.rests⟩

theorem watches_projection (he : Watches (.expr 8 e) ls) : Watches (.projection e) ls := by
  intro s s' hr hs
  have h := he hr hs
  exact ⟨h.toAdds, h.rests⟩

theorem watches_aliased (he : Watches (.expr 8 e) ls₁) (ha : AliasOf (some i) ls₂) :
    Watches (.projection (.aliased e i)) (ls₁ ++ ls₂) := by
  intro s s' hr hs
  obtain ⟨s₁, h₁, hr⟩ := run_append_eq_some.1 hr
  have h := he h₁ hs
  obtain ⟨hadds, hrests⟩ := alias_watched ha h.rests (Watch.Mode.ne_labelled h.closed) hr
  rw [columns_node rfl]
  exact ⟨by simpa [Expr.children] using h.toAdds.trans hadds, hrests⟩

theorem watches_projectionsOne (he : Watches (.projection e) ls) :
    Watches (.projections [e]) ls := by
  intro s s' hr hs
  simpa using he hr hs

theorem watches_projectionsMore (he : Watches (.projection e) ls₁) (ht : t.kind = .comma)
    (hes : Watches (.projections es) ls₂) :
    Watches (.projections (e :: es)) (ls₁ ++ t :: ls₂) := by
  intro s s' hr hs
  obtain ⟨s₁, h₁, hr⟩ := run_append_eq_some.1 hr
  obtain ⟨hfirst, -⟩ := he h₁ hs
  obtain ⟨n, hn, hr⟩ := comma_watched ht hr
  obtain ⟨hadds, hrests⟩ := hes hr rfl
  exact ⟨hfirst.trans hadds.of_due, hrests⟩

/-! ## tables -/

theorem watches_table {schema x : Option Ident} {name : Ident} (hn : NameOf schema name ls₁)
    (ha : AliasOf x ls₂) : Watches (.table (.table schema name x)) (ls₁ ++ ls₂) := by
  rintro ⟨m, n, o, cs⟩ s' hr (rfl : m = .source)
  obtain ⟨s₁, h₁, hr⟩ := run_append_eq_some.1 hr
  obtain rfl := name_watched hn h₁
  obtain ⟨hadds, hrests⟩ := alias_watched ha rfl (by simp) hr
  rw [columns_node rfl]
  exact ⟨⟨hadds.outer, hadds.columns⟩, hrests⟩

/-- A sample of a table is not watched to its end. -/
theorem watches_tableSample (ht : t.kind = .keyword .TABLESAMPLE) :
    Watches (.table e) (ls₁ ++ ls₂ ++ t :: ls₃) := by
  intro s s' hr hs
  rw [List.append_assoc] at hr
  obtain ⟨s₁, -, hr⟩ := run_append_eq_some.1 hr
  obtain ⟨s₂, -, hr⟩ := run_append_eq_some.1 hr
  have hnone : s₂.mark (.keyword .TABLESAMPLE) = none := rfl
  rw [run_mark ht rfl, hnone] at hr
  cases hr

theorem watches_source (ht : t.kind = .keyword .FROM) (he : Watches (.table e) ls) :
    Watches (.source (some e)) (t :: ls) := by
  intro s s' hr
  rw [run_to ht rfl rfl] at hr
  obtain ⟨hadds, hrests⟩ := he hr rfl
  exact ⟨by simpa using hadds.of_turn rfl, fun _ => hrests⟩

/-! ## row limits -/

theorem watches_offset (ht : t.kind = .keyword .OFFSET) (he : Watches (.expr 8 e) ls₁)
    (hrows : ls₂ = [] ∨ RowsWord ls₂) : Watches (.offset (some e)) (t :: ls₁ ++ ls₂) := by
  intro s s' hr hs
  rw [List.cons_append, run_rests ht hs] at hr
  obtain ⟨s₁, h₁, hr⟩ := run_append_eq_some.1 (show run (s.turn .due) _ = some s' from hr)
  have h := he h₁ rfl
  obtain rfl | hrows := hrows
  · cases hr
    exact ⟨by simpa using h.toAdds.of_turn rfl, h.rests⟩
  · rw [rows_watched hrows h.rests] at hr
    cases hr

/-- A fetch clause is not watched to its end. -/
theorem watches_fetch (ht : t.kind = .keyword .FETCH) : Watches (.fetch (some e)) (t :: ls) := by
  intro s s' hr hs
  have hnone : s.mark (.keyword .FETCH) = none := rfl
  rw [run_rests ht hs, hnone] at hr
  cases hr

/-- Nor is a row limit with a comma. -/
theorem watches_limitPair (ht : t.kind = .keyword .LIMIT) (ha : Watches (.expr 8 a) ls₁)
    (hu : u.kind = .comma) :
    Watches (.rowLimit (some (.limit c)) (some a)) (t :: ls₁ ++ u :: ls₂) := by
  intro s s' hr _
  rw [List.cons_append, run_to ht rfl rfl] at hr
  obtain ⟨s₁, h₁, hr⟩ := run_append_eq_some.1 hr
  obtain ⟨n, hn, -⟩ := comma_watched hu hr
  rw [(ha h₁ rfl).nest] at hn
  cases hn

theorem watches_limit {o : Option Expr} (ht : t.kind = .keyword .LIMIT)
    (hc : Watches (.expr 8 c) ls₁) (ho : Watches (.offset o) ls₂) :
    Watches (.rowLimit (some (.limit c)) o) (t :: ls₁ ++ ls₂) := by
  intro s s' hr _
  rw [List.cons_append, run_to ht rfl rfl] at hr
  obtain ⟨s₁, h₁, hr⟩ := run_append_eq_some.1 hr
  have hcount := hc h₁ rfl
  obtain ⟨hoffset, -⟩ := ho hr hcount.rests
  have hcolumns : (Expr.limit c).columns = c.columns := columns_one rfl rfl
  have hadds := hcount.toAdds.of_due.trans hoffset
  rwa [← hcolumns] at hadds

theorem watches_offsetFetch {o f : Option Expr} (ho : Watches (.offset o) ls₁)
    (hf : Watches (.fetch f) ls₂) : Watches (.rowLimit f o) (ls₁ ++ ls₂) := by
  intro s s' hr hs
  obtain ⟨s₁, h₁, hr⟩ := run_append_eq_some.1 hr
  obtain ⟨hoffset, hrests⟩ := ho h₁ hs
  obtain ⟨rfl, rfl⟩ := hf hr hrests
  exact hoffset

/-! ## queries -/

theorem watches_query {q : Select Expr} {ls₀ ls₄ ls₅ ls₆ ls₇ : List Lexeme}
    (hd : Flag .DISTINCT q.distinct ls₀) (hp : Watches (.projections q.projections) ls₁)
    (hs : Watches (.source q.source) ls₂) (hw : Watches (.clause .WHERE q.filter) ls₃)
    (hg : Watches (.groupBy q.groupBy) ls₄) (hh : Watches (.clause .HAVING q.having) ls₅)
    (ho : Watches (.orderBy q.orderBy) ls₆) (hl : Watches (.rowLimit q.limit q.offset) ls₇) :
    Watches (.query q) (ls₀ ++ ls₁ ++ ls₂ ++ ls₃ ++ ls₄ ++ ls₅ ++ ls₆ ++ ls₇) := by
  intro s s' hr hdue
  simp only [List.append_assoc] at hr
  obtain ⟨s₁, h₁, hr⟩ := run_append_eq_some.1 hr
  obtain ⟨s₂, h₂, hr⟩ := run_append_eq_some.1 hr
  obtain ⟨s₃, h₃, hr⟩ := run_append_eq_some.1 hr
  obtain ⟨s₄, h₄, hr⟩ := run_append_eq_some.1 hr
  obtain ⟨s₅, h₅, hr⟩ := run_append_eq_some.1 hr
  obtain ⟨s₆, h₆, hr⟩ := run_append_eq_some.1 hr
  obtain ⟨s₇, h₇, hr⟩ := run_append_eq_some.1 hr
  obtain ⟨hdistinct, hdue, -⟩ := distinct_watched hd hdue h₁
  obtain ⟨hprojections, hrp⟩ := hp h₂ hdue
  obtain ⟨hsource, hrs⟩ := hs h₃
  obtain ⟨hfilter, -, hrw⟩ := hw h₄ (by simp)
  obtain ⟨hgroup, hrg⟩ := hg h₅
  obtain ⟨hhaving, -, hrh⟩ := hh h₆ (by simp)
  obtain ⟨horder, -, hro, -⟩ := ho h₇
  have hlimit := hl hr (hro (hrh (hrg (hrw (hrs hrp)))))
  have hadds := hdistinct.trans (hprojections.trans (hsource.trans (hfilter.trans (hgroup.trans
    (hhaving.trans (horder.trans hlimit))))))
  rw [columns_node rfl]
  simpa [Expr.children, Select.exprs] using hadds

/-! ## all phrases -/

/-- Watching the lexemes of a phrase gives the columns of what they are read
as. -/
theorem Derives.watches {b : Builtin} {p : Phrase} (h : Derives b.dialect p ls) :
    Watches p ls := by
  induction h with
  | literal ht => exact watches_literal ht
  | star ht => exact watches_star ht
  | starOf ht hu hv => exact watches_starOf ht hu hv
  | column ht => exact watches_column ht
  | columnOf ht hu hv => exact watches_columnOf ht hu hv
  | call ht _ hu _ hv he ih => exact watches_call ht hu hv he ih
  | caseWhen ht _ _ _ _ hu iho ihw ihx => exact watches_caseWhen ht iho ihw ihx hu
  | cast ht hk hu _ hv hT hw ih => exact watches_cast ht hk hu ih hv hT hw
  | paren ht _ hu ih => exact watches_paren ht ih hu
  | subquery ht hu _ hv ih => exact watches_subquery ht hu ih hv
  | minus ht _ ih | not ht _ ih => exact watches_unaryOp ht rfl (fun _ => rfl) ih
  | binary _ ht _ iha ihc => exact watches_binary iha ht ihc
  | tested _ _ iha iht => exact watches_tested iha iht
  | lift _ _ ih => exact ih
  | compare ht _ ih => exact watches_compare ht ih
  | like hn ht _ ih | ilike hn ht _ ih =>
    exact watches_predicate hn ht rfl (fun _ => rfl) ih rfl rfl
  | between hn ht _ hu _ ihl ihh => exact watches_between hn ht ihl hu ihh
  | inList hn ht hu _ hv ih => exact watches_inList hn ht hu ih hv
  | isNull ht hn hu => exact watches_isNull ht hn hu
  | exprsOne _ ih => exact watches_exprsOne ih
  | exprsMore _ ht _ ihe ihs => exact watches_exprsMore ihe ht ihs
  | item _ hd ih => exact watches_item ih hd
  | itemsOne _ ih => exact watches_itemsOne ih
  | itemsMore _ ht _ ihi ihs => exact watches_itemsMore ihi ht ihs
  | separator ht _ _ _ => exact watches_separator ht
  | args hd _ _ _ ihe iho ihs => exact watches_args hd ihe iho ihs
  | caseOperand _ ih => exact watches_caseOperand ih
  | whens ht _ hu _ _ iha ihc ihw => exact watches_whens ht iha hu ihc ihw
  | clause ht _ ih => exact watches_clause ht ih
  | groupBy ht hu _ ih => exact watches_groupBy ht hu ih
  | orderBy ht hu _ ih => exact watches_orderBy ht hu ih
  | allColumns ht => exact watches_allColumns ht
  | projection _ _ ih => exact watches_projection ih
  | aliased _ _ ha ih => exact watches_aliased ih ha
  | projectionsOne _ ih => exact watches_projectionsOne ih
  | projectionsMore _ ht _ ihe ihs => exact watches_projectionsMore ihe ht ihs
  | table hn ha => exact watches_table hn ha
  | tableSample _ _ ht =>
    simp only [List.append_assoc, List.cons_append]
    rw [← List.append_assoc]
    exact watches_tableSample ht
  | source ht _ ih => exact watches_source ht ih
  | offset ht _ hrows ih => exact watches_offset ht ih hrows
  | noCount | fetchCount => exact fun _ _ _ => trivial
  | fetch ht =>
    simp only [List.append_assoc, List.cons_append]
    exact watches_fetch ht
  | limitPair ht _ hu _ iho _ => exact watches_limitPair ht iho hu
  | limit ht _ _ ihc iho => exact watches_limit ht ihc iho
  | offsetFetch _ _ iho ihf => exact watches_offsetFetch iho ihf
  | query hd _ _ _ _ _ _ _ ihp ihs ihw ihg ihh iho ihl =>
    exact watches_query (q := ⟨_, _, _, _, _, _, _, _, _⟩) hd ihp ihs ihw ihg ihh iho ihl
  -- parts that are not there
  | noSeparator | noFetch =>
    rintro s _ ⟨⟩ _
    exact ⟨rfl, rfl⟩
  | noArgs =>
    rintro s _ ⟨⟩ _ _
    exact .refl s
  | noCaseOperand =>
    rintro s _ ⟨⟩ _
    exact ⟨.refl s, rfl⟩
  | noWhens =>
    rintro s _ ⟨⟩
    exact ⟨.refl s, rfl⟩
  | noClause =>
    rintro s _ ⟨⟩ _
    exact ⟨.refl s, rfl, id⟩
  | noGroupBy | noSource =>
    rintro s _ ⟨⟩
    exact ⟨.refl s, id⟩
  | noOrderBy =>
    rintro s _ ⟨⟩
    exact ⟨.refl s, id, id, fun h => absurd rfl h⟩
  | noOffset =>
    rintro s _ ⟨⟩ hs
    exact ⟨.refl s, hs⟩

end Grammar

end SqlDialect
