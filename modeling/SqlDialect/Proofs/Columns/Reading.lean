import SqlDialect.Proofs.Columns.Watch
import SqlDialect.Proofs.Grammar.Proper
import SqlDialect.Proofs.Rendering.Call

/-!
# SqlDialect.Proofs.Columns.Reading

The columns of the tree that lexemes are read as are those that the watching
reader collects, wherever it comes to an end.

* `Phrase.Watched` -- what watching the lexemes of a phrase does.
* `columns_node`, `build_columns`, `call_columns` -- the columns of a node.
* `operatorAt?_watched`, `alias_watched`, … -- the parts of phrases that hold no
  expressions.
-/

namespace SqlDialect

open Text Watch

namespace Grammar

/-! ## phrases -/

/-- The columns of trees in a row. -/
def columnsOf (es : List Expr) : List Expr := es.flatMap Expr.columns

/-- What watching the lexemes of a phrase does. -/
def Phrase.Watched : Phrase → State → State → Prop
  | .expr _ e, s, s' => s.mode = .due → Passes s s' e.columns
  | .test a e, s, s' => ∃ cs, e.columns = a.columns ++ cs ∧ Passes s s' cs
  | .exprs es, s, s' => s.mode = .due → Adds s s' (columnsOf es) ∧ s'.mode.closed = true ∧
      s.nest.lists es.length = some s'.nest
  | .item i, s, s' => s.mode = .due → Passes s s' i.expr.columns
  | .items is, s, s' => s.mode = .due → Adds s s' (columnsOf (is.map OrderItem.expr)) ∧
      s'.mode.closed = true
  | .clause k e, s, s' => k ∈ [.WHERE, .HAVING, .ELSE] → Adds s s' (columnsOf e.toList) ∧
      s'.nest = s.nest ∧ (s.mode.awaits = false → s'.mode.awaits = false)
  | .groupBy es, s, s' => Adds s s' (columnsOf es) ∧
      (s.mode.awaits = false → s'.mode.awaits = false)
  | .orderBy is, s, s' => Adds s s' (columnsOf (is.map OrderItem.expr)) ∧
      (s.mode.closed = true → s'.mode.closed = true) ∧
      (s.mode.awaits = false → s'.mode.awaits = false) ∧ (is ≠ [] → s.nest.order ≠ none)
  | .separator e, s, s' => s.mode.closed = true → e = none ∧ s' = s
  | .args es, s, s' => s.mode = .due → s.nest = .call → Adds s s' (columnsOf es)
  | .caseOperand e, s, s' => s.mode = .due → Adds s s' (columnsOf e.toList) ∧ s'.nest = s.nest
  | .whens ws, s, s' =>
    Adds s s' (columnsOf (ws.flatMap fun w => [w.1, w.2])) ∧ s'.nest = s.nest
  | .projection e, s, s' => s.mode = .due → Adds s s' e.columns ∧ s'.mode.awaits = false
  | .projections es, s, s' => s.mode = .due → Adds s s' (columnsOf es) ∧ s'.mode.awaits = false
  | .table e, s, s' => s.mode = .source → Adds s s' e.columns ∧ s'.mode.awaits = false
  | .source e, s, s' => Adds s s' (columnsOf e.toList) ∧
      (s.mode.awaits = false → s'.mode.awaits = false)
  | .offset e, s, s' => s.mode.awaits = false → Adds s s' (columnsOf e.toList) ∧
      s'.mode.awaits = false
  | .fetchCount _, _, _ => True
  | .fetch e, s, s' => s.mode.awaits = false → e = none ∧ s' = s
  | .rowLimit l o, s, s' => s.mode.awaits = false → Adds s s' (columnsOf (l.toList ++ o.toList))
  | .query q, s, s' => s.mode = .due → Adds s s' (Expr.select q).columns

@[simp] theorem columnsOf_nil : columnsOf [] = [] := rfl

@[simp] theorem columnsOf_cons (e : Expr) (es : List Expr) :
    columnsOf (e :: es) = e.columns ++ columnsOf es := rfl

@[simp] theorem columnsOf_append (es fs : List Expr) :
    columnsOf (es ++ fs) = columnsOf es ++ columnsOf fs := List.flatMap_append

/-- The columns of a node that is none itself are those of its children. -/
theorem columns_node {e : Expr} (h : e.ownColumns = []) : e.columns = columnsOf e.children := by
  rw [Expr.columns_eq, h, List.nil_append, columnsOf]

theorem columns_one {e a : Expr} (h : e.ownColumns = []) (hchildren : e.children = [a]) :
    e.columns = a.columns := by
  rw [columns_node h, hchildren, columnsOf_cons, columnsOf_nil, List.append_nil]

theorem columns_two {e a c : Expr} (h : e.ownColumns = []) (hchildren : e.children = [a, c]) :
    e.columns = a.columns ++ c.columns := by
  rw [columns_node h, hchildren, columnsOf_cons, columnsOf_cons, columnsOf_nil, List.append_nil]

/-! ## calls -/

/-- A node that a call becomes has the columns of the arguments, unless one of
them was a unit. -/
theorem build_columns {k : CallKind} {es : List Expr} {e : Expr} (hk : k ≠ .dateAdd)
    (h : k.build es = .ok e) : e.columns = columnsOf es := by
  unfold CallKind.build at h
  split at h
  case h_6 | h_7 => exact absurd rfl hk
  case h_18 => cases h
  all_goals
    cases h
    exact columns_node rfl

theorem call_columns {b : Builtin} {name : String} {es : List Expr} {e : Expr}
    (hname : upper name ≠ CallKind.dateAdd.name) (h : b.dialect.call name es = .ok e) :
    e.columns = columnsOf es := by
  rw [Builtin.call_dialect] at h
  split at h
  case h_1 k hk =>
    refine build_columns ?_ h
    rintro rfl
    have hgeneric := (function?_eq_some hk).resolve_left (by simp)
    have hfind : CallKind.ofName? (upper name) = some .dateAdd := by
      rwa [Builtin.function?] at hgeneric
    have := List.find?_some hfind
    exact hname (of_decide_eq_true this).symm
  case h_2 =>
    cases h
    exact columns_node rfl

/-! ## lexemes -/

variable {s s' : State} {t : Lexeme} {ls : List Lexeme}

/-- A literal where an operand is due. -/
theorem run_literal {v : Literal} (ht : literalOf? t = some v) (hs : s.mode = .due) :
    run s (t :: ls) = run (s.turn .whole) ls := by
  have hvalue : s.value = some (s.turn .whole) := if_pos hs
  unfold literalOf? at ht
  split at ht
  case h_8 => cases ht
  all_goals
    refine run_to ‹t.kind = _› rfl ?_
    exact hvalue

/-- An operator between operands. -/
theorem operatorAt?_watched {n : Nat} {k : LexemeKind} {make : Expr → Expr → Expr}
    (h : operatorAt? (n + 1) k = some make) (a c : Expr) :
    k.isName = false ∧ (make a c).columns = a.columns ++ c.columns ∧
      ∀ s : State, s.mode.closed = true → s.mark k = some (s.turn .due) := by
  have hmake : (make a c).columns = a.columns ++ c.columns := by
    rcases operatorAt?_shape h a c with ⟨op, heq, -⟩ | ⟨-, heq | heq⟩ <;>
      rw [heq, columns_node rfl] <;> simp [Expr.children]
  have hstar {s : State} (hs : s.mode.closed = true) : s.star = some (s.turn .due) := by
    unfold State.star
    split <;> simp_all [Mode.closed]
  generalize n + 1 = m at h
  unfold operatorAt? at h
  split at h
  case h_1 =>
    unfold joinOperator? at h
    split at h <;> cases h <;> exact ⟨rfl, hmake, fun _ _ => rfl⟩
  case h_2 =>
    unfold productOperator? at h
    split at h <;> cases h
    · exact ⟨rfl, hmake, fun _ => hstar⟩
    · exact ⟨rfl, hmake, fun _ _ => rfl⟩
    · exact ⟨rfl, hmake, fun _ _ => rfl⟩
  case h_3 =>
    unfold sumOperator? at h
    split at h <;> cases h <;> exact ⟨rfl, hmake, fun _ _ => rfl⟩
  case h_4 =>
    unfold andOperator? at h
    split at h <;> cases h
    exact ⟨rfl, hmake, fun _ _ => rfl⟩
  case h_5 =>
    unfold orOperator? at h
    split at h <;> cases h
    exact ⟨rfl, hmake, fun _ _ => rfl⟩
  case h_6 => cases h

theorem comparison?_watched {k : LexemeKind} {op : BinaryOperator} (h : comparison? k = some op) :
    k.isName = false ∧ ∀ s : State, s.mark k = some (s.turn .due) := by
  unfold comparison? at h
  split at h <;> cases h <;> exact ⟨rfl, fun _ => rfl⟩

/-- A negation leaves the next operand due, if one is. -/
theorem negation_watched {negated : Bool} {ns : List Lexeme} (hn : Flag .NOT negated ns)
    (h : run s ns = some s') :
    Adds s s' [] ∧ s'.nest = s.nest ∧ (s.mode = .due → s'.mode = .due) := by
  cases hn with
  | absent =>
    cases h
    exact ⟨.refl s, rfl, id⟩
  | present ht =>
    rw [run_to ht rfl rfl] at h
    cases h
    exact ⟨adds_turn rfl, rfl, fun _ => rfl⟩

/-- The end of parentheses, behind what they hold. -/
theorem leave_watched {n : Nest} {cs ds : List Expr} (hv : t.kind = .rparen)
    (hs : Adds ⟨.due, n, s.nest :: s.outer, cs⟩ s' ds) (hcs : cs = s.columns) {s'' : State}
    (h : run s' [t] = some s'') : Passes s s'' ds := by
  obtain ⟨s₁, hleave, hpasses⟩ := hs.leave hcs
  rw [run_to hv rfl hleave] at h
  cases h
  exact hpasses

/-! ## parts of clauses -/

/-- A comma, where one may come. -/
theorem comma_watched (ht : t.kind = .comma) (h : run s (t :: ls) = some s') :
    ∃ n, s.nest.comma = some n ∧ run ⟨.due, n, s.outer, s.columns⟩ ls = some s' := by
  rw [run_mark ht rfl, Option.bind_eq_some_iff] at h
  obtain ⟨s₁, h₁, h⟩ := h
  obtain ⟨n, hn, rfl⟩ := Option.map_eq_some_iff.1 h₁
  exact ⟨n, hn, h⟩

theorem direction_watched {direction : Option SortDirection} {cs : List Expr} {s₁ : State}
    (hd : DirectionOf direction ls) (h : Passes s s₁ cs) (hr : run s₁ ls = some s') :
    Passes s s' cs := by
  cases hd with
  | none => cases hr; exact h
  | asc ht | desc ht =>
    rw [run_to ht rfl rfl] at hr
    cases hr
    rw [← List.append_nil cs]
    exact ⟨h.toAdds.trans (adds_turn rfl), rfl, h.nest⟩

/-- Distinct expressions start as others do, in parentheses that any ordering
may follow in. -/
theorem distinct_watched {distinct : Bool} (hd : Flag .DISTINCT distinct ls) (hs : s.mode = .due)
    (h : run s ls = some s') :
    Adds s s' [] ∧ s'.mode = .due ∧ s'.nest = if distinct then s.nest.distinct else s.nest := by
  cases hd with
  | absent => cases h; exact ⟨.refl s, hs, rfl⟩
  | present ht =>
    rw [run_to ht rfl rfl] at h
    cases h
    exact ⟨⟨rfl, rfl⟩, rfl, rfl⟩

theorem name_watched {schema : Option Ident} {name : Ident} {n : Nest} {o : List Nest}
    {cs : List Expr} (hn : NameOf schema name ls) (h : run ⟨.source, n, o, cs⟩ ls = some s') :
    s' = ⟨.sourced, n, o, cs⟩ := by
  cases hn with
  | plain ht =>
    rw [run_source ht] at h
    cases h
    rfl
  | qualified ht hu hv =>
    rw [run_source ht, run_to hu rfl rfl, run_source hv] at h
    cases h
    rfl

/-- An alias is written behind `AS`: a bare one looks like a column. -/
theorem alias_watched {x : Option Ident} (ha : AliasOf x ls) (hs : s.mode.awaits = false)
    (hl : s.mode ≠ .labelled) (h : run s ls = some s') :
    Adds s s' [] ∧ s'.mode.awaits = false := by
  cases ha with
  | none => cases h; exact ⟨.refl s, hs⟩
  | named ht hu =>
    rw [run_to ht rfl rfl] at h
    have hadds : Adds s (s.turn .label) [] := adds_turn rfl
    rw [State.turn, run_label hu] at h
    cases h
    exact ⟨⟨hadds.outer, hadds.columns⟩, rfl⟩
  | @bare t i hb _ =>
    have hnone : s.mark t.kind = none := by
      unfold isBareAlias at hb
      split at hb
      case h_1 hk => rw [hk]; exact if_neg hl
      case h_2 hk => rw [hk]; rfl
      case h_3 => cases hb
    rw [run_rests rfl hs, hnone] at h
    cases h

theorem rows_watched (hr : RowsWord ls) (hs : s.mode.awaits = false) : run s ls = none := by
  cases hr with
  | rows ht | row ht =>
    rw [run_rests ht hs]
    rfl

theorem Watch.Mode.ne_labelled {m : Mode} (h : m.closed = true) : m ≠ .labelled := by
  rintro rfl
  cases h

end Grammar

end SqlDialect
