import Mathlib
import SqlDialect.Proofs.Dialect.Layers
import SqlDialect.Proofs.Rendering.Sqlite

/-!
# SqlDialect.Proofs.Rendering.Override

What a dialect does with one kind of node shows in nodes of that kind only.

* `Style.offsetBehindLimit_eq_base` -- the limit that is put in front of a lone
  offset is the base form of a limit node, whatever is done with limits.
* `Style.transformed` -- a way of writing with other transforms.
* `Style.apply_transformed`, `Style.node_transformed` -- what it makes of a
  node.
* `Style.fragment_transformed` -- what it makes of a tree in which no node is of
  the kind that is treated otherwise.
* `override_changes_own_kind` -- hence its output.
-/

namespace SqlDialect

namespace Style

/-! ## the limit in front of an offset -/

section

variable (s : Style) (f : Expr → Fragment)

/-- No printer has a form of its own for limits. -/
theorem node_limit (count : Expr) : s.node f (.limit count) = s.base f (.limit count) := by
  unfold node
  split
  case h_5 r _ => cases r <;> rfl
  all_goals rfl

/-- Nor for literals. -/
theorem node_literal (v : Literal) : s.node f (.literal v) = s.base f (.literal v) := by
  unfold node
  split
  case h_5 r _ => cases r <;> rfl
  all_goals rfl

end

/-- The limit that limits nothing. -/
def limitNothing : Expr := .limit (.literal (.int (-1)))

theorem fragment_limitNothing (s : Style) :
    s.fragment limitNothing = .ofTokens [.keyword .LIMIT, .space, .raw "-1"] := by
  rw [limitNothing, fragment_eq, node_limit, base, fragment_eq, node_literal]
  rfl

/-- A lone offset is printed as if it had the limit that limits nothing. -/
theorem offsetBehindLimit_eq_base (s : Style) {q : Select Expr} (hl : q.limit = none)
    (ho : q.offset.isSome = true) :
    s.offsetBehindLimit s.fragment (.select q) =
      s.base s.fragment (.select { q with limit := some limitNothing }) := by
  have hflags : (q.limit.isNone && q.offset.isSome) = true := by rw [hl, ho]; rfl
  have hfetch : s.fetchesLast q = false := by rw [fetchesLast, hl]; rfl
  rw [offsetBehindLimit, if_pos hflags, base, Option.map_some, fragment_limitNothing]
  exact (query_otherLimit rfl hfetch).symm

/-! ## other transforms -/

/-- The same way of writing with other transforms. -/
def transformed (s : Style) (t : Overrides NodeKind Transform) : Style :=
  ⟨{ s.dialect with transforms := t }, s.identify⟩

section

variable {s : Style} {t : Overrides NodeKind Transform} {f : Expr → Fragment} {e : Expr}
  (h : ∀ q, e = .select q → (s.transformed t).fetchesLast q = s.fetchesLast q)

include h

theorem base_transformed : (s.transformed t).base f e = s.base f e := base_transforms h

theorem lowerLike_transformed : (s.transformed t).lowerLike f e = s.lowerLike f e := by
  unfold lowerLike
  split
  case h_1 => rfl
  case h_2 => exact base_transformed h

theorem plainCast_transformed : (s.transformed t).plainCast f e = s.plainCast f e := by
  unfold plainCast
  split
  case h_1 => rfl
  case h_2 => exact base_transformed h

theorem unsampled_transformed : (s.transformed t).unsampled f e = s.unsampled f e := by
  unfold unsampled
  split
  case h_1 => rfl
  case h_2 => exact base_transformed h

theorem degraded_transformed : (s.transformed t).degraded f e = s.degraded f e := by
  simp only [degraded, lowerLike_transformed h, plainCast_transformed h, unsampled_transformed h,
    base_transformed h]

theorem operandOnly_transformed : (s.transformed t).operandOnly f e = s.operandOnly f e := by
  simp only [operandOnly, base_transformed h]

theorem dateAdd_transformed : (s.transformed t).dateAdd f e = s.dateAdd f e := by
  unfold dateAdd
  split
  case h_1 a c u => simp only [amount, transformed, Dialect.spell_transforms]
  case h_2 => exact base_transformed h

theorem offsetBehindLimit_transformed :
    (s.transformed t).offsetBehindLimit f e = s.offsetBehindLimit f e := by
  unfold offsetBehindLimit
  split
  case h_1 q => rw [query, query, h q rfl, base_transformed h]
  case h_2 => exact base_transformed h

/-- A renderer reads the transforms of a dialect nowhere but in the base
form. -/
theorem apply_transformed (r : Renderer) : r.apply (s.transformed t) f e = r.apply s f e := by
  cases r with
  | dateAdd => exact dateAdd_transformed h
  | select => exact offsetBehindLimit_transformed h
  | degraded => exact degraded_transformed h
  | lowerLike => exact lowerLike_transformed h
  | plainCast => exact plainCast_transformed h
  | unsampled => exact unsampled_transformed h
  | operandOnly => exact operandOnly_transformed h
  | _ =>
    simp only [Renderer.apply, groupConcat, least, greatest, fetch, transaction, arrow]
    split
    all_goals first
      | rfl
      | exact base_transformed h

/-- A node is printed the same where the same is done with its kind. -/
theorem node_transformed (hk : t.get? e.kind = s.dialect.transforms.get? e.kind) :
    (s.transformed t).node f e = s.node f e := by
  have htransform : (s.transformed t).dialect.transform? e.kind = s.dialect.transform? e.kind := hk
  unfold node
  rw [htransform]
  simp only [base_transformed h, degraded_transformed h, operandOnly_transformed h,
    apply_transformed h]

end

/-- A tree is printed the same where the same is done with the kinds of its
nodes. -/
theorem fragment_transformed {s : Style} {t : Overrides NodeKind Transform} {k : NodeKind}
    (ht : ∀ j, j ≠ k → t.get? j = s.dialect.transforms.get? j) {e : Expr}
    (he : ∀ n ∈ e.preorder, n.kind ≠ k) : (s.transformed t).fragment e = s.fragment e := by
  induction hn : e.depth using Nat.strongRecOn generalizing e with
  | ind n ih =>
    -- A query asks what is done with fetches only when it holds one.
    have hfetch (q : Select Expr) (hq : e = .select q) :
        (s.transformed t).fetchesLast q = s.fetchesLast q := by
      subst hq
      unfold fetchesLast
      cases hl : q.limit with
      | none => rfl
      | some l =>
        by_cases hkind : l.kind = .fetch
        · have hchild : l ∈ (Expr.select q).children := by simp [Expr.children, Select.exprs, hl]
          have hsame : (s.transformed t).dialect.transform? .fetch = s.dialect.transform? .fetch :=
            ht .fetch (hkind ▸ he l (Expr.mem_preorder_child hchild))
          rw [hsame]
        · simp [hkind]
    rw [fragment_eq, fragment_eq, node_transformed hfetch (ht _ (he e (Expr.mem_preorder_self e)))]
    refine node_congr fun c hc hdepth => ?_
    exact ih c.depth (hn ▸ hdepth) (fun m hm => he m (Expr.preorder_trans hc hm)) rfl

end Style

/-- A change to what a dialect does with one kind of node shows in the output
of no tree without nodes of that kind: not in the text, not in the remarks and
not in the errors. -/
theorem override_changes_own_kind (d d' : Dialect) (k : NodeKind) (c : Change)
    (hc : c = .clear k ∨ ∃ t, c = .transform k t) (hd : d.extend d.name [c] = .ok d') (e : Expr)
    (he : ∀ n ∈ e.preorder, n.kind ≠ k) (o : RenderOptions) : e.render d' o = e.render d o := by
  obtain ⟨t, rfl, ht⟩ : ∃ t, d' = { d with transforms := t } ∧
      ∀ j, j ≠ k → t.get? j = d.transforms.get? j := by
    rw [Dialect.eq_of_checked hd]
    rcases hc with rfl | ⟨t, rfl⟩
    · exact ⟨_, rfl, fun j hj => (Overrides.get?_erase _ k j).trans (if_neg hj)⟩
    · exact ⟨_, rfl, fun j hj => (Overrides.get?_set _ k j t).trans (if_neg hj)⟩
  have hfragment : (⟨{ d with transforms := t }, o.identify⟩ : Style).fragment e =
      (⟨d, o.identify⟩ : Style).fragment e :=
    @Style.fragment_transformed ⟨d, o.identify⟩ t k ht e he
  unfold Expr.render
  rw [hfragment]
  simp only [Dialect.spell_transforms]

/-- A query with an offset and no limit. -/
def offsetQuery : Expr :=
  .select { projections := [.star none]
            offset := some (.literal (.int 5)) }

/-- A query with a lone offset, in a dialect that hands limits to a printer for
other nodes: the limit in front of the offset is no node of the query. -/
theorem override_changes_own_kind_limit :
    ∃ d', Dialect.sqlite.extend "sqlite" [.transform .limit (.custom .lowerLike)] = .ok d' ∧
      offsetQuery.render .sqlite {} = .ok ⟨"SELECT * LIMIT -1 OFFSET 5", []⟩ ∧
      offsetQuery.render d' {} = .ok ⟨"SELECT * LIMIT -1 OFFSET 5", []⟩ := by
  have hd : Dialect.sqlite.extend "sqlite" [.transform .limit (.custom .lowerLike)] =
      .ok (Dialect.sqlite.apply (.transform .limit (.custom .lowerLike))) := by
    rfl
  have hsame := override_changes_own_kind .sqlite _ .limit _ (.inr ⟨_, rfl⟩) hd offsetQuery
    (by simp [offsetQuery, Expr.preorder_eq, Expr.children, Select.exprs, Expr.kind]) {}
  have hrender : offsetQuery.render .sqlite {} = .ok ⟨"SELECT * LIMIT -1 OFFSET 5", []⟩ := by
    cbv
  exact ⟨_, hd, hrender, hsame.trans hrender⟩

end SqlDialect
