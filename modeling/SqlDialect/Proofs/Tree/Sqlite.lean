import SqlDialect.Proofs.Tree.WellFormed

/-!
# SqlDialect.Proofs.Tree.Sqlite

The tree that stands for another one where only what SQLite knows may be
written.

* `Expr.sqliteNode` -- one node, written with the nodes that SQLite knows.
* `Expr.sqliteForm` -- a whole tree, from the leaves up.
* `Expr.sqliteForm_wellFormed` -- the form of a tree that can be printed can be
  printed.
-/

namespace SqlDialect

namespace Expr

/-- A node that can be written in SQLite, in the place of one that cannot. -/
def sqliteNode : Expr → Expr
  | ilike negated a pattern => like negated (function "LOWER" [a]) pattern
  | tryCast a target => cast a target
  | tableSample a _ _ _ | dateStrToDate a | timeStrToTime a => a
  | levenshtein args => function "EDITDIST3" args
  | least [a] | greatest [a] => a
  | least args => function "MIN" args
  | greatest args => function "MAX" args
  | fetch _ count _ _ => limit (count.getD (literal (.int 1)))
  | transaction (some modifier) => transaction (some (modifier ++ " TRANSACTION"))
  | transaction none => transaction (some "TRANSACTION")
  | select q =>
    if q.limit.isNone && q.offset.isSome then
      select { q with limit := some (limit (literal (.int (-1)))) }
    else select q
  | e => e

/-- A tree with every node put in that form, the leaves first. -/
def sqliteForm (e : Expr) : Expr := e.rebuild sqliteNode

theorem sqliteForm_eq (e : Expr) : e.sqliteForm = (e.mapChildren sqliteForm).sqliteNode :=
  rebuild_eq sqliteNode e

/-! ## well-formed trees -/

/-- The row limit of a query is a limit or a fetch. -/
theorem limit_of_fault? {q : Select Expr} (h : (select q).fault? = none) {l : Expr}
    (hl : q.limit = some l) : (∃ a, l = limit a) ∨ ∃ d c p w, l = fetch d c p w := by
  simp only [fault?, Select.fault?, hl, Option.map_some] at h
  split at h
  · cases h
  · cases l <;> first
      | exact .inl ⟨_, rfl⟩
      | exact .inr ⟨_, _, _, _, rfl⟩
      | simp [kind] at h

/-- Either one becomes a limit. -/
theorem kind_sqliteForm_limit {q : Select Expr} (h : (select q).fault? = none) {l : Expr}
    (hl : q.limit = some l) : l.sqliteForm.kind = .limit := by
  rw [sqliteForm_eq]
  rcases limit_of_fault? h hl with ⟨a, rfl⟩ | ⟨d, c, p, w, rfl⟩
  · rfl
  · rfl

/-- A table stays as it is. -/
theorem kind_sqliteForm_table {e : Expr} (h : e.kind = .table) : e.sqliteForm.kind = .table := by
  rw [sqliteForm_eq]
  cases e <;> first
    | rfl
    | cases h

/-- A node that nothing is wrong with stays so over the forms of what is below
it. -/
theorem fault?_mapChildren_sqliteForm {e : Expr} (h : e.fault? = none) :
    (e.mapChildren sqliteForm).fault? = none := by
  cases e with
  | select q =>
    have hlimit := fun l hl => kind_sqliteForm_limit h (l := l) hl
    simp only [fault?, mapChildren, Select.fault?, Select.map, List.isEmpty_map] at h ⊢
    split at h
    · cases h
    · rw [if_neg ‹_›]
      cases hl : q.limit with
      | none => rfl
      | some l => simp [hlimit l hl]
  | createTable t =>
    simp only [fault?, mapChildren, CreateTable.fault?, CreateTable.map, List.isEmpty_map] at h ⊢
    split at h
    · cases h
    · split at h
      case isTrue ht => rw [if_neg ‹_›, if_pos (kind_sqliteForm_table ht)]
      case isFalse => cases h
  | literal v => exact h
  | _ => simp_all [fault?, mapChildren]

/-- A form is well formed over well-formed nodes. -/
theorem sqliteNode_wellFormed {e : Expr} (h : e.fault? = none)
    (hc : ∀ c ∈ e.children, c.WellFormed) : e.sqliteNode.WellFormed := by
  have hself : e.WellFormed := .node h hc
  have hint (n : Int64) : (literal (.int n)).WellFormed := .node rfl fun c hc => by cases hc
  have hcall {name : String} {args : List Expr} (hname : Text.isBlankText name = false)
      (hargs : ∀ c ∈ args, c.WellFormed) : (function name args).WellFormed :=
    .node (by simp [fault?, hname]) hargs
  unfold sqliteNode
  split
  case h_1 n a p =>
    refine .node rfl fun c hmem => ?_
    simp only [children, List.mem_cons, List.not_mem_nil, or_false] at hmem
    rcases hmem with rfl | rfl
    · exact hcall (by decide) fun c hmem => hc c (by simp_all [children])
    · exact hc _ (by simp [children])
  case h_2 a t => exact .node rfl hc
  case h_3 a _ _ _ => exact hc a (by simp [children])
  case h_4 a => exact hc a (by simp [children])
  case h_5 a => exact hc a (by simp [children])
  case h_6 args => exact hcall (by decide) hc
  case h_7 a => exact hc a (by simp [children])
  case h_8 a => exact hc a (by simp [children])
  case h_9 args _ => exact hcall (by decide) hc
  case h_10 args _ => exact hcall (by decide) hc
  case h_11 d count p w =>
    refine .node rfl fun c hmem => ?_
    rw [children, List.mem_singleton] at hmem
    subst hmem
    cases count with
    | none => exact hint 1
    | some a => exact hc a (by simp [children])
  case h_12 => exact .node rfl fun c hmem => by cases hmem
  case h_13 => exact .node rfl fun c hmem => by cases hmem
  case h_14 q =>
    split
    case isTrue hq =>
      simp only [Bool.and_eq_true, Option.isNone_iff_eq_none] at hq
      have hprojections : q.projections.isEmpty = false := by
        simp only [fault?, Select.fault?] at h
        split at h
        · cases h
        · simp_all
      refine .node (by simp [fault?, Select.fault?, hprojections, kind]) fun c hmem => ?_
      have hcases : c = limit (literal (.int (-1))) ∨ c ∈ q.exprs := by
        simp only [children, Select.exprs, List.mem_append, Option.mem_toList,
          Option.some.injEq] at hmem ⊢
        grind
      rcases hcases with rfl | hmem
      · exact .node rfl fun c hmem => by rw [List.mem_singleton.1 hmem]; exact hint (-1)
      · exact hc c hmem
    case isFalse => exact hself
  case h_15 => exact hself

end Expr

/-! ## children of nodes over other children -/

theorem ColumnDef.exprs_map {f : Expr → Expr} (c : ColumnDef Expr) :
    (c.map f).exprs = c.exprs.map f := by
  simp only [ColumnDef.exprs, ColumnDef.map, List.flatMap_map, List.map_flatMap]
  congr 1
  funext k
  cases k <;> rfl

namespace Expr

theorem children_mapChildren (f : Expr → Expr) (e : Expr) :
    (e.mapChildren f).children = e.children.map f := by
  have hitems (is : List (OrderItem Expr)) :
      (is.map (OrderItem.map f)).map OrderItem.expr = (is.map OrderItem.expr).map f := by
    simp [OrderItem.map, Function.comp_def]
  cases e with
  | caseWhen o ws b =>
    simp [mapChildren, children, List.flatMap_map, List.map_flatMap, Option.toList_map]
  | order a is => simp only [mapChildren, children, hitems, List.map_cons]
  | select q => simp only [mapChildren, children, Select.exprs, Select.map, hitems,
      List.map_append, Option.toList_map]
  | createTable t =>
    simp [mapChildren, children, CreateTable.exprs, CreateTable.map, List.flatMap_map,
      List.map_flatMap, ColumnDef.exprs_map]
  | groupConcat a s => simp [mapChildren, children, Option.toList_map]
  | fetch d c p w => simp [mapChildren, children, Option.toList_map]
  | _ => rfl

/-- The form of a well-formed tree is well formed. -/
theorem sqliteForm_wellFormed {e : Expr} (h : e.WellFormed) : e.sqliteForm.WellFormed := by
  induction e using Expr.induction with
  | node e ih =>
    rw [sqliteForm_eq]
    refine sqliteNode_wellFormed (fault?_mapChildren_sqliteForm h.fault) fun c hc => ?_
    rw [children_mapChildren] at hc
    obtain ⟨a, ha, rfl⟩ := List.mem_map.1 hc
    exact ih a ha (h.child ha)

end Expr

end SqlDialect
