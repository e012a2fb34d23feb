import SqlDialect.Expr

/-!
# SqlDialect.Proofs.Tree.Rebuild

Properties of all nodes of a tree, and trees made anew from the leaves up.

* `Expr.All` -- every node of a tree has a property.
* `Expr.mapChildren` -- the same node over other children.
* `Expr.rebuild` -- a function applied to every node, the leaves first.
* `Expr.byDepth_eq` -- a recursion that is cut off at the depth of a tree
  satisfies its equation.
-/

namespace SqlDialect

namespace Expr

/-! ## all nodes -/

/-- Every node of a tree has a property. -/
def All (Q : Expr → Prop) (e : Expr) : Prop := ∀ n ∈ e.preorder, Q n

variable {Q R : Expr → Prop} {e c : Expr}

theorem all_iff : All Q e ↔ Q e ∧ ∀ c ∈ e.children, All Q c := by
  unfold All
  rw [preorder_eq]
  simp only [List.mem_cons, List.mem_flatMap, forall_eq_or_imp]
  refine and_congr_right fun _ => ⟨fun h c hc n hn => h n ⟨c, hc, hn⟩, ?_⟩
  rintro h n ⟨c, hc, hn⟩
  exact h c hc n hn

theorem All.self (h : All Q e) : Q e := (all_iff.1 h).1

theorem All.child (h : All Q e) (hc : c ∈ e.children) : All Q c := (all_iff.1 h).2 c hc

theorem All.imp (h : All Q e) (hQR : ∀ n, Q n → R n) : All R e := fun n hn => hQR n (h n hn)

theorem mem_preorder_self (e : Expr) : e ∈ e.preorder := by
  rw [preorder_eq]
  exact List.mem_cons_self

theorem mem_preorder_child (h : c ∈ e.children) : c ∈ e.preorder := by
  rw [preorder_eq]
  exact List.mem_cons_of_mem _ (List.mem_flatMap.2 ⟨c, h, mem_preorder_self c⟩)

/-- Being below is transitive. -/
theorem preorder_trans {n m : Expr} (hm : m ∈ e.preorder) (hn : n ∈ m.preorder) :
    n ∈ e.preorder := by
  induction e using Expr.induction with
  | node e ih =>
    rw [preorder_eq, List.mem_cons, List.mem_flatMap] at hm ⊢
    rcases hm with rfl | ⟨c, hc, hm⟩
    · rwa [preorder_eq, List.mem_cons, List.mem_flatMap] at hn
    · exact .inr ⟨c, hc, ih c hc hm⟩

theorem All.below (h : All Q e) (hc : c ∈ e.preorder) : All Q c :=
  fun n hn => h n (preorder_trans hc hn)

theorem depth_le_of_mem_preorder {n : Expr} (h : n ∈ e.preorder) : n.depth ≤ e.depth := by
  induction e using Expr.induction with
  | node e ih =>
    rw [preorder_eq, List.mem_cons, List.mem_flatMap] at h
    rcases h with rfl | ⟨c, hc, hn⟩
    · exact Nat.le_refl _
    · exact Nat.le_trans (ih c hc hn) (Nat.le_of_lt (depth_lt_of_mem_children hc))

/-! ## recursion by depth -/

/-- A recursion that is cut off at the depth of a tree satisfies its equation,
provided a step looks at trees of less depth only. -/
theorem byDepth_eq {α : Type} (step : (Expr → α) → Expr → α) (go : Nat → Expr → α)
    (hgo : ∀ n e, go (n + 1) e = step (go n) e)
    (hstep : ∀ {f g : Expr → α} {e : Expr}, (∀ c, c.depth < e.depth → f c = g c) →
      step f e = step g e) (e : Expr) :
    go e.depth e = step (fun c => go c.depth c) e := by
  have hpos (e : Expr) : 0 < e.depth := by rw [depth_eq]; omega
  have hstable (m n : Nat) (e : Expr) (hm : e.depth ≤ m) (hn : e.depth ≤ n) :
      go m e = go n e := by
    induction m generalizing n e with
    | zero => exact absurd (hpos e) (by omega)
    | succ m ih =>
      cases n with
      | zero => exact absurd (hpos e) (by omega)
      | succ n =>
        rw [hgo, hgo]
        exact hstep fun c hc => ih n c (by omega) (by omega)
  obtain ⟨m, hm⟩ : ∃ m, e.depth = m + 1 := ⟨_, depth_eq e⟩
  rw [hm, hgo]
  exact hstep fun c hc => hstable m c.depth c (by omega) (Nat.le_refl _)

end Expr

/-! ## other children -/

section

variable {ε δ : Type}

/-- The same item of an ordering over another expression. -/
def OrderItem.map (f : ε → δ) (i : OrderItem ε) : OrderItem δ := ⟨f i.expr, i.direction⟩

/-- The same demand over another expression. -/
def ColumnConstraint.map (f : ε → δ) : ColumnConstraint ε → ColumnConstraint δ
  | .primaryKey => .primaryKey
  | .notNull => .notNull
  | .unique => .unique
  | .autoIncrement => .autoIncrement
  | .default value => .default (f value)

/-- The same column over other expressions. -/
def ColumnDef.map (f : ε → δ) (c : ColumnDef ε) : ColumnDef δ :=
  ⟨c.name, c.dataType, c.constraints.map (ColumnConstraint.map f)⟩

/-- The same query over other expressions. -/
def Select.map (f : ε → δ) (q : Select ε) : Select δ where
  distinct := q.distinct
  projections := q.projections.map f
  source := q.source.map f
  filter := q.filter.map f
  groupBy := q.groupBy.map f
  having := q.having.map f
  orderBy := q.orderBy.map (OrderItem.map f)
  limit := q.limit.map f
  offset := q.offset.map f

/-- The same table definition over other expressions. -/
def CreateTable.map (f : ε → δ) (t : CreateTable ε) : CreateTable δ :=
  ⟨f t.table, t.ifNotExists, t.columns.map (ColumnDef.map f)⟩

end

namespace Expr

/-- The same node over other children. -/
def mapChildren (f : Expr → Expr) : Expr → Expr
  | column t n => column t n
  | literal v => literal v
  | star t => star t
  | aliased a n => aliased (f a) n
  | paren a => paren (f a)
  | binaryOp op a b => binaryOp op (f a) (f b)
  | unaryOp op a => unaryOp op (f a)
  | like n a b => like n (f a) (f b)
  | ilike n a b => ilike n (f a) (f b)
  | isNull n a => isNull n (f a)
  | between n a l h => between n (f a) (f l) (f h)
  | inList n a es => inList n (f a) (es.map f)
  | caseWhen o ws b => caseWhen (o.map f) (ws.map fun w => (f w.1, f w.2)) (b.map f)
  | cast a t => cast (f a) t
  | tryCast a t => tryCast (f a) t
  | function name es => function name (es.map f)
  | distinct es => distinct (es.map f)
  | order a is => order (f a) (is.map (OrderItem.map f))
  | groupConcat a s => groupConcat (f a) (s.map f)
  | dateAdd a b u => dateAdd (f a) (f b) u
  | least es => least (es.map f)
  | greatest es => greatest (es.map f)
  | levenshtein es => levenshtein (es.map f)
  | jsonExtract a p => jsonExtract (f a) (f p)
  | jsonExtractScalar a p => jsonExtractScalar (f a) (f p)
  | jsonbExtract a p => jsonbExtract (f a) (f p)
  | jsonbExtractScalar a p => jsonbExtractScalar (f a) (f p)
  | dateStrToDate a => dateStrToDate (f a)
  | timeStrToTime a => timeStrToTime (f a)
  | table s n a => table s n a
  | tableSample a m size u => tableSample (f a) m (f size) u
  | select q => select (q.map f)
  | limit a => limit (f a)
  | fetch d c p w => fetch d (c.map f) p w
  | transaction m => transaction m
  | commit => commit
  | rollback => rollback
  | createTable t => createTable (t.map f)

theorem map_congr_option {f g : Expr → Expr} {o : Option Expr} (h : ∀ c ∈ o.toList, f c = g c) :
    o.map f = o.map g := by
  cases o with
  | none => rfl
  | some a => exact congrArg some (h a (by simp))

theorem map_congr_items {f g : Expr → Expr} {is : List (OrderItem Expr)}
    (h : ∀ c ∈ is.map OrderItem.expr, f c = g c) :
    is.map (OrderItem.map f) = is.map (OrderItem.map g) :=
  List.map_congr_left fun i hi => congrArg (OrderItem.mk · i.direction)
    (h i.expr (List.mem_map_of_mem hi))

theorem map_congr_columns {f g : Expr → Expr} {cs : List (ColumnDef Expr)}
    (h : ∀ c ∈ cs.flatMap ColumnDef.exprs, f c = g c) :
    cs.map (ColumnDef.map f) = cs.map (ColumnDef.map g) := by
  refine List.map_congr_left fun c hc => ?_
  have hconstraints : c.constraints.map (ColumnConstraint.map f) =
      c.constraints.map (ColumnConstraint.map g) := by
    refine List.map_congr_left fun k hk => ?_
    cases k with
    | default value =>
      refine congrArg ColumnConstraint.default (h value ?_)
      exact List.mem_flatMap.2 ⟨c, hc, List.mem_flatMap.2 ⟨_, hk, List.mem_singleton.2 rfl⟩⟩
    | _ => rfl
  rw [ColumnDef.map, ColumnDef.map, hconstraints]

theorem map_congr_select {f g : Expr → Expr} {q : Select Expr} (h : ∀ c ∈ q.exprs, f c = g c) :
    q.map f = q.map g := by
  have hlist {es : List Expr} (hes : ∀ c ∈ es, c ∈ q.exprs) : es.map f = es.map g :=
    List.map_congr_left fun c hc => h c (hes c hc)
  have hoption {o : Option Expr} (ho : ∀ c ∈ o.toList, c ∈ q.exprs) : o.map f = o.map g :=
    map_congr_option fun c hc => h c (ho c hc)
  have hitems : q.orderBy.map (OrderItem.map f) = q.orderBy.map (OrderItem.map g) :=
    map_congr_items fun c hc => h c (by simp [Select.exprs, List.mem_map.1 hc])
  simp only [Select.map, hitems, Select.mk.injEq, true_and]
  refine ⟨hlist ?_, hoption ?_, hoption ?_, hlist ?_, hoption ?_, hoption ?_, hoption ?_⟩ <;>
    intro c hc <;> simp_all [Select.exprs]

/-- Only what is done with the children counts. -/
theorem mapChildren_congr {f g : Expr → Expr} {e : Expr} (h : ∀ c ∈ e.children, f c = g c) :
    e.mapChildren f = e.mapChildren g := by
  cases e with
  | inList n a es =>
    simp only [mapChildren, h a (by simp [children]), inList.injEq, true_and]
    exact List.map_congr_left fun c hc => h c (by simp [children, hc])
  | caseWhen o ws b =>
    simp only [mapChildren, caseWhen.injEq]
    refine ⟨map_congr_option fun c hc => h c (by simp_all [children]),
      List.map_congr_left fun w hw => ?_, map_congr_option fun c hc => h c (by simp_all [children])⟩
    have hmem (c : Expr) (hc : c = w.1 ∨ c = w.2) : c ∈ (caseWhen o ws b).children := by
      simp only [children, List.mem_append, List.mem_flatMap]
      exact .inl (.inr ⟨w, hw, by simpa using hc⟩)
    rw [h w.1 (hmem _ (.inl rfl)), h w.2 (hmem _ (.inr rfl))]
  | order a is =>
    simp only [mapChildren, h a (by simp [children]), order.injEq, true_and]
    exact map_congr_items fun c hc => h c (List.mem_cons_of_mem _ hc)
  | groupConcat a s =>
    simp only [mapChildren, h a (by simp [children]), groupConcat.injEq, true_and]
    exact map_congr_option fun c hc => h c (List.mem_cons_of_mem _ hc)
  | select q => exact congrArg select (map_congr_select h)
  | fetch d c p w => exact congrArg (fetch d · p w) (map_congr_option h)
  | createTable t =>
    simp only [mapChildren, CreateTable.map, createTable.injEq, CreateTable.mk.injEq, true_and]
    exact ⟨h t.table List.mem_cons_self, map_congr_columns fun c hc => h c (List.mem_cons_of_mem _ hc)⟩
  | function name es => exact congrArg (function name) (List.map_congr_left h)
  | distinct es => exact congrArg distinct (List.map_congr_left h)
  | least es => exact congrArg least (List.map_congr_left h)
  | greatest es => exact congrArg greatest (List.map_congr_left h)
  | levenshtein es => exact congrArg levenshtein (List.map_congr_left h)
  | _ => simp_all [mapChildren, children]

/-! ## rebuilding -/

/-- A function applied to every node down to a number of levels. -/
def rebuildTo (f : Expr → Expr) : Nat → Expr → Expr
  | 0, e => e
  | n + 1, e => f (e.mapChildren (rebuildTo f n))

/-- A function applied to every node, the leaves first. -/
def rebuild (f : Expr → Expr) (e : Expr) : Expr := rebuildTo f e.depth e

theorem rebuild_eq (f : Expr → Expr) (e : Expr) :
    e.rebuild f = f (e.mapChildren (rebuild f)) :=
  byDepth_eq (fun sub e => f (e.mapChildren sub)) (rebuildTo f) (fun _ _ => rfl)
    (fun h => congrArg f (mapChildren_congr fun c hc => h c (depth_lt_of_mem_children hc))) e

theorem mapChildren_id (e : Expr) : e.mapChildren id = e := by
  have hitem : OrderItem.map (id : Expr → Expr) = id := rfl
  cases e with
  | select q => simp [mapChildren, Select.map, hitem]
  | order a is => simp [mapChildren, hitem]
  | createTable t =>
    have hconstraint : ColumnConstraint.map (id : Expr → Expr) = id := by
      funext k
      cases k <;> rfl
    have hcolumn : ColumnDef.map (id : Expr → Expr) = id := by
      funext c
      simp [ColumnDef.map, hconstraint]
    simp [mapChildren, CreateTable.map, hcolumn]
  | _ => simp [mapChildren]

/-- A function that changes no node of a tree does not change the tree. -/
theorem rebuild_eq_self {f : Expr → Expr} {e : Expr} (h : All (fun n => f n = n) e) :
    e.rebuild f = e := by
  induction e using Expr.induction with
  | node e ih =>
    have hchildren : e.mapChildren (rebuild f) = e.mapChildren id :=
      mapChildren_congr fun c hc => ih c hc (h.child hc)
    rw [rebuild_eq, hchildren, mapChildren_id]
    exact h.self

end Expr

end SqlDialect
