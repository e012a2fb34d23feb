import SqlDialect.Proofs.Tree.WellFormed
import SqlDialect.Rendering

/-!
# SqlDialect.Proofs.Rendering.Fixpoint

Printing goes down the tree: a node is printed from what the nodes below it
are printed as.

* `Style.fragment_eq` -- the equation of `Style.fragment`.
* `aggregated_mem` -- what a grouped concatenation aggregates stands in its
  argument.
* `Expr.WellFormed.render`, `Expr.WellFormed.render_quiet`,
  `Expr.render_eq_ok` -- the output of a tree.
-/

namespace SqlDialect

/-- The first node with a property is a node of the tree. -/
theorem Expr.find?_mem {p : Expr → Bool} {e n : Expr} (h : e.find? p = some n) :
    n ∈ e.preorder ∧ p n = true := by
  induction e using Expr.induction with
  | node e ih =>
    rw [find?_eq] at h
    rw [preorder_eq]
    split at h
    case isTrue hp =>
      cases h
      exact ⟨List.mem_cons_self, hp⟩
    case isFalse =>
      obtain ⟨c, hc, hn⟩ := List.exists_of_findSome?_eq_some h
      obtain ⟨hmem, hp⟩ := ih c hc hn
      exact ⟨List.mem_cons_of_mem _ (List.mem_flatMap.2 ⟨c, hc, hmem⟩), hp⟩

/-- A node that is a `DISTINCT`, with its expressions. -/
theorem Expr.distinctExprs?_eq_some {e : Expr} {es : List Expr}
    (h : e.distinctExprs? = some es) : e = .distinct es := by
  cases e <;> first
    | (cases h; rfl)
    | cases h

namespace Style

/-- The first `DISTINCT` of a tree, as printing looks for it. -/
def firstDistinct? (a : Expr) : Option (List Expr) :=
  (a.find? fun e => e.kind = .distinct).bind Expr.distinctExprs?

theorem firstDistinct?_mem {a : Expr} {es : List Expr} (h : firstDistinct? a = some es) :
    .distinct es ∈ a.preorder := by
  unfold firstDistinct? at h
  obtain ⟨n, hn, hes⟩ := Option.bind_eq_some_iff.1 h
  rw [← Expr.distinctExprs?_eq_some hes]
  exact (Expr.find?_mem hn).1

/-- The aggregated value stands in the argument. -/
theorem aggregated_mem (a : Expr) : aggregated a ∈ a.preorder := by
  cases hd : firstDistinct? a with
  | some es =>
    have heq : aggregated a = es.head?.getD a := by
      unfold firstDistinct? at hd
      simp only [aggregated, hd]
    rw [heq]
    cases es with
    | nil => exact Expr.mem_preorder_self a
    | cons e es =>
      have hfirst : e ∈ (Expr.distinct (e :: es)).children := List.mem_cons_self
      exact Expr.preorder_trans (firstDistinct?_mem hd) (Expr.mem_preorder_child hfirst)
  | none =>
    unfold firstDistinct? at hd
    unfold aggregated
    rw [hd]
    split
    case h_1 heq => cases heq
    case h_2 b is _ =>
      have hoperand : b ∈ (Expr.order b is).children := List.mem_cons_self
      exact Expr.mem_preorder_child hoperand
    case h_3 => exact Expr.mem_preorder_self _

variable {s : Style} {f g : Expr → Fragment}

/-! ## what a node is printed from -/

theorem optional_congr {words : List Token} {o : Option Expr} (h : ∀ c ∈ o.toList, f c = g c) :
    optional words (o.map f) = optional words (o.map g) := by
  cases o with
  | none => rfl
  | some a => rw [Option.map_some, Option.map_some, h a (by simp)]

theorem ordering_congr {is : List (OrderItem Expr)}
    (h : ∀ c ∈ is.map OrderItem.expr, f c = g c) : ordering f is = ordering g is := by
  have hitems : is.map (orderItem f) = is.map (orderItem g) := by
    refine List.map_congr_left fun i hi => ?_
    simp only [orderItem, h i.expr (List.mem_map_of_mem hi)]
  rw [ordering, ordering, hitems]

theorem columnDef_congr {c : ColumnDef Expr} (h : ∀ a ∈ c.exprs, f a = g a) :
    s.columnDef f c = s.columnDef g c := by
  have hconstraints : c.constraints.map (fun k => Fragment.ofTokens [.space] ++ constraint f k) =
      c.constraints.map fun k => Fragment.ofTokens [.space] ++ constraint g k := by
    refine List.map_congr_left fun k hk => ?_
    cases k with
    | default value =>
      have := h value (List.mem_flatMap.2 ⟨_, hk, List.mem_singleton.2 rfl⟩)
      simp only [constraint, this]
    | _ => rfl
  rw [columnDef, columnDef, hconstraints]

theorem query_congr {q : Select Expr} (limit : Option Fragment)
    (h : ∀ c ∈ q.exprs, f c = g c) : s.query f q limit = s.query g q limit := by
  have hlist (es : List Expr) (hes : ∀ c ∈ es, c ∈ q.exprs) : es.map f = es.map g :=
    List.map_congr_left fun c hc => h c (hes c hc)
  have hoption (o : Option Expr) (ho : ∀ c ∈ o.toList, c ∈ q.exprs) : o.map f = o.map g := by
    cases o with
    | none => rfl
    | some a => exact congrArg some (h a (ho a (by simp)))
  have hprojections := hlist q.projections fun c hc => by simp [Select.exprs, hc]
  have hgroup := hlist q.groupBy fun c hc => by simp [Select.exprs, hc]
  have hsource := hoption q.source fun c hc => by simp_all [Select.exprs]
  have hfilter := hoption q.filter fun c hc => by simp_all [Select.exprs]
  have hhaving := hoption q.having fun c hc => by simp_all [Select.exprs]
  have hoffset := hoption q.offset fun c hc => by simp_all [Select.exprs]
  have horder : ordering f q.orderBy = ordering g q.orderBy :=
    ordering_congr fun c hc => h c (by simp [Select.exprs, List.mem_map.1 hc])
  have hrows : q.offset.map (fun e => f e ++ .ofTokens [.space, .keyword .ROWS]) =
      q.offset.map fun e => g e ++ .ofTokens [.space, .keyword .ROWS] := by
    cases ho : q.offset with
    | none => rfl
    | some a => simp [h a (by simp [Select.exprs, ho])]
  simp only [query, hprojections, hgroup, hsource, hfilter, hhaving, hoffset, horder, hrows]

/-- The base form of a node is made from what its children are printed as. -/
theorem base_congr {e : Expr} (h : ∀ c ∈ e.children, f c = g c) : s.base f e = s.base g e := by
  have hlist (es : List Expr) (hes : ∀ c ∈ es, c ∈ e.children) : es.map f = es.map g :=
    List.map_congr_left fun c hc => h c (hes c hc)
  cases e with
  | inList n a es =>
    simp only [base, h a (by simp [Expr.children]), hlist es fun c hc => by
      simp [Expr.children, hc]]
  | caseWhen o ws b =>
    have hwhens : ws.map (fun w => Fragment.ofTokens [.space, .keyword .WHEN, .space] ++ f w.1 ++
          .ofTokens [.space, .keyword .THEN, .space] ++ f w.2) =
        ws.map fun w => Fragment.ofTokens [.space, .keyword .WHEN, .space] ++ g w.1 ++
          .ofTokens [.space, .keyword .THEN, .space] ++ g w.2 := by
      refine List.map_congr_left fun w hw => ?_
      have hmem (c : Expr) (hc : c = w.1 ∨ c = w.2) : c ∈ (Expr.caseWhen o ws b).children := by
        simp only [Expr.children, List.mem_append, List.mem_flatMap]
        exact .inl (.inr ⟨w, hw, by simpa using hc⟩)
      rw [h w.1 (hmem _ (.inl rfl)), h w.2 (hmem _ (.inr rfl))]
    simp only [base, hwhens]
    rw [optional_congr (o := o) fun c hc => h c (by simp_all [Expr.children]),
      optional_congr (o := b) fun c hc => h c (by simp_all [Expr.children])]
  | order a is =>
    simp only [base, h a (by simp [Expr.children])]
    rw [ordering_congr fun c hc => h c (List.mem_cons_of_mem _ hc)]
  | groupConcat a o =>
    simp only [base, h a (by simp [Expr.children])]
    rw [optional_congr (o := o) fun c hc => h c (List.mem_cons_of_mem _ hc)]
  | select q =>
    have hlimit : q.limit.map f = q.limit.map g := by
      cases hl : q.limit with
      | none => rfl
      | some a => exact congrArg some (h a (by simp [Expr.children, Select.exprs, hl]))
    rw [base, base, hlimit]
    exact query_congr _ h
  | fetch d c p w =>
    simp only [base]
    rw [optional_congr (o := c) h]
  | createTable t =>
    have hcolumns : t.columns.map (s.columnDef f) = t.columns.map (s.columnDef g) := by
      refine List.map_congr_left fun c hc => ?_
      refine columnDef_congr fun a ha => ?_
      exact h a (List.mem_cons_of_mem _ (List.mem_flatMap.2 ⟨c, hc, ha⟩))
    rw [base, base, createTable, createTable, h t.table List.mem_cons_self, hcolumns]
  | unaryOp op a => cases op <;> simp [base, h a (by simp [Expr.children])]
  | function name es => simp only [base, hlist es fun c hc => hc]
  | distinct es => simp only [base, hlist es fun c hc => hc]
  | least es => simp only [base, hlist es fun c hc => hc]
  | greatest es => simp only [base, hlist es fun c hc => hc]
  | levenshtein es => simp only [base, hlist es fun c hc => hc]
  | _ => simp_all [base, Expr.children, predicate, cast]

theorem callArgs?_subset {e : Expr} {args : List Expr} (h : e.callArgs? = some args) :
    ∀ c ∈ args, c ∈ e.children := by
  cases e <;> first
    | (cases h; exact fun c hc => hc)
    | cases h

theorem inner?_mem {e a : Expr} (h : e.inner? = some a) : a ∈ e.children := by
  cases e <;> first
    | (cases h; exact List.mem_cons_self)
    | cases h

section

variable {e : Expr} (h : ∀ c ∈ e.children, f c = g c)

include h

theorem operandOnly_congr : s.operandOnly f e = s.operandOnly g e := by
  unfold operandOnly
  split
  case h_1 a ha => exact h a (inner?_mem ha)
  case h_2 => exact base_congr h

theorem lowerLike_congr : s.lowerLike f e = s.lowerLike g e := by
  unfold lowerLike
  split
  case h_1 n a p => rw [h a (by simp [Expr.children]), h p (by simp [Expr.children])]
  case h_2 => exact base_congr h

theorem plainCast_congr : s.plainCast f e = s.plainCast g e := by
  unfold plainCast
  split
  case h_1 a t => rw [cast, cast, h a (by simp [Expr.children])]
  case h_2 => exact base_congr h

theorem unsampled_congr : s.unsampled f e = s.unsampled g e := by
  unfold unsampled
  split
  case h_1 a m size u => rw [h a (by simp [Expr.children])]
  case h_2 => exact base_congr h

theorem degraded_congr : s.degraded f e = s.degraded g e := by
  simp only [degraded, base_congr h, lowerLike_congr h, plainCast_congr h, unsampled_congr h]

theorem arrow_congr (op : String) : s.arrow f op e = s.arrow g op e := by
  unfold arrow
  split
  case h_5 => exact base_congr h
  all_goals
    next a p => rw [h a (by simp [Expr.children]), h p (by simp [Expr.children])]

theorem least_congr : s.least f e = s.least g e := by
  unfold least
  split
  case h_1 es =>
    have hmap : es.map f = es.map g := List.map_congr_left h
    rw [callOrOperand, callOrOperand, hmap]
  case h_2 => exact base_congr h

theorem greatest_congr : s.greatest f e = s.greatest g e := by
  unfold greatest
  split
  case h_1 es =>
    have hmap : es.map f = es.map g := List.map_congr_left h
    rw [callOrOperand, callOrOperand, hmap]
  case h_2 => exact base_congr h

theorem dateAdd_congr : s.dateAdd f e = s.dateAdd g e := by
  unfold dateAdd
  split
  case h_1 a c u =>
    rw [amount, amount, h a (by simp [Expr.children]), h c (by simp [Expr.children])]
  case h_2 => exact base_congr h

theorem fetch_congr : s.fetch f e = s.fetch g e := by
  unfold fetch
  split
  case h_1 d c p w =>
    cases c with
    | none => rfl
    | some a => dsimp only; rw [h a (by simp [Expr.children])]
  case h_2 => exact base_congr h

theorem offsetBehindLimit_congr : s.offsetBehindLimit f e = s.offsetBehindLimit g e := by
  unfold offsetBehindLimit
  split
  case h_1 q => rw [query_congr _ h, base_congr h]
  case h_2 => exact base_congr h

theorem transaction_congr : s.transaction f e = s.transaction g e := by
  unfold transaction
  split
  case h_1 => rfl
  case h_2 => exact base_congr h

end

/-- A grouped concatenation is made from more than its children: it looks for
the value to aggregate further down. -/
theorem groupConcat_congr {e : Expr} (h : ∀ c ∈ e.preorder, c.depth < e.depth → f c = g c) :
    s.groupConcat f e = s.groupConcat g e := by
  have hchild {c : Expr} (hc : c ∈ e.children) : f c = g c :=
    h c (Expr.mem_preorder_child hc) (Expr.depth_lt_of_mem_children hc)
  unfold groupConcat
  split
  case h_1 a o =>
    have ha : a ∈ (Expr.groupConcat a o).children := List.mem_cons_self
    have hagg : f (aggregated a) = g (aggregated a) :=
      h _ (Expr.preorder_trans (Expr.mem_preorder_child ha) (aggregated_mem a))
        (Nat.lt_of_le_of_lt (Expr.depth_le_of_mem_preorder (aggregated_mem a))
          (Expr.depth_lt_of_mem_children ha))
    have hseparator : o.toList.map f = o.toList.map g :=
      List.map_congr_left fun c hc => hchild (List.mem_cons_of_mem _ hc)
    simp only [List.map_cons, hagg, hseparator]
  case h_2 => exact base_congr fun c hc => hchild hc

/-- A node is printed from what the nodes further down are printed as. -/
theorem node_congr {e : Expr} (h : ∀ c ∈ e.preorder, c.depth < e.depth → f c = g c) :
    s.node f e = s.node g e := by
  have hchild : ∀ c ∈ e.children, f c = g c := fun c hc =>
    h c (Expr.mem_preorder_child hc) (Expr.depth_lt_of_mem_children hc)
  unfold node
  split
  · exact base_congr hchild
  · split
    case h_1 args ha => rw [List.map_congr_left fun c hc => hchild c (callArgs?_subset ha c hc)]
    case h_2 => exact base_congr hchild
  · exact degraded_congr hchild
  · exact operandOnly_congr hchild
  case h_5 r _ =>
    cases r with
    | groupConcat => exact groupConcat_congr h
    | dateAdd => exact dateAdd_congr hchild
    | least => exact least_congr hchild
    | greatest => exact greatest_congr hchild
    | fetch => exact fetch_congr hchild
    | transaction => exact transaction_congr hchild
    | select => exact offsetBehindLimit_congr hchild
    | degraded => exact degraded_congr hchild
    | lowerLike => exact lowerLike_congr hchild
    | plainCast => exact plainCast_congr hchild
    | unsampled => exact unsampled_congr hchild
    | operandOnly => exact operandOnly_congr hchild
    | arrow => exact arrow_congr hchild "->"
    | doubleArrow => exact arrow_congr hchild "->>"

/-- A tree is printed node by node. -/
theorem fragment_eq (s : Style) (e : Expr) : s.fragment e = s.node s.fragment e :=
  Expr.byDepth_eq s.node s.toDepth (fun _ _ => rfl) (fun h => node_congr fun c _ => h c) e

end Style

/-! ## output -/

namespace Expr

variable {e : Expr} {d : Dialect} {o : RenderOptions}

/-- A well-formed tree is printed, unless the options forbid remarks. -/
theorem WellFormed.render (h : e.WellFormed) (ho : o.level ≠ .raise) :
    e.render d o = .ok ⟨d.spell ((⟨d, o.identify⟩ : Style).fragment e).tokens,
      ((⟨d, o.identify⟩ : Style).fragment e).diagnostics⟩ := by
  rw [Expr.render, validate_eq_ok_iff.2 h]
  simp [bind, Except.bind, ho]
  rfl

/-- Without remarks the level for them does not matter. -/
theorem WellFormed.render_quiet (h : e.WellFormed)
    (hq : ((⟨d, o.identify⟩ : Style).fragment e).diagnostics = []) :
    e.render d o = .ok ⟨d.spell ((⟨d, o.identify⟩ : Style).fragment e).tokens, []⟩ := by
  rw [Expr.render, validate_eq_ok_iff.2 h]
  simp [bind, Except.bind, hq]
  rfl

/-- What is printed of a tree: the pieces of its fragment and their remarks. -/
theorem render_eq_ok {r : Rendered} (h : e.render d o = .ok r) :
    e.WellFormed ∧ r = ⟨d.spell ((⟨d, o.identify⟩ : Style).fragment e).tokens,
      ((⟨d, o.identify⟩ : Style).fragment e).diagnostics⟩ := by
  unfold Expr.render at h
  cases hvalid : e.validate with
  | error => rw [hvalid] at h; cases h
  | ok =>
    rw [hvalid] at h
    simp only [bind, Except.bind] at h
    split at h
    · cases h
    · cases h
      exact ⟨validate_eq_ok_iff.1 hvalid, rfl⟩

end Expr

end SqlDialect
