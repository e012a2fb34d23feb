import Mathlib.Data.List.Forall2
import SqlDialect.Proofs.Rendering.Operator

/-!
# SqlDialect.Proofs.Rendering.Arguments

Lists with commas, and the arguments of calls.

* `Listed` -- texts of expressions, each read as the tree at its place.
* `Written.gathered` -- `DISTINCT` and `ORDER BY` among the arguments.
* `arguments_written` -- the arguments of a call as they are read: the first
  one gathers the others if it gathers anything.
-/

namespace SqlDialect

open Text Grammar

variable {b : Builtin} {i : Bool} {us : List Token} {Q : List Lexeme → Prop}

/-! ## commas -/

/-- Pieces with commas and spaces between them. -/
def commas : List (List Token) → List Token
  | [] => []
  | [ts] => ts
  | ts :: us :: tss => ts ++ .comma :: .space :: commas (us :: tss)

theorem tokens_commaSeparated (fs : List Fragment) :
    (Fragment.commaSeparated fs).tokens = commas (fs.map Fragment.tokens) := by
  induction fs with
  | nil => rfl
  | cons f fs ih =>
    cases fs with
    | nil => rfl
    | cons g fs =>
      simp only [Fragment.commaSeparated, Fragment.tokens_append, ih, List.map_cons, commas,
        Fragment.ofTokens, List.append_assoc, List.cons_append, List.nil_append]

theorem commas_cons {ts : List Token} {tss : List (List Token)} (h : tss ≠ []) :
    commas (ts :: tss) = ts ++ .comma :: .space :: commas tss := by
  obtain ⟨us, tss, rfl⟩ := List.exists_cons_of_ne_nil h
  rfl

theorem commas_append {tss uss : List (List Token)} (ht : tss ≠ []) (hu : uss ≠ []) :
    commas (tss ++ uss) = commas tss ++ .comma :: .space :: commas uss := by
  induction tss with
  | nil => exact absurd rfl ht
  | cons ts tss ih =>
    cases tss with
    | nil => rw [List.singleton_append, commas_cons hu]; rfl
    | cons us tss =>
      rw [List.cons_append, commas_cons (by simp), ih (List.cons_ne_nil us tss),
        @commas_cons ts _ (List.cons_ne_nil us tss)]
      simp only [List.append_assoc, List.cons_append]

/-- What comes in front of a list comes in front of a longer one. -/
theorem commas_front {us : List Token} {tss uss : List (List Token)} (hu : uss ≠ []) :
    commas ((us ++ commas uss) :: tss) = us ++ commas (uss ++ tss) := by
  cases tss with
  | nil => rw [List.append_nil]; rfl
  | cons ts tss =>
    rw [commas_cons (by simp), commas_append hu (by simp)]
    simp only [List.append_assoc]

/-! ## lists of expressions -/

/-- The pieces of an expression, read as a tree. -/
def Loose (b : Builtin) (ts : List Token) (e : Expr) : Prop :=
  Written b ts fun ls => Derives b.dialect (.expr 8 e) ls

/-- The pieces of expressions, each read as the tree at its place. -/
abbrev Listed (b : Builtin) : List (List Token) → List Expr → Prop := List.Forall₂ (Loose b)

/-- Expressions with commas between them. -/
theorem Listed.exprs {ts : List Token} {tss : List (List Token)} {e : Expr} {es : List Expr}
    (h : Listed b (ts :: tss) (e :: es)) :
    Written b (commas (ts :: tss)) fun ls => Derives b.dialect (.exprs (e :: es)) ls := by
  induction tss generalizing ts e es with
  | nil =>
    cases h with
    | cons he hs =>
      cases hs
      exact he.imp fun ls h => .exprsOne h
  | cons us tss ih =>
    cases h with
    | cons he hs =>
      cases hs with
      | @cons _ c _ cs hc hs =>
        rw [commas_cons (by simp)]
        refine Written.append he (by simp) fun ls h => ?_
        refine .comma fun t ht => .space ?_
        exact (ih (.cons hc hs)).imp fun ls' h' => .exprsMore h ht h'

theorem Shown.loose {e : Expr} (h : Shown b i e) (ht : e.tier b ≤ 8) :
    ∃ e', Loose b (tokensOf b i e) e' ∧ (e.All (Faithful b) → e' = e.settled b i) := by
  obtain ⟨e', hw, hf⟩ := h.written
  exact ⟨e', hw.imp fun ls h => h.derives.raise ht (Nat.le_refl _), hf⟩

/-- Expressions that can be read are read one by one. -/
theorem listed_of_shown {es : List Expr} (h : ∀ e ∈ es, Shown b i e ∧ e.tier b ≤ 8) :
    ∃ es', Listed b (es.map (tokensOf b i)) es' ∧
      ((∀ e ∈ es, e.All (Faithful b)) → es' = es.map (Expr.settled b i)) := by
  induction es with
  | nil => exact ⟨[], .nil, fun _ => rfl⟩
  | cons e es ih =>
    rw [List.forall_mem_cons] at h
    obtain ⟨e', he, hfe⟩ := h.1.1.loose h.1.2
    obtain ⟨es', hs, hfs⟩ := ih h.2
    refine ⟨e' :: es', .cons he hs, fun hf => ?_⟩
    rw [List.forall_mem_cons] at hf
    rw [List.map_cons, hfe hf.1, hfs hf.2]

/-! ## orderings -/

/-- The pieces of the items of an ordering. -/
abbrev ItemsListed (b : Builtin) : List (List Token) → List (OrderItem Expr) → Prop :=
  List.Forall₂ fun ts item => Written b ts fun ls => Derives b.dialect (.item item) ls

/-- The pieces of a direction. -/
def directionTokens : Option SortDirection → List Token
  | some .asc => [.space, .keyword .ASC]
  | some .desc => [.space, .keyword .DESC]
  | none => []

/-- The pieces of an item of an ordering. -/
def itemTokens (b : Builtin) (i : Bool) (item : OrderItem Expr) : List Token :=
  tokensOf b i item.expr ++ directionTokens item.direction

theorem tokens_orderItem (item : OrderItem Expr) :
    (Style.orderItem (style b i).fragment item).tokens = itemTokens b i item := by
  obtain ⟨e, direction⟩ := item
  rcases direction with _ | _ | _ <;> simp [Style.orderItem, itemTokens, directionTokens, tokensOf,
    Fragment.ofTokens]

theorem items_written {ts : List Token} {tss : List (List Token)} {item : OrderItem Expr}
    {items : List (OrderItem Expr)} (h : ItemsListed b (ts :: tss) (item :: items)) :
    Written b (commas (ts :: tss)) fun ls => Derives b.dialect (.items (item :: items)) ls := by
  induction tss generalizing ts item items with
  | nil =>
    cases h with
    | cons hi hs =>
      cases hs
      exact hi.imp fun ls h => .itemsOne h
  | cons us tss ih =>
    cases h with
    | cons hi hs =>
      cases hs with
      | cons hj hs =>
        rw [commas_cons (by simp)]
        refine Written.append hi (by simp) fun ls h => ?_
        refine .comma fun t ht => .space ?_
        exact (ih (.cons hj hs)).imp fun ls' h' => .itemsMore h ht h'

/-- An expression alone is an item of an ordering. -/
theorem Listed.items {tss : List (List Token)} {es : List Expr} (h : Listed b tss es) :
    ItemsListed b tss (es.map fun e => ⟨e, none⟩) := by
  induction h with
  | nil => exact .nil
  | cons he _ ih =>
    refine .cons (Written.imp he fun ls h => ?_) ih
    have := Derives.item h .none
    rwa [List.append_nil] at this

theorem item_written {item : OrderItem Expr} {e' : Expr}
    (h : Loose b (tokensOf b i item.expr) e') :
    Written b (itemTokens b i item) fun ls => Derives b.dialect (.item ⟨e', item.direction⟩) ls := by
  obtain ⟨e, direction⟩ := item
  unfold itemTokens
  rcases direction with _ | _ | _
  · rw [directionTokens, List.append_nil]
    refine Written.imp h fun ls h => ?_
    have := Derives.item h .none
    rwa [List.append_nil] at this
  · refine Written.append h (by simp [directionTokens]) fun ls h => .space ?_
    exact .keyword (by simp) fun t ht => .nil (.item h (.asc ht))
  · refine Written.append h (by simp [directionTokens]) fun ls h => .space ?_
    exact .keyword (by simp) fun t ht => .nil (.item h (.desc ht))

/-- Items that can be read are read one by one. -/
theorem itemsListed_of_shown {items : List (OrderItem Expr)}
    (h : ∀ item ∈ items, Shown b i item.expr ∧ item.expr.tier b ≤ 8) :
    ∃ items', ItemsListed b (items.map (itemTokens b i)) items' ∧
      ((∀ item ∈ items, item.expr.All (Faithful b)) →
        items' = items.map (OrderItem.map (Expr.settled b i))) := by
  induction items with
  | nil => exact ⟨[], .nil, fun _ => rfl⟩
  | cons item items ih =>
    rw [List.forall_mem_cons] at h
    obtain ⟨e', he, hfe⟩ := h.1.1.loose h.1.2
    obtain ⟨items', hs, hfs⟩ := ih h.2
    refine ⟨⟨e', item.direction⟩ :: items', .cons (item_written he) hs, fun hf => ?_⟩
    rw [List.forall_mem_cons] at hf
    rw [List.map_cons, hfe hf.1, hfs hf.2]
    rfl

/-! ## gathered arguments -/

/-- The piece in front of distinct values. -/
def distinctTokens (distinct : Bool) : List Token :=
  if distinct then [.keyword .DISTINCT, .space] else []

/-- The pieces of an ordering behind other pieces, if there is one. -/
def orderTokens (iss : List (List Token)) : List Token :=
  if iss.isEmpty then []
  else .space :: .keyword .ORDER :: .space :: .keyword .BY :: .space :: commas iss

theorem Written.distinct {distinct : Bool}
    (hk : ∀ ls₀, Flag .DISTINCT distinct ls₀ → Written b us fun ls => Q (ls₀ ++ ls)) :
    Written b (distinctTokens distinct ++ us) Q := by
  cases distinct with
  | true => exact .spacedKeyword fun t ht => hk [t] (.present ht)
  | false => exact hk [] .absent

theorem Written.orderBy {iss : List (List Token)} {items : List (OrderItem Expr)}
    (h : ItemsListed b iss items) (hu : Ends us)
    (hk : ∀ ls, Derives b.dialect (.orderBy items) ls → Written b us fun ls' => Q (ls ++ ls')) :
    Written b (orderTokens iss ++ us) Q := by
  cases h with
  | nil => exact hk [] .noOrderBy
  | cons hi hs =>
    refine .space (.spacedKeyword fun t ht => ?_)
    refine .spacedKeyword fun u hu' => ?_
    exact (items_written (.cons hi hs)).append hu fun ls h => hk _ (.orderBy ht hu' h)

/-- An ordering may follow a list. -/
theorem ends_orderTokens {iss : List (List Token)} (hu : Ends us) : Ends (orderTokens iss ++ us) := by
  unfold orderTokens
  split
  · exact hu
  · simp

/-- Values, an ordering and a separator are the arguments of a call. -/
theorem Written.gathered (distinct : Bool) {ts : List Token} {tss iss : List (List Token)}
    {e : Expr} {es : List Expr} {items : List (OrderItem Expr)} {s : Option Expr}
    (hx : Listed b (ts :: tss) (e :: es)) (hi : ItemsListed b iss items) (hu : Ends us)
    (hs : Written b us fun ls => Derives b.dialect (.separator s) ls) :
    Written b (distinctTokens distinct ++ (commas (ts :: tss) ++ (orderTokens iss ++ us)))
      fun ls => Derives b.dialect (.args (gatherArgs distinct e es items s)) ls := by
  refine .distinct fun ls₀ h₀ => ?_
  refine hx.exprs.append (ends_orderTokens hu) fun ls₁ h₁ => ?_
  refine .orderBy hi hu fun ls₂ h₂ => ?_
  refine hs.imp fun ls₃ h₃ => ?_
  simpa using Derives.args h₀ h₁ h₂ h₃

/-- The core of a node is the node, or that of its only operand. -/
theorem Expr.core_cases (b : Builtin) (e : Expr) :
    e.core b = e ∨ ∃ a, e.slots b = [(8, a)] ∧ e.core b = a.core b := by
  cases b with
  | generic => exact .inl (core_generic e)
  | sqlite =>
    rw [core.eq_def]
    split
    · exact .inr ⟨_, rfl, rfl⟩
    · exact .inr ⟨_, rfl, rfl⟩
    · exact .inr ⟨_, rfl, rfl⟩
    · exact .inr ⟨_, rfl, rfl⟩
    · exact .inl rfl

/-- What gathers no arguments and may be one is an expression. -/
theorem Clear.tier_le {e : Expr} (hc : Clear b e) (ht : e.tier b ≤ 9) (hg : e.gathers = false) :
    e.tier b ≤ 8 := by
  rcases e.core_cases b with hcore | ⟨a, hslots, hcore⟩
  · rw [Expr.tier, hcore] at ht ⊢
    cases e with
    | binaryOp op _ _ => exact op.level_bounds.2
    | unaryOp op _ => cases op <;> simp [Expr.level]
    | literal v =>
      unfold Expr.level
      split <;> simp_all
      split <;> omega
    | jsonExtract | jsonExtractScalar | jsonbExtract | jsonbExtractScalar =>
      cases b <;> simp [Expr.level]
    | distinct | order => cases hg
    | _ => simp_all [Expr.level]
  · have hslot := hc.1 (8, a) (by simp [hslots])
    rwa [Expr.tier, hcore]

/-- An expression is one in every dialect. -/
theorem Clear.tier_of_generic {e : Expr} (hc : Clear b e) (ht : e.tier .generic ≤ 8) :
    e.tier b ≤ 8 := by
  rcases e.core_cases b with hcore | ⟨a, hslots, hcore⟩
  · rw [Expr.tier_generic] at ht
    rw [Expr.tier, hcore]
    cases e with
    | literal v =>
      unfold Expr.level
      split <;> simp_all
      split <;> omega
    | jsonExtract | jsonExtractScalar | jsonbExtract | jsonbExtractScalar =>
      cases b <;> simp [Expr.level]
    | unaryOp op _ => cases op <;> simp [Expr.level]
    | _ => simp_all [Expr.level]
  · have hslot := hc.1 (8, a) (by simp [hslots])
    rwa [Expr.tier, hcore]

theorem tokensOf_distinct (es : List Expr) :
    tokensOf b i (.distinct es) = distinctTokens true ++ commas (es.map (tokensOf b i)) := by
  rw [tokensOf_base (by cases b <;> rfl)]
  simp only [Style.base, Fragment.tokens_append, tokens_commaSeparated, List.map_map]
  rfl

theorem tokensOf_order (a : Expr) {items : List (OrderItem Expr)} (hne : items ≠ []) :
    tokensOf b i (.order a items) =
      tokensOf b i a ++ orderTokens (items.map (itemTokens b i)) := by
  have hitems : (items.map (Style.orderItem (style b i).fragment)).map Fragment.tokens =
      items.map (itemTokens b i) := by
    rw [List.map_map]
    exact List.map_congr_left fun item _ => tokens_orderItem item
  rw [tokensOf_base (by cases b <;> rfl), orderTokens]
  simp [Style.base, Style.ordering, tokens_commaSeparated, hitems, hne, Fragment.ofTokens, tokensOf]

/-! ## arguments -/

theorem Expr.settled_distinct (es : List Expr) :
    (distinct es).settled b i = distinct (es.map (settled b i)) := by
  rw [settled_eq]
  cases b <;> rfl

theorem Expr.settled_order (a : Expr) (items : List (OrderItem Expr)) :
    (order a items).settled b i = order (a.settled b i) (items.map (OrderItem.map (settled b i))) := by
  rw [settled_eq]
  cases b <;> rfl

/-- An argument as the values and the ordering that it gathers. -/
structure Gathering (b : Builtin) (i : Bool) (a : Expr) (distinct : Bool) (x : Expr)
    (xs : List Expr) (items : List (OrderItem Expr)) : Prop where
  tokens : tokensOf b i a = distinctTokens distinct ++
    (commas ((x :: xs).map (tokensOf b i)) ++ orderTokens (items.map (itemTokens b i)))
  single : distinct = false → xs = []
  values : ∀ y ∈ x :: xs, y ∈ a.preorder ∧ y.tier b ≤ 8
  order : ∀ item ∈ items, item.expr ∈ a.preorder ∧ item.expr.tier b ≤ 8
  gathers : a.gathers = (distinct || !items.isEmpty)
  settled : gatherArgs distinct (x.settled b i) (xs.map (Expr.settled b i))
    (items.map (OrderItem.map (Expr.settled b i))) none = [a.settled b i]

/-- An expression gathers nothing but itself. -/
theorem gathering_self {a : Expr} (ht : a.tier b ≤ 8) (hg : a.gathers = false) :
    Gathering b i a false a [] [] where
  tokens := by simp [distinctTokens, orderTokens, commas]
  single _ := rfl
  values := by simpa using ⟨Expr.mem_preorder_self a, ht⟩
  order := by simp
  gathers := by simp [hg]
  settled := by simp [gatherArgs]

theorem gathering_distinct {x : Expr} {xs : List Expr} (hc : Clear b (.distinct (x :: xs))) :
    Gathering b i (.distinct (x :: xs)) true x xs [] where
  tokens := by simp [tokensOf_distinct, orderTokens]
  single h := nomatch h
  values := by
    intro y hy
    refine ⟨Expr.mem_preorder_child hy, hc.1 (8, y) ?_⟩
    cases b <;> exact List.mem_map_of_mem hy
  order := by simp
  gathers := rfl
  settled := by simp [gatherArgs, Expr.settled_distinct]

/-- An ordering of what gathers no ordering. -/
theorem gathering_order {a x : Expr} {distinct : Bool} {xs : List Expr}
    {items : List (OrderItem Expr)} (h : Gathering b i a distinct x xs []) (hne : items ≠ [])
    (hc : Clear b (.order a items)) : Gathering b i (.order a items) distinct x xs items where
  tokens := by
    rw [tokensOf_order a hne, h.tokens]
    simp [orderTokens]
  single := h.single
  values y hy := ⟨Expr.preorder_trans (Expr.mem_preorder_child (by simp [Expr.children]))
    (h.values y hy).1, (h.values y hy).2⟩
  order item hitem := by
    refine ⟨Expr.mem_preorder_child ?_, hc.1 (8, item.expr) ?_⟩
    · exact List.mem_cons_of_mem _ (List.mem_map_of_mem hitem)
    · cases b <;> exact List.mem_cons_of_mem _ (List.mem_map_of_mem hitem)
  gathers := by simp [Expr.gathers, hne]
  settled := by
    have hsettled := h.settled
    simp only [gatherArgs, List.map_nil, List.isEmpty_nil, if_true, Option.toList_none,
      List.append_nil, List.cons.injEq] at hsettled
    simp only [gatherArgs, List.isEmpty_map, List.isEmpty_eq_false_iff.2 hne, if_false,
      Option.toList_none, List.append_nil, Expr.settled_order, hsettled.1, hsettled.2,
      Bool.false_eq_true]

/-- Every argument that may come first gathers values and an ordering. -/
theorem gathering_of_ready {a : Expr} (ha : a.All (Ready b i)) (ht : a.tier b ≤ 9) :
    ∃ distinct x xs items, Gathering b i a distinct x xs items := by
  have hdistinct {es : List Expr} (h : Ready b i (.distinct es)) :
      ∃ x xs, es = x :: xs ∧ Gathering b i (.distinct es) true x xs [] := by
    cases es with
    | nil => cases h.sound
    | cons x xs => exact ⟨x, xs, rfl, gathering_distinct h.clear⟩
  cases hg : a.gathers with
  | false => exact ⟨_, _, _, _, gathering_self (ha.self.clear.tier_le ht hg) hg⟩
  | true =>
    cases a with
    | distinct es =>
      obtain ⟨x, xs, rfl, h⟩ := hdistinct ha.self
      exact ⟨_, _, _, _, h⟩
    | order c items =>
      have hself := ha.self
      have hne : items ≠ [] := by
        rintro rfl
        cases hself.sound
      have hready : Ready b i c := (ha.child (by simp [Expr.children])).self
      cases hgc : c.gathers with
      | false =>
        have hslot : c.tier b ≤ 9 := hself.clear.1 (9, c) (by
          cases b <;> exact List.mem_cons_self)
        exact ⟨_, _, _, _,
          gathering_order (gathering_self (hready.clear.tier_le hslot hgc) hgc) hne hself.clear⟩
      | true =>
        cases c with
        | distinct es =>
          obtain ⟨x, xs, rfl, h⟩ := hdistinct hready
          exact ⟨_, _, _, _, gathering_order h hne hself.clear⟩
        | order c' is => exact absurd rfl (hself.proper.2 c' is)
        | _ => cases hgc
    | _ => cases hg

/-- Expressions that gather nothing are the arguments. -/
theorem Listed.args {ts : List Token} {tss : List (List Token)} {e : Expr} {es : List Expr}
    (h : Listed b (ts :: tss) (e :: es)) :
    Written b (commas (ts :: tss)) fun ls => Derives b.dialect (.args (e :: es)) ls := by
  refine h.exprs.imp fun ls h => ?_
  simpa [gatherArgs] using Derives.args .absent h .noOrderBy .noSeparator

/-- The values and the ordering of an argument are read one by one. -/
theorem Gathering.listed {a x : Expr} {distinct : Bool} {xs : List Expr}
    {items : List (OrderItem Expr)} (h : Gathering b i a distinct x xs items)
    (ha : a.All (Ready b i)) :
    ∃ x' xs' items', Listed b ((x :: xs).map (tokensOf b i)) (x' :: xs') ∧
      ItemsListed b (items.map (itemTokens b i)) items' ∧
      (a.All (Faithful b) → x' = x.settled b i ∧ xs' = xs.map (Expr.settled b i) ∧
        items' = items.map (OrderItem.map (Expr.settled b i))) := by
  obtain ⟨ys', hvalues, hfaith⟩ := listed_of_shown (i := i) fun y hy =>
    ⟨(ha y (h.values y hy).1).shown (h.values y hy).2, (h.values y hy).2⟩
  obtain ⟨items', hitems, hfaith'⟩ := itemsListed_of_shown (i := i) fun item hitem =>
    ⟨(ha _ (h.order item hitem).1).shown (h.order item hitem).2, (h.order item hitem).2⟩
  obtain _ | ⟨hx, hxs⟩ := hvalues
  rename_i x' xs'
  refine ⟨x', xs', items', .cons hx hxs, hitems, fun hf => ?_⟩
  have heq := hfaith fun y hy => hf.below (h.values y hy).1
  rw [List.map_cons, List.cons.injEq] at heq
  exact ⟨heq.1, heq.2, hfaith' fun item hitem => hf.below (h.order item hitem).1⟩

/-- The arguments of a call are read as so many as are counted, and one by one
unless the first gathers others. -/
theorem arguments_written {a : Expr} {tss : List (List Token)} {es' : List Expr}
    (ha : a.All (Ready b i)) (ht : a.tier b ≤ 9) (hs : Listed b tss es') :
    ∃ args', Written b (commas (tokensOf b i a :: tss))
        (fun ls => Derives b.dialect (.args args') ls) ∧
      args'.length = (if a.gathers then 1 else tss.length + 1) ∧
      (a.All (Faithful b) → (a.gathers = true → tss = []) → args' = a.settled b i :: es') := by
  obtain ⟨distinct, x, xs, items, hg⟩ := gathering_of_ready ha ht
  obtain ⟨x', xs', items', hx, hi, hfaith⟩ := hg.listed ha
  have hlength := hs.length_eq
  cases items with
  | nil =>
    cases hi
    have hall : Listed b ((x :: xs).map (tokensOf b i) ++ tss) (x' :: (xs' ++ es')) :=
      List.rel_append hx hs
    refine ⟨gatherArgs distinct x' (xs' ++ es') [] none, ?_, ?_, fun hf hnone => ?_⟩
    · have hgathered := Written.gathered distinct hall .nil (by simp : Ends [])
        (.nil .noSeparator)
      rw [hg.tokens]
      simpa [orderTokens, commas_front] using hgathered
    · cases distinct with
      | true => simp [gatherArgs, hg.gathers]
      | false =>
        cases hg.single rfl
        cases hx with
        | cons _ hx =>
          cases hx
          simp [gatherArgs, hg.gathers, hlength]
    · obtain ⟨rfl, rfl, -⟩ := hfaith hf
      have hsettled := hg.settled
      cases distinct with
      | true =>
        cases hnone (by simp [hg.gathers])
        cases hs
        rw [List.append_nil]
        exact hsettled
      | false =>
        cases hg.single rfl
        simp only [gatherArgs, List.map_nil, List.isEmpty_nil, if_true, Bool.false_eq_true,
          if_false, Option.toList_none, List.append_nil, List.cons.injEq, and_true] at hsettled
        simp [gatherArgs, hsettled]
  | cons item items =>
    have hgathers : a.gathers = true := by simp [hg.gathers]
    obtain _ | ⟨hitem, hitems⟩ := hi
    rename_i item' items'
    have hall : ItemsListed b ((item :: items).map (itemTokens b i) ++ tss)
        (item' :: items' ++ es'.map fun e => ⟨e, none⟩) := by
      refine List.rel_append ?_ hs.items
      exact List.Forall₂.cons hitem hitems
    refine ⟨gatherArgs distinct x' xs' (item' :: items' ++ es'.map fun e => ⟨e, none⟩) none,
      ?_, ?_, fun hf hnone => ?_⟩
    · have hgathered := Written.gathered distinct hx hall (by simp : Ends [])
        (.nil .noSeparator)
      rw [hg.tokens]
      have hfront := @commas_front (distinctTokens distinct ++
        (commas ((x :: xs).map (tokensOf b i)) ++
          [.space, .keyword .ORDER, .space, .keyword .BY, .space])) tss
        ((item :: items).map (itemTokens b i)) (by simp)
      simp [orderTokens] at hgathered hfront ⊢
      rw [hfront]
      exact hgathered
    · cases distinct with
      | true => simp [gatherArgs, hgathers]
      | false =>
        cases hg.single rfl
        cases hx with
        | cons _ hx =>
          cases hx
          simp [gatherArgs, hgathers]
    · obtain ⟨rfl, rfl, hitems'⟩ := hfaith hf
      cases hnone hgathers
      cases hs
      rw [List.map_nil, List.append_nil, hitems']
      exact hg.settled

end SqlDialect
