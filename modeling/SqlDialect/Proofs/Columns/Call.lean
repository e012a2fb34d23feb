import SqlDialect.Proofs.Columns.Node
import SqlDialect.Proofs.Rendering.Call

/-!
# SqlDialect.Proofs.Columns.Call

The columns of SQLite's text of calls and of what stands in their place.

* `Argued` -- the texts of arguments keep their columns; the first of them may
  gather others.
* `kept_call` -- a name and arguments.
* `kept_extremum`, `kept_extraction`, `kept_dateAdd` -- the nodes that SQLite
  writes in another way.
-/

namespace SqlDialect

open Text Grammar Watch

variable {i : Bool} {a c e : Expr} {es : List Expr}

/-! ## arguments -/

/-- The text of a tree may come first in a call. -/
def Argument (i : Bool) (e : Expr) : Prop := Opens (tokensOf .sqlite i e) (e.shows i)

/-- The texts of trees may be the arguments of a call. -/
def Argued (i : Bool) : List Expr → Prop
  | [] => True
  | a :: es => Argument i a ∧ ∀ e ∈ es, Kept i e

theorem Kept.argument (h : Kept i e) : Argument i e := Spells.opens h

theorem argument_distinct (h : ∀ e ∈ es, Kept i e) (hne : es ≠ []) : Argument i (.distinct es) := by
  have hshows : (Expr.distinct es).shows i = (es.map (Expr.shows i)).flatten := by
    rw [shows_node rfl, flatten_shows]
    rfl
  rw [Argument, tokensOf_distinct, hshows]
  exact .distinct (kept_all h) (by simpa using hne)

/-- An item of an ordering. -/
theorem spells_item {item : OrderItem Expr} (h : Kept i item.expr) :
    Spells (itemTokens .sqlite i item) (item.expr.shows i) := by
  obtain ⟨e, direction⟩ := item
  have hend {k : Keyword} {s s₁ : State} (hk : s₁.keyword k = some (s₁.turn .whole))
      (hr : k.isReserved = true) (h₁ : Rests s s₁ (e.shows i)) :
      Leads [.space, .keyword k] s₁ fun s' => Rests s s' (e.shows i) := by
    refine .space (.keyword hr hk (by simp) (.nil ?_))
    simpa using h₁.trans ⟨adds_turn (m := .whole) rfl, rfl, rfl⟩
  intro s hs
  unfold itemTokens
  rcases direction with _ | _ | _
  · exact .operand h hs (by simp [directionTokens]) fun s₁ h₁ => .nil h₁
  · exact .operand h hs (by simp [directionTokens]) fun s₁ h₁ => hend rfl rfl h₁
  · exact .operand h hs (by simp [directionTokens]) fun s₁ h₁ => hend rfl rfl h₁

/-- The items of an ordering, one by one. -/
theorem spells_items {items : List (OrderItem Expr)} (h : ∀ item ∈ items, Kept i item.expr) :
    List.Forall₂ Spells (items.map (itemTokens .sqlite i))
      (items.map fun item => item.expr.shows i) := by
  rw [List.forall₂_map_left_iff, List.forall₂_map_right_iff, List.forall₂_same]
  exact fun item hitem => spells_item (h item hitem)

theorem argument_order {items : List (OrderItem Expr)} (ha : Argument i a)
    (h : ∀ item ∈ items, Kept i item.expr) (hne : items ≠ []) : Argument i (.order a items) := by
  have hshows : (Expr.order a items).shows i =
      a.shows i ++ (items.map fun item => item.expr.shows i).flatten := by
    rw [shows_node rfl]
    simp [Expr.spelled, Expr.children, List.flatMap_def, Function.comp_def]
  rw [Argument, tokensOf_order a hne, hshows]
  exact Opens.order ha (spells_items h)

/-! ## calls -/

/-- A name and arguments. -/
theorem Spells.arguments {name : String} (hname : Bare name)
    (hdate : upper name ≠ CallKind.dateAdd.name) (h : Argued i es) :
    Spells (.raw name :: .lparen :: (commas (es.map (tokensOf .sqlite i)) ++ [.rparen]))
      (es.flatMap (Expr.shows i)) := by
  cases es with
  | nil => exact .callNone hname hdate
  | cons a es =>
    have hcall := Spells.call hname hdate h.1 (kept_all h.2)
    rwa [flatten_shows, ← List.flatMap_cons] at hcall

/-- A node printed as a call of what is below it. -/
theorem kept_call {name : String} (hname : Bare name) (hdate : upper name ≠ CallKind.dateAdd.name)
    (htokens : tokensOf .sqlite i e =
      .raw name :: .lparen :: (commas (es.map (tokensOf .sqlite i)) ++ [.rparen]))
    (hshows : e.shows i = es.flatMap (Expr.shows i)) (h : Argued i es) : Kept i e := by
  rw [Kept, htokens, hshows]
  exact .arguments hname hdate h

theorem kept_function {name : String} (hw : Writable (.function name es)) (h : Argued i es) :
    Kept i (.function name es) := by
  refine kept_call hw.1 (fun hdate => ?_) (tokensOf_function name es) (shows_node rfl) h
  -- the name that moves a date would have been read as its own kind of node
  have hfunction : Builtin.generic.function? name = some .dateAdd := by
    have hupper : upper CallKind.dateAdd.name = CallKind.dateAdd.name := by decide
    have hknown := function?_name .generic .dateAdd
    unfold Builtin.function? at hknown ⊢
    rwa [hdate, ← hupper]
  cases (hw.2 _ hfunction).1

theorem kept_levenshtein (h : Argued i es) : Kept i (.levenshtein es) :=
  kept_call (bare_of_mem (by decide)).1 (by decide) (tokensOf_levenshtein es)
    (shows_node rfl) h

theorem shows_extremum (greatest : Bool) (es : List Expr) :
    (Expr.extremum greatest es).shows i = es.flatMap (Expr.shows i) := by
  cases greatest <;> exact shows_node rfl

/-- Several arguments, or a bare one. -/
theorem kept_extremum {greatest : Bool} (h : Argued i es) (hne : es ≠ [])
    (hone : ∀ a, es = [a] → Kept i a) : Kept i (.extremum greatest es) := by
  have htokens := @tokensOf_extremum .sqlite i greatest es
  rcases es with _ | ⟨a, _ | ⟨c, es⟩⟩
  · exact absurd rfl hne
  · have hshows := (shows_extremum (i := i) greatest [a]).trans (List.flatMap_singleton ..)
    rw [if_neg (by simp)] at htokens
    rw [Kept, htokens, hshows]
    exact hone a rfl
  · rw [if_pos (.inr (by simp))] at htokens
    have hname : Bare (extremumName .sqlite greatest) ∧
        upper (extremumName .sqlite greatest) ≠ CallKind.dateAdd.name := by
      refine ⟨(bare_of_mem ?_).1, ?_⟩ <;> cases greatest <;> decide
    exact kept_call hname.1 hname.2 htokens (shows_extremum greatest _) h

/-! ## operands in the place of calls -/

theorem tokensOf_conversion_sqlite (time : Bool) (a : Expr) :
    tokensOf .sqlite i (.conversion time a) = tokensOf .sqlite i a := by
  rw [tokensOf, Style.fragment_eq, Style.node]
  cases time <;> rfl

theorem kept_conversion {time : Bool} (ha : Kept i a) : Kept i (.conversion time a) := by
  have hshows : (Expr.conversion time a).shows i = a.shows i := by
    cases time <;> exact shows_one rfl rfl
  rw [Kept, tokensOf_conversion_sqlite, hshows]
  exact ha

theorem kept_extraction {binary scalar : Bool} (ha : Kept i a) (hc : Kept i c) :
    Kept i (.extraction binary scalar a c) := by
  have hshows : (Expr.extraction binary scalar a c).shows i = a.shows i ++ c.shows i := by
    cases binary <;> cases scalar <;> exact shows_two rfl rfl
  refine kept_behind ha (tokensOf_extraction_sqlite binary scalar a c) hshows fun s _ => ?_
  have hpath : Leads (tokensOf .sqlite i c) (s.turn .due) fun s' => Rests s s' (c.shows i) :=
    .last hc rfl fun _ h => h.of_turn rfl
  cases scalar with
  | false => exact Written.arrow fun t ht => hpath.behind (step_mark ht rfl s)
  | true => exact Written.doubleArrow fun t ht => hpath.behind (step_mark ht rfl s)

/-! ## dates -/

/-- The text of the amount is one string, and shows no column. -/
theorem kept_dateAdd {unit : Option String} (ha : Argument i a) : Kept i (.dateAdd a c unit) := by
  have hshows : (Expr.dateAdd a c unit).shows i = a.shows i := shows_one rfl rfl
  have hcall := Spells.call (@bare_of_mem "DATE" (by decide)).1 (by decide) ha
    (.cons (spells_string (movedText i c unit)) .nil)
  rw [Kept, tokensOf_dateAdd_sqlite, hshows]
  simpa using hcall

end SqlDialect
