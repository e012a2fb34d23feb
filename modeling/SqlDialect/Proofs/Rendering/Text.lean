import SqlDialect.Proofs.Rendering.Fixpoint

/-!
# SqlDialect.Proofs.Rendering.Text

The text of a node depends on the texts of the nodes below it only, not on how
these are cut into pieces.

* `Fragment.text` -- the text of a part of the output.
* `Style.text_base_congr` -- nodes below with the same texts make the same text.
* `Style.base_mapChildren` -- printing a node over other children is printing
  the node with another printer for what is below.
-/

namespace SqlDialect

namespace Fragment

variable (d : Dialect)

/-- The text of a part of the output. -/
def text (f : Fragment) : String := d.spell f.tokens

/-- A part of the output in one piece, without remarks. -/
def flat (f : Fragment) : Fragment := .raw (f.text d)

@[simp] theorem text_empty : ({} : Fragment).text d = "" := rfl

@[simp] theorem text_append (a b : Fragment) : (a ++ b).text d = a.text d ++ b.text d :=
  d.spell_append a.tokens b.tokens

@[simp] theorem text_ite (p : Prop) [Decidable p] (a b : Fragment) :
    (if p then a else b).text d = if p then a.text d else b.text d :=
  apply_ite (text d) p a b

@[simp] theorem text_remark (g : Diagnostic) : (remark g).text d = "" := rfl

@[simp] theorem text_raw (s : String) : (raw s).text d = s := by
  simp [text, raw, ofTokens, Dialect.spell, Token.text]

@[simp] theorem text_flat (f : Fragment) : (f.flat d).text d = f.text d := text_raw d _

/-- Commas between parts do not depend on how the parts are cut. -/
theorem text_commaSeparated_flat (fs : List Fragment) :
    (commaSeparated (fs.map (flat d))).text d = (commaSeparated fs).text d := by
  induction fs with
  | nil => rfl
  | cons f fs ih =>
    cases fs with
    | nil => exact text_flat d f
    | cons g gs =>
      simp only [List.map_cons, commaSeparated, text_append, text_flat] at ih ⊢
      rw [ih]

/-- The same for any printer of the items of a list. -/
@[simp] theorem text_commaSeparated_map {α : Type} (f : α → Fragment) (xs : List α) :
    (commaSeparated (xs.map fun x => (f x).flat d)).text d = (commaSeparated (xs.map f)).text d := by
  rw [← text_commaSeparated_flat d (xs.map f), List.map_map]
  rfl

/-- Printers of items that agree on their texts make the same list. -/
theorem text_commaSeparated_congr {α : Type} {f g : α → Fragment} (xs : List α)
    (h : ∀ x ∈ xs, (f x).text d = (g x).text d) :
    (commaSeparated (xs.map f)).text d = (commaSeparated (xs.map g)).text d := by
  rw [← text_commaSeparated_map d f, ← text_commaSeparated_map d g]
  exact congrArg (fun fs => (commaSeparated fs).text d)
    (List.map_congr_left fun x hx => congrArg raw (h x hx))

/-- Parts in a row that agree on their texts make the same text. -/
theorem text_concat_congr {α : Type} {f g : α → Fragment} (xs : List α)
    (h : ∀ x ∈ xs, (f x).text d = (g x).text d) :
    (concat (xs.map f)).text d = (concat (xs.map g)).text d := by
  induction xs with
  | nil => rfl
  | cons x xs ih =>
    have hcons (k : α → Fragment) :
        (concat ((x :: xs).map k)).text d = (k x).text d ++ (concat (xs.map k)).text d :=
      text_append d _ _
    rw [hcons, hcons, h x List.mem_cons_self, ih fun y hy => h y (List.mem_cons_of_mem x hy)]

@[simp] theorem text_call_map {α : Type} (name : String) (f : α → Fragment) (xs : List α) :
    (call name (xs.map fun x => (f x).flat d)).text d = (call name (xs.map f)).text d := by
  simp [call]

/-- An optional part that agrees on its text makes the same text. -/
@[simp] theorem text_optional_map {α : Type} (words : List Token) (f : α → Fragment)
    (o : Option α) :
    (Style.optional words (o.map fun x => (f x).flat d)).text d =
      (Style.optional words (o.map f)).text d := by
  cases o <;> simp [Style.optional]

end Fragment

namespace Style

open Fragment

variable {s : Style} {f g : Expr → Fragment}

/-! ## the text of a node -/

section

variable (s) (f)

@[simp] theorem text_predicate_flat (k : Keyword) (n : Bool) (a b : Expr) :
    (predicate (fun c => (f c).flat s.dialect) k n a b).text s.dialect =
      (predicate f k n a b).text s.dialect := by
  simp [predicate]

@[simp] theorem text_cast_flat (k : Keyword) (a : Expr) (t : DataType) :
    (s.cast (fun c => (f c).flat s.dialect) k a t).text s.dialect =
      (s.cast f k a t).text s.dialect := by
  simp [cast]

@[simp] theorem text_ordering_flat (items : List (OrderItem Expr)) :
    (ordering (fun c => (f c).flat s.dialect) items).text s.dialect =
      (ordering f items).text s.dialect := by
  have hitems := text_commaSeparated_congr s.dialect items
    (f := orderItem fun c => (f c).flat s.dialect) (g := orderItem f)
    fun i _ => by
      unfold orderItem
      cases i.direction with
      | none => simp
      | some dir => cases dir <;> simp
  simp [ordering, hitems]

@[simp] theorem text_columnDef_flat (c : ColumnDef Expr) :
    (s.columnDef (fun c => (f c).flat s.dialect) c).text s.dialect =
      (s.columnDef f c).text s.dialect := by
  have hconstraints := text_concat_congr s.dialect c.constraints
    (f := fun k => Fragment.ofTokens [.space] ++ constraint (fun c => (f c).flat s.dialect) k)
    (g := fun k => Fragment.ofTokens [.space] ++ constraint f k)
    fun k _ => by cases k <;> simp [constraint]
  simp [columnDef, hconstraints]

@[simp] theorem text_createTable_flat (t : CreateTable Expr) :
    (s.createTable (fun c => (f c).flat s.dialect) t).text s.dialect =
      (s.createTable f t).text s.dialect := by
  have hcolumns := text_commaSeparated_congr s.dialect t.columns
    (f := s.columnDef fun c => (f c).flat s.dialect) (g := s.columnDef f)
    fun c _ => text_columnDef_flat s f c
  simp [createTable, hcolumns]

/-- The text of a query does not depend on how its clauses are cut, the row
limit among them. -/
theorem text_query_flat (q : Select Expr) (l l' : Option Fragment)
    (hl : (optional [.space] l).text s.dialect = (optional [.space] l').text s.dialect) :
    (s.query (fun c => (f c).flat s.dialect) q l).text s.dialect =
      (s.query f q l').text s.dialect := by
  have hoffset : (optional [.space, .keyword .OFFSET, .space]
        (q.offset.map fun e => (f e).flat s.dialect ++
          .ofTokens [.space, .keyword .ROWS])).text s.dialect =
      (optional [.space, .keyword .OFFSET, .space]
        (q.offset.map fun e => f e ++ .ofTokens [.space, .keyword .ROWS])).text s.dialect := by
    cases q.offset <;> simp [optional]
  unfold query
  simp [hl, hoffset]

/-- The text of a node does not depend on how the nodes below it are cut. -/
theorem text_base_flat (e : Expr) :
    (s.base (fun c => (f c).flat s.dialect) e).text s.dialect = (s.base f e).text s.dialect := by
  cases e with
  | unaryOp op a => cases op <;> simp [base]
  | dateAdd a b u =>
    have hpair := text_commaSeparated_map s.dialect f [a, b]
    simp only [List.map_cons, List.map_nil] at hpair
    simp [base, hpair]
  | jsonExtract a p | jsonExtractScalar a p | jsonbExtract a p | jsonbExtractScalar a p =>
    exact text_call_map s.dialect _ f [a, p]
  | caseWhen o ws b =>
    have hwhens := text_concat_congr s.dialect ws
      (f := fun w : Expr × Expr => Fragment.ofTokens [.space, .keyword .WHEN, .space] ++
        (f w.1).flat s.dialect ++ .ofTokens [.space, .keyword .THEN, .space] ++
        (f w.2).flat s.dialect)
      (g := fun w => Fragment.ofTokens [.space, .keyword .WHEN, .space] ++ f w.1 ++
        .ofTokens [.space, .keyword .THEN, .space] ++ f w.2) fun w _ => by simp
    simp [base, hwhens]
  | select q => exact text_query_flat s f q _ _ (text_optional_map s.dialect _ f q.limit)
  | _ => simp [base]

end

/-- Nodes below with the same texts make the same text. -/
theorem text_base_congr {e : Expr}
    (h : ∀ c ∈ e.children, (f c).text s.dialect = (g c).text s.dialect) :
    (s.base f e).text s.dialect = (s.base g e).text s.dialect := by
  have hflat : s.base (fun c => (f c).flat s.dialect) e = s.base (fun c => (g c).flat s.dialect) e :=
    base_congr fun c hc => congrArg raw (h c hc)
  rw [← text_base_flat s f, ← text_base_flat s g, hflat]

/-- The same for the clauses of a query, its row limit among them. -/
theorem text_query_congr {q : Select Expr} {l l' : Option Fragment}
    (h : ∀ c ∈ q.exprs, (f c).text s.dialect = (g c).text s.dialect)
    (hl : (optional [.space] l).text s.dialect = (optional [.space] l').text s.dialect) :
    (s.query f q l).text s.dialect = (s.query g q l').text s.dialect := by
  have hflat : s.query (fun c => (f c).flat s.dialect) q l =
      s.query (fun c => (g c).flat s.dialect) q l :=
    query_congr l fun c hc => congrArg raw (h c hc)
  rw [← text_query_flat s f q l l rfl, hflat, text_query_flat s g q l l' hl]

/-! ## other children -/

/-- A query over other expressions is printed as the query itself, with another
printer for what is below. -/
theorem query_map {k : Expr → Expr} {q : Select Expr} {l : Option Fragment}
    (h : s.fetchesLast (q.map k) = s.fetchesLast q) :
    s.query f (q.map k) l = s.query (fun c => f (k c)) q l := by
  have hitems : (q.orderBy.map (OrderItem.map k)).map (orderItem f) =
      q.orderBy.map (orderItem fun c => f (k c)) := by
    rw [List.map_map]
    rfl
  simp only [query, h]
  simp only [Select.map, ordering, hitems, List.map_map, Option.map_map, List.isEmpty_map,
    Function.comp_def]
  rfl

/-- A node over other children is printed as the node itself, with another
printer for what is below.  Only the place of a fetch in a query hangs on the
kind of a child. -/
theorem base_mapChildren {k : Expr → Expr} {e : Expr}
    (h : ∀ q, e = .select q → s.fetchesLast (q.map k) = s.fetchesLast q) :
    s.base f (e.mapChildren k) = s.base (fun c => f (k c)) e := by
  cases e with
  | unaryOp op a => cases op <;> rfl
  | select q =>
    have hlimit : (q.map k).limit.map f = q.limit.map fun c => f (k c) := Option.map_map f k q.limit
    rw [Expr.mapChildren, base, base, hlimit, query_map (h q rfl)]
  | createTable t =>
    have hcolumn (c : ColumnDef Expr) :
        s.columnDef f (c.map k) = s.columnDef (fun c => f (k c)) c := by
      have hconstraint (j : ColumnConstraint Expr) :
          constraint f (j.map k) = constraint (fun c => f (k c)) j := by
        cases j <;> rfl
      simp [columnDef, ColumnDef.map, Function.comp_def, hconstraint]
    simp [Expr.mapChildren, base, createTable, CreateTable.map, Function.comp_def, hcolumn]
  | order a items =>
    have hitems : (items.map (OrderItem.map k)).map (orderItem f) =
        items.map (orderItem fun c => f (k c)) := by
      rw [List.map_map]
      rfl
    simp [Expr.mapChildren, base, ordering, hitems]
  | _ => simp [Expr.mapChildren, base, Function.comp_def, predicate, cast]

end Style

end SqlDialect
