import Mathlib
import SqlDialect.Proofs.Rendering.Sqlite

/-!
# SqlDialect.Proofs.Rendering.Remarks

Which remarks come up while a tree is printed, and in what order.

* `Style.diagnostics_base` -- the base form of a node has the remarks of what
  is below it, in the order in which it is printed, and a literal its own.
* `Expr.sqliteRemarks` -- what SQLite has to remark about a tree, read off the
  tree alone.
* `sqlite_remarks_exact` -- these are the remarks that come with the output.
-/

namespace SqlDialect

/-! ## parts -/

namespace Fragment

theorem diagnostics_commaSeparated (fs : List Fragment) :
    (commaSeparated fs).diagnostics = fs.flatMap diagnostics := by
  induction fs with
  | nil => rfl
  | cons f fs ih =>
    cases fs with
    | nil => simp [commaSeparated]
    | cons g fs =>
      rw [commaSeparated, diagnostics_append, diagnostics_append, ih, List.flatMap_cons]
      · simp [ofTokens]
      · exact List.cons_ne_nil g fs

theorem diagnostics_concat (fs : List Fragment) :
    (concat fs).diagnostics = fs.flatMap diagnostics := by
  induction fs with
  | nil => rfl
  | cons f fs ih =>
    change (f ++ concat fs).diagnostics = _
    rw [diagnostics_append, ih, List.flatMap_cons]

@[simp] theorem diagnostics_empty : ({} : Fragment).diagnostics = [] := rfl

@[simp] theorem diagnostics_ofTokens (ts : List Token) : (ofTokens ts).diagnostics = [] := rfl

@[simp] theorem diagnostics_raw (s : String) : (raw s).diagnostics = [] := rfl

@[simp] theorem diagnostics_keyword (k : Keyword) : (keyword k).diagnostics = [] := rfl

@[simp] theorem diagnostics_remark (g : Diagnostic) : (remark g).diagnostics = [g] := rfl

@[simp] theorem diagnostics_ite (p : Prop) [Decidable p] (a b : Fragment) :
    (if p then a else b).diagnostics = if p then a.diagnostics else b.diagnostics :=
  apply_ite diagnostics p a b

@[simp] theorem diagnostics_call (name : String) (fs : List Fragment) :
    (call name fs).diagnostics = fs.flatMap diagnostics := by
  simp [call, diagnostics_commaSeparated]

end Fragment

namespace Style

open Fragment

variable {s : Style} {f : Expr → Fragment}

@[simp] theorem diagnostics_optional {words : List Token} {p : Option Fragment} :
    (optional words p).diagnostics = p.toList.flatMap Fragment.diagnostics := by
  cases p <;> simp [optional]

@[simp] theorem diagnostics_negation (negated : Bool) : (negation negated).diagnostics = [] := by
  cases negated <;> rfl

@[simp] theorem diagnostics_identifier (n : Ident) : (s.identifier n).diagnostics = [] := by
  unfold identifier
  split <;> rfl

@[simp] theorem diagnostics_qualified (q : Option Ident) (n : Ident) :
    (s.qualified q n).diagnostics = [] := by
  cases q <;> simp [qualified]

@[simp] theorem diagnostics_dataType (t : DataType) : (s.dataType t).diagnostics = [] := rfl

@[simp] theorem diagnostics_orderItem (i : OrderItem Expr) :
    (orderItem f i).diagnostics = (f i.expr).diagnostics := by
  obtain ⟨e, direction⟩ := i
  rcases direction with _ | _ | _ <;> simp [orderItem]

@[simp] theorem diagnostics_ordering (items : List (OrderItem Expr)) :
    (ordering f items).diagnostics =
      (items.map OrderItem.expr).flatMap fun c => (f c).diagnostics := by
  simp [ordering, diagnostics_commaSeparated, List.flatMap_map]

theorem diagnostics_columnDef (c : ColumnDef Expr) :
    (s.columnDef f c).diagnostics = c.exprs.flatMap fun a => (f a).diagnostics := by
  have hconstraint (k : ColumnConstraint Expr) :
      (constraint f k).diagnostics = k.exprs.flatMap fun a => (f a).diagnostics := by
    cases k <;> simp [constraint, ColumnConstraint.exprs]
  cases ht : c.dataType <;>
    simp [columnDef, ht, diagnostics_concat, ColumnDef.exprs, List.flatMap_map, hconstraint,
      List.flatMap_assoc]

/-! ## nodes in the base form -/

/-- The clauses of a query in front of its row limit and its offset. -/
def head (q : Select Expr) : List Expr :=
  q.projections ++ q.source.toList ++ q.filter.toList ++ q.groupBy ++ q.having.toList ++
    q.orderBy.map OrderItem.expr

/-- What is below a node in the order in which the base form prints it: a fetch
in the base form comes behind the offset. -/
def printed (s : Style) : Expr → List Expr
  | .select q =>
    head q ++ if s.fetchesLast q then q.offset.toList ++ q.limit.toList
      else q.limit.toList ++ q.offset.toList
  | e => e.children

/-- The remarks about a node itself in the base form, which only literals
have. -/
def ofLiteral (s : Style) : Expr → List Diagnostic
  | .literal v => (s.literal v).diagnostics
  | _ => []

theorem mem_printed {e c : Expr} : c ∈ s.printed e ↔ c ∈ e.children := by
  cases e with
  | select q =>
    have hchildren : (Expr.select q).children = head q ++ q.limit.toList ++ q.offset.toList := rfl
    rw [hchildren, printed]
    split <;> simp only [List.mem_append, or_assoc, or_comm (a := c ∈ q.offset.toList)]
  | _ => rfl

theorem diagnostics_query (q : Select Expr) (l : Option Fragment) :
    (s.query f q l).diagnostics = ((head q).flatMap fun c => (f c).diagnostics) ++
      if s.fetchesLast q then
        (q.offset.toList.flatMap fun c => (f c).diagnostics) ++ l.toList.flatMap diagnostics
      else l.toList.flatMap diagnostics ++ q.offset.toList.flatMap fun c => (f c).diagnostics := by
  have hoption (o : Option Expr) : (o.map f).toList.flatMap diagnostics =
      o.toList.flatMap fun c => (f c).diagnostics := by
    cases o <;> simp
  have hrows : (q.offset.map fun e => f e ++ ofTokens [.space, .keyword .ROWS]).toList.flatMap
      diagnostics = q.offset.toList.flatMap fun c => (f c).diagnostics := by
    cases q.offset <;> simp
  have hgroup : (if q.groupBy.isEmpty then {} else
      ofTokens [.space, .keyword .GROUP, .space, .keyword .BY, .space] ++
        commaSeparated (q.groupBy.map f)).diagnostics =
      q.groupBy.flatMap fun c => (f c).diagnostics := by
    cases q.groupBy <;> simp [diagnostics_commaSeparated, List.flatMap_map]
  have horder : (if q.orderBy.isEmpty then {} else
      ofTokens [.space] ++ ordering f q.orderBy).diagnostics =
      (q.orderBy.map OrderItem.expr).flatMap fun c => (f c).diagnostics := by
    cases q.orderBy <;> simp
  simp only [query, head, diagnostics_append, hgroup, horder, diagnostics_commaSeparated,
    List.flatMap_map, List.flatMap_append, diagnostics_optional, hoption, diagnostics_ofTokens]
  split <;> simp [hoption, hrows]

/-- A node in the base form has the remarks of what is below it, in the order
in which it is printed; a literal has its own. -/
theorem diagnostics_base (e : Expr) :
    (s.base f e).diagnostics =
      s.ofLiteral e ++ (s.printed e).flatMap fun c => (f c).diagnostics := by
  cases e with
  | unaryOp op a => cases op <;> simp [base, ofLiteral, printed, Expr.children]
  | star q => cases q <;> simp [base, ofLiteral, printed, Expr.children]
  | table q n a => cases a <;> simp [base, ofLiteral, printed, Expr.children]
  | literal v => simp [base, ofLiteral, printed, Expr.children]
  | select q =>
    have hlimit : (q.limit.map f).toList.flatMap diagnostics =
        q.limit.toList.flatMap fun c => (f c).diagnostics := by
      cases q.limit <;> simp
    rw [base, diagnostics_query, hlimit]
    simp only [ofLiteral, printed]
    split <;> simp
  | createTable t =>
    simp [base, createTable, ofLiteral, printed, Expr.children, CreateTable.exprs,
      diagnostics_commaSeparated, diagnostics_columnDef, List.flatMap_map, List.flatMap_assoc]
  | caseWhen o ws b =>
    cases o <;> cases b <;>
      simp [base, ofLiteral, printed, Expr.children, diagnostics_concat, List.flatMap_map,
        List.flatMap_assoc]
  | groupConcat a o => cases o <;> simp [base, ofLiteral, printed, Expr.children]
  | fetch d c p w => cases c <;> simp [base, ofLiteral, printed, Expr.children]
  | tableSample a m size u => cases m <;> simp [base, ofLiteral, printed, Expr.children]
  | dateAdd a b u =>
    cases u <;> simp [base, ofLiteral, printed, Expr.children, diagnostics_commaSeparated]
  | transaction m => cases m <;> simp [base, ofLiteral, printed, Expr.children]
  | _ =>
    simp [base, predicate, cast, ofLiteral, printed, Expr.children, diagnostics_commaSeparated,
      List.flatMap_map]

end Style

/-! ## what SQLite remarks -/

namespace Expr

/-- What SQLite has to remark about a node itself. -/
def sqliteOwn : Expr → List Diagnostic
  | ilike .. => [.ilike]
  | tryCast .. => [.tryCast]
  | tableSample .. => [.tableSample]
  | fetch _ _ percent withTies =>
    (if percent then [.fetchPercent] else []) ++ if withTies then [.fetchTies] else []
  | literal (.hexString digits) => if digits.length % 2 = 1 then [.oddHexBlob digits] else []
  | _ => []

/-- What is below a node, in the order in which SQLite comes to print it: of a
sample nothing but the table, and the amount by which a date is moved before
the date. -/
def sqliteVisited : Expr → List Expr
  | tableSample a _ _ _ => [a]
  | dateAdd a amount _ => [amount, a]
  | e => e.children

theorem mem_children_of_mem_sqliteVisited {e c : Expr} (h : c ∈ e.sqliteVisited) :
    c ∈ e.children := by
  unfold sqliteVisited at h
  split at h
  · simp_all [children]
  · simp only [children, List.mem_cons, List.not_mem_nil, or_false] at h ⊢
    exact h.symm
  · exact h

/-- What SQLite has to remark about a tree: about the node, then about what is
below it. -/
def sqliteRemarks (e : Expr) : List Diagnostic :=
  e.sqliteOwn ++ e.sqliteVisited.attach.flatMap fun ⟨c, _⟩ => c.sqliteRemarks
termination_by e
decreasing_by exact sizeOf_lt_of_mem_children (mem_children_of_mem_sqliteVisited ‹_›)

theorem sqliteRemarks_eq (e : Expr) :
    e.sqliteRemarks = e.sqliteOwn ++ e.sqliteVisited.flatMap sqliteRemarks := by
  rw [sqliteRemarks]
  simp [List.flatMap_subtype, List.unattach_attach]

/-- A node that is a text, with its characters. -/
theorem stringValue?_eq_some {e : Expr} {v : String} (h : e.stringValue? = some v) :
    e = literal (.string v) := by
  unfold stringValue? at h
  split at h <;> cases h
  rfl

end Expr

namespace Style

open Fragment

variable {i : Bool}

/-- SQLite writes integers in base 16 behind a mark, so only a binary literal
is remarked about. -/
theorem ofLiteral_sqlite (e : Expr) (h : (sqlite i).dialect.transform? e.kind = none) :
    (sqlite i).ofLiteral e = e.sqliteOwn := by
  cases e with
  | literal v =>
    cases v with
    | hexString digits =>
      show ((sqlite i).hexBlob digits).diagnostics = _
      rw [hexBlob, diagnostics_ite]
      rfl
    | bool b => cases b <;> rfl
    | _ => rfl
  | _ => first
    | rfl
    | cases h

/-- The remarks about a node that SQLite prints in the base form. -/
theorem diagnostics_base_sqlite {f : Expr → Fragment} (e : Expr)
    (h : (sqlite i).dialect.transform? e.kind = none) :
    ((sqlite i).base f e).diagnostics =
      e.sqliteOwn ++ e.sqliteVisited.flatMap fun c => (f c).diagnostics := by
  have hprinted : (sqlite i).printed e = e.sqliteVisited := by
    cases e <;> first
      | rfl
      | cases h
  rw [diagnostics_base, ofLiteral_sqlite e h, hprinted]

/-- A date is moved by the text of a literal, which nothing is remarked about,
or by what the amount is printed as. -/
theorem diagnostics_amount (e : Expr) :
    ((sqlite i).amount (sqlite i).fragment e).2 = ((sqlite i).fragment e).diagnostics := by
  unfold amount
  split
  case h_1 v hv =>
    have he : e = .literal (.string v) := Expr.stringValue?_eq_some hv
    rw [he, fragment_eq]
    rfl
  case h_2 => rfl

theorem diagnostics_callOrOperand {f : Expr → Fragment} (name : String) (args : List Expr) :
    (callOrOperand f name args).diagnostics = args.flatMap fun c => (f c).diagnostics := by
  unfold callOrOperand
  split <;> simp [diagnostics_commaSeparated, List.flatMap_map]

/-- A query is printed clause by clause, whether or not a limit is written in
front of its offset. -/
theorem diagnostics_offsetBehindLimit {f : Expr → Fragment} (q : Select Expr) :
    ((sqlite i).offsetBehindLimit f (.select q)).diagnostics =
      q.exprs.flatMap fun c => (f c).diagnostics := by
  have hprinted : (sqlite i).printed (.select q) = q.exprs := by
    simp [printed, fetchesLast_of_sqlite, head, Select.exprs]
  rw [offsetBehindLimit]
  split
  case isTrue h =>
    have hlimit : q.limit = none := by simp_all
    rw [← hprinted, diagnostics_query]
    simp [printed, fetchesLast_of_sqlite, hlimit]
  case isFalse => rw [diagnostics_base, hprinted]; rfl

/-- One node: the remarks about it, and then those about what is below. -/
theorem diagnostics_sqlite {e : Expr} (hk : e.kind ≠ .groupConcat) :
    ((sqlite i).fragment e).diagnostics =
      e.sqliteOwn ++ e.sqliteVisited.flatMap fun c => ((sqlite i).fragment c).diagnostics := by
  rw [fragment_eq]
  cases e with
  | groupConcat => exact absurd rfl hk
  | ilike n a p =>
    show ((sqlite i).lowerLike (sqlite i).fragment (.ilike n a p)).diagnostics = _
    simp [lowerLike, Expr.sqliteOwn, Expr.sqliteVisited, Expr.children]
  | tryCast a t =>
    show ((sqlite i).plainCast (sqlite i).fragment (.tryCast a t)).diagnostics = _
    simp [plainCast, cast, Expr.sqliteOwn, Expr.sqliteVisited, Expr.children]
  | tableSample a m size u =>
    show ((sqlite i).unsampled (sqlite i).fragment (.tableSample a m size u)).diagnostics = _
    simp [unsampled, Expr.sqliteOwn, Expr.sqliteVisited]
  | dateAdd a amount unit =>
    show ((sqlite i).dateAdd (sqlite i).fragment (.dateAdd a amount unit)).diagnostics = _
    simp [dateAdd, Expr.sqliteOwn, Expr.sqliteVisited, diagnostics_amount]
  | dateStrToDate a | timeStrToTime a =>
    show ((sqlite i).fragment a).diagnostics = _
    simp [Expr.sqliteOwn, Expr.sqliteVisited, Expr.children]
  | levenshtein args =>
    show (Fragment.call "EDITDIST3" (args.map (sqlite i).fragment)).diagnostics = _
    simp [Expr.sqliteOwn, Expr.sqliteVisited, Expr.children, List.flatMap_map]
  | least args =>
    show (callOrOperand (sqlite i).fragment "MIN" args).diagnostics = _
    exact diagnostics_callOrOperand "MIN" args
  | greatest args =>
    show (callOrOperand (sqlite i).fragment "MAX" args).diagnostics = _
    exact diagnostics_callOrOperand "MAX" args
  | jsonExtract a p | jsonbExtract a p =>
    show ((sqlite i).fragment a ++ ofTokens [.space, .raw "->", .space] ++
      (sqlite i).fragment p).diagnostics = _
    simp [Expr.sqliteOwn, Expr.sqliteVisited, Expr.children]
  | jsonExtractScalar a p | jsonbExtractScalar a p =>
    show ((sqlite i).fragment a ++ ofTokens [.space, .raw "->>", .space] ++
      (sqlite i).fragment p).diagnostics = _
    simp [Expr.sqliteOwn, Expr.sqliteVisited, Expr.children]
  | fetch d count percent withTies =>
    show ((sqlite i).fetch (sqlite i).fragment (.fetch d count percent withTies)).diagnostics = _
    cases count <;> simp [fetch, Expr.sqliteOwn, Expr.sqliteVisited, Expr.children]
  | transaction m =>
    show ((sqlite i).transaction (sqlite i).fragment (.transaction m)).diagnostics = _
    cases m <;> simp [transaction, Expr.sqliteOwn, Expr.sqliteVisited, Expr.children]
  | select q =>
    show ((sqlite i).offsetBehindLimit (sqlite i).fragment (.select q)).diagnostics = _
    exact diagnostics_offsetBehindLimit q
  | _ => exact diagnostics_base_sqlite _ rfl

/-- The remarks about a tree are those that can be read off it. -/
theorem diagnostics_fragment {e : Expr} (hk : e.All fun n => n.kind ≠ .groupConcat) :
    ((sqlite i).fragment e).diagnostics = e.sqliteRemarks := by
  induction e using Expr.induction with
  | node e ih =>
    have hbelow : e.sqliteVisited.map (fun c => ((sqlite i).fragment c).diagnostics) =
        e.sqliteVisited.map Expr.sqliteRemarks := by
      refine List.map_congr_left fun c hc => ?_
      have hchild := Expr.mem_children_of_mem_sqliteVisited hc
      exact ih c hchild (hk.child hchild)
    rw [diagnostics_sqlite hk.self, Expr.sqliteRemarks_eq, List.flatMap_def, hbelow,
      ← List.flatMap_def]

end Style

/-- SQLite's remarks are complete and exact, and come in the order of the
tree: a tree that can be printed and holds no grouped concatenation is printed
with the remarks that the tree itself tells. -/
theorem sqlite_remarks_exact (e : Expr) (i : Bool) (h : e.validate = .ok ())
    (hk : ∀ n ∈ e.preorder, n.kind ≠ .groupConcat) :
    ∃ r, e.render .sqlite ⟨.ignore, i⟩ = .ok r ∧ r.diagnostics = e.sqliteRemarks :=
  ⟨_, (Expr.validate_eq_ok_iff.1 h).render nofun, Style.diagnostics_fragment hk⟩

/-- A query with remarks on two levels: about a case-insensitive match of a
blob that lacks a digit, about a date moved by a cast, and about a fetch. -/
def remarkedQuery : Expr :=
  .select { projections := [.dateAdd (.ilike false (.column none ⟨"a", false⟩)
                (.literal (.hexString "abc")))
              (.tryCast (.column none ⟨"b", false⟩) (.ofKind .int)) (some "DAY")]
            limit := some (.fetch .first none true true) }

theorem sqlite_remarks_exact_query :
    remarkedQuery.validate = .ok () ∧
      remarkedQuery.sqliteRemarks =
        [.tryCast, .ilike, .oddHexBlob "abc", .fetchPercent, .fetchTies] ∧
      ∃ r, remarkedQuery.render .sqlite ⟨.ignore, false⟩ = .ok r ∧
        r.diagnostics = remarkedQuery.sqliteRemarks := by
  have hvalid : remarkedQuery.validate = .ok () := by cbv
  have hodd : "abc".length % 2 = 1 := by decide
  refine ⟨hvalid, ?_, sqlite_remarks_exact _ false hvalid
    (by simp [remarkedQuery, Expr.preorder_eq, Expr.children, Select.exprs, Expr.kind])⟩
  simp [remarkedQuery, Expr.sqliteRemarks_eq, Expr.sqliteOwn, Expr.sqliteVisited, Expr.children,
    Select.exprs, hodd]

end SqlDialect
