import Mathlib.Data.List.Basic
import SqlDialect.Proofs.Tree.WellFormed

/-!
# SqlDialect.Proofs.Tree.Stored

What the fields of a tree hold, and that no part of a tree is passed over.

* `Expr.stored` -- every expression in the fields of a node, and in theirs, read
  off the fields.
* `Expr.listing` -- the node itself in front of these.
* `Expr.listing_eq_preorder` -- walking from child to child comes to all of them,
  to each one once and in this order.
* `validation_reaches_every_node` -- a tree is judged by its listing, and so is a
  search in it.

A field is an expression, or one of the containers below; each has its own
function here, so that a field can only be left out where its node is taken
apart.
-/

namespace SqlDialect

namespace Expr

/-! ## fields -/

mutual

/-- The expressions in the fields of a node, field by field, each in front of
what its own fields hold. -/
def stored : Expr → List Expr
  | column _ _ => []
  | literal _ => []
  | star _ => []
  | aliased operand _ => operand :: operand.stored
  | paren operand => operand :: operand.stored
  | binaryOp _ left right => left :: left.stored ++ right :: right.stored
  | unaryOp _ operand => operand :: operand.stored
  | like _ operand pattern => operand :: operand.stored ++ pattern :: pattern.stored
  | ilike _ operand pattern => operand :: operand.stored ++ pattern :: pattern.stored
  | isNull _ operand => operand :: operand.stored
  | between _ operand low high =>
    operand :: operand.stored ++ low :: low.stored ++ high :: high.stored
  | inList _ operand list => operand :: operand.stored ++ storedList list
  | caseWhen operand whens otherwise =>
    storedOption operand ++ storedWhens whens ++ storedOption otherwise
  | cast operand _ => operand :: operand.stored
  | tryCast operand _ => operand :: operand.stored
  | function _ args => storedList args
  | distinct exprs => storedList exprs
  | order operand items => operand :: operand.stored ++ storedItems items
  | groupConcat operand separator => operand :: operand.stored ++ storedOption separator
  | dateAdd operand amount _ => operand :: operand.stored ++ amount :: amount.stored
  | least args => storedList args
  | greatest args => storedList args
  | levenshtein args => storedList args
  | jsonExtract operand path => operand :: operand.stored ++ path :: path.stored
  | jsonExtractScalar operand path => operand :: operand.stored ++ path :: path.stored
  | jsonbExtract operand path => operand :: operand.stored ++ path :: path.stored
  | jsonbExtractScalar operand path => operand :: operand.stored ++ path :: path.stored
  | dateStrToDate operand => operand :: operand.stored
  | timeStrToTime operand => operand :: operand.stored
  | table _ _ _ => []
  | tableSample operand _ size _ => operand :: operand.stored ++ size :: size.stored
  | select ⟨_, projections, source, filter, groupBy, having, orderBy, rows, skipped⟩ =>
    storedList projections ++ storedOption source ++ storedOption filter ++ storedList groupBy ++
      storedOption having ++ storedItems orderBy ++ storedOption rows ++ storedOption skipped
  | limit count => count :: count.stored
  | fetch _ count _ _ => storedOption count
  | transaction _ => []
  | commit => []
  | rollback => []
  | createTable ⟨target, _, columns⟩ => target :: target.stored ++ storedColumns columns

/-- The same of a slot that may be empty. -/
def storedOption : Option Expr → List Expr
  | none => []
  | some e => e :: e.stored

/-- The same of a list. -/
def storedList : List Expr → List Expr
  | [] => []
  | e :: es => e :: e.stored ++ storedList es

/-- The same of the branches of a case. -/
def storedWhens : List (Expr × Expr) → List Expr
  | [] => []
  | (condition, result) :: whens =>
    condition :: condition.stored ++ result :: result.stored ++ storedWhens whens

/-- The same of the items of an ordering. -/
def storedItems : List (OrderItem Expr) → List Expr
  | [] => []
  | ⟨e, _⟩ :: items => e :: e.stored ++ storedItems items

/-- The same of what is demanded of a column. -/
def storedConstraints : List (ColumnConstraint Expr) → List Expr
  | [] => []
  | .primaryKey :: ks => storedConstraints ks
  | .notNull :: ks => storedConstraints ks
  | .unique :: ks => storedConstraints ks
  | .autoIncrement :: ks => storedConstraints ks
  | .default value :: ks => value :: value.stored ++ storedConstraints ks

/-- The same of the columns of a table. -/
def storedColumns : List (ColumnDef Expr) → List Expr
  | [] => []
  | ⟨_, _, ks⟩ :: columns => storedConstraints ks ++ storedColumns columns

end

/-- A tree and every expression stored in it, from the top down and field by
field. -/
def listing (e : Expr) : List Expr := e :: e.stored

/-! ## containers -/

theorem storedOption_eq (o : Option Expr) : storedOption o = o.toList.flatMap listing := by
  cases o with
  | none => rw [storedOption]; rfl
  | some e => rw [storedOption, Option.toList_some, List.flatMap_singleton, listing]

theorem storedList_eq (es : List Expr) : storedList es = es.flatMap listing := by
  induction es with
  | nil => rw [storedList, List.flatMap_nil]
  | cons e es ih => rw [storedList, ih, List.flatMap_cons, listing]

theorem storedWhens_eq (whens : List (Expr × Expr)) :
    storedWhens whens = (whens.flatMap fun w => [w.1, w.2]).flatMap listing := by
  induction whens with
  | nil => rw [storedWhens]; rfl
  | cons w whens ih =>
    obtain ⟨condition, result⟩ := w
    rw [storedWhens, ih]
    simp [listing]

theorem storedItems_eq (items : List (OrderItem Expr)) :
    storedItems items = (items.map OrderItem.expr).flatMap listing := by
  induction items with
  | nil => rw [storedItems]; rfl
  | cons item items ih =>
    obtain ⟨e, direction⟩ := item
    rw [storedItems, ih, List.map_cons, List.flatMap_cons, listing]

theorem storedConstraints_eq (ks : List (ColumnConstraint Expr)) :
    storedConstraints ks = (ks.flatMap ColumnConstraint.exprs).flatMap listing := by
  induction ks with
  | nil => rw [storedConstraints]; rfl
  | cons k ks ih =>
    cases k <;> rw [storedConstraints, ih] <;> simp [ColumnConstraint.exprs, listing]

theorem storedColumns_eq (columns : List (ColumnDef Expr)) :
    storedColumns columns = (columns.flatMap ColumnDef.exprs).flatMap listing := by
  induction columns with
  | nil => rw [storedColumns]; rfl
  | cons column columns ih =>
    obtain ⟨name, type, ks⟩ := column
    rw [storedColumns, ih, storedConstraints_eq, List.flatMap_cons, List.flatMap_append]
    rfl

/-! ## the walk from child to child -/

/-- The fields of a node hold its children and what these hold. -/
theorem stored_eq (e : Expr) : e.stored = e.children.flatMap listing := by
  cases e with
  | select q =>
    simp only [stored, children, Select.exprs, storedList_eq, storedOption_eq, storedItems_eq,
      List.flatMap_append]
  | createTable t =>
    simp only [stored, children, CreateTable.exprs, storedColumns_eq, List.flatMap_cons, listing]
  | _ =>
    simp [stored, children, listing, storedList_eq, storedOption_eq, storedItems_eq,
      storedWhens_eq]

/-- Walking from child to child comes to everything that is stored, to each
expression once and in the order of the fields. -/
theorem listing_eq_preorder (e : Expr) : e.listing = e.preorder := by
  induction e using Expr.induction with
  | node e ih =>
    rw [listing, stored_eq, preorder_eq, List.flatMap_congr ih]

/-- A search from child to child finds the first one of all that are stored. -/
theorem find?_eq_find?_listing (p : Expr → Bool) (e : Expr) : e.find? p = e.listing.find? p := by
  induction e using Expr.induction with
  | node e ih =>
    have hchildren : e.children.findSome? (find? p) = e.stored.find? p :=
      calc e.children.findSome? (find? p)
        _ = (e.children.map (find? p)).findSome? id := by rw [List.findSome?_map]; rfl
        _ = (e.children.map fun c => c.listing.find? p).findSome? id := by
          rw [List.map_congr_left ih]
        _ = e.children.findSome? fun c => c.listing.find? p := by rw [List.findSome?_map]; rfl
        _ = e.stored.find? p := by rw [stored_eq, List.find?_flatMap]
    rw [find?_eq, listing, List.find?_cons, hchildren]
    cases p e <;> rfl

/-- A tree is refused for the first expression in it that is at fault. -/
theorem validate_eq_error_iff {e : Expr} {error : RenderError} :
    e.validate = .error error ↔ ∃ before x after fault, e.listing = before ++ x :: after ∧
      (∀ y ∈ before, y.fault? = none) ∧ x.fault? = some fault ∧
        error = .structural x.kind fault := by
  have hfirst : e.validate = .error error ↔
      e.listing.findSome? structuralError? = some error := by
    rw [validate_eq_findSome?, refusal_eq_error_iff, listing_eq_preorder]
  rw [hfirst, List.findSome?_eq_some_iff]
  simp only [structuralError?, Option.map_eq_none_iff, Option.map_eq_some_iff]
  constructor
  · rintro ⟨before, x, after, hlisting, ⟨fault, hfault, rfl⟩, hbefore⟩
    exact ⟨before, x, after, fault, hlisting, hbefore, hfault, rfl⟩
  · rintro ⟨before, x, after, fault, hlisting, hbefore, hfault, rfl⟩
    exact ⟨before, x, after, hlisting, ⟨fault, hfault, rfl⟩, hbefore⟩

end Expr

/-- A tree is accepted if nothing is wrong with any expression stored in it, and
refused for the first one at fault otherwise; a search finds the first one of
them with the property, if there is one. -/
theorem validation_reaches_every_node (e : Expr) :
    (e.validate = .ok () ↔ ∀ x ∈ e.listing, x.fault? = none) ∧
      (∀ error, e.validate = .error error ↔ ∃ before x after fault,
        e.listing = before ++ x :: after ∧ (∀ y ∈ before, y.fault? = none) ∧
          x.fault? = some fault ∧ error = .structural x.kind fault) ∧
        ∀ p : Expr → Bool, e.find? p = e.listing.find? p := by
  refine ⟨?_, fun error => Expr.validate_eq_error_iff, fun p => Expr.find?_eq_find?_listing p e⟩
  rw [Expr.listing_eq_preorder]
  exact Expr.validate_eq_ok_iff

end SqlDialect
