import SqlDialect.Proofs.Tree.Rebuild
import SqlDialect.Validation

/-!
# SqlDialect.Proofs.Tree.WellFormed

Trees that are accepted for printing.

* `Expr.WellFormed` -- nothing is wrong with any node.
* `Expr.validate_eq_findSome?` -- a tree is refused for the first node that is at
  fault, from the top down.
* `Expr.validate_eq_ok_iff` -- these are the trees that are accepted.
-/

namespace SqlDialect

namespace Expr

/-- Nothing is wrong with any node of a tree. -/
def WellFormed (e : Expr) : Prop := e.All fun n => n.fault? = none

/-- The first of some errors, if there is one. -/
def refusal : Option RenderError → Except RenderError Unit
  | some error => .error error
  | none => .ok ()

@[simp] theorem refusal_eq_error_iff {o : Option RenderError} {error : RenderError} :
    refusal o = .error error ↔ o = some error := by
  cases o <;> simp [refusal]

@[simp] theorem refusal_eq_ok_iff {o : Option RenderError} : refusal o = .ok () ↔ o = none := by
  cases o <;> simp [refusal]

/-- Trees that are checked one by one are refused for the first node at fault in
any of them. -/
theorem forM_validate {es : List Expr}
    (h : ∀ e ∈ es, e.validate = refusal (e.preorder.findSome? structuralError?)) :
    es.forM validate = refusal ((es.flatMap preorder).findSome? structuralError?) := by
  induction es with
  | nil => rfl
  | cons e es ih =>
    rw [List.forall_mem_cons] at h
    have hcons : (e :: es).forM validate = e.validate.bind fun _ => es.forM validate := rfl
    rw [hcons, h.1, ih h.2, List.flatMap_cons, List.findSome?_append]
    cases e.preorder.findSome? structuralError? <;> rfl

/-- A tree is refused for the first node at fault, where a node comes before its
children and these come one behind the other. -/
theorem validate_eq_findSome? (e : Expr) :
    e.validate = refusal (e.preorder.findSome? structuralError?) := by
  induction e using Expr.induction with
  | node e ih =>
    rw [validate_eq, forM_validate ih, preorder_eq, List.findSome?_cons]
    cases e.structuralError? <;> rfl

/-- These are the trees that are accepted. -/
theorem validate_eq_ok_iff {e : Expr} : e.validate = .ok () ↔ e.WellFormed := by
  simp only [validate_eq_findSome?, refusal_eq_ok_iff, List.findSome?_eq_none_iff, structuralError?,
    Option.map_eq_none_iff, WellFormed, All]

theorem WellFormed.node {e : Expr} (h : e.fault? = none) (hc : ∀ c ∈ e.children, c.WellFormed) :
    e.WellFormed :=
  all_iff.2 ⟨h, hc⟩

theorem WellFormed.fault {e : Expr} (h : e.WellFormed) : e.fault? = none := h.self

end Expr

end SqlDialect
