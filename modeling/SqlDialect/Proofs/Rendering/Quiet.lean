import SqlDialect.Proofs.Rendering.Readable
import SqlDialect.Proofs.Rendering.Remarks

/-!
# SqlDialect.Proofs.Rendering.Quiet

Trees that are printed without remarks.

* `Style.base_quiet` -- a node in the base form that is printed without remarks
  is over nodes that are.
* `all_quiet` -- hence a tree that the base dialect prints without remarks has
  no node with one.
-/

namespace SqlDialect

/-- A node that is printed without remarks is over nodes that are. -/
theorem Style.base_quiet {s : Style} {f : Expr → Fragment} {e : Expr}
    (h : (s.base f e).diagnostics = []) : ∀ c ∈ e.children, (f c).diagnostics = [] := by
  rw [diagnostics_base, List.append_eq_nil_iff, List.flatMap_eq_nil_iff] at h
  exact fun c hc => h.2 c (mem_printed.2 hc)

variable {i : Bool} {e : Expr}

/-- The base dialect prints every node in the base form. -/
theorem fragment_generic (e : Expr) :
    (style .generic i).fragment e = (style .generic i).base (style .generic i).fragment e := by
  rw [Style.fragment_eq, Style.node]
  rfl

/-- A tree that is printed without remarks has no node with one. -/
theorem all_quiet (h : ((style .generic i).fragment e).diagnostics = []) :
    e.All fun n => ((style .generic i).fragment n).diagnostics = [] := by
  induction e using Expr.induction with
  | node e ih =>
    have hchildren := h
    rw [fragment_generic] at hchildren
    exact Expr.all_iff.2 ⟨h, fun c hc => ih c hc (Style.base_quiet hchildren c hc)⟩

end SqlDialect
