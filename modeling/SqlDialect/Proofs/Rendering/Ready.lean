import SqlDialect.Proofs.Rendering.Aggregate
import SqlDialect.Proofs.Rendering.Compound
import SqlDialect.Proofs.Rendering.Query
import SqlDialect.Proofs.Tree.WellFormed

/-!
# SqlDialect.Proofs.Rendering.Ready

Trees that are printed without hazards are read again.

* `shown_of_prepared` -- one node over nodes that are read again.
* `ready_of_clear` -- a whole tree, from the leaves up.
-/

namespace SqlDialect

open Text Grammar

variable {b : Builtin} {i : Bool} {e : Expr}

/-- An operand in a slot of expressions is shown. -/
theorem Prepared.operand (h : Prepared b i e) {k : Nat} {a : Expr} (hs : (k, a) ∈ e.slots b)
    (hk : k ≤ 8) (ha : a ∈ e.children) : Shown b i a :=
  (h.children a ha).self.shown ((h.clear.1 _ hs).trans hk)

/-- A node over nodes that are read again is read again, if it is an
expression. -/
theorem shown_of_prepared (h : Prepared b i e) (ht : e.tier b ≤ 8) : Shown b i e := by
  cases e with
  | column t n => exact shown_column h.proper.2
  | literal v => exact shown_literal h.proper.2 h.sound h.clear
  | star t => exact shown_star h.proper.2
  | paren a => exact shown_paren h
  | binaryOp op l r =>
    have hlevel := op.level_bounds
    have hl : Shown b i l := by
      refine h.operand (k := op.level) ?_ hlevel.2 (by simp [Expr.children])
      cases b <;> simp [Expr.slots, Expr.places]
    have hr : Shown b i r := by
      refine h.operand (k := op.level - 1) ?_ (by omega) (by simp [Expr.children])
      cases b <;> simp [Expr.slots, Expr.places]
    exact shown_binaryOp hl hr h.clear
  | unaryOp op a =>
    cases op with
    | not =>
      refine shown_not (h.operand (k := 6) ?_ (by decide) (by simp [Expr.children])) h.clear
      cases b <;> simp [Expr.slots, Expr.places]
    | minus =>
      refine shown_minus (h.operand (k := 1) ?_ (by decide) (by simp [Expr.children])) h.clear
      cases b <;> simp [Expr.slots, Expr.places]
  | like n a p =>
    refine shown_like (h.operand (k := 5) ?_ (by decide) (by simp [Expr.children]))
      (h.operand (k := 4) ?_ (by decide) (by simp [Expr.children])) h.clear
    · cases b <;> simp [Expr.slots, Expr.places]
    · cases b <;> simp [Expr.slots, Expr.places]
  | ilike n a p =>
    have ha : Shown b i a := by
      cases b with
      | generic =>
        exact h.operand (k := 5) (by simp [Expr.slots, Expr.places]) (by decide)
          (by simp [Expr.children])
      | sqlite =>
        exact h.operand (k := 8) (by simp [Expr.slots]) (by decide) (by simp [Expr.children])
    refine shown_ilike ha (h.operand (k := 4) ?_ (by decide) (by simp [Expr.children])) h.clear
    cases b <;> simp [Expr.slots, Expr.places]
  | isNull n a =>
    refine shown_isNull (h.operand (k := 5) ?_ (by decide) (by simp [Expr.children])) h.clear
    cases b <;> simp [Expr.slots, Expr.places]
  | between n a l u =>
    refine shown_between (h.operand (k := 5) ?_ (by decide) (by simp [Expr.children]))
      (h.operand (k := 4) ?_ (by decide) (by simp [Expr.children]))
      (h.operand (k := 4) ?_ (by decide) (by simp [Expr.children])) h.clear
    · cases b <;> simp [Expr.slots, Expr.places]
    · cases b <;> simp [Expr.slots, Expr.places]
    · cases b <;> simp [Expr.slots, Expr.places]
  | inList n a es => exact shown_inList h
  | caseWhen o ws c => exact shown_caseWhen h
  | cast a t => exact shown_cast h
  | tryCast a t => exact shown_tryCast h
  | function name es => exact shown_function h
  | groupConcat a s =>
    cases b with
    | generic => exact shown_groupConcat_generic h
    | sqlite => exact shown_groupConcat_sqlite h
  | dateAdd a n u => exact shown_dateAdd h
  | least es => exact show Shown b i (.extremum false es) from shown_extremum h
  | greatest es => exact show Shown b i (.extremum true es) from shown_extremum h
  | levenshtein es => exact shown_levenshtein h
  | jsonExtract a p =>
    exact show Shown b i (.extraction false false a p) from shown_extraction
      (h.children a (by simp [Expr.children])) (h.children p (by simp [Expr.children])) h.clear
  | jsonExtractScalar a p =>
    exact show Shown b i (.extraction false true a p) from shown_extraction
      (h.children a (by simp [Expr.children])) (h.children p (by simp [Expr.children])) h.clear
  | jsonbExtract a p =>
    exact show Shown b i (.extraction true false a p) from shown_extraction
      (h.children a (by simp [Expr.children])) (h.children p (by simp [Expr.children])) h.clear
  | jsonbExtractScalar a p =>
    exact show Shown b i (.extraction true true a p) from shown_extraction
      (h.children a (by simp [Expr.children])) (h.children p (by simp [Expr.children])) h.clear
  | dateStrToDate a => exact show Shown b i (.conversion false a) from shown_conversion h
  | timeStrToTime a => exact show Shown b i (.conversion true a) from shown_conversion h
  | _ => cases b <;> simp [Expr.tier, Expr.core, Expr.level] at ht

/-- The same for any node. -/
theorem ready_of_prepared (h : Prepared b i e) : Ready b i e where
  proper := h.proper
  sound := h.sound
  clear := h.clear
  shown := shown_of_prepared h
  query _ hq := shown_query (hq ▸ h)

/-- A tree that was read, is well formed and is printed without hazards is read
again, and so is every tree below. -/
theorem ready_of_clear (hp : e.All Proper) (hf : e.WellFormed)
    (hc : e.All (Clear b)) : e.All (Ready b i) := by
  induction e using Expr.induction with
  | node e ih =>
    have hchildren : ∀ c ∈ e.children, c.All (Ready b i) := fun c hmem =>
      ih c hmem (hp.child hmem) (Expr.All.child hf hmem) (hc.child hmem)
    exact Expr.all_iff.2 ⟨ready_of_prepared ⟨hp.self, hf.fault, hc.self, hchildren⟩, hchildren⟩

end SqlDialect
