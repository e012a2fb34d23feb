import Mathlib
import SqlDialect.Proofs.Rendering.Reread

/-!
# SqlDialect.Proofs.Rendering.Arrow

Where SQLite's arrows keep their operands together.

A JSON extraction reads as a call or as an arrow, and is printed as an arrow,
without parentheses.  The arrows share a level of precedence with `||`, the
tightest one of two operands.

* `ArrowKeeps` -- the operands of a node stay together in its text.
* `arrows_keep_grouping` -- an expression over such nodes is read again as it
  was.
-/

namespace SqlDialect

/-- The nodes of arithmetic over columns, texts, numbers and JSON extractions. -/
def JsonTerm : Expr → Prop
  | .column .. | .paren _ | .jsonExtract .. | .jsonExtractScalar .. | .literal (.string _) => True
  | .literal (.int n) => 0 ≤ n.toInt
  | .binaryOp op _ _ => op ∈ [.plus, .minus, .mul, .div, .mod, .concat]
  | _ => False

/-- A node that SQLite writes with an arrow. -/
def Expr.isArrow : Expr → Bool
  | jsonExtract .. | jsonExtractScalar .. => true
  | _ => false

/-- The operands of a node stay together in its text: no arithmetic in front of
an arrow, no operator behind it, and no arrow behind `||` or another arrow. -/
def ArrowKeeps : Expr → Prop
  | .jsonExtract a path | .jsonExtractScalar a path =>
    (∀ op ∈ a.operator?, op = .concat) ∧ path.operator? = none ∧ path.isArrow = false
  | .binaryOp .concat _ r => r.isArrow = false
  | _ => True

section

variable {e a : Expr}

/-- The level of such a node in the text for SQLite: the level of its operator,
which is the one of `||` for an arrow. -/
theorem JsonTerm.tier (h : JsonTerm e) :
    e.tier .sqlite = if e.isArrow then 2 else e.tier .generic := by
  unfold JsonTerm at h
  split at h <;> first
    | rfl
    | exact h.elim

/-- Such a node is no looser than a sum. -/
theorem JsonTerm.tier_le (h : JsonTerm e) : e.tier .sqlite ≤ 4 := by
  unfold JsonTerm at h
  split at h
  case h_7 op l r =>
    show op.level ≤ 4
    simp only [List.mem_cons, List.not_mem_nil, or_false] at h
    rcases h with rfl | rfl | rfl | rfl | rfl | rfl <;> decide
  case h_8 => exact h.elim
  all_goals first
    | exact Nat.zero_le 4
    | exact (by decide : 2 ≤ 4)

/-- A node without an operator and without an arrow is tight. -/
theorem JsonTerm.tier_eq_zero (h : JsonTerm e) (ho : e.operator? = none)
    (ha : e.isArrow = false) : e.tier .sqlite = 0 := by
  unfold JsonTerm at h
  split at h <;> first
    | rfl
    | exact h.elim
    | cases ha; done
    | cases ho

/-- What may stand in front of an arrow. -/
theorem JsonTerm.tier_le_two (h : JsonTerm e) (ho : ∀ op ∈ e.operator?, op = .concat) :
    e.tier .sqlite ≤ 2 := by
  cases harrow : e.isArrow with
  | true => rw [h.tier, harrow]; exact Nat.le_refl 2
  | false =>
    cases hop : e.operator? with
    | none => rw [h.tier_eq_zero hop harrow]; decide
    | some op =>
      obtain rfl := ho op hop
      cases e <;> cases hop
      exact Nat.le_refl 2

/-- Nothing is wrong with such a node. -/
theorem JsonTerm.fault (h : JsonTerm e) : e.fault? = none := by
  unfold JsonTerm at h
  split at h <;> first
    | rfl
    | exact h.elim

/-- Such a node is read as itself. -/
theorem JsonTerm.faithful (h : JsonTerm e) : Faithful .sqlite e := by
  unfold JsonTerm at h
  split at h <;> trivial

/-- Such a node is settled. -/
theorem JsonTerm.settled (h : JsonTerm e) : unwrapNode .sqlite (markNode false e) = e := by
  rw [markNode_false]
  unfold JsonTerm at h
  split at h <;> first
    | rfl
    | exact h.elim

/-- Nothing keeps the text of a node from being read whose operands stay
together. -/
theorem JsonTerm.clear (h : JsonTerm e) (hc : ∀ c ∈ e.children, JsonTerm c) (hp : Proper e)
    (hk : ArrowKeeps e) : Clear .sqlite e := by
  have harrow {a path : Expr} (ha : JsonTerm a) (hpath : JsonTerm path)
      (hk : (∀ op ∈ a.operator?, op = .concat) ∧ path.operator? = none ∧ path.isArrow = false) :
      ∀ s ∈ [(2, a), (1, path)], s.2.tier .sqlite ≤ s.1 := by
    simp only [List.forall_mem_cons, List.not_mem_nil, false_implies, implies_true, and_true]
    exact ⟨ha.tier_le_two hk.1, (hpath.tier_eq_zero hk.2.1 hk.2.2).le.trans (Nat.zero_le 1)⟩
  unfold JsonTerm at h
  split at h
  case h_2 a =>
    refine ⟨fun s hs => ?_, trivial⟩
    obtain rfl := Expr.mem_places_paren hs
    exact (hc a (by simp [Expr.children])).tier_le.trans (by decide : 4 ≤ 8)
  case h_3 a path =>
    exact ⟨harrow (hc a (by simp [Expr.children])) (hc path (by simp [Expr.children])) hk, trivial⟩
  case h_4 a path =>
    exact ⟨harrow (hc a (by simp [Expr.children])) (hc path (by simp [Expr.children])) hk, trivial⟩
  case h_7 op l r =>
    have hplaces := hp.1
    have hlevel := op.level_bounds
    simp only [Expr.places, List.forall_mem_cons, List.not_mem_nil, false_implies, implies_true,
      and_true] at hplaces
    have hl := (hc l (by simp [Expr.children])).tier
    have hr := (hc r (by simp [Expr.children])).tier
    -- only `||` is as tight as an arrow, and has none on its right
    have htight : r.isArrow = true → 2 ≤ op.level - 1 := by
      intro hrarrow
      cases op with
      | concat => exact absurd hrarrow (Bool.eq_false_iff.1 hk)
      | _ => decide
    refine ⟨?_, trivial⟩
    show ∀ s ∈ [(op.level, l), (op.level - 1, r)], s.2.tier .sqlite ≤ s.1
    simp only [List.forall_mem_cons, List.not_mem_nil, false_implies, implies_true, and_true]
    rw [hl, hr]
    refine ⟨?_, ?_⟩
    · split <;> omega
    · split
      case isTrue hrarrow => exact htight hrarrow
      case isFalse => exact hplaces.2
  case h_8 => exact h.elim
  all_goals exact ⟨fun s hs => (List.not_mem_nil hs).elim, trivial⟩

end

/-- An expression over columns, texts, numbers, arithmetic and JSON extractions,
all of whose operands stay together, is read again as it was from the text that
it is printed as for SQLite. -/
theorem arrows_keep_grouping {sql : String} {e : Expr} (h : Dialect.sqlite.parseExpr sql = .ok e)
    (hterm : e.All JsonTerm) (hk : e.All ArrowKeeps) :
    ∃ r, e.render .sqlite {} = .ok r ∧ Dialect.sqlite.parseExpr r.sql = .ok e := by
  obtain ⟨hproper, -⟩ := @parseExpr_proper .sqlite e sql h
  have hwell : e.WellFormed := hterm.imp fun _ hn => hn.fault
  have hclear : e.All (Clear .sqlite) := fun n hn =>
    (hterm n hn).clear (fun c hc => (hterm.below hn).child hc |>.self) (hproper n hn) (hk n hn)
  have hready : e.All (Ready .sqlite false) := ready_of_clear hproper hwell hclear
  obtain ⟨e', hread, hsame⟩ :=
    parseExpr_rendered hready (hterm.self.tier_le.trans (by decide))
  have hsettled : e.settled .sqlite false = e := Expr.rebuild_eq_self (hterm.imp fun _ hn => hn.settled)
  refine ⟨_, hwell.render (by decide), ?_⟩
  rw [hsame (hterm.imp fun _ hn => hn.faithful), hsettled] at hread
  exact hread

theorem arrows_keep_grouping_concat :
    ∃ e, Dialect.sqlite.parseExpr "a || b -> c" = .ok e ∧ e.All JsonTerm ∧ e.All ArrowKeeps ∧
      ∃ r, e.render .sqlite {} = .ok r ∧ Dialect.sqlite.parseExpr r.sql = .ok e := by
  have hread : Dialect.sqlite.parseExpr "a || b -> c" = .ok (.jsonExtract
      (.binaryOp .concat (.column none ⟨"a", false⟩) (.column none ⟨"b", false⟩))
      (.column none ⟨"c", false⟩)) := by cbv
  refine ⟨_, hread, ?_, ?_, arrows_keep_grouping hread ?_ ?_⟩ <;>
    simp [Expr.All, Expr.preorder_eq, Expr.children, JsonTerm, ArrowKeeps, Expr.operator?,
      Expr.isArrow]

/-- Arithmetic in front of an arrow needs parentheses, which an extraction that
was written as a call does not have. -/
example :
    (Expr.jsonExtract (.binaryOp .plus (.column none ⟨"a", false⟩) (.column none ⟨"b", false⟩))
        (.column none ⟨"c", false⟩)).render .sqlite {} = .ok ⟨"a + b -> c", []⟩ ∧
      Dialect.sqlite.parseExpr "a + b -> c" =
        .ok (.binaryOp .plus (.column none ⟨"a", false⟩)
          (.jsonExtract (.column none ⟨"b", false⟩) (.column none ⟨"c", false⟩))) := by
  constructor <;> cbv

end SqlDialect
