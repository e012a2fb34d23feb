import Mathlib
import SqlDialect.Proofs.Rendering.Reread

/-!
# SqlDialect.Proofs.Rendering.Unwrap

Where SQLite's bare operands keep the grouping of a call.

SQLite prints `LEAST` and `GREATEST` of one argument, and the conversions of
texts to dates and times, as the bare argument, without parentheses.

* `OperandsFit` -- what stands bare as an operand is tight enough for its place.
* `bare_operands_keep_grouping` -- an expression over such nodes is read again
  with every such call replaced by its argument.
-/

namespace SqlDialect

/-- The nodes of expressions over columns and numbers, with calls that SQLite
prints as their only argument. -/
def BareTerm : Expr → Prop
  | .column .. | .paren _ | .binaryOp .. | .dateStrToDate _ | .timeStrToTime _ => True
  | .literal (.int n) => 0 ≤ n.toInt
  | .least args | .greatest args => args.length = 1
  | _ => False

/-- The operands of a node, printed bare, are tight enough for their places: the
left one no looser than the operator, the right one tighter. -/
def OperandsFit : Expr → Prop
  | .binaryOp op l r => l.tier .sqlite ≤ op.level ∧ r.tier .sqlite < op.level
  | _ => True

/-- A tree with every call that SQLite prints as its only argument replaced by
that argument. -/
def Expr.unwrapped (e : Expr) : Expr := e.rebuild (unwrapNode .sqlite)

section

variable {e : Expr}

/-- Nothing is wrong with such a node. -/
theorem BareTerm.fault (h : BareTerm e) : e.fault? = none := by
  unfold BareTerm at h
  split at h <;> first
    | rfl
    | exact h.elim
    | exact if_neg (by simp [List.isEmpty_iff, List.ne_nil_of_length_eq_add_one h])

/-- Such a node is read as its argument, or as itself. -/
theorem BareTerm.faithful (h : BareTerm e) : Faithful .sqlite e := by
  unfold BareTerm at h
  split at h <;> trivial

/-- What such a tree is printed as is no looser than any operator. -/
theorem BareTerm.tier_le (h : e.All BareTerm) : e.tier .sqlite ≤ 8 := by
  induction e using Expr.induction with
  | node e ih =>
    have hself := h.self
    unfold BareTerm at hself
    split at hself
    case h_3 op l r => exact op.level_bounds.2
    case h_4 a => exact ih a List.mem_cons_self (h.child List.mem_cons_self)
    case h_5 a => exact ih a List.mem_cons_self (h.child List.mem_cons_self)
    case h_7 args =>
      obtain ⟨a, rfl⟩ := List.length_eq_one_iff.1 hself
      exact ih a List.mem_cons_self (h.child List.mem_cons_self)
    case h_8 args =>
      obtain ⟨a, rfl⟩ := List.length_eq_one_iff.1 hself
      exact ih a List.mem_cons_self (h.child List.mem_cons_self)
    case h_9 => exact hself.elim
    all_goals exact Nat.zero_le 8

/-- Nothing keeps the text of a node from being read whose operands fit. -/
theorem BareTerm.clear (h : e.All BareTerm) (hfit : OperandsFit e) : Clear .sqlite e := by
  have hself := h.self
  have hone {a : Expr} (ha : a ∈ e.children) : ∀ s ∈ [(8, a)], s.2.tier .sqlite ≤ s.1 := by
    simpa using BareTerm.tier_le (h.child ha)
  unfold BareTerm at hself
  split at hself
  case h_2 a =>
    refine ⟨fun s hs => ?_, trivial⟩
    obtain rfl := Expr.mem_places_paren hs
    exact BareTerm.tier_le (h.child List.mem_cons_self)
  case h_3 op l r =>
    refine ⟨?_, trivial⟩
    show ∀ s ∈ [(op.level, l), (op.level - 1, r)], s.2.tier .sqlite ≤ s.1
    have hfit : l.tier .sqlite ≤ op.level ∧ r.tier .sqlite < op.level := hfit
    simp only [List.forall_mem_cons, List.not_mem_nil, false_implies, implies_true, and_true]
    exact ⟨hfit.1, by omega⟩
  case h_4 a => exact ⟨hone List.mem_cons_self, trivial⟩
  case h_5 a => exact ⟨hone List.mem_cons_self, trivial⟩
  case h_7 args =>
    obtain ⟨a, rfl⟩ := List.length_eq_one_iff.1 hself
    exact ⟨hone List.mem_cons_self, trivial⟩
  case h_8 args =>
    obtain ⟨a, rfl⟩ := List.length_eq_one_iff.1 hself
    exact ⟨hone List.mem_cons_self, trivial⟩
  case h_9 => exact hself.elim
  all_goals exact ⟨fun s hs => (List.not_mem_nil hs).elim, trivial⟩

end

/-- An expression over columns, numbers, operators, and calls that SQLite prints
as their only argument, all of whose operands fit in their places without the
calls, is printed as a text that is read as the expression without the calls. -/
theorem bare_operands_keep_grouping {sql : String} {e : Expr}
    (h : Dialect.generic.parseExpr sql = .ok e) (hterm : e.All BareTerm)
    (hfit : e.All OperandsFit) :
    ∃ r, e.render .sqlite {} = .ok r ∧ Dialect.sqlite.parseExpr r.sql = .ok e.unwrapped := by
  obtain ⟨hproper, -⟩ := @parseExpr_proper .generic e sql h
  have hwell : e.WellFormed := hterm.imp fun _ hn => hn.fault
  have hclear : e.All (Clear .sqlite) := fun n hn =>
    BareTerm.clear (hterm.below hn) (hfit n hn)
  have hready : e.All (Ready .sqlite false) := ready_of_clear hproper hwell hclear
  obtain ⟨e', hread, hsame⟩ := parseExpr_rendered hready (BareTerm.tier_le hterm)
  have hsettled : e.settled .sqlite false = e.unwrapped := by
    have hnode : (fun n => unwrapNode .sqlite (markNode false n)) = unwrapNode .sqlite :=
      funext fun n => congrArg (unwrapNode .sqlite) (markNode_false n)
    rw [Expr.settled, hnode, Expr.unwrapped]
  refine ⟨_, hwell.render (by decide), ?_⟩
  rw [hsame (hterm.imp fun _ hn => hn.faithful), hsettled] at hread
  exact hread

theorem bare_operands_keep_grouping_product :
    ∃ e, Dialect.generic.parseExpr "LEAST(a * b) < c" = .ok e ∧ e.All BareTerm ∧
      e.All OperandsFit ∧
      ∃ r, e.render .sqlite {} = .ok r ∧ Dialect.sqlite.parseExpr r.sql = .ok e.unwrapped := by
  have hread : Dialect.generic.parseExpr "LEAST(a * b) < c" = .ok (.binaryOp .lt
      (.least [.binaryOp .mul (.column none ⟨"a", false⟩) (.column none ⟨"b", false⟩)])
      (.column none ⟨"c", false⟩)) := by cbv
  refine ⟨_, hread, ?_, ?_, bare_operands_keep_grouping hread ?_ ?_⟩ <;>
    simp [Expr.All, Expr.preorder_eq, Expr.children, BareTerm, OperandsFit, Expr.tier, Expr.core,
      Expr.level, BinaryOperator.level]

/-- A disjunction in a call of `LEAST` with one argument is torn apart by a
conjunction around the call. -/
example :
    (Expr.binaryOp .and
        (.least [.binaryOp .or (.column none ⟨"a", false⟩) (.column none ⟨"b", false⟩)])
        (.column none ⟨"c", false⟩)).render .sqlite {} = .ok ⟨"a OR b AND c", []⟩ ∧
      Dialect.sqlite.parseExpr "a OR b AND c" =
        .ok (.binaryOp .or (.column none ⟨"a", false⟩)
          (.binaryOp .and (.column none ⟨"b", false⟩) (.column none ⟨"c", false⟩))) := by
  constructor <;> cbv

end SqlDialect
