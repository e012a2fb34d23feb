import Mathlib.Data.List.Basic
import SqlDialect.Proofs.Tree.Rebuild

/-!
# SqlDialect.Proofs.Columns.Tree

The columns of a tree, and those that SQLite's text of it spells out.

* `Expr.columns` -- the columns of a tree, in preorder.
* `Expr.spelledColumns` -- the same without those in the amount of a moved date,
  whose text goes into a string.
* `Expr.spelledColumns_eq_iff` -- nothing is left out exactly when no amount
  holds a column.
-/

namespace SqlDialect

namespace Expr

/-- The columns of a tree, in preorder. -/
def columns (e : Expr) : List Expr := e.preorder.filter fun n => n.kind = .column

/-- The node itself, if it is a column. -/
def ownColumns (e : Expr) : List Expr := if e.kind = .column then [e] else []

/-- The children that SQLite spells out: not the amount of a moved date. -/
def spelled : Expr → List Expr
  | dateAdd a _ _ => [a]
  | e => e.children

theorem spelled_sublist (e : Expr) : e.spelled.Sublist e.children := by
  unfold spelled
  split
  · exact .cons_cons _ (List.nil_sublist _)
  · exact .refl _

/-- The columns that SQLite spells out, in preorder. -/
def spelledColumns (e : Expr) : List Expr :=
  e.ownColumns ++ e.spelled.attach.flatMap fun ⟨c, _⟩ => c.spelledColumns
termination_by e
decreasing_by exact sizeOf_lt_of_mem_children (e.spelled_sublist.subset ‹_›)

theorem columns_eq (e : Expr) : e.columns = e.ownColumns ++ e.children.flatMap columns := by
  rw [columns, preorder_eq, List.filter_cons, List.filter_flatMap, ownColumns]
  by_cases h : e.kind = .column
  · simp [h]
    rfl
  · simp [h]
    rfl

@[simp] theorem columns_literal (v : Literal) : (literal v).columns = [] := by
  rw [columns_eq]
  rfl

@[simp] theorem columns_star (t : Option Ident) : (star t).columns = [] := by
  rw [columns_eq]
  rfl

@[simp] theorem columns_column (t : Option Ident) (n : Ident) :
    (column t n).columns = [column t n] := by
  rw [columns_eq]
  rfl

theorem spelledColumns_eq (e : Expr) :
    e.spelledColumns = e.ownColumns ++ e.spelled.flatMap spelledColumns := by
  rw [spelledColumns]
  simp [List.flatMap_subtype, List.unattach_attach]

/-! ## nothing left out -/

/-- Stretches of stretches are a stretch. -/
theorem flatMap_sublist {cs ds : List Expr} {f g : Expr → List Expr} (hcs : cs.Sublist ds)
    (h : ∀ c ∈ cs, (f c).Sublist (g c)) : (cs.flatMap f).Sublist (ds.flatMap g) := by
  induction hcs with
  | slnil => exact .refl _
  | cons d _ ih => exact (ih h).trans (List.sublist_append_right _ _)
  | cons_cons c _ ih =>
    rw [List.forall_mem_cons] at h
    exact h.1.append (ih h.2)

/-- What is spelled out comes in the order of the tree. -/
theorem spelledColumns_sublist (e : Expr) : e.spelledColumns.Sublist e.columns := by
  induction e using Expr.induction with
  | node e ih =>
    rw [spelledColumns_eq, columns_eq]
    have hbelow : ∀ c ∈ e.spelled, c.spelledColumns.Sublist c.columns :=
      fun c hc => ih c (e.spelled_sublist.subset hc)
    exact (List.Sublist.refl _).append (flatMap_sublist e.spelled_sublist hbelow)

/-- Two lists in a row equal two lists that hold them only if each does. -/
theorem append_inj_of_sublist {as bs cs ds : List Expr} (ha : as.Sublist cs) (hb : bs.Sublist ds)
    (h : as ++ bs = cs ++ ds) : as = cs ∧ bs = ds := by
  have hlength := congrArg List.length h
  simp only [List.length_append] at hlength
  have hac := ha.length_le
  have hbd := hb.length_le
  exact ⟨ha.eq_of_length (by omega), hb.eq_of_length (by omega)⟩

theorem eq_of_flatMap_eq {cs : List Expr} {f g : Expr → List Expr}
    (hs : ∀ c ∈ cs, (f c).Sublist (g c)) (h : cs.flatMap f = cs.flatMap g) :
    ∀ c ∈ cs, f c = g c := by
  induction cs with
  | nil => exact fun _ hc => absurd hc (by simp)
  | cons c cs ih =>
    rw [List.forall_mem_cons] at hs ⊢
    rw [List.flatMap_cons, List.flatMap_cons] at h
    obtain ⟨hhead, hrest⟩ := append_inj_of_sublist hs.1 (flatMap_sublist (.refl cs) hs.2) h
    exact ⟨hhead, ih hs.2 hrest⟩

/-- The columns below a node are columns of the tree. -/
theorem columns_subset {e n : Expr} (h : n ∈ e.preorder) : n.columns ⊆ e.columns := by
  intro x hx
  rw [columns, List.mem_filter] at hx ⊢
  exact ⟨preorder_trans h hx.1, hx.2⟩

/-- The amount of every moved date is without columns. -/
def AmountsBare (e : Expr) : Prop :=
  ∀ a amount unit, dateAdd a amount unit ∈ e.preorder → amount.columns = []

theorem AmountsBare.child {e c : Expr} (h : e.AmountsBare) (hc : c ∈ e.children) :
    c.AmountsBare :=
  fun a amount unit hmem => h a amount unit (preorder_trans (mem_preorder_child hc) hmem)

theorem amountsBare_of_columns {e : Expr} (h : e.columns = []) : e.AmountsBare := by
  intro a amount unit hmem
  have hamount : amount ∈ e.preorder :=
    preorder_trans hmem (mem_preorder_child (by simp [children]))
  exact List.subset_nil.1 (h ▸ columns_subset hamount)

theorem amountsBare_dateAdd {a amount : Expr} {unit : Option String} :
    (dateAdd a amount unit).AmountsBare ↔ a.AmountsBare ∧ amount.columns = [] := by
  constructor
  · intro h
    exact ⟨h.child (by simp [children]), h a amount unit (mem_preorder_self _)⟩
  · rintro ⟨ha, hamount⟩ x y z hmem
    simp only [preorder_eq (dateAdd a amount unit), children, List.flatMap_cons, List.flatMap_nil,
      List.append_nil, List.mem_cons, List.mem_append] at hmem
    rcases hmem with hmem | hmem | hmem
    · cases hmem
      exact hamount
    · exact ha x y z hmem
    · exact amountsBare_of_columns hamount x y z hmem

/-- A node that moves no date is bare as its children are. -/
theorem amountsBare_node {e : Expr} (hdate : ∀ a amount unit, e ≠ dateAdd a amount unit) :
    e.AmountsBare ↔ ∀ c ∈ e.children, c.AmountsBare := by
  constructor
  · exact fun h c hc => h.child hc
  · intro h a amount unit hmem
    rw [preorder_eq, List.mem_cons, List.mem_flatMap] at hmem
    rcases hmem with hmem | ⟨c, hc, hmem⟩
    · exact absurd hmem.symm (hdate a amount unit)
    · exact h c hc a amount unit hmem

/-- Nothing is left out exactly when no amount holds a column. -/
theorem spelledColumns_eq_iff (e : Expr) : e.spelledColumns = e.columns ↔ e.AmountsBare := by
  induction e using Expr.induction with
  | node e ih =>
    rw [spelledColumns_eq, columns_eq, List.append_cancel_left_eq]
    by_cases hdate : ∃ a amount unit, e = dateAdd a amount unit
    · obtain ⟨a, amount, unit, rfl⟩ := hdate
      rw [amountsBare_dateAdd, ← ih a (by simp [children])]
      simp only [spelled, children, List.flatMap_cons, List.flatMap_nil, List.append_nil]
      constructor
      · intro h
        obtain ⟨ha, hamount⟩ := append_inj_of_sublist a.spelledColumns_sublist
          (List.nil_sublist amount.columns) (by rwa [List.append_nil])
        exact ⟨ha, hamount.symm⟩
      · rintro ⟨ha, hamount⟩
        rw [ha, hamount, List.append_nil]
    · have hnot : ∀ a amount unit, e ≠ dateAdd a amount unit :=
        fun a amount unit he => hdate ⟨a, amount, unit, he⟩
      have hspelled : e.spelled = e.children := by
        unfold spelled
        split
        · exact absurd rfl (hnot _ _ _)
        · rfl
      rw [hspelled, amountsBare_node hnot]
      constructor
      · intro h c hc
        exact (ih c hc).1 (eq_of_flatMap_eq (fun c _ => c.spelledColumns_sublist) h c hc)
      · intro h
        exact List.flatMap_congr fun c hc => (ih c hc).2 (h c hc)

end Expr

end SqlDialect
