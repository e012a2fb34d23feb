import SqlDialect.Proofs.Rendering.Remarks

/-!
# SqlDialect.Proofs.Rendering.Options

What the options of printing have a say in: whether identifiers are delimited
shows in the text only, and the level for remarks decides only what becomes of
them.

* `Style.diagnostics_apply_congr`, `Style.diagnostics_node_congr` -- the remarks
  of a node depend on the dialect and on the remarks of the nodes further down.
* `Style.diagnostics_identify` -- hence those of a tree depend on the dialect.
* `options_keep_remarks` -- what the options make of a text and its remarks.
-/

namespace SqlDialect

namespace Style

open Fragment

/-! ## one node -/

section

variable {d : Dialect} {i j : Bool} {f g : Expr → Fragment} {e : Expr}

/-- Lists of trees with the same remarks, one by one. -/
theorem flatMap_diagnostics_congr {es : List Expr}
    (h : ∀ c ∈ es, (f c).diagnostics = (g c).diagnostics) :
    (es.flatMap fun c => (f c).diagnostics) = es.flatMap fun c => (g c).diagnostics := by
  rw [List.flatMap_def, List.flatMap_def, List.map_congr_left h]

section

variable (h : ∀ c ∈ e.children, (f c).diagnostics = (g c).diagnostics)

include h

theorem diagnostics_base_congr :
    ((⟨d, i⟩ : Style).base f e).diagnostics = ((⟨d, j⟩ : Style).base g e).diagnostics := by
  rw [diagnostics_base, diagnostics_base]
  exact congrArg _ (flatMap_diagnostics_congr fun c hc => h c (mem_printed.1 hc))

theorem diagnostics_rename_congr {name : String} {args : List Expr}
    (ha : e.callArgs? = some args) :
    (Fragment.call name (args.map f)).diagnostics =
      (Fragment.call name (args.map g)).diagnostics := by
  rw [diagnostics_call, diagnostics_call, List.flatMap_map, List.flatMap_map]
  exact flatMap_diagnostics_congr fun c hc => h c (callArgs?_subset ha c hc)

theorem diagnostics_operandOnly_congr :
    ((⟨d, i⟩ : Style).operandOnly f e).diagnostics =
      ((⟨d, j⟩ : Style).operandOnly g e).diagnostics := by
  unfold operandOnly
  split
  case h_1 a ha => exact h a (inner?_mem ha)
  case h_2 => exact diagnostics_base_congr h

theorem diagnostics_lowerLike_congr :
    ((⟨d, i⟩ : Style).lowerLike f e).diagnostics =
      ((⟨d, j⟩ : Style).lowerLike g e).diagnostics := by
  unfold lowerLike
  split
  case h_1 n a p => simp [h a (by simp [Expr.children]), h p (by simp [Expr.children])]
  case h_2 => exact diagnostics_base_congr h

theorem diagnostics_plainCast_congr :
    ((⟨d, i⟩ : Style).plainCast f e).diagnostics =
      ((⟨d, j⟩ : Style).plainCast g e).diagnostics := by
  unfold plainCast
  split
  case h_1 a t => simp [cast, h a (by simp [Expr.children])]
  case h_2 => exact diagnostics_base_congr h

theorem diagnostics_unsampled_congr :
    ((⟨d, i⟩ : Style).unsampled f e).diagnostics =
      ((⟨d, j⟩ : Style).unsampled g e).diagnostics := by
  unfold unsampled
  split
  case h_1 a m size u => simp [h a (by simp [Expr.children])]
  case h_2 => exact diagnostics_base_congr h

theorem diagnostics_degraded_congr :
    ((⟨d, i⟩ : Style).degraded f e).diagnostics =
      ((⟨d, j⟩ : Style).degraded g e).diagnostics := by
  unfold degraded
  split
  · exact diagnostics_lowerLike_congr h
  · exact diagnostics_plainCast_congr h
  · exact diagnostics_unsampled_congr h
  · exact diagnostics_base_congr h

theorem diagnostics_arrow_congr (op : String) :
    ((⟨d, i⟩ : Style).arrow f op e).diagnostics =
      ((⟨d, j⟩ : Style).arrow g op e).diagnostics := by
  unfold arrow
  split
  case h_5 => exact diagnostics_base_congr h
  all_goals
    next a p => simp [h a (by simp [Expr.children]), h p (by simp [Expr.children])]

theorem diagnostics_least_congr :
    ((⟨d, i⟩ : Style).least f e).diagnostics = ((⟨d, j⟩ : Style).least g e).diagnostics := by
  unfold least
  split
  case h_1 args =>
    rw [diagnostics_callOrOperand, diagnostics_callOrOperand]
    exact flatMap_diagnostics_congr h
  case h_2 => exact diagnostics_base_congr h

theorem diagnostics_greatest_congr :
    ((⟨d, i⟩ : Style).greatest f e).diagnostics =
      ((⟨d, j⟩ : Style).greatest g e).diagnostics := by
  unfold greatest
  split
  case h_1 args =>
    rw [diagnostics_callOrOperand, diagnostics_callOrOperand]
    exact flatMap_diagnostics_congr h
  case h_2 => exact diagnostics_base_congr h

/-- The text of an amount goes into a string literal, its remarks stay
remarks. -/
theorem diagnostics_dateAdd_congr :
    ((⟨d, i⟩ : Style).dateAdd f e).diagnostics =
      ((⟨d, j⟩ : Style).dateAdd g e).diagnostics := by
  unfold dateAdd
  split
  case h_1 a n u =>
    have hamount : ((⟨d, i⟩ : Style).amount f n).2 = ((⟨d, j⟩ : Style).amount g n).2 := by
      unfold amount
      split
      · rfl
      · exact h n (by simp [Expr.children])
    simp [hamount, h a (by simp [Expr.children])]
  case h_2 => exact diagnostics_base_congr h

theorem diagnostics_fetch_congr :
    ((⟨d, i⟩ : Style).fetch f e).diagnostics = ((⟨d, j⟩ : Style).fetch g e).diagnostics := by
  unfold fetch
  split
  case h_1 direction count percent withTies =>
    cases count with
    | none => simp
    | some c => simp [h c (by simp [Expr.children])]
  case h_2 => exact diagnostics_base_congr h

theorem diagnostics_transaction_congr :
    ((⟨d, i⟩ : Style).transaction f e).diagnostics =
      ((⟨d, j⟩ : Style).transaction g e).diagnostics := by
  unfold transaction
  split
  case h_1 => rfl
  case h_2 => exact diagnostics_base_congr h

theorem diagnostics_offsetBehindLimit_congr :
    ((⟨d, i⟩ : Style).offsetBehindLimit f e).diagnostics =
      ((⟨d, j⟩ : Style).offsetBehindLimit g e).diagnostics := by
  unfold offsetBehindLimit
  split
  case h_1 q =>
    split
    case isTrue =>
      have hhead : ((head q).flatMap fun c => (f c).diagnostics) =
          (head q).flatMap fun c => (g c).diagnostics := by
        refine flatMap_diagnostics_congr fun c hc => ?_
        exact h c (List.mem_append_left _ (List.mem_append_left _ hc))
      have hoffset : (q.offset.toList.flatMap fun c => (f c).diagnostics) =
          q.offset.toList.flatMap fun c => (g c).diagnostics := by
        refine flatMap_diagnostics_congr fun c hc => ?_
        exact h c (by simp [Expr.children, Select.exprs, hc])
      rw [diagnostics_query, diagnostics_query, hhead, hoffset]
      rfl
    case isFalse => exact diagnostics_base_congr h
  case h_2 => exact diagnostics_base_congr h

end

section

variable (h : ∀ c ∈ e.preorder, c.depth < e.depth → (f c).diagnostics = (g c).diagnostics)

include h

/-- A grouped concatenation looks for the value to aggregate further down. -/
theorem diagnostics_groupConcat_congr :
    ((⟨d, i⟩ : Style).groupConcat f e).diagnostics =
      ((⟨d, j⟩ : Style).groupConcat g e).diagnostics := by
  have hchild {c : Expr} (hc : c ∈ e.children) : (f c).diagnostics = (g c).diagnostics :=
    h c (Expr.mem_preorder_child hc) (Expr.depth_lt_of_mem_children hc)
  unfold groupConcat
  split
  case h_1 a o =>
    have ha : a ∈ (Expr.groupConcat a o).children := List.mem_cons_self
    have hvalue : (f (aggregated a)).diagnostics = (g (aggregated a)).diagnostics :=
      h _ (Expr.preorder_trans (Expr.mem_preorder_child ha) (aggregated_mem a))
        (Nat.lt_of_le_of_lt (Expr.depth_le_of_mem_preorder (aggregated_mem a))
          (Expr.depth_lt_of_mem_children ha))
    have hlist : ∀ c ∈ aggregated a :: o.toList, (f c).diagnostics = (g c).diagnostics := by
      rw [List.forall_mem_cons]
      exact ⟨hvalue, fun c hc => hchild (List.mem_cons_of_mem _ hc)⟩
    simp only [diagnostics_append, diagnostics_commaSeparated, List.flatMap_map,
      flatMap_diagnostics_congr hlist]
  case h_2 => exact diagnostics_base_congr fun c hc => hchild hc

theorem diagnostics_apply_congr (r : Renderer) :
    (r.apply ⟨d, i⟩ f e).diagnostics = (r.apply ⟨d, j⟩ g e).diagnostics := by
  have hchild : ∀ c ∈ e.children, (f c).diagnostics = (g c).diagnostics := fun c hc =>
    h c (Expr.mem_preorder_child hc) (Expr.depth_lt_of_mem_children hc)
  cases r with
  | groupConcat => exact diagnostics_groupConcat_congr h
  | dateAdd => exact diagnostics_dateAdd_congr hchild
  | least => exact diagnostics_least_congr hchild
  | greatest => exact diagnostics_greatest_congr hchild
  | fetch => exact diagnostics_fetch_congr hchild
  | transaction => exact diagnostics_transaction_congr hchild
  | select => exact diagnostics_offsetBehindLimit_congr hchild
  | degraded => exact diagnostics_degraded_congr hchild
  | lowerLike => exact diagnostics_lowerLike_congr hchild
  | plainCast => exact diagnostics_plainCast_congr hchild
  | unsampled => exact diagnostics_unsampled_congr hchild
  | operandOnly => exact diagnostics_operandOnly_congr hchild
  | arrow => exact diagnostics_arrow_congr hchild "->"
  | doubleArrow => exact diagnostics_arrow_congr hchild "->>"

/-- The remarks of a node depend on the dialect and on the remarks of the nodes
further down, not on how identifiers are written. -/
theorem diagnostics_node_congr :
    ((⟨d, i⟩ : Style).node f e).diagnostics = ((⟨d, j⟩ : Style).node g e).diagnostics := by
  have hchild : ∀ c ∈ e.children, (f c).diagnostics = (g c).diagnostics := fun c hc =>
    h c (Expr.mem_preorder_child hc) (Expr.depth_lt_of_mem_children hc)
  unfold node
  cases ht : d.transform? e.kind with
  | none => exact diagnostics_base_congr hchild
  | some t =>
    cases t with
    | rename name =>
      cases ha : e.callArgs? with
      | some args => exact diagnostics_rename_congr hchild ha
      | none => exact diagnostics_base_congr hchild
    | unsupported => exact diagnostics_degraded_congr hchild
    | inner => exact diagnostics_operandOnly_congr hchild
    | custom r => exact diagnostics_apply_congr h r

end

end

/-! ## trees -/

/-- A tree has the same remarks whether or not identifiers are delimited. -/
theorem diagnostics_identify (d : Dialect) (i j : Bool) (e : Expr) :
    ((⟨d, i⟩ : Style).fragment e).diagnostics = ((⟨d, j⟩ : Style).fragment e).diagnostics := by
  induction hn : e.depth using Nat.strongRecOn generalizing e with
  | ind n ih =>
    rw [fragment_eq, fragment_eq]
    exact diagnostics_node_congr fun c _ hdepth => ih c.depth (hn ▸ hdepth) c rfl

end Style

/-- A tree is refused for a fault of one of its nodes. -/
theorem Expr.validate_eq_error {e : Expr} {err : RenderError} (h : e.validate = .error err) :
    ∃ kind fault, err = .structural kind fault := by
  rw [Expr.validate_eq_findSome?, Expr.refusal_eq_error_iff] at h
  obtain ⟨n, -, hn⟩ := List.exists_of_findSome?_eq_some h
  obtain ⟨fault, -, rfl⟩ := Option.map_eq_some_iff.1 hn
  exact ⟨n.kind, fault, rfl⟩

/-- A tree is refused by every dialect and under all options for the same fault,
or a dialect has the same remarks about it under all options, and one text for
each way of writing identifiers: text and remarks are the output, unless there
are remarks and the options forbid them, when the remarks are the error. -/
theorem options_keep_remarks (e : Expr) :
    (∃ kind fault, e.validate = .error (.structural kind fault) ∧
        ∀ d o, e.render d o = .error (.structural kind fault)) ∨
      e.validate = .ok () ∧ ∀ d : Dialect, ∃ remarks : List Diagnostic, ∀ identify, ∃ sql,
        e.render d ⟨.ignore, identify⟩ = .ok ⟨sql, remarks⟩ ∧
        e.render d ⟨.warn, identify⟩ = .ok ⟨sql, remarks⟩ ∧
        e.render d ⟨.raise, identify⟩ =
          if remarks = [] then .ok ⟨sql, remarks⟩ else .error (.unsupported d.name remarks) := by
  cases hvalid : e.validate with
  | error err =>
    obtain ⟨kind, fault, rfl⟩ := Expr.validate_eq_error hvalid
    refine .inl ⟨kind, fault, rfl, fun d o => ?_⟩
    rw [Expr.render, hvalid]
    rfl
  | ok =>
    have hwell : e.WellFormed := Expr.validate_eq_ok_iff.1 hvalid
    refine .inr ⟨rfl, fun d => ⟨((⟨d, false⟩ : Style).fragment e).diagnostics, fun i => ?_⟩⟩
    rw [Style.diagnostics_identify d false i]
    refine ⟨_, hwell.render (fun h => by cases h), hwell.render (fun h => by cases h), ?_⟩
    rw [Expr.render, hvalid]
    simp only [bind, Except.bind, List.isEmpty_iff, true_and]
    rw [ite_not]
    rfl

end SqlDialect
