import Mathlib
import SqlDialect.Proofs.Rendering.Remarks

/-!
# SqlDialect.Proofs.Rendering.Grouped

What SQLite aggregates in a grouped concatenation.

* `Expr.unordered` -- a value without the ordering around it.
* `Expr.grouped` -- the value that is aggregated: a `DISTINCT` from anywhere in
  the value takes the place of the value.
* `Style.fragment_groupConcat` -- a grouped concatenation is a call over it.
* `grouped_value_kept` -- so the value is the one that was given where the
  `DISTINCT` that is found in it reads the same.
-/

namespace SqlDialect

namespace Expr

/-- A value without the ordering around it. -/
def unordered : Expr → Expr
  | order a _ => a
  | e => e

/-- The value that SQLite aggregates: the first `DISTINCT` in a value with its
first expression, or else the value without its ordering. -/
def grouped (v : Expr) : Expr :=
  match v.find? fun e => e.kind = .distinct with
  | some (distinct (a :: _)) => distinct [a]
  | _ => v.unordered

variable {v : Expr}

/-- A value without `DISTINCT` is aggregated as it is. -/
theorem grouped_eq_unordered (h : ∀ n ∈ v.preorder, n.kind ≠ .distinct) :
    v.grouped = v.unordered := by
  unfold grouped
  split
  case h_1 a es heq =>
    obtain ⟨hmem, hkind⟩ := find?_mem heq
    exact absurd (of_decide_eq_true hkind) (h _ hmem)
  case h_2 => rfl

theorem WellFormed.unordered (h : v.WellFormed) : v.unordered.WellFormed := by
  cases v with
  | order a items =>
    have ha : a ∈ (order a items).children := List.mem_cons_self
    exact h.child ha
  | _ => exact h

/-- The first `DISTINCT` of a well-formed value has a first expression. -/
theorem WellFormed.find?_distinct (h : v.WellFormed) {e : Expr}
    (he : (v.find? fun e => e.kind = .distinct) = some e) :
    ∃ a es, e = distinct (a :: es) ∧ a.WellFormed := by
  obtain ⟨hmem, hkind⟩ := find?_mem he
  cases e with
  | distinct es =>
    have hself : (distinct es).WellFormed := fun n hn => h n (preorder_trans hmem hn)
    cases es with
    | nil => cases hself.fault
    | cons a es => exact ⟨a, es, rfl, hself.child List.mem_cons_self⟩
  | _ => cases hkind

theorem WellFormed.grouped (h : v.WellFormed) : v.grouped.WellFormed := by
  unfold Expr.grouped
  split
  case h_1 a es heq =>
    obtain ⟨a', es', ⟨⟩, ha⟩ := h.find?_distinct heq
    exact .node rfl fun c hc => List.mem_singleton.1 hc ▸ ha
  case h_2 => exact h.unordered

end Expr

/-! ## the output of a tree -/

/-- Text and remarks of a tree. -/
def Style.output (s : Style) (e : Expr) : Rendered :=
  ⟨(s.fragment e).text s.dialect, (s.fragment e).diagnostics⟩

theorem Expr.mapM_render {d : Dialect} {o : RenderOptions} {es : List Expr}
    (h : ∀ e ∈ es, e.WellFormed) (ho : o.level ≠ .raise) :
    es.mapM (fun e => e.render d o) = .ok (es.map (⟨d, o.identify⟩ : Style).output) := by
  induction es with
  | nil => rfl
  | cons e es ih =>
    rw [List.forall_mem_cons] at h
    rw [List.mapM_cons, h.1.render ho, ih h.2]
    rfl

/-! ## the call -/

namespace Fragment

theorem append_commaSeparated_cons (f g : Fragment) (gs : List Fragment) :
    f ++ commaSeparated (g :: gs) = commaSeparated ((f ++ g) :: gs) := by
  cases gs with
  | nil => rfl
  | cons g' gs => simp only [commaSeparated, append_assoc]

theorem text_commaSeparated (d : Dialect) (fs : List Fragment) :
    (commaSeparated fs).text d = ", ".intercalate (fs.map (text d)) := by
  induction fs with
  | nil => rfl
  | cons f fs ih =>
    cases fs with
    | nil => simp [commaSeparated]
    | cons g fs =>
      have hcomma : (ofTokens [.comma, .space]).text d = ", " := rfl
      rw [commaSeparated, text_append, text_append, ih, hcomma]
      · simp
      · exact List.cons_ne_nil g fs

end Fragment

namespace Style

open Fragment

variable {i : Bool} {v : Expr} {separator : Option Expr}

/-- A grouped concatenation is a call over the aggregated value, with a remark
about the ordering that it is without. -/
theorem fragment_groupConcat (h : v.WellFormed) :
    (sqlite i).fragment (.groupConcat v separator) =
      (if v.kind = .order then .remark .groupConcatOrder else {}) ++
        ofTokens [.raw "GROUP_CONCAT", .lparen] ++
        commaSeparated ((v.grouped :: separator.toList).map (sqlite i).fragment) ++
        ofTokens [.rparen] := by
  rw [fragment_eq]
  show (sqlite i).groupConcat (sqlite i).fragment (.groupConcat v separator) = _
  have hargs : (if (v.find? fun e => e.kind = .distinct).isSome then
        ofTokens [.keyword .DISTINCT, .space] else {}) ++
      commaSeparated ((aggregated v :: separator.toList).map (sqlite i).fragment) =
      commaSeparated ((v.grouped :: separator.toList).map (sqlite i).fragment) := by
    unfold Expr.grouped aggregated
    cases hfind : v.find? fun e => e.kind = .distinct with
    | none => cases v <;> rfl
    | some e =>
      obtain ⟨a, es, rfl, -⟩ := h.find?_distinct hfind
      have hdistinct : (sqlite i).fragment (.distinct [a]) =
          ofTokens [.keyword .DISTINCT, .space] ++ (sqlite i).fragment a := by
        rw [fragment_eq]
        rfl
      simp only [List.map_cons, hdistinct]
      rw [← append_commaSeparated_cons]
      rfl
  rw [groupConcat, append_assoc _ (ite _ _ _), hargs]

end Style

/-- The text of a call of `GROUP_CONCAT`. -/
def groupConcatText (args : List Rendered) : String :=
  "GROUP_CONCAT(" ++ ", ".intercalate (args.map Rendered.sql) ++ ")"

/-- Calls with the same arguments behind the first one have the same text where
the first arguments have. -/
theorem groupConcatText_inj {r₁ r₂ : Rendered} {rs : List Rendered} :
    groupConcatText (r₁ :: rs) = groupConcatText (r₂ :: rs) ↔ r₁.sql = r₂.sql := by
  have hfirst (r : Rendered) : ", ".intercalate (r.sql :: rs.map Rendered.sql) =
      r.sql ++ ", ".intercalate ("" :: rs.map Rendered.sql) := by
    rw [← String.intercalate_cons_append, String.append_empty]
  rw [groupConcatText, groupConcatText, List.map_cons, List.map_cons, hfirst, hfirst,
    String.append_left_inj, String.append_right_inj, String.append_left_inj]

/-- The output of a grouped concatenation is the call over the outputs of the
aggregated value and of the separator. -/
theorem Style.output_groupConcat {i : Bool} {v : Expr} {separator : Option Expr}
    (h : v.WellFormed) :
    (sqlite i).output (.groupConcat v separator) =
      ⟨groupConcatText ((v.grouped :: separator.toList).map (sqlite i).output),
        (if v.kind = .order then [.groupConcatOrder] else []) ++
          ((v.grouped :: separator.toList).map (sqlite i).output).flatMap
            Rendered.diagnostics⟩ := by
  have hname : (Fragment.ofTokens [.raw "GROUP_CONCAT", .lparen]).text .sqlite =
      "GROUP_CONCAT(" := rfl
  have hclose : (Fragment.ofTokens [.rparen]).text .sqlite = ")" := rfl
  have hfragment := @fragment_groupConcat i v separator h
  have htext : ((sqlite i).fragment (.groupConcat v separator)).text .sqlite =
      groupConcatText ((v.grouped :: separator.toList).map (sqlite i).output) := by
    simp only [hfragment, Fragment.text_append, Fragment.text_ite, Fragment.text_remark,
      Fragment.text_empty, ite_self, String.empty_append, hname, hclose,
      Fragment.text_commaSeparated, List.map_map, groupConcatText]
    rfl
  have hdiagnostics : ((sqlite i).fragment (.groupConcat v separator)).diagnostics =
      (if v.kind = .order then [.groupConcatOrder] else []) ++
        ((v.grouped :: separator.toList).map (sqlite i).output).flatMap Rendered.diagnostics := by
    simp [hfragment, Fragment.diagnostics_commaSeparated, List.flatMap_map, output]
  exact congrArg₂ Rendered.mk htext hdiagnostics

/-- SQLite prints a grouped concatenation as a call over the value without its
ordering and the separator, with one remark about an ordering; but where there
is a `DISTINCT` in the value, the first one takes its place, and the text is that
of the value only where the `DISTINCT` reads as the value does. -/
theorem grouped_value_kept {v : Expr} {separator : Option Expr} {o : RenderOptions}
    (h : (Expr.groupConcat v separator).validate = .ok ()) (ho : o.level ≠ .raise) :
    ∃ r rx rg rs, (Expr.groupConcat v separator).render .sqlite o = .ok r ∧
      v.unordered.render .sqlite o = .ok rx ∧ v.grouped.render .sqlite o = .ok rg ∧
      separator.toList.mapM (fun e => e.render .sqlite o) = .ok rs ∧
      r = ⟨groupConcatText (rg :: rs), (if v.kind = .order then [.groupConcatOrder] else []) ++
        (rg :: rs).flatMap Rendered.diagnostics⟩ ∧
      (r.sql = groupConcatText (rx :: rs) ↔ rg.sql = rx.sql) ∧
      ((∀ n ∈ v.preorder, n.kind ≠ .distinct) → rg = rx) := by
  have hwell : (Expr.groupConcat v separator).WellFormed := Expr.validate_eq_ok_iff.1 h
  have hvalue : v.WellFormed :=
    hwell.child (List.mem_cons_self : v ∈ (Expr.groupConcat v separator).children)
  have hseparator : ∀ e ∈ separator.toList, e.WellFormed := fun e he =>
    hwell.child (List.mem_cons_of_mem v he)
  have houtput := @Style.output_groupConcat o.identify v separator hvalue
  refine ⟨_, _, _, _, hwell.render ho, hvalue.unordered.render ho, hvalue.grouped.render ho,
    Expr.mapM_render hseparator ho, houtput, ?_, fun hplain => ?_⟩
  · rw [← groupConcatText_inj]
    exact Eq.congr_left (congrArg Rendered.sql houtput)
  · rw [Expr.grouped_eq_unordered hplain]

/-- A column with an ordering, and a separator. -/
def orderedColumn : Expr := .order (.column none ⟨"x", false⟩) [⟨.column none ⟨"y", false⟩, none⟩]

theorem grouped_value_kept_ordered :
    (Expr.groupConcat orderedColumn (some (.literal (.string ";")))).validate = .ok () ∧
      ({} : RenderOptions).level ≠ .raise ∧
      (Expr.groupConcat orderedColumn (some (.literal (.string ";")))).render .sqlite {} =
        .ok ⟨"GROUP_CONCAT(x, ';')", [.groupConcatOrder]⟩ := by
  have hvalid : (Expr.groupConcat orderedColumn (some (.literal (.string ";")))).validate =
      .ok () := by cbv
  have hcolumn : orderedColumn.unordered.render .sqlite {} = .ok ⟨"x", []⟩ := by cbv
  have hseparator : (some (Expr.literal (.string ";"))).toList.mapM
      (fun e => e.render .sqlite {}) = .ok [⟨"';'", []⟩] := by cbv
  obtain ⟨r, rx, rg, rs, hr, hx, -, hs, rfl, -, hplain⟩ :=
    grouped_value_kept (o := {}) hvalid (by decide)
  rw [hcolumn] at hx
  rw [hseparator] at hs
  cases hx
  cases hs
  cases hplain (by simp [orderedColumn, Expr.preorder_eq, Expr.children, Expr.kind])
  exact ⟨hvalid, by decide, hr⟩

/-- The `DISTINCT` of another aggregate takes the place of the value, without a
remark. -/
example :
    (Expr.groupConcat (.binaryOp .concat (.column none ⟨"a", false⟩)
        (.function "COUNT" [.distinct [.column none ⟨"b", false⟩]])) none).render .sqlite {} =
      .ok ⟨"GROUP_CONCAT(DISTINCT b)", []⟩ := by
  cbv

end SqlDialect
