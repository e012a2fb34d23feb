import Mathlib
import SqlDialect.Proofs.Columns.Legible
import SqlDialect.Proofs.Columns.Phrase
import SqlDialect.Proofs.Rendering.Reread

/-!
# SqlDialect.Proofs.Columns.Kept

Which columns of a tree are found again in SQLite's text of it.

* `Told` -- what the text of a tree of any kind does where it stands.
* `told_of_legible` -- one node over nodes whose texts show their columns.
* `columns_of_rendered` -- the columns that the text is read with.
* `columns_kept_iff` -- when these are all columns of the tree.
-/

namespace SqlDialect

open Text Grammar Watch

variable {i : Bool} {a e : Expr} {es : List Expr}

/-! ## what a text does where it stands -/

/-- What the text of a tree does where it stands. -/
def Told (i : Bool) (e : Expr) : Prop :=
  match e with
  | .distinct _ | .order _ _ => Argument i e
  | .select _ => Queries i e
  | .limit _ | .fetch .. => Limits i e
  | .table .. => Sources i e
  | .tableSample .. | .transaction _ | .commit | .rollback | .createTable _ => True
  | _ => Kept i e

theorem Told.kept (h : Told i e) (ht : e.tier .generic ≤ 8) : Kept i e := by
  rw [Expr.tier_generic] at ht
  cases e <;> first
    | exact h
    | simp [Expr.level] at ht

theorem Told.argument (h : Told i e) (ht : e.tier .generic ≤ 9) : Argument i e := by
  cases hg : e.gathers with
  | false => exact (h.kept (Expr.tier_le_of_gathers ht hg)).argument
  | true =>
    cases e <;> first
      | exact h
      | cases hg

/-- The arguments of a call, as they were read. -/
theorem argued_of_told (h : ∀ a ∈ es, Told i a)
    (hs : ∀ s ∈ Expr.arguments es, s.2.tier .generic ≤ s.1) : Argued i es := by
  cases es with
  | nil => trivial
  | cons a es =>
    rw [List.forall_mem_cons] at h
    simp only [Expr.arguments, List.forall_mem_cons, List.forall_mem_map] at hs
    exact ⟨h.1.argument hs.1, fun e he => (h.2 e he).kept (hs.2 e he)⟩

/-- A query over parts whose texts show their columns. -/
theorem queries_of_legible {q : Select Expr} (h : (Expr.select q).All Legible)
    (ih : ∀ a ∈ q.exprs, Told i a) : Queries i (.select q) := by
  have hself := h.self
  obtain ⟨hplaces, hprojected, hsourced⟩ := hself.proper
  have hparts : ∀ c ∈ q.filter.toList ++ q.groupBy ++ q.having.toList ++
      q.orderBy.map OrderItem.expr ++ q.offset.toList, Kept i c := by
    intro c hc
    refine (ih c ?_).kept (hplaces (8, c) (List.mem_map_of_mem hc))
    simp only [Select.exprs, List.mem_append] at hc ⊢
    rcases hc with (((hc | hc) | hc) | hc) | hc <;> simp [hc]
  have hne : q.projections ≠ [] := by
    intro hp
    have hsound := hself.sound
    simp [Expr.fault?, Select.fault?, hp] at hsound
  have hprojections : ∀ p ∈ q.projections, Kept i p := by
    intro p hp
    have htold : Told i p := ih p (by simp [Select.exprs, hp])
    rcases hprojected p hp with ⟨a, n, rfl⟩ | rfl | hp
    · exact htold
    · exact htold
    · exact htold.kept hp.1
  have hsources : ∀ t ∈ q.source, Sources i t := by
    intro t ht
    have hmem : t ∈ q.exprs := by simp_all [Select.exprs]
    rcases hsourced t ht with ⟨schema, n, x, rfl⟩ | ⟨a, m, n, u, rfl⟩
    · exact ih _ hmem
    · cases (h.child hmem).self.quiet
  have hlimits : ∀ l ∈ q.limit, Limits i l := by
    intro l hl
    have htold : Told i l := ih l (by simp_all [Select.exprs])
    rcases limit_cases hself.sound with hlimit | ⟨count, hlimit⟩ | ⟨d, n, p, w, hlimit⟩ <;>
      rw [hlimit] at hl <;> cases hl
    · exact htold
    · exact htold
  have hfilter : ∀ c ∈ q.filter, Kept i c := fun c hc => hparts c (by simp_all)
  have hgroup : ∀ c ∈ q.groupBy, Kept i c := fun c hc => hparts c (by simp_all)
  have hhaving : ∀ c ∈ q.having, Kept i c := fun c hc => hparts c (by simp_all)
  have horder : ∀ item ∈ q.orderBy, Kept i item.expr :=
    fun item hitem => hparts item.expr (by simp [List.mem_map_of_mem hitem])
  have hoffset : ∀ c ∈ q.offset, Kept i c := fun c hc => hparts c (by simp_all)
  exact queries_select hne hprojections hsources hfilter hgroup hhaving horder hlimits hoffset

/-- A node over nodes whose texts show their columns. -/
theorem told_of_legible (h : e.All Legible) (ih : ∀ a ∈ e.children, Told i a) : Told i e := by
  have hself := h.self
  obtain ⟨hplaces, hwritable⟩ := hself.proper
  have hkept {a : Expr} {k : Nat} (ha : a ∈ e.children) (hp : (k, a) ∈ e.places) (hk : k ≤ 8) :
      Kept i a := (ih a ha).kept ((hplaces _ hp).trans hk)
  have hbare {a : Expr} (hg : a.gathers = false) (ha : a ∈ e.children) (hp : (9, a) ∈ e.places) :
      Kept i a := (ih a ha).kept (hself.operand hp (by decide) hg)
  have hpair {a c : Expr} (hg : a.gathers = false) (hc : e.children = [a, c])
      (hp : e.places = [(9, a), (8, c)]) : Kept i a ∧ Kept i c :=
    ⟨hbare hg (by simp [hc]) (by simp [hp]),
      hkept (k := 8) (by simp [hc]) (by simp [hp]) (by decide)⟩
  cases e with
  | column t n => exact kept_column hwritable
  | literal v => exact kept_literal hwritable hself.sound
  | star t => exact kept_star hwritable
  | aliased a n =>
    exact kept_aliased (hkept List.mem_cons_self List.mem_cons_self (by decide)) hwritable.1
  | paren a =>
    by_cases hq : ∃ q, a = .select q
    · obtain ⟨q, rfl⟩ := hq
      exact kept_query (ih _ List.mem_cons_self)
    · refine kept_paren (hkept (k := 8) List.mem_cons_self ?_ (Nat.le_refl 8))
      rw [Expr.places_paren fun q heq => hq ⟨q, heq⟩]
      exact List.mem_cons_self
  | binaryOp op a c =>
    have hlevel := op.level_bounds.2
    exact kept_binaryOp (hkept List.mem_cons_self List.mem_cons_self hlevel)
      (hkept (by simp [Expr.children]) (List.mem_cons_of_mem _ List.mem_cons_self)
        (Nat.sub_le_of_le_add (by omega)))
  | unaryOp op a =>
    have ha : Kept i a := by
      cases op <;> exact hkept List.mem_cons_self List.mem_cons_self (by decide)
    cases op with
    | not => exact kept_not ha
    | minus =>
      have htier : a.tier .generic ≤ 1 := hplaces (1, a) List.mem_cons_self
      exact kept_minus ha (undashed_of_legible (h.child List.mem_cons_self) (by omega) hself.apart)
  | like n a c =>
    exact kept_like (hkept List.mem_cons_self List.mem_cons_self (by decide))
      (hkept (by simp [Expr.children]) (List.mem_cons_of_mem _ List.mem_cons_self) (by decide))
  | isNull n a => exact kept_isNull (hkept List.mem_cons_self List.mem_cons_self (by decide))
  | between n a low high =>
    exact kept_between (hkept List.mem_cons_self List.mem_cons_self (by decide))
      (hkept (by simp [Expr.children]) (List.mem_cons_of_mem _ List.mem_cons_self) (by decide))
      (hkept (k := 4) (by simp [Expr.children]) (by simp [Expr.places]) (by decide))
  | inList n a es =>
    have hvalues : ∀ e ∈ es, Kept i e := fun e he =>
      hkept (List.mem_cons_of_mem _ he) (List.mem_cons_of_mem _ (List.mem_map_of_mem he))
        (Nat.le_refl 8)
    have hne : es ≠ [] := by
      rintro rfl
      cases hself.sound
    exact kept_inList (hkept List.mem_cons_self List.mem_cons_self (by decide)) hvalues hne
  | caseWhen o ws c =>
    have hall : ∀ a ∈ (Expr.caseWhen o ws c).children, Kept i a :=
      fun a ha => hkept ha (List.mem_map_of_mem ha) (Nat.le_refl 8)
    simp only [Expr.children, List.forall_mem_append, List.forall_mem_flatMap, List.forall_mem_cons,
      List.not_mem_nil, false_implies, implies_true, and_true, Option.mem_toList] at hall
    exact kept_caseWhen (by rintro rfl; cases hself.sound) hall.1.1 hall.1.2 hall.2
  | cast a t => exact kept_cast (hkept List.mem_cons_self List.mem_cons_self (Nat.le_refl 8))
  | function name es => exact kept_function hwritable (argued_of_told ih hplaces)
  | distinct es =>
    exact argument_distinct (fun e he => hkept he (List.mem_map_of_mem he) (Nat.le_refl 8))
      (by rintro rfl; cases hself.sound)
  | order a items =>
    refine argument_order ((ih a List.mem_cons_self).argument (hplaces (9, a) List.mem_cons_self))
      (fun item hitem => hkept (k := 8) ?_ ?_ (Nat.le_refl 8)) (by rintro rfl; cases hself.sound)
    · exact List.mem_cons_of_mem _ (List.mem_map_of_mem hitem)
    · exact List.mem_cons_of_mem _ (List.mem_map_of_mem hitem)
  | dateAdd a n u =>
    exact kept_dateAdd ((ih a List.mem_cons_self).argument (hplaces (9, a) List.mem_cons_self))
  | least es =>
    refine @kept_extremum i es false (argued_of_told ih hplaces) (by rintro rfl; cases hself.sound)
      fun a hes => ?_
    subst hes
    exact hbare hself.apart List.mem_cons_self List.mem_cons_self
  | greatest es =>
    refine @kept_extremum i es true (argued_of_told ih hplaces) (by rintro rfl; cases hself.sound)
      fun a hes => ?_
    subst hes
    exact hbare hself.apart List.mem_cons_self List.mem_cons_self
  | levenshtein es => exact kept_levenshtein (argued_of_told ih hplaces)
  | jsonExtract a p =>
    obtain ⟨ha, hp⟩ := hpair hself.apart rfl rfl
    exact @kept_extraction i a p false false ha hp
  | jsonExtractScalar a p =>
    obtain ⟨ha, hp⟩ := hpair hself.apart rfl rfl
    exact @kept_extraction i a p false true ha hp
  | jsonbExtract a p =>
    obtain ⟨ha, hp⟩ := hpair hself.apart rfl rfl
    exact @kept_extraction i a p true false ha hp
  | jsonbExtractScalar a p =>
    obtain ⟨ha, hp⟩ := hpair hself.apart rfl rfl
    exact @kept_extraction i a p true true ha hp
  | dateStrToDate a =>
    exact @kept_conversion i a false (hbare hself.apart List.mem_cons_self List.mem_cons_self)
  | timeStrToTime a =>
    exact @kept_conversion i a true (hbare hself.apart List.mem_cons_self List.mem_cons_self)
  | table q n x => exact sources_table hwritable
  | select q => exact queries_of_legible h ih
  | limit a => exact limits_limit (hkept List.mem_cons_self List.mem_cons_self (Nat.le_refl 8))
  | fetch d n p w =>
    exact limits_fetch fun c hc => hkept (k := 1) (Option.mem_toList.2 hc)
      (List.mem_map_of_mem (Option.mem_toList.2 hc)) (by decide)
  | groupConcat => exact absurd rfl hself.single
  | ilike | tryCast => cases hself.quiet
  | tableSample | transaction | commit | rollback | createTable => trivial

/-- The text of a whole tree shows its columns where it stands. -/
theorem told_of_all (h : e.All Legible) : Told i e := by
  induction e using Expr.induction with
  | node e ih => exact told_of_legible h fun a ha => ih a ha (h.child ha)

/-! ## whole trees -/

/-- A tree that nothing is remarked about has no node with a remark. -/
theorem quiet_of_remarks (h : e.sqliteRemarks = []) : e.All fun n => n.sqliteOwn = [] := by
  induction e using Expr.induction with
  | node e ih =>
    rw [Expr.sqliteRemarks_eq, List.append_eq_nil_iff, List.flatMap_eq_nil_iff] at h
    have hvisited : ∀ a ∈ e.children, a ∈ e.sqliteVisited := by
      intro a ha
      cases e with
      | tableSample => cases h.1
      | dateAdd => simpa [Expr.sqliteVisited, Expr.children, or_comm] using ha
      | _ => exact ha
    exact Expr.all_iff.2 ⟨h.1, fun a ha => ih a ha (h.2 a (hvisited a ha))⟩

/-- The tree that SQLite's text of a tree is read as, if it is read at all, has
the columns that the text spells out. -/
theorem columns_of_rendered {sql : String} {r : Rendered} {o : RenderOptions} {e' : Expr}
    (h : Dialect.generic.parseExpr sql = .ok e) (hg : ∀ n ∈ e.preorder, n.kind ≠ .groupConcat)
    (ha : e.All Apart) (hr : e.render .sqlite o = .ok r) (hq : r.diagnostics = [])
    (h' : Dialect.sqlite.parseExpr r.sql = .ok e') : e'.columns = e.shows o.identify := by
  obtain ⟨hwell, rfl⟩ := Expr.render_eq_ok hr
  obtain ⟨hproper, htier⟩ := @parseExpr_proper .generic e sql h
  have hquiet := quiet_of_remarks ((Style.diagnostics_fragment hg).symm.trans hq)
  have hlegible : e.All Legible := fun n hn =>
    ⟨hproper n hn, hwell n hn, hquiet n hn, hg n hn, ha n hn⟩
  -- what watching the text tells is what is read
  have hkept : Kept o.identify e := (told_of_all hlegible).kept htier
  obtain ⟨ls, ⟨s', hrun, hrests⟩, hscan⟩ :=
    Scans.scan (@hkept ⟨.due, .free, [], []⟩ rfl) .nil
  obtain ⟨ls', hscan', hd⟩ := (@parseExpr_eq_ok_iff .sqlite _ _).1 h'
  obtain rfl : ls = ls' := Except.ok.inj (hscan.symm.trans hscan')
  have hpasses : Passes ⟨.due, .free, [], []⟩ s' e'.columns :=
    Derives.watches (b := .sqlite) hd hrun rfl
  exact hpasses.columns.symm.trans hrests.columns

/-- No column is lost without a remark, except in the amounts by which dates are
moved.  An expression that holds no grouped concatenation is printed for SQLite
without remarks, and its text is read again: its columns, delimited as the
options say, are the columns of what is read, in the same order, if and only if
no amount of a moved date holds a column.  The parts of the expression have to
stay apart in the text: two minus signs in a row would start a comment, and an
ordering written without the call around it would be that of another call. -/
theorem columns_kept_iff {sql : String} {r : Rendered} {o : RenderOptions} {e' : Expr}
    (h : Dialect.generic.parseExpr sql = .ok e) (hg : ∀ n ∈ e.preorder, n.kind ≠ .groupConcat)
    (ha : e.All Apart) (hr : e.render .sqlite o = .ok r) (hq : r.diagnostics = [])
    (h' : Dialect.sqlite.parseExpr r.sql = .ok e') :
    e'.columns = e.columns.map (markNode o.identify) ↔ e.AmountsBare := by
  rw [columns_of_rendered h hg ha hr hq h', ← e.spelledColumns_eq_iff]
  constructor
  · intro heq
    have hlength := congrArg List.length heq
    rw [Expr.shows, List.length_map, List.length_map] at hlength
    exact e.spelledColumns_sublist.eq_of_length hlength
  · intro heq
    rw [Expr.shows, heq]

theorem columns_kept_iff_moved :
    ∃ e r e', Dialect.generic.parseExpr "DATE_ADD(d, 7) < t.b" = .ok e ∧
      e.render .sqlite {} = .ok r ∧ r.sql = "DATE(d, '7') < t.b" ∧
      Dialect.sqlite.parseExpr r.sql = .ok e' ∧ e.AmountsBare ∧
      (e'.columns = e.columns.map (markNode false) ↔ e.AmountsBare) := by
  have hread : Dialect.generic.parseExpr "DATE_ADD(d, 7) < t.b" = .ok (.binaryOp .lt
      (.dateAdd (.column none ⟨"d", false⟩) (.literal (.int 7)) none)
      (.column (some ⟨"t", false⟩) ⟨"b", false⟩)) := by cbv
  have hprinted : Expr.render (.binaryOp .lt
      (.dateAdd (.column none ⟨"d", false⟩) (.literal (.int 7)) none)
      (.column (some ⟨"t", false⟩) ⟨"b", false⟩)) .sqlite {} = .ok ⟨"DATE(d, '7') < t.b", []⟩ := by
    cbv
  have hagain : Dialect.sqlite.parseExpr "DATE(d, '7') < t.b" = .ok (.binaryOp .lt
      (.function "DATE" [.column none ⟨"d", false⟩, .literal (.string "7")])
      (.column (some ⟨"t", false⟩) ⟨"b", false⟩)) := by cbv
  refine ⟨_, _, _, hread, hprinted, rfl, hagain, fun a amount unit hmem => ?_,
    columns_kept_iff hread ?_ ?_ hprinted rfl hagain⟩
  · obtain ⟨-, rfl, -⟩ : a = .column none ⟨"d", false⟩ ∧ amount = .literal (.int 7) ∧
        unit = none := by
      simpa [Expr.preorder_eq, Expr.children] using hmem
    exact Expr.columns_literal _
  all_goals simp [Expr.All, Expr.preorder_eq, Expr.children, Expr.kind, Apart]

/-- An amount with a column is printed as a text, without a remark. -/
example :
    Dialect.generic.parseExpr "DATE_ADD(d, x)" =
        .ok (.dateAdd (.column none ⟨"d", false⟩) (.column none ⟨"x", false⟩) none) ∧
      (Expr.dateAdd (.column none ⟨"d", false⟩) (.column none ⟨"x", false⟩) none).render
        .sqlite {} = .ok ⟨"DATE(d, 'x')", []⟩ ∧
      Dialect.sqlite.parseExpr "DATE(d, 'x')" =
        .ok (.function "DATE" [.column none ⟨"d", false⟩, .literal (.string "x")]) := by
  refine ⟨?_, ?_, ?_⟩ <;> cbv

/-- An ordering of a bare argument becomes one of the first argument of the call
around it. -/
example :
    Dialect.generic.parseExpr "f(a, LEAST(b ORDER BY c))" =
        .ok (.function "f" [.column none ⟨"a", false⟩,
          .least [.order (.column none ⟨"b", false⟩) [⟨.column none ⟨"c", false⟩, none⟩]]]) ∧
      (Expr.function "f" [.column none ⟨"a", false⟩,
          .least [.order (.column none ⟨"b", false⟩) [⟨.column none ⟨"c", false⟩, none⟩]]]).render
        .sqlite {} = .ok ⟨"f(a, b ORDER BY c)", []⟩ ∧
      Dialect.sqlite.parseExpr "f(a, b ORDER BY c)" =
        .ok (.function "f" [.order (.column none ⟨"a", false⟩) [⟨.column none ⟨"c", false⟩, none⟩],
          .column none ⟨"b", false⟩]) := by
  refine ⟨?_, ?_, ?_⟩ <;> cbv

end SqlDialect
