import SqlDialect.Proofs.Grammar.Parse
import SqlDialect.Proofs.Grammar.Proper

/-!
# SqlDialect.Proofs.Grammar.Leaf

Where the literals and the names of what is read come from.

* `Expr.Leaves` -- what holds of the literals and of the names of a tree.
* `Derives.leaves`, `StatementOf.leaves` -- every literal of a tree is the value
  of one of the lexemes that it was read from, and every name is the identifier
  that one of them stands for.
-/

namespace SqlDialect

open Grammar

/-- The literal that a node is. -/
def Expr.literal? : Expr → Option Literal
  | literal v => some v
  | _ => none

/-- The names that a node holds itself: those of a column and its table, of a
table with its schema and its alias, and of the columns of a new table. -/
def Expr.names : Expr → List Ident
  | column owner name => owner.toList ++ [name]
  | star owner => owner.toList
  | aliased _ name => [name]
  | table schema name aliasName => schema.toList ++ name :: aliasName.toList
  | createTable t => t.columns.map ColumnDef.name
  | _ => []

/-- The literals of a tree have a property, and the names have another one. -/
def Expr.Leaves (L : Literal → Prop) (I : Ident → Prop) (e : Expr) : Prop :=
  e.All fun n => (∀ v ∈ n.literal?, L v) ∧ ∀ i ∈ n.names, I i

variable {L : Literal → Prop} {I : Ident → Prop} {e : Expr}

theorem Expr.leaves_iff : e.Leaves L I ↔
    ((∀ v ∈ e.literal?, L v) ∧ ∀ i ∈ e.names, I i) ∧ ∀ c ∈ e.children, c.Leaves L I :=
  Expr.all_iff

/-- The leaves of a node that holds none itself are the leaves below it. -/
theorem Expr.leaves_node (hv : e.literal? = none) (hi : e.names = []) :
    e.Leaves L I ↔ ∀ c ∈ e.children, c.Leaves L I := by
  rw [leaves_iff, hv, hi]
  exact and_iff_right ⟨by simp, by simp⟩

/-- The leaves of a node with nothing below it are its names. -/
theorem Expr.leaves_names (hv : e.literal? = none) (hc : e.children = [])
    (h : ∀ i ∈ e.names, I i) : e.Leaves L I := by
  rw [leaves_iff, hv, hc]
  exact ⟨⟨by simp, h⟩, by simp⟩

namespace Grammar

/-! ## lexemes -/

/-- What lexemes stand for has a property: their values one, and the identifiers
another one. -/
def Means (L : Literal → Prop) (I : Ident → Prop) (ls : List Lexeme) : Prop :=
  ∀ t ∈ ls, (∀ v, literalOf? t = some v → L v) ∧ ∀ i, identOf? t = some i → I i

@[simp] theorem means_cons {t : Lexeme} {ls : List Lexeme} :
    Means L I (t :: ls) ↔
      ((∀ v, literalOf? t = some v → L v) ∧ ∀ i, identOf? t = some i → I i) ∧ Means L I ls :=
  List.forall_mem_cons

@[simp] theorem means_append {ls ls' : List Lexeme} :
    Means L I (ls ++ ls') ↔ Means L I ls ∧ Means L I ls' :=
  List.forall_mem_append

/-- The names of a table are identifiers. -/
theorem NameOf.names {schema : Option Ident} {name : Ident} {ls : List Lexeme}
    (h : NameOf schema name ls) (hL : Means L I ls) : (∀ i ∈ schema, I i) ∧ I name := by
  cases h with
  | plain ht => exact ⟨by simp, (hL _ List.mem_cons_self).2 _ ht⟩
  | qualified ht _ hv =>
    simp only [means_cons] at hL
    exact ⟨by simpa using hL.1.2 _ ht, hL.2.2.1.2 _ hv⟩

/-- An alias is an identifier. -/
theorem AliasOf.name {o : Option Ident} {ls : List Lexeme} (h : AliasOf o ls)
    (hL : Means L I ls) : ∀ i ∈ o, I i := by
  cases h with
  | none => simp
  | named _ hu =>
    simp only [means_cons] at hL
    simpa using hL.2.1.2 _ hu
  | bare _ ht => simpa using (hL _ List.mem_cons_self).2 _ ht

/-- The leaves of a table are its names. -/
theorem leaves_table {schema aliasName : Option Ident} {name : Ident}
    (hn : (∀ i ∈ schema, I i) ∧ I name) (ha : ∀ i ∈ aliasName, I i) :
    (Expr.table schema name aliasName).Leaves L I := by
  refine Expr.leaves_names rfl rfl ?_
  simp only [Expr.names, List.forall_mem_append, List.forall_mem_cons, Option.mem_toList]
  exact ⟨hn.1, hn.2, ha⟩

/-! ## phrases -/

/-- The leaves of the trees of a phrase have the properties. -/
def Phrase.Leaves (L : Literal → Prop) (I : Ident → Prop) : Phrase → Prop
  | .expr _ e | .projection e | .table e => e.Leaves L I
  | .test a e => a.Leaves L I → e.Leaves L I
  | .exprs es | .projections es | .groupBy es | .args es => ∀ e ∈ es, e.Leaves L I
  | .item i => i.expr.Leaves L I
  | .items is | .orderBy is => ∀ i ∈ is, i.expr.Leaves L I
  | .whens ws => ∀ w ∈ ws, w.1.Leaves L I ∧ w.2.Leaves L I
  | .clause _ e | .separator e | .caseOperand e | .source e | .offset e | .fetchCount e
  | .fetch e => ∀ c ∈ e, c.Leaves L I
  | .rowLimit l o => (∀ c ∈ l, c.Leaves L I) ∧ ∀ c ∈ o, c.Leaves L I
  | .query q => (Expr.select q).Leaves L I

variable {d : Dialect}

theorem gatherArgs_leaves {distinct : Bool} {first : Expr} {others : List Expr}
    {items : List (OrderItem Expr)} {s : Option Expr}
    (he : ∀ e ∈ first :: others, e.Leaves L I) (hi : ∀ i ∈ items, i.expr.Leaves L I)
    (hs : ∀ e ∈ s, e.Leaves L I) :
    ∀ e ∈ gatherArgs distinct first others items s, e.Leaves L I := by
  have hdistinct : (Expr.distinct (first :: others)).Leaves L I :=
    (Expr.leaves_node rfl rfl).2 he
  have horder {a : Expr} (ha : a.Leaves L I) : (Expr.order a items).Leaves L I := by
    refine (Expr.leaves_node rfl rfl).2 ?_
    simpa [Expr.children] using ⟨ha, hi⟩
  have hfirst := he first List.mem_cons_self
  have hothers : ∀ e ∈ others, e.Leaves L I := fun e h => he e (List.mem_cons_of_mem _ h)
  unfold gatherArgs
  cases distinct <;> cases items.isEmpty <;> simp_all [or_imp]

/-- The leaves of the node that a call becomes are those of its arguments. -/
theorem build_leaves {k : CallKind} {es : List Expr} (hs : ∀ x ∈ es, x.Leaves L I)
    (h : k.build es = .ok e) : e.Leaves L I := by
  unfold CallKind.build at h
  split at h
  case h_7 =>
    split at h <;> cases h
    refine (Expr.leaves_node rfl rfl).2 ?_
    simp_all [Expr.children]
  case h_18 => cases h
  all_goals
    cases h
    exact (Expr.leaves_node rfl rfl).2 (by simpa [Expr.children] using hs)

section

variable (hd : d.UsualFunctions)
include hd

theorem call_leaves {name : String} {es : List Expr} (hs : ∀ x ∈ es, x.Leaves L I)
    (h : d.call name es = .ok e) : e.Leaves L I := by
  rcases hd.call_cases name es with ⟨k, hk⟩ | hplain
  · rw [hk] at h
    exact build_leaves hs h
  · rw [hplain] at h
    cases h
    exact (Expr.leaves_node rfl rfl).2 hs

/-- Every leaf that is read is what a lexeme stands for. -/
theorem Derives.leaves {p : Phrase} {ls : List Lexeme} (h : Derives d p ls)
    (hL : Means L I ls) : p.Leaves L I := by
  induction h with
  | literal ht =>
    refine Expr.leaves_iff.2 ⟨⟨?_, by simp [Expr.names]⟩, by simp [Expr.children]⟩
    simpa [Expr.literal?] using (hL _ List.mem_cons_self).1 _ ht
  | star | allColumns => exact Expr.leaves_names rfl rfl (by simp [Expr.names])
  | column ht =>
    exact Expr.leaves_names rfl rfl (by simpa [Expr.names] using (hL _ List.mem_cons_self).2 _ ht)
  | starOf ht =>
    exact Expr.leaves_names rfl rfl (by simpa [Expr.names] using (hL _ List.mem_cons_self).2 _ ht)
  | columnOf ht _ hv =>
    simp only [means_cons] at hL
    have hi := hL.1.2 _ ht
    have hj := hL.2.2.1.2 _ hv
    exact Expr.leaves_names rfl rfl (by simp [Expr.names, hi, hj])
  | table hn ha =>
    rw [means_append] at hL
    exact leaves_table (hn.names hL.1) (ha.name hL.2)
  | aliased _ _ ha ih =>
    rw [means_append] at hL
    have hi := ha.name hL.2
    refine Expr.leaves_iff.2 ⟨⟨by simp [Expr.literal?], by simpa [Expr.names] using hi⟩, ?_⟩
    exact List.forall_mem_singleton.2 (ih hL.1)
  | call _ _ _ _ _ he ih => exact call_leaves hd (ih (by simp_all)) he
  | cast _ hk _ _ _ _ _ ih =>
    have hl := ih (by simp_all)
    unfold castOf? at hk
    split at hk <;> cases hk <;>
      exact (Expr.leaves_node rfl rfl).2 (List.forall_mem_singleton.2 hl)
  | @binary t k make a c ls₁ ls₂ _ ht _ iha ihc =>
    have ha := iha (by simp_all)
    have hc := ihc (by simp_all)
    rcases operatorAt?_shape ht a c with ⟨op, hmake, -⟩ | ⟨-, hmake | hmake⟩ <;>
      rw [hmake] <;> refine (Expr.leaves_node rfl rfl).2 ?_ <;>
      exact List.forall_mem_cons.2 ⟨ha, List.forall_mem_singleton.2 hc⟩
  | args _ _ _ _ ihe iho ihs =>
    exact gatherArgs_leaves (ihe (by simp_all)) (iho (by simp_all)) (ihs (by simp_all))
  | paren _ _ _ ih | subquery _ _ _ _ ih | minus _ _ ih | not _ _ ih =>
    exact (Expr.leaves_node rfl rfl).2 (List.forall_mem_singleton.2 (ih (by simp_all)))
  | compare | like | ilike | between | inList | isNull =>
    refine fun ha => (Expr.leaves_node rfl rfl).2 ?_
    simp_all [Phrase.Leaves, Expr.children]
  | caseWhen _ _ _ _ _ _ iho ihw ihb =>
    simp only [means_append, means_cons] at hL
    have ho := iho hL.1.1.1.2
    have hw := ihw hL.1.1.2
    have hb := ihb hL.1.2
    refine (Expr.leaves_node rfl rfl).2 ?_
    simp only [Expr.children, List.forall_mem_append, Option.mem_toList, List.mem_flatMap,
      List.mem_cons, List.not_mem_nil, or_false]
    refine ⟨⟨ho, ?_⟩, hb⟩
    rintro x ⟨w, hmem, rfl | rfl⟩
    · exact (hw w hmem).1
    · exact (hw w hmem).2
  | query _ _ _ _ _ _ _ _ ihp ihs ihw ihg ihh iho ihl =>
    simp only [means_append] at hL
    obtain ⟨⟨⟨⟨⟨⟨⟨-, hp⟩, hs⟩, hw⟩, hg⟩, hh⟩, ho⟩, hl⟩ := hL
    refine (Expr.leaves_node rfl rfl).2 ?_
    simp only [Expr.children, Select.exprs, List.forall_mem_append, List.forall_mem_map,
      Option.mem_toList]
    exact ⟨⟨⟨⟨⟨⟨⟨ihp hp, ihs hs⟩, ihw hw⟩, ihg hg⟩, ihh hh⟩, iho ho⟩, (ihl hl).1⟩, (ihl hl).2⟩
  | tableSample hn ha _ _ _ _ _ _ ih =>
    simp only [means_append, means_cons] at hL
    obtain ⟨⟨⟨⟨⟨hname, halias⟩, -⟩, -, hsize⟩, -⟩, -⟩ := hL
    have htable := leaves_table (L := L) (hn.names hname) (ha.name halias)
    exact (Expr.leaves_node rfl rfl).2
      (List.forall_mem_cons.2 ⟨htable, List.forall_mem_singleton.2 (ih hsize)⟩)
  | fetch _ _ _ _ _ _ _ ih =>
    have hc := ih (by simp_all)
    refine fun c hmem => ?_
    cases hmem
    exact (Expr.leaves_node rfl rfl).2 fun c h => hc c (Option.mem_toList.1 h)
  | limitPair | limit =>
    have hlimit {a : Expr} (ha : a.Leaves L I) : (Expr.limit a).Leaves L I :=
      (Expr.leaves_node rfl rfl).2 (List.forall_mem_singleton.2 ha)
    simp_all [Phrase.Leaves]
  | whens _ _ _ _ _ iha ihb ihw =>
    simp only [means_append, means_cons] at hL
    exact List.forall_mem_cons.2 ⟨⟨iha hL.1.1.2, ihb hL.1.2.2⟩, ihw hL.2⟩
  | _ => simp_all [Phrase.Leaves]

/-! ## statements -/

theorem ConstraintsOf.leaves {ks : List (ColumnConstraint Expr)} {ls : List Lexeme}
    (h : ConstraintsOf d ks ls) (hL : Means L I ls) :
    ∀ c ∈ ks.flatMap ColumnConstraint.exprs, c.Leaves L I := by
  induction h with
  | nil => exact fun _ h => nomatch h
  | @cons k ks ls₁ ls₂ hk _ ih =>
    rw [List.flatMap_append, List.forall_mem_append]
    refine ⟨?_, ih (by simp_all)⟩
    cases hk with
    | @default t e ls _ he =>
      have hvalue : e.Leaves L I := he.leaves hd (by simp_all)
      simpa [ColumnConstraint.exprs] using hvalue
    | _ => simp [ColumnConstraint.exprs]

theorem ColumnsOf.leaves {cs : List (ColumnDef Expr)} {ls : List Lexeme}
    (h : ColumnsOf d cs ls) (hL : Means L I ls) :
    (∀ c ∈ cs, I c.name) ∧ ∀ c ∈ cs.flatMap ColumnDef.exprs, c.Leaves L I := by
  have hcolumn {c : ColumnDef Expr} {ls : List Lexeme} (h : ColumnOf d c ls)
      (hL : Means L I ls) : I c.name ∧ ∀ x ∈ c.exprs, x.Leaves L I := by
    cases h with
    | mk ht _ hk => exact ⟨(hL _ (by simp)).2 _ ht, hk.leaves hd (by simp_all)⟩
  induction h with
  | one hc => simpa using hcolumn hc hL
  | more hc _ _ ih =>
    obtain ⟨hname, hexprs⟩ := hcolumn hc (by simp_all)
    obtain ⟨hnames, hothers⟩ := ih (by simp_all)
    rw [List.flatMap_cons, List.forall_mem_append]
    exact ⟨List.forall_mem_cons.2 ⟨hname, hnames⟩, hexprs, hothers⟩

/-- Every leaf of a statement is what a lexeme stands for. -/
theorem StatementOf.leaves {ls : List Lexeme} (h : StatementOf d e ls)
    (hL : Means L I ls) : e.Leaves L I := by
  cases h with
  | select _ hq => exact hq.leaves hd (by simp_all)
  | transaction | commit | rollback => exact Expr.leaves_names rfl rfl (by simp [Expr.names])
  | createTable _ _ _ hn _ hs _ =>
    simp only [means_append, means_cons] at hL
    obtain ⟨⟨⟨⟨-, -, -⟩, hname⟩, -, hcolumns⟩, -⟩ := hL
    obtain ⟨hnames, hexprs⟩ := hs.leaves hd hcolumns
    refine Expr.leaves_iff.2 ⟨⟨by simp [Expr.literal?], ?_⟩, ?_⟩
    · simpa [Expr.names] using hnames
    · simp only [Expr.children, CreateTable.exprs, List.forall_mem_cons]
      exact ⟨leaves_table (hn.names hname) (by simp), hexprs⟩

end

end Grammar

end SqlDialect
