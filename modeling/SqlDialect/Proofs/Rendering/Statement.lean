import Mathlib
import SqlDialect.Proofs.Outcome
import SqlDialect.Proofs.Rendering.Reread
import SqlDialect.Transpile

/-!
# SqlDialect.Proofs.Rendering.Statement

The texts of statements, read again.

* `Written.modifier`, `columns_written` -- the parts that only statements have.
* `statement_written` -- the text of a statement without hazards is one of a
  statement, and of the settled one where it is faithful.
* `transpiled_statements_are_read` -- whatever is carried over to a dialect
  without hazards is read in that dialect.
-/

namespace SqlDialect

open Text Grammar

variable {b : Builtin} {i : Bool} {e : Expr} {us : List Token} {Q : List Lexeme → Prop}

/-! ## transactions -/

theorem Written.modifier {text : String} (h : BareWords b text) (hu : Splits us)
    (hk : ∀ ws : List Lexeme, (∀ w ∈ ws, w.kind = .word) → modifierOf ws = some text →
      Written b us fun ls => Q (ws ++ ls)) : Written b (.raw text :: us) Q := by
  obtain ⟨ws, hne, rfl, hws⟩ := h
  obtain ⟨w, ws, rfl⟩ := List.exists_cons_of_ne_nil hne
  refine .cons (t := .raw _) (scans_words fun v hv => (hws v hv).1) (fun _ hr => hu.breaks hr)
    fun ls hls => ?_
  refine hk ls (forall_kind_word hls.2 fun v hv => by rw [wordKind, (hws v hv).2]) ?_
  have hsome : ls.isEmpty = false := by
    cases ls with
    | nil => cases hls.1
    | cons => rfl
  rw [modifierOf, hsome, hls.1]
  rfl

/-- The pieces of the modifier of a transaction, if there is one. -/
def modifierTokens (m : Option String) : List Token := m.elim [] fun m => [.space, .raw m]

/-- The word that SQLite ends the start of a transaction with. -/
def beginEndTokens : Builtin → List Token
  | .generic => []
  | .sqlite => [.space, .keyword .TRANSACTION]

theorem tokensOf_transaction (m : Option String) :
    tokensOf b i (.transaction m) = .keyword .BEGIN :: (modifierTokens m ++ beginEndTokens b) := by
  cases b with
  | generic =>
    rw [tokensOf_base rfl]
    cases m <;> rfl
  | sqlite =>
    rw [tokensOf_custom (r := .transaction) rfl]
    cases m <;> rfl

theorem transaction_written {m : Option String} (h : Clear b (.transaction m)) :
    Written b (tokensOf b i (.transaction m)) (StatementOf b.dialect (.transaction m)) := by
  have hend {t : Lexeme} {ws : List Lexeme} (ht : t.kind = .keyword .BEGIN)
      (hw : ∀ w ∈ ws, w.kind = .word) (hm : modifierOf ws = m) :
      Written b (beginEndTokens b) fun ls =>
        StatementOf b.dialect (.transaction m) (t :: ws ++ ls) := by
    subst hm
    cases b with
    | generic => exact .nil (.transaction ht hw .absent)
    | sqlite =>
      refine .space (.keyword (by simp) fun u hu => ?_)
      exact .nil (.transaction ht hw (.present hu))
  rw [tokensOf_transaction]
  cases m with
  | none =>
    refine .keyword (by cases b <;> simp [modifierTokens, beginEndTokens]) fun t ht => ?_
    exact @hend t [] ht (fun _ hw => (List.not_mem_nil hw).elim) rfl
  | some text =>
    have hsplits : Splits (beginEndTokens b) := by
      cases b <;> simp [beginEndTokens]
    refine .keyword (by simp [modifierTokens]) fun t ht => ?_
    exact .space (.modifier (h.2 text rfl) hsplits fun ws hw hm => hend ht hw hm)

/-! ## columns -/

/-- The pieces of a demand on a column. -/
def constraintTokens (b : Builtin) (i : Bool) : ColumnConstraint Expr → List Token
  | .primaryKey => [.keyword .PRIMARY, .space, .keyword .KEY]
  | .notNull => [.keyword .NOT, .space, .keyword .NULL]
  | .unique => [.keyword .UNIQUE]
  | .autoIncrement => [.keyword .AUTO_INCREMENT]
  | .default value => .keyword .DEFAULT :: .space :: tokensOf b i value

/-- The pieces of the demands on a column. -/
def constraintsTokens (b : Builtin) (i : Bool) (ks : List (ColumnConstraint Expr)) : List Token :=
  ks.flatMap fun k => .space :: constraintTokens b i k

/-- The pieces of the type of a column, if there is one. -/
def typeTokens (b : Builtin) (t : Option DataType) : List Token :=
  t.elim [] fun t => [.space, .raw (typeText b t)]

/-- The pieces of a column. -/
def columnTokens (b : Builtin) (i : Bool) (c : ColumnDef Expr) : List Token :=
  .raw (identText i c.name) :: (typeTokens b c.dataType ++ constraintsTokens b i c.constraints)

/-- The column that the text of a faithful one is read as. -/
def ColumnDef.settled (b : Builtin) (i : Bool) (c : ColumnDef Expr) : ColumnDef Expr :=
  ⟨c.name.marked i, c.dataType, c.constraints.map (ColumnConstraint.map (Expr.settled b i))⟩

theorem tokens_columnDef (c : ColumnDef Expr) :
    ((style b i).columnDef (style b i).fragment c).tokens = columnTokens b i c := by
  have htype : (Style.optional [.space] (c.dataType.map (style b i).dataType)).tokens =
      typeTokens b c.dataType := by
    cases c.dataType with
    | none => rfl
    | some t => simp [Style.optional, typeTokens, tokens_dataType, Fragment.ofTokens]
  have hconstraint (k : ColumnConstraint Expr) :
      (Fragment.ofTokens [.space] ++ Style.constraint (style b i).fragment k).tokens =
        .space :: constraintTokens b i k := by
    cases k <;> rfl
  simp only [Style.columnDef, Fragment.tokens_append, tokens_identifier, htype, tokens_concat,
    List.flatMap_map, hconstraint]
  rfl

theorem ends_constraints {ks : List (ColumnConstraint Expr)} : Ends (constraintsTokens b i ks) := by
  cases ks <;> simp [constraintsTokens]

theorem constraint_written {k : ColumnConstraint Expr}
    (h : ∀ e ∈ k.exprs, Shown b i e ∧ e.tier b ≤ 1) :
    ∃ k', Written b (constraintTokens b i k) (fun ls => ConstraintOf b.dialect (some k') ls) ∧
      ((∀ e ∈ k.exprs, e.All (Faithful b)) → k' = k.map (Expr.settled b i)) := by
  cases k with
  | primaryKey =>
    refine ⟨.primaryKey, ?_, fun _ => rfl⟩
    refine .spacedKeyword fun t ht => ?_
    exact .keyword (by simp) fun u hu => .nil (.primaryKey ht hu .none)
  | notNull =>
    refine ⟨.notNull, ?_, fun _ => rfl⟩
    refine .spacedKeyword fun t ht => ?_
    exact .keyword (by simp) fun u hu => .nil (.notNull ht hu)
  | unique =>
    refine ⟨.unique, ?_, fun _ => rfl⟩
    exact .keyword (by simp) fun t ht => .nil (.unique ht)
  | autoIncrement =>
    refine ⟨.autoIncrement, ?_, fun _ => rfl⟩
    exact .keyword (by simp) fun t ht => .nil (.autoIncrement ht)
  | default value =>
    obtain ⟨hshown, htier⟩ := h value List.mem_cons_self
    obtain ⟨⟨value', hw, hf⟩, -⟩ := hshown
    refine ⟨.default value', ?_, fun hfaith => ?_⟩
    · refine .spacedKeyword fun t ht => ?_
      exact hw.imp fun ls hls => .default ht (hls.derives.raise htier (by decide))
    · rw [hf (hfaith value List.mem_cons_self)]
      rfl

theorem constraints_written {ks : List (ColumnConstraint Expr)}
    (h : ∀ e ∈ ks.flatMap ColumnConstraint.exprs, Shown b i e ∧ e.tier b ≤ 1) :
    ∃ ks', Written b (constraintsTokens b i ks) (fun ls => ConstraintsOf b.dialect ks' ls) ∧
      ((∀ e ∈ ks.flatMap ColumnConstraint.exprs, e.All (Faithful b)) →
        ks' = ks.map (ColumnConstraint.map (Expr.settled b i))) := by
  induction ks with
  | nil => exact ⟨[], .nil .nil, fun _ => rfl⟩
  | cons k ks ih =>
    rw [List.flatMap_cons, List.forall_mem_append] at h
    obtain ⟨k', hk, hfk⟩ := constraint_written h.1
    obtain ⟨ks', hks, hfs⟩ := ih h.2
    refine ⟨k' :: ks', ?_, fun hfaith => ?_⟩
    · refine .space (hk.append ends_constraints fun ls hls => ?_)
      exact hks.imp fun ls' hls' => .cons hls hls'
    · rw [List.flatMap_cons, List.forall_mem_append] at hfaith
      rw [hfk hfaith.1, hfs hfaith.2, List.map_cons]

theorem column_written {c : ColumnDef Expr} (hn : Named c.name)
    (h : ∀ e ∈ c.exprs, Shown b i e ∧ e.tier b ≤ 1) :
    ∃ c', Written b (columnTokens b i c) (fun ls => ColumnOf b.dialect c' ls) ∧
      (b = .generic → (∀ e ∈ c.exprs, e.All (Faithful b)) → c' = c.settled b i) := by
  obtain ⟨name, type, ks⟩ := c
  obtain ⟨ks', hks, hf⟩ := constraints_written h
  refine ⟨⟨name.marked i, type.map (retyped b), ks'⟩, ?_, fun hb hfaith => ?_⟩
  · have hsplits : Splits (typeTokens b type ++ constraintsTokens b i ks) := by
      cases type with
      | none => exact ends_constraints.splits
      | some type => simp [typeTokens]
    refine .ident hn hsplits fun t ht => ?_
    cases type with
    | none => exact hks.imp fun ls hls => .mk ht.1 .none hls
    | some type =>
      refine .space (.dataType ends_constraints fun ls hT => ?_)
      exact hks.imp fun ls' hls => .mk ht.1 (.some hT) hls
  · subst hb
    rw [hf hfaith]
    have htype : type.map (retyped .generic) = type := by
      cases type <;> simp [retyped_generic]
    rw [htype]
    rfl

theorem columns_written {c : ColumnDef Expr} {cs : List (ColumnDef Expr)}
    (hn : ∀ d ∈ c :: cs, Named d.name)
    (h : ∀ e ∈ (c :: cs).flatMap ColumnDef.exprs, Shown b i e ∧ e.tier b ≤ 1) :
    ∃ cs', Written b (commas ((c :: cs).map (columnTokens b i)))
        (fun ls => ColumnsOf b.dialect cs' ls) ∧
      (b = .generic → (∀ e ∈ (c :: cs).flatMap ColumnDef.exprs, e.All (Faithful b)) →
        cs' = (c :: cs).map (ColumnDef.settled b i)) := by
  induction cs generalizing c with
  | nil =>
    rw [List.flatMap_singleton] at h
    obtain ⟨c', hc, hf⟩ := column_written (hn c List.mem_cons_self) h
    refine ⟨[c'], hc.imp fun ls hls => .one hls, fun hb hfaith => ?_⟩
    rw [List.flatMap_singleton] at hfaith
    rw [hf hb hfaith]
    rfl
  | cons d cs ih =>
    rw [List.flatMap_cons, List.forall_mem_append] at h
    rw [List.forall_mem_cons] at hn
    obtain ⟨c', hc, hfc⟩ := column_written hn.1 h.1
    obtain ⟨cs', hcs, hfs⟩ := ih hn.2 h.2
    refine ⟨c' :: cs', ?_, fun hb hfaith => ?_⟩
    · refine Written.append hc (by simp) fun ls hls => ?_
      refine .comma fun t ht => .space ?_
      exact hcs.imp fun ls' hls' => .more hls ht hls'
    · rw [List.flatMap_cons, List.forall_mem_append] at hfaith
      rw [hfc hb hfaith.1, hfs hb hfaith.2]
      rfl

/-! ## table definitions -/

/-- The pieces of the condition of a definition, if there is one. -/
def conditionTokens (conditional : Bool) : List Token :=
  if conditional then
    [.keyword .IF, .space, .keyword .NOT, .space, .keyword .EXISTS, .space]
  else []

theorem tokensOf_createTable (t : CreateTable Expr) :
    tokensOf b i (.createTable t) =
      .keyword .CREATE :: .space :: .keyword .TABLE :: .space :: (conditionTokens t.ifNotExists ++
        (tokensOf b i t.table ++ .space :: .lparen ::
          (commas (t.columns.map (columnTokens b i)) ++ [.rparen]))) := by
  have hcolumns : (t.columns.map ((style b i).columnDef (style b i).fragment)).map Fragment.tokens =
      t.columns.map (columnTokens b i) := by
    rw [List.map_map]
    exact List.map_congr_left fun c _ => tokens_columnDef c
  rw [tokensOf_base (by cases b <;> rfl), Style.base, Style.createTable]
  simp only [Fragment.tokens_append, tokens_commaSeparated, hcolumns]
  cases t.ifNotExists <;> simp [Fragment.ofTokens, tokensOf, conditionTokens]

theorem Written.condition {conditional : Bool}
    (hk : ∀ ls, ConditionOf conditional ls → Written b us fun ls' => Q (ls ++ ls')) :
    Written b (conditionTokens conditional ++ us) Q := by
  cases conditional with
  | false => exact hk [] .absent
  | true =>
    refine .spacedKeyword fun t ht => ?_
    refine .spacedKeyword fun u hu => ?_
    refine .spacedKeyword fun v hv => ?_
    exact hk [t, u, v] (.present ht hu hv)

theorem createTable_written {t : CreateTable Expr} (h : (Expr.createTable t).All (Ready b i)) :
    ∃ e', Written b (tokensOf b i (.createTable t)) (StatementOf b.dialect e') ∧
      ((Expr.createTable t).All (Faithful b) → e' = (Expr.createTable t).settled b i) := by
  obtain ⟨⟨schema, name, htable⟩, hnames⟩ := h.self.proper.2
  obtain ⟨table, conditional, columns⟩ := t
  obtain rfl : table = .table schema name none := htable
  have hname : Writable (.table schema name none) :=
    (h.child (c := .table schema name none) List.mem_cons_self).self.proper.2
  have hvalues : ∀ e ∈ columns.flatMap ColumnDef.exprs, Shown b i e ∧ e.tier b ≤ 1 := by
    intro e he
    have hslot : e.tier b ≤ 1 := by
      refine h.self.clear.1 (1, e) ?_
      cases b <;> exact List.mem_map_of_mem he
    exact ⟨(h.child (List.mem_cons_of_mem _ he)).self.shown (by omega), hslot⟩
  obtain ⟨c, cs, rfl⟩ := List.exists_cons_of_ne_nil (l := columns) (by
    rintro rfl
    exact nomatch h.self.sound)
  obtain ⟨cs', hcs, hf⟩ := columns_written hnames hvalues
  refine ⟨.createTable ⟨.table (schema.map (Ident.marked i)) (name.marked i) none, conditional,
    cs'⟩, ?_, fun hfaith => ?_⟩
  · rw [tokensOf_createTable, tokensOf_table]
    simp only [aliasTokens, Option.elim_none, List.append_nil]
    refine .spacedKeyword fun t ht => ?_
    refine .spacedKeyword fun u hu => ?_
    refine .condition fun ls₁ hcondition => ?_
    refine .name hname.1 hname.2.1 (by simp) fun ls₂ hqualified => .space ?_
    refine .lparen fun v hv => ?_
    refine hcs.append (by simp) fun ls₃ hcolumns => ?_
    refine .rparen fun w hw => .nil ?_
    simpa using StatementOf.createTable ht hu hcondition hqualified hv hcolumns hw
  · have hb : b = .generic := hfaith.self
    rw [hf hb fun e he => hfaith.child (List.mem_cons_of_mem _ he), Expr.settled_eq]
    subst hb
    simp [Expr.mapChildren, CreateTable.map, Expr.settled_table, markNode, unwrapNode,
      Function.comp_def, ColumnDef.map, ColumnDef.settled]

/-! ## statements -/

/-- A statement. -/
def Expr.isStatement : Expr → Bool
  | select _ | transaction _ | commit | rollback | createTable _ => true
  | _ => false

theorem Grammar.StatementOf.isStatement {d : Dialect} {ls : List Lexeme} (h : StatementOf d e ls) :
    e.isStatement = true := by
  cases h <;> rfl

/-- The text of a statement that is printed without hazards is one of a
statement, and of the settled one where it is faithful. -/
theorem statement_written (h : e.All (Ready b i)) (hs : e.isStatement = true) :
    ∃ e', Written b (tokensOf b i e) (StatementOf b.dialect e') ∧
      (e.All (Faithful b) → e' = e.settled b i) := by
  have hword {k : Keyword} {e' : Expr} (htokens : tokensOf b i e = [.keyword k])
      (hk : ∀ t : Lexeme, t.kind = .keyword k → StatementOf b.dialect e' [t]) :
      Written b (tokensOf b i e) (StatementOf b.dialect e') := by
    rw [htokens]
    exact .keyword (by simp) fun t ht => .nil (hk t ht)
  cases e with
  | select q =>
    obtain ⟨q', hw, hf⟩ := h.self.query q rfl
    refine ⟨.select q', hw.imp ?_, hf⟩
    rintro _ ⟨t, us, rfl, ht, hq⟩
    exact .select ht hq
  | transaction m =>
    refine ⟨.transaction m, transaction_written h.self.clear, fun _ => ?_⟩
    rw [Expr.settled_eq]
    cases b <;> rfl
  | commit =>
    refine ⟨.commit, hword (k := .COMMIT) (tokensOf_base (by cases b <;> rfl))
      fun t ht => .commit ht .absent, fun _ => ?_⟩
    rw [Expr.settled_eq]
    cases b <;> rfl
  | rollback =>
    refine ⟨.rollback, hword (k := .ROLLBACK) (tokensOf_base (by cases b <;> rfl))
      fun t ht => .rollback ht .absent, fun _ => ?_⟩
    rw [Expr.settled_eq]
    cases b <;> rfl
  | createTable t => exact createTable_written h
  | _ => cases hs

/-- Statements that reading accepts are statements, with proper nodes only. -/
theorem parse_proper {sql : String} {es : List Expr} (h : b.dialect.parse sql = .ok es) :
    ∀ e ∈ es, e.isStatement = true ∧ e.All Proper := by
  intro e he
  obtain ⟨ls, hscan, hs⟩ := parse_sound h
  obtain ⟨us, hsub, hstatement⟩ := hs e he
  exact ⟨hstatement.isStatement,
    hstatement.proper fun t ht => scan_genuine hscan t (hsub t ht)⟩

/-- The output of a statement that is printed without hazards is read as a
statement, and as the settled one where it is faithful. -/
theorem parseOne_rendered {o : RenderOptions} {r : Rendered} (hs : e.isStatement = true)
    (hp : e.All Proper) (hc : e.All (Clear b)) (hr : e.render b.dialect o = .ok r) :
    ∃ e', b.dialect.parseOne r.sql = .ok e' ∧
      (e.All (Faithful b) → e' = e.settled b o.identify) := by
  obtain ⟨hwell, rfl⟩ := Expr.render_eq_ok hr
  obtain ⟨e', hw, hf⟩ := statement_written (ready_of_clear (i := o.identify) hp hwell hc) hs
  obtain ⟨ls, hstatement, hscan⟩ := Scans.scan hw .nil
  exact ⟨e', parseOne_of_statement hscan hstatement, hf⟩

/-- Every output of a script is the output of one of its statements. -/
theorem mem_transpiled {d : Dialect} {o : RenderOptions} {es : List Expr} {rs : List Rendered}
    (h : (es.mapM fun e => (e.render d o).mapError TranspileError.render) = .ok rs) :
    ∀ r ∈ rs, ∃ e ∈ es, e.render d o = .ok r := by
  intro r hr
  obtain ⟨e, he, hrender⟩ := exists_of_mapM_eq_ok h r hr
  refine ⟨e, he, ?_⟩
  cases hout : e.render d o with
  | error f =>
    rw [hout] at hrender
    cases hrender
  | ok r' =>
    rw [hout] at hrender
    cases hrender
    rfl

/-- Whatever is carried over from one dialect to another is read there,
statement by statement, if nothing about the trees keeps their text from being
read. -/
theorem transpiled_statements_are_read {read write : Builtin} {sql : String} {o : RenderOptions}
    {es : List Expr} {rs : List Rendered} (hread : read.dialect.parse sql = .ok es)
    (hc : ∀ e ∈ es, e.All (Clear write))
    (h : transpile sql read.dialect write.dialect o = .ok rs) :
    ∀ r ∈ rs, ∃ e, write.dialect.parseOne r.sql = .ok e := by
  intro r hr
  rw [transpile, hread] at h
  obtain ⟨e, he, hrender⟩ := mem_transpiled h r hr
  obtain ⟨hs, hp⟩ := parse_proper hread e he
  obtain ⟨e', hparse, -⟩ := parseOne_rendered hs hp (hc e he) hrender
  exact ⟨e', hparse⟩

/-- A query with operators inside each other, a call, and two nodes that SQLite
writes in a way of its own. -/
def mixedQuery : Expr :=
  .select
    { projections := [.binaryOp .plus
        (.least [.column none ⟨"a", false⟩, .column none ⟨"b", false⟩]) (.literal (.int 1))]
      source := some (.table none ⟨"t", false⟩ none)
      filter := some (.binaryOp .and
        (.ilike false (.column none ⟨"s", false⟩) (.function "f" [.column none ⟨"a", false⟩]))
        (.unaryOp .not (.binaryOp .gt (.column none ⟨"b", false⟩)
          (.unaryOp .minus (.literal (.int 2)))))) }

theorem mixedQuery_clear : mixedQuery.All (Clear .sqlite) := by
  have hunknown : Builtin.sqlite.function? "f" = none := by decide
  simp only [mixedQuery, Expr.All, Expr.preorder_eq, Expr.children, Select.exprs,
    List.flatMap_cons, List.flatMap_nil, Option.toList_some, Option.toList_none, List.append_nil,
    List.cons_append, List.nil_append, List.map_nil, List.forall_mem_cons]
  and_intros
  all_goals first
    | decide
    | simp [Clear, Expr.slots, Expr.places, Smooth, Expr.starred, hunknown, Expr.arguments,
        Expr.core, Expr.dashed]

theorem transpiled_statements_are_read_select :
    let sql := "SELECT LEAST(a, b) + 1 FROM t WHERE s ILIKE f(a) AND NOT b > -2"
    let out := "SELECT MIN(a, b) + 1 FROM t WHERE LOWER(s) LIKE f(a) AND NOT b > -2"
    Builtin.generic.dialect.parse sql = .ok [mixedQuery] ∧
      (∀ e ∈ [mixedQuery], e.All (Clear .sqlite)) ∧
      (∃ rs, transpile sql Builtin.generic.dialect Builtin.sqlite.dialect {} = .ok rs ∧
        rs.map Rendered.sql = [out]) ∧
      ∃ e, Builtin.sqlite.dialect.parseOne out = .ok e := by
  intro sql out
  have hread : Builtin.generic.dialect.parse sql = .ok [mixedQuery] := by cbv
  have hclear : ∀ e ∈ [mixedQuery], e.All (Clear .sqlite) :=
    List.forall_mem_singleton.2 mixedQuery_clear
  obtain ⟨r, hwritten, hsql⟩ : ∃ r, transpile sql Builtin.generic.dialect Builtin.sqlite.dialect {} =
      .ok [r] ∧ r.sql = out := by
    refine ⟨⟨out, [.ilike]⟩, ?_, rfl⟩
    rw [transpile, hread]
    cbv
  have hparsed := transpiled_statements_are_read hread hclear hwritten r List.mem_cons_self
  rw [hsql] at hparsed
  exact ⟨hread, hclear, ⟨[r], hwritten, by rw [List.map_singleton, hsql]⟩, hparsed⟩

end SqlDialect
