import SqlDialect.Proofs.Grammar.Complete
import SqlDialect.Proofs.Grammar.Sound

/-!
# SqlDialect.Proofs.Grammar.Statement

Statements and scripts.

* `StatementOf` -- the lexemes that spell a statement.
* `statement_sound`, `StatementOf.gives` -- a statement is read from what
  spells it, and from nothing else.
* `ScriptOf` -- the lexemes that spell a script.
* `script_sound`, `ScriptOf.script` -- a script is read from what spells it, and
  from nothing else.
* `ScriptOf.append` -- two scripts in a row.
-/

namespace SqlDialect.Grammar

/-! ## rules -/

/-- A demand on a column; that it may be `NULL` demands nothing. -/
inductive ConstraintOf (d : Dialect) : Option (ColumnConstraint Expr) → List Lexeme → Prop where
  | primaryKey {t u : Lexeme} {direction : Option SortDirection} {ls : List Lexeme}
      (ht : t.kind = .keyword .PRIMARY) (hu : u.kind = .keyword .KEY)
      (hd : DirectionOf direction ls) : ConstraintOf d (some .primaryKey) (t :: u :: ls)
  | notNull {t u : Lexeme} (ht : t.kind = .keyword .NOT) (hu : u.kind = .keyword .NULL) :
      ConstraintOf d (some .notNull) [t, u]
  | nullable {t : Lexeme} (ht : t.kind = .keyword .NULL) : ConstraintOf d none [t]
  | unique {t : Lexeme} (ht : t.kind = .keyword .UNIQUE) : ConstraintOf d (some .unique) [t]
  | autoIncrement {t : Lexeme} (ht : t.kind = .keyword .AUTO_INCREMENT) :
      ConstraintOf d (some .autoIncrement) [t]
  | default {t : Lexeme} {e : Expr} {ls : List Lexeme} (ht : t.kind = .keyword .DEFAULT)
      (he : Derives d (.expr 1 e) ls) : ConstraintOf d (some (.default e)) (t :: ls)

/-- The demands on a column. -/
inductive ConstraintsOf (d : Dialect) : List (ColumnConstraint Expr) → List Lexeme → Prop where
  | nil : ConstraintsOf d [] []
  | cons {k : Option (ColumnConstraint Expr)} {ks : List (ColumnConstraint Expr)}
      {ls₁ ls₂ : List Lexeme} (hk : ConstraintOf d k ls₁) (hs : ConstraintsOf d ks ls₂) :
      ConstraintsOf d (k.toList ++ ks) (ls₁ ++ ls₂)

/-- The type of a column, if there is one. -/
inductive ColumnTypeOf : Option DataType → List Lexeme → Prop where
  | none : ColumnTypeOf none []
  | some {type : DataType} {ls : List Lexeme} (h : TypeOf type ls) : ColumnTypeOf (some type) ls

/-- A column of a new table. -/
inductive ColumnOf (d : Dialect) : ColumnDef Expr → List Lexeme → Prop where
  | mk {t : Lexeme} {i : Ident} {type : Option DataType} {ks : List (ColumnConstraint Expr)}
      {ls₁ ls₂ : List Lexeme} (ht : identOf? t = some i) (hT : ColumnTypeOf type ls₁)
      (hk : ConstraintsOf d ks ls₂) : ColumnOf d ⟨i, type, ks⟩ (t :: ls₁ ++ ls₂)

/-- The columns of a new table, with commas between them. -/
inductive ColumnsOf (d : Dialect) : List (ColumnDef Expr) → List Lexeme → Prop where
  | one {c : ColumnDef Expr} {ls : List Lexeme} (hc : ColumnOf d c ls) : ColumnsOf d [c] ls
  | more {t : Lexeme} {c : ColumnDef Expr} {cs : List (ColumnDef Expr)} {ls₁ ls₂ : List Lexeme}
      (hc : ColumnOf d c ls₁) (ht : t.kind = .comma) (hs : ColumnsOf d cs ls₂) :
      ColumnsOf d (c :: cs) (ls₁ ++ t :: ls₂)

/-- The words that make a definition conditional, if they are there. -/
inductive ConditionOf : Bool → List Lexeme → Prop where
  | absent : ConditionOf false []
  | present {t u v : Lexeme} (ht : t.kind = .keyword .IF) (hu : u.kind = .keyword .NOT)
      (hv : v.kind = .keyword .EXISTS) : ConditionOf true [t, u, v]

/-- The words behind `BEGIN`, as they are kept. -/
def modifierOf (ws : List Lexeme) : Option String :=
  if ws.isEmpty then none else some (" ".intercalate (ws.map Lexeme.text))

/-- The lexemes that spell a statement. -/
inductive StatementOf (d : Dialect) : Expr → List Lexeme → Prop where
  | select {t : Lexeme} {q : Select Expr} {ls : List Lexeme} (ht : t.kind = .keyword .SELECT)
      (hq : Derives d (.query q) ls) : StatementOf d (.select q) (t :: ls)
  | transaction {t : Lexeme} {b : Bool} {ws ls : List Lexeme} (ht : t.kind = .keyword .BEGIN)
      (hw : ∀ w ∈ ws, w.kind = .word) (hb : Flag .TRANSACTION b ls) :
      StatementOf d (.transaction (modifierOf ws)) (t :: ws ++ ls)
  | commit {t : Lexeme} {b : Bool} {ls : List Lexeme} (ht : t.kind = .keyword .COMMIT)
      (hb : Flag .TRANSACTION b ls) : StatementOf d .commit (t :: ls)
  | rollback {t : Lexeme} {b : Bool} {ls : List Lexeme} (ht : t.kind = .keyword .ROLLBACK)
      (hb : Flag .TRANSACTION b ls) : StatementOf d .rollback (t :: ls)
  | createTable {t u v w : Lexeme} {conditional : Bool} {schema : Option Ident} {name : Ident}
      {cs : List (ColumnDef Expr)} {ls₁ ls₂ ls₃ : List Lexeme} (ht : t.kind = .keyword .CREATE)
      (hu : u.kind = .keyword .TABLE) (hc : ConditionOf conditional ls₁)
      (hn : NameOf schema name ls₂) (hv : v.kind = .lparen) (hs : ColumnsOf d cs ls₃)
      (hw : w.kind = .rparen) :
      StatementOf d (.createTable ⟨.table schema name none, conditional, cs⟩)
        (t :: u :: ls₁ ++ ls₂ ++ v :: ls₃ ++ [w])

/-! ## soundness -/

variable {d : Dialect}

theorem constraint?_sound (t : Lexeme) (ts : List Lexeme) :
    ∀ x, constraint? d t ts = some x →
      Sound ts x fun k ls => ConstraintOf d k (t :: ls) := by
  intro x hx
  unfold constraint? at hx
  split at hx
  case h_1 ht =>
    cases hx
    refine (expectKeyword_sound .KEY ts).bind fun _ ls ts₁ h₁ _ hu => ?_
    obtain ⟨u, rfl, hu⟩ := hu
    dsimp only
    have hskip : ∃ direction ls, ts₁ = ls ++ (skipDirection ts₁).rest ∧
        DirectionOf direction ls := by
      unfold skipDirection
      obtain ⟨b, ls, rest, h₂, hts, hf, heq⟩ := acceptKeyword_eq .ASC ts₁
      simp only [heq]
      cases hf with
      | present hv => exact ⟨_, _, hts, .asc hv⟩
      | absent =>
        obtain ⟨ls, hrest, hf⟩ := acceptKeyword_flag .DESC rest
        have hdesc : ∃ direction, DirectionOf direction ls := by
          generalize (acceptKeyword .DESC rest).value = b at hf
          cases hf with
          | present hv => exact ⟨_, .desc hv⟩
          | absent => exact ⟨_, .none⟩
        obtain ⟨direction, hdesc⟩ := hdesc
        exact ⟨direction, ls, hts.trans hrest, hdesc⟩
    obtain ⟨direction, ls, hts, hdirection⟩ := hskip
    exact .took hts (.primaryKey ht hu hdirection)
  case h_2 ht =>
    cases hx
    refine (expectKeyword_sound .NULL ts).bind fun _ ls ts₁ h₁ _ hu => ?_
    obtain ⟨u, rfl, hu⟩ := hu
    exact .pure (.notNull ht hu)
  case h_3 ht => cases hx; exact .pure (.nullable ht)
  case h_4 ht => cases hx; exact .pure (.unique ht)
  case h_5 ht => cases hx; exact .pure (.autoIncrement ht)
  case h_6 ht =>
    cases hx
    refine (expression_sound d .tight ts).bind fun e ls rest h₁ _ he => ?_
    exact .pure (a := some (ColumnConstraint.default e)) (by simpa using .default ht he)
  case h_7 => cases hx

theorem constraints_sound (ts : List Lexeme) :
    Sound ts (constraints d ts) fun ks ls => ConstraintsOf d ks ls := by
  cases ts with
  | nil => rw [constraints]; exact .pure .nil
  | cons t ts =>
    rw [constraints]
    split
    · exact .pure .nil
    case h_2 x hx =>
      refine .cons ((constraint?_sound t ts x hx).bind fun k ls rest h₁ _ hk => ?_)
      have hlt : rest.length < (t :: ts).length := h₁
      refine (constraints_sound rest).bind fun ks ls₂ rest₂ h₂ _ hs => ?_
      exact .pure (a := k.toList ++ ks) (by simpa using .cons hk hs)
termination_by ts.length

theorem columnDef_sound (ts : List Lexeme) :
    Sound ts (columnDef d ts) fun c ls => ColumnOf d c ls := by
  have htype (ts : List Lexeme) : Sound ts (columnType? ts) ColumnTypeOf := by
    unfold columnType?
    split
    · refine (dataType_sound ts).bind fun type ls rest h₁ _ hT => ?_
      exact .pure (a := some type) (by simpa using .some hT)
    · exact .pure .none
  unfold columnDef
  refine (ident_sound _ ts).bind fun i ls ts₁ h₁ _ hi => ?_
  obtain ⟨t, rfl, ht⟩ := hi
  refine (htype ts₁).bind fun type ls₁ ts₂ h₂ _ hT => ?_
  refine (constraints_sound ts₂).bind fun ks ls₂ ts₃ h₃ _ hk => ?_
  exact .pure (by simpa using ColumnOf.mk ht hT hk)

theorem createTable_sound (ts : List Lexeme) :
    Sound ts (createTable d ts) fun e ls =>
      ∀ t, t.kind = .keyword .CREATE → StatementOf d e (t :: ls) := by
  have hcondition (ts : List Lexeme) : Sound ts (ifNotExists ts) ConditionOf := by
    unfold ifNotExists
    obtain ⟨b, ls, rest, h₁, hts, hf, heq⟩ := acceptKeyword_eq .IF ts
    simp only [heq]
    refine .append hts ?_
    cases hf with
    | absent => exact .pure .absent
    | present ht =>
      refine (expectKeyword_sound .NOT rest).bind fun _ ls ts₁ h₂ _ hu => ?_
      obtain ⟨u, rfl, hu⟩ := hu
      refine (expectKeyword_sound .EXISTS ts₁).bind fun _ ls ts₂ h₃ _ hv => ?_
      obtain ⟨v, rfl, hv⟩ := hv
      exact .pure (.present ht hu hv)
  unfold createTable
  refine (expectKeyword_sound .TABLE ts).bind fun _ ls ts₁ h₁ _ hu => ?_
  obtain ⟨u, rfl, hu⟩ := hu
  refine (hcondition ts₁).bind fun conditional ls₁ ts₂ h₂ _ hc => ?_
  refine (tableName_sound ts₂).bind fun p ls₂ ts₃ h₃ _ hn => ?_
  refine (expect_sound _ _ ts₃).bind fun _ ls ts₄ h₄ _ hv => ?_
  obtain ⟨v, rfl, hv⟩ := hv
  have hcolumns (h : ts₄.length < ts₄.length + 1) := commaList_sound (L := ColumnsOf d)
    (fun ts _ => columnDef_sound ts) (fun _ _ hc => .one hc)
    (fun _ _ _ _ _ hc ht hs => .more hc ht hs) ts₄ h
  refine (hcolumns _).bind fun cs ls₃ ts₅ h₅ _ hs => ?_
  refine (expect_sound _ _ ts₅).bind fun _ ls ts₆ h₆ _ hw => ?_
  obtain ⟨w, rfl, hw⟩ := hw
  exact .pure fun t ht => by simpa using StatementOf.createTable ht hu hc hn hv hs hw

/-- Whatever statement is read is spelled by the lexemes it takes. -/
theorem statement_sound (ts : List Lexeme) :
    Sound ts (statement d ts) fun e ls => StatementOf d e ls := by
  cases ts with
  | nil => exact .error
  | cons t ts =>
    unfold statement
    dsimp only
    split
    case h_1 ht =>
      refine .cons ((query_sound (within_sound d _) ts _).bind fun q ls rest h₁ _ hq => ?_)
      exact .pure (a := Expr.select q) (by simpa using StatementOf.select ht hq)
    case h_2 ht =>
      obtain ⟨ws, hts, hv, hw⟩ := words_sound ts
      obtain ⟨ls, hrest, hf⟩ := acceptKeyword_flag .TRANSACTION (words ts).rest
      have hall : t :: ts = (t :: ws ++ ls) ++ (beginning ts).rest := by
        rw [List.append_assoc, List.cons_append]
        exact congrArg (t :: ·) (hts.trans (congrArg (ws ++ ·) hrest))
      have hvalue : (beginning ts).value = .transaction (modifierOf ws) := by
        simp only [beginning, modifierOf, hv, List.isEmpty_map]
      have hstatement := StatementOf.transaction (d := d) ht hw hf
      rw [← hvalue] at hstatement
      exact .took hall hstatement
    case h_3 ht =>
      obtain ⟨ls, hts, hf⟩ := acceptKeyword_flag .TRANSACTION ts
      exact .took (congrArg (t :: ·) hts) (.commit ht hf)
    case h_4 ht =>
      obtain ⟨ls, hts, hf⟩ := acceptKeyword_flag .TRANSACTION ts
      exact .took (congrArg (t :: ·) hts) (.rollback ht hf)
    case h_5 ht =>
      refine .cons ((createTable_sound ts).bind fun e ls rest h₁ _ he => ?_)
      exact .pure (a := e) (by simpa using he t ht)
    case h_6 => exact .error

/-! ## completeness -/

/-- A column definition ends: a comma or the closing parenthesis comes
next. -/
def ColumnEnds (rest : List Lexeme) : Prop :=
  ∀ t ∈ rest.head?, t.kind = .comma ∨ t.kind = .rparen

/-- What may come behind a demand on a column: another one, or the end of the
definition. -/
def DemandEnds (rest : List Lexeme) : Prop :=
  Stops 4 rest ∧ Avoids [.keyword .ASC, .keyword .DESC, .word, .lparen] rest

theorem DemandEnds.cons {t : Lexeme} {ts : List Lexeme} (hj : 4 < joins t.kind)
    (hk : t.kind ∉ [.keyword .ASC, .keyword .DESC, .word, .lparen]) : DemandEnds (t :: ts) := by
  refine ⟨.cons hj, fun u hu => ?_⟩
  cases hu
  exact hk

theorem ColumnEnds.demandEnds {rest : List Lexeme} (h : ColumnEnds rest) : DemandEnds rest := by
  cases rest with
  | nil => exact ⟨.nil, fun _ ht => nomatch ht⟩
  | cons t ts =>
    rcases h t rfl with ht | ht <;> exact .cons (by rw [ht]; decide) (by rw [ht]; decide)

/-- A demand is there to be read, whatever may follow one. -/
theorem ConstraintOf.gives {k : Option (ColumnConstraint Expr)} {ls : List Lexeme}
    (h : ConstraintOf d k ls) : ∃ t us, ls = t :: us ∧ (∀ ts, DemandEnds (t :: ts)) ∧
      ∀ rest, DemandEnds rest → ∃ x, constraint? d t (us ++ rest) = some x ∧ Gives x k rest := by
  cases h with
  | @primaryKey t u direction ls ht hu hd =>
    refine ⟨t, u :: ls, rfl, fun _ => .cons (by rw [ht]; decide) (by rw [ht]; decide),
      fun rest hr => ?_⟩
    have hasc : Lacks (.keyword .ASC) rest := hr.2.lacks (by simp)
    have hdesc : Lacks (.keyword .DESC) rest := hr.2.lacks (by simp)
    have hskip : ∃ h, skipDirection (ls ++ rest) = ⟨(), rest, h⟩ := by
      unfold skipDirection acceptKeyword
      cases hd with
      | none =>
        obtain ⟨h₁, heq⟩ := accept_of_lacks hasc
        obtain ⟨h₂, heq₂⟩ := accept_of_lacks hdesc
        refine ⟨h₂, ?_⟩
        simp only [List.nil_append, heq, heq₂]
        rfl
      | asc hv =>
        obtain ⟨h₁, heq⟩ := accept_cons hv rest
        refine ⟨h₁, ?_⟩
        simp only [List.cons_append, List.nil_append, heq]
      | @desc v hv =>
        obtain ⟨h₁, heq⟩ := accept_of_ne (k := .keyword .ASC) (by rw [hv]; decide) rest
        obtain ⟨h₂, heq₂⟩ := accept_cons hv rest
        refine ⟨h₂, ?_⟩
        simp only [List.cons_append, List.nil_append, heq, heq₂]
        rfl
    obtain ⟨h₁, hskip⟩ := hskip
    refine ⟨_, by simp only [constraint?, ht]; rfl, ?_⟩
    refine (expectKeyword_gives hu (ls ++ rest)).bind fun h₂ => ?_
    simp only [hskip]
    exact .pure
  | @notNull t u ht hu =>
    refine ⟨t, [u], rfl, fun _ => .cons (by rw [ht]; decide) (by rw [ht]; decide),
      fun rest _ => ⟨_, by simp only [constraint?, ht]; rfl, ?_⟩⟩
    exact (expectKeyword_gives hu rest).bind fun h₁ => .pure
  | @nullable t ht =>
    exact ⟨t, [], rfl, fun _ => .cons (by rw [ht]; decide) (by rw [ht]; decide),
      fun rest _ => ⟨_, by simp only [constraint?, ht]; rfl, .pure⟩⟩
  | @unique t ht =>
    exact ⟨t, [], rfl, fun _ => .cons (by rw [ht]; decide) (by rw [ht]; decide),
      fun rest _ => ⟨_, by simp only [constraint?, ht]; rfl, .pure⟩⟩
  | @autoIncrement t ht =>
    exact ⟨t, [], rfl, fun _ => .cons (by rw [ht]; decide) (by rw [ht]; decide),
      fun rest _ => ⟨_, by simp only [constraint?, ht]; rfl, .pure⟩⟩
  | @default t e ls ht he =>
    refine ⟨t, ls, rfl, fun _ => .cons (by rw [ht]; decide) (by rw [ht]; decide),
      fun rest hr => ⟨_, by simp only [constraint?, ht]; rfl, ?_⟩⟩
    have he : Gives (expression d .tight (ls ++ rest)) e rest :=
      Reads.tight he.reads (hr.1.mono (by decide)) (Nat.lt_succ_self _)
    exact he.bind fun h₁ => .pure

theorem constraint?_of_columnEnds {t : Lexeme} {ts : List Lexeme} (h : ColumnEnds (t :: ts)) :
    constraint? d t ts = none := by
  unfold constraint?
  rcases h t rfl with ht | ht <;> simp only [ht]

theorem ConstraintsOf.gives {ks : List (ColumnConstraint Expr)} {ls rest : List Lexeme}
    (h : ConstraintsOf d ks ls) (hr : ColumnEnds rest) :
    DemandEnds (ls ++ rest) ∧ Gives (constraints d (ls ++ rest)) ks rest := by
  induction h with
  | nil =>
    refine ⟨hr.demandEnds, ?_⟩
    cases rest with
    | nil =>
      rw [List.nil_append, constraints]
      exact .pure
    | cons t ts =>
      rw [List.nil_append, constraints]
      simp only [constraint?_of_columnEnds hr]
      exact .pure
  | @cons k ks ls₁ ls₂ hk _ ih =>
    obtain ⟨t, us, rfl, hends, hgives⟩ := hk.gives
    obtain ⟨x, hx, hgives⟩ := hgives (ls₂ ++ rest) ih.1
    rw [List.append_assoc, List.cons_append]
    refine ⟨hends _, ?_⟩
    rw [constraints]
    simp only [hx]
    refine hgives.bind fun h₁ => ?_
    exact ih.2.bind fun h₂ => .pure

theorem ColumnOf.gives {c : ColumnDef Expr} {ls rest : List Lexeme} (h : ColumnOf d c ls)
    (hr : ColumnEnds rest) : Gives (columnDef d (ls ++ rest)) c rest := by
  obtain ⟨ht, hT, hk⟩ := h
  rename_i t i type ks ls₁ ls₂
  obtain ⟨hends, hk⟩ := hk.gives hr
  rw [List.append_assoc, List.cons_append]
  have htype : Gives (columnType? (ls₁ ++ (ls₂ ++ rest))) type (ls₂ ++ rest) := by
    unfold columnType?
    cases hT with
    | none =>
      have hcomes := comes_of_lacks (hends.2.lacks (k := .word) (by simp))
      simp only [List.nil_append, hcomes]
      exact .pure
    | some hT =>
      have hgives := hT.gives (hends.2.lacks (by simp)) (hends.2.lacks (by simp))
      have hcomes : comes .word (ls₁ ++ (ls₂ ++ rest)) = true := by
        cases hT with
        | plain hw _ => simp [comes, hw]
        | withParams hw _ _ _ _ => simp [comes, hw]
      simp only [hcomes]
      exact hgives.bind fun h₁ => .pure
  unfold columnDef
  refine (ident_gives _ ht _).bind fun h₁ => ?_
  refine htype.bind fun h₂ => ?_
  exact hk.bind fun h₃ => .pure

theorem ColumnsOf.gives {cs : List (ColumnDef Expr)} {ls : List Lexeme} (h : ColumnsOf d cs ls) :
    ∃ c cs', cs = c :: cs' ∧ ∀ {n} {t : Lexeme} (rest : List Lexeme) h, t.kind = .rparen →
      Gives (commaList (n := n) (fun ts _ => columnDef d ts) (ls ++ t :: rest) h) (c, cs')
        (t :: rest) := by
  induction h with
  | @one c ls hc =>
    refine ⟨c, [], rfl, fun {n t} rest h ht => ?_⟩
    have hends : ColumnEnds (t :: rest) := by
      intro u hu
      cases hu
      exact .inr ht
    exact commaList_one (hc.gives hends) (.cons (by rw [ht]; decide))
  | @more u c cs ls₁ ls₂ hc hu _ ih =>
    obtain ⟨c', cs', rfl, ih⟩ := ih
    refine ⟨c, c' :: cs', rfl, fun {n t} rest h ht => ?_⟩
    revert h
    rw [List.append_assoc, List.cons_append]
    intro h
    have hends : ColumnEnds (u :: (ls₂ ++ t :: rest)) := by
      intro v hv
      cases hv
      exact .inl hu
    exact commaList_more (hc.gives hends) hu fun h => ih rest h ht

/-- A statement ends: a semicolon or nothing at all comes next. -/
def StatementEnds (rest : List Lexeme) : Prop := ∀ t ∈ rest.head?, t.kind = .semicolon

theorem StatementEnds.queryEnds {rest : List Lexeme} (h : StatementEnds rest) : QueryEnds rest :=
  fun t ht => .inr (h t ht)

theorem StatementEnds.lacks {rest : List Lexeme} (h : StatementEnds rest) {kind : LexemeKind}
    (hk : kind ≠ .semicolon) : Lacks kind rest :=
  fun t ht heq => hk (heq.symm.trans (h t ht))

theorem ConditionOf.gives {b : Bool} {ls rest : List Lexeme} (h : ConditionOf b ls)
    (hr : Lacks (.keyword .IF) rest) : Gives (ifNotExists (ls ++ rest)) b rest := by
  unfold ifNotExists acceptKeyword
  cases h with
  | absent =>
    obtain ⟨h₁, heq⟩ := accept_of_lacks hr
    simp only [List.nil_append, heq]
    exact .pure
  | @present t u v ht hu hv =>
    obtain ⟨h₁, heq⟩ := accept_cons ht (u :: v :: rest)
    simp only [List.cons_append, List.nil_append, heq]
    refine (expectKeyword_gives hu _).bind fun h₂ => ?_
    exact (expectKeyword_gives hv rest).bind fun h₃ => .pure

theorem NameOf.lacks {schema : Option Ident} {name : Ident} {ls : List Lexeme}
    (h : NameOf schema name ls) {kind : LexemeKind} (hk : starts kind ≠ 0) (rest : List Lexeme) :
    Lacks kind (ls ++ rest) := by
  cases h with
  | plain ht => exact .cons fun heq => hk (heq ▸ starts_of_identOf? ht)
  | qualified ht _ _ => exact .cons fun heq => hk (heq ▸ starts_of_identOf? ht)

theorem createTable_gives {u v w : Lexeme} {conditional : Bool} {schema : Option Ident}
    {name : Ident} {cs : List (ColumnDef Expr)} {ls₁ ls₂ ls₃ : List Lexeme}
    (hu : u.kind = .keyword .TABLE) (hc : ConditionOf conditional ls₁)
    (hn : NameOf schema name ls₂) (hv : v.kind = .lparen) (hs : ColumnsOf d cs ls₃)
    (hw : w.kind = .rparen) (rest : List Lexeme) :
    Gives (createTable d (u :: (ls₁ ++ (ls₂ ++ v :: (ls₃ ++ w :: rest)))))
      (.createTable ⟨.table schema name none, conditional, cs⟩) rest := by
  obtain ⟨c, cs', rfl, hgives⟩ := hs.gives
  unfold createTable
  refine (expectKeyword_gives hu _).bind fun h₁ => ?_
  refine (hc.gives (hn.lacks (by decide) _)).bind fun h₂ => ?_
  refine (hn.gives (.cons (by rw [hv]; decide))).bind fun h₃ => ?_
  refine (expect_gives _ hv _).bind fun h₄ => ?_
  refine (hgives rest _ hw).bind fun h₅ => ?_
  exact (expect_gives _ hw rest).bind fun h₆ => .pure

theorem ending_gives {b : Bool} {ls rest : List Lexeme} (e : Expr) (hb : Flag .TRANSACTION b ls)
    (hr : StatementEnds rest) : ∃ h, ending e (ls ++ rest) = ⟨e, rest, h⟩ := by
  obtain ⟨h, heq⟩ := hb.accept rest fun _ => hr.lacks (by decide)
  exact ⟨h, by unfold ending; rw [heq]; rfl⟩

/-- Whatever the lexemes of a statement spell is read from them. -/
theorem StatementOf.gives {e : Expr} {ls rest : List Lexeme} (h : StatementOf d e ls)
    (hr : StatementEnds rest) : Gives (statement d (ls ++ rest)) e rest := by
  cases h with
  | @select t q ls ht hq =>
    show Gives (statement d (t :: (ls ++ rest))) _ rest
    simp only [statement, ht]
    exact (hq.reads rest _ hr.queryEnds).bind fun h₁ => .pure
  | @transaction t b ws ls ht hw hb =>
    have hlacks : Lacks .word (ls ++ rest) := by
      cases hb with
      | absent => exact hr.lacks (by decide)
      | present hu => exact .cons (by rw [hu]; decide)
    obtain ⟨h₁, hwords⟩ := words_gives hw hlacks
    obtain ⟨h₂, hlast⟩ := hb.accept rest fun _ => hr.lacks (by decide)
    rw [List.append_assoc, List.cons_append]
    simp only [statement, ht]
    have hrest : (beginning (ws ++ (ls ++ rest))).rest = rest := by
      show (acceptKeyword .TRANSACTION (words (ws ++ (ls ++ rest))).rest).rest = rest
      rw [hwords]
      show (acceptKeyword .TRANSACTION (ls ++ rest)).rest = rest
      rw [hlast]
    have hvalue : (beginning (ws ++ (ls ++ rest))).value = .transaction (modifierOf ws) := by
      simp only [beginning, hwords, modifierOf, List.isEmpty_map]
    exact Gives.of_front (beginning (ws ++ (ls ++ rest))) hvalue hrest
  | @commit t b ls ht hb =>
    obtain ⟨h₁, heq⟩ := ending_gives .commit hb hr
    show Gives (statement d (t :: (ls ++ rest))) _ rest
    simp only [statement, ht, heq]
    exact .pure
  | @rollback t b ls ht hb =>
    obtain ⟨h₁, heq⟩ := ending_gives .rollback hb hr
    show Gives (statement d (t :: (ls ++ rest))) _ rest
    simp only [statement, ht, heq]
    exact .pure
  | @createTable t u v w conditional schema name cs ls₁ ls₂ ls₃ ht hu hc hn hv hs hw =>
    have hls : t :: u :: ls₁ ++ ls₂ ++ v :: ls₃ ++ [w] ++ rest =
        t :: (u :: (ls₁ ++ (ls₂ ++ v :: (ls₃ ++ w :: rest)))) := by simp
    rw [hls]
    simp only [statement, ht]
    exact (createTable_gives hu hc hn hv hs hw rest).bind fun h₁ => .pure

/-! ## scripts -/

/-- The lexemes that spell a script: statements with semicolons between them,
and semicolons anywhere else. -/
inductive ScriptOf (d : Dialect) : List Expr → List Lexeme → Prop where
  | nil : ScriptOf d [] []
  | skip {t : Lexeme} {es : List Expr} {ls : List Lexeme} (ht : t.kind = .semicolon)
      (hs : ScriptOf d es ls) : ScriptOf d es (t :: ls)
  | last {e : Expr} {ls : List Lexeme} (he : StatementOf d e ls) : ScriptOf d [e] ls
  | next {t : Lexeme} {e : Expr} {es : List Expr} {ls₁ ls₂ : List Lexeme}
      (he : StatementOf d e ls₁) (ht : t.kind = .semicolon) (hs : ScriptOf d es ls₂) :
      ScriptOf d (e :: es) (ls₁ ++ t :: ls₂)

/-- Whatever script is read is spelled by the lexemes. -/
theorem script_sound (ts : List Lexeme) (es : List Expr) (h : script d ts = .ok es) :
    ScriptOf d es ts := by
  cases ts with
  | nil =>
    rw [script] at h
    cases h
    exact .nil
  | cons t ts =>
    rw [script] at h
    split at h
    case isTrue ht => exact .skip ht (script_sound ts es h)
    case isFalse =>
      cases hst : statement d (t :: ts) with
      | error => rw [hst] at h; cases h
      | ok r =>
        obtain ⟨ls₁, hts, hs₁⟩ := statement_sound (t :: ts) r hst
        obtain ⟨first, rest, hlt⟩ := r
        have hts : t :: ts = ls₁ ++ rest := hts
        rw [hst] at h
        cases rest with
        | nil =>
          cases h
          rw [hts, List.append_nil]
          exact .last hs₁
        | cons u rest =>
          simp only [bind, Except.bind] at h
          split at h
          case isTrue hu =>
            have hlt' : rest.length < (t :: ts).length := Nat.lt_of_succ_lt hlt
            cases hrest : script d rest with
            | error => rw [hrest] at h; cases h
            | ok others =>
              rw [hrest] at h
              cases h
              rw [hts]
              exact .next hs₁ hu (script_sound rest others hrest)
          case isFalse => cases h
termination_by ts.length

/-- A statement starts with a keyword. -/
theorem StatementOf.first {e : Expr} {ls : List Lexeme} (h : StatementOf d e ls) :
    ∃ t us, ls = t :: us ∧ t.kind ≠ .semicolon := by
  cases h with
  | select ht => exact ⟨_, _, rfl, by rw [ht]; decide⟩
  | transaction ht => exact ⟨_, _, rfl, by rw [ht]; decide⟩
  | commit ht => exact ⟨_, _, rfl, by rw [ht]; decide⟩
  | rollback ht => exact ⟨_, _, rfl, by rw [ht]; decide⟩
  | createTable ht => exact ⟨_, _, rfl, by rw [ht]; decide⟩

/-- Whatever script lexemes spell is read from them. -/
theorem ScriptOf.script {es : List Expr} {ls : List Lexeme} (h : ScriptOf d es ls) :
    Grammar.script d ls = .ok es := by
  induction h with
  | nil => rw [Grammar.script]
  | skip ht _ ih => rw [Grammar.script, if_pos ht, ih]
  | @last e ls he =>
    obtain ⟨t, us, rfl, hne⟩ := he.first
    have hends : StatementEnds [] := by
      intro v hv
      cases hv
    have hst : Gives (statement d (t :: us ++ [])) e [] := he.gives hends
    rw [List.append_nil] at hst
    obtain ⟨h₁, hst⟩ := hst
    rw [Grammar.script, if_neg hne, hst]
    rfl
  | @next u e es ls₁ ls₂ he hu _ ih =>
    obtain ⟨t, us, rfl, hne⟩ := he.first
    have hends : StatementEnds (u :: ls₂) := by
      intro v hv
      cases hv
      exact hu
    have hst : Gives (statement d (t :: (us ++ u :: ls₂))) e (u :: ls₂) := he.gives hends
    obtain ⟨h₁, hst⟩ := hst
    rw [List.cons_append, Grammar.script, if_neg hne, hst]
    simp only [bind, Except.bind, if_pos hu, ih]
    rfl

/-- Every statement of a script is spelled by a stretch of its lexemes. -/
theorem ScriptOf.stretch {es : List Expr} {ls : List Lexeme} (h : ScriptOf d es ls) :
    ∀ e ∈ es, ∃ pre us post, ls = pre ++ us ++ post ∧ StatementOf d e us := by
  induction h with
  | nil => exact fun _ he => nomatch he
  | @skip t es ls _ _ ih =>
    intro e he
    obtain ⟨pre, us, post, rfl, hs⟩ := ih e he
    exact ⟨t :: pre, us, post, rfl, hs⟩
  | @last e ls he =>
    rw [List.forall_mem_singleton]
    exact ⟨[], ls, [], by simp, he⟩
  | @next t e es ls₁ ls₂ he _ _ ih =>
    rw [List.forall_mem_cons]
    refine ⟨⟨[], ls₁, t :: ls₂, by simp, he⟩, fun e' he' => ?_⟩
    obtain ⟨pre, us, post, rfl, hs⟩ := ih e' he'
    exact ⟨ls₁ ++ t :: pre, us, post, by simp, hs⟩

/-- Scripts with a semicolon between them are a script. -/
theorem ScriptOf.append {es fs : List Expr} {t : Lexeme} {ls ms : List Lexeme}
    (h : ScriptOf d es ls) (ht : t.kind = .semicolon) (hs : ScriptOf d fs ms) :
    ScriptOf d (es ++ fs) (ls ++ t :: ms) := by
  induction h with
  | nil => exact .skip ht hs
  | skip hu _ ih => exact .skip hu ih
  | last he => exact .next he ht hs
  | @next u e es ls₁ ls₂ he hu _ ih =>
    rw [List.append_assoc, List.cons_append]
    exact .next he hu ih

end SqlDialect.Grammar
