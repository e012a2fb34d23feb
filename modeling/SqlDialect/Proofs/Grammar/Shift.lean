import SqlDialect.Proofs.Grammar.Statement
import SqlDialect.Proofs.Lexeme.Offset

/-!
# SqlDialect.Proofs.Grammar.Shift

What lexemes spell does not hang on where they stand: every rule looks at
their kinds and texts only.

* `Derives.shift` -- lexemes that stand further on spell the same phrases.
* `StatementOf.shift`, `ScriptOf.shift` -- the same statements and scripts.
-/

namespace SqlDialect.Grammar

variable {d : Dialect} {n : Nat} {ls : List Lexeme}

/-! ## parts without expressions -/

theorem literalOf?_shift (t : Lexeme) : literalOf? (t.shift n) = literalOf? t := by
  have hnumber : (numberOf (t.shift n)).toOption = (numberOf t).toOption := by
    unfold numberOf
    dsimp only [Lexeme.shift]
    split
    · rfl
    · split <;> rfl
  unfold literalOf?
  rw [hnumber]
  rfl

theorem typeName_shift (ws : List Lexeme) : typeName (ws.map (Lexeme.shift n)) = typeName ws := by
  rw [typeName, typeName, List.map_map]
  rfl

theorem head?_shift {P : Lexeme → Prop} (hP : ∀ t, P t → P (t.shift n))
    (h : ∀ t ∈ ls.head?, P t) : ∀ t ∈ (ls.map (Lexeme.shift n)).head?, P t := by
  cases ls with
  | nil => exact h
  | cons u us =>
    intro t ht
    cases ht
    exact hP u (h u rfl)

theorem words_shift {ws : List Lexeme} (hw : ∀ w ∈ ws, w.kind = .word) :
    ∀ w ∈ ws.map (Lexeme.shift n), w.kind = .word := by
  rw [List.forall_mem_map]
  exact hw

theorem Flag.shift {k : Keyword} {b : Bool} (h : Flag k b ls) :
    Flag k b (ls.map (Lexeme.shift n)) := by
  cases h with
  | absent => exact .absent
  | present ht => exact .present ht

theorem DirectionOf.shift {o : Option SortDirection} (h : DirectionOf o ls) :
    DirectionOf o (ls.map (Lexeme.shift n)) := by
  cases h with
  | none => exact .none
  | asc ht => exact .asc ht
  | desc ht => exact .desc ht

theorem AliasOf.shift {o : Option Ident} (h : AliasOf o ls) :
    AliasOf o (ls.map (Lexeme.shift n)) := by
  cases h with
  | none => exact .none
  | named ht hu => exact .named ht hu
  | bare hb ht => exact .bare hb ht

theorem NameOf.shift {schema : Option Ident} {name : Ident} (h : NameOf schema name ls) :
    NameOf schema name (ls.map (Lexeme.shift n)) := by
  cases h with
  | plain ht => exact .plain ht
  | qualified ht hu hv => exact .qualified ht hu hv

theorem ParamsOf.shift {texts : List String} (h : ParamsOf texts ls) :
    ParamsOf texts (ls.map (Lexeme.shift n)) := by
  induction h with
  | one ht => exact @ParamsOf.one (Lexeme.shift n _) ht
  | more ht hu _ ih => exact @ParamsOf.more (Lexeme.shift n _) (Lexeme.shift n _) _ _ ht hu ih

theorem TypeOf.shift {type : DataType} (h : TypeOf type ls) :
    TypeOf type (ls.map (Lexeme.shift n)) := by
  cases h with
  | @plain t ws hw h =>
    rw [← typeName_shift (n := n)] at h
    exact .plain (words_shift hw) h
  | @withParams t u v ws ps texts hw hu hp hv h =>
    rw [← typeName_shift (n := n)] at h
    rw [List.map_append, List.map_append]
    exact .withParams (words_shift hw) hu hp.shift hv h

theorem MethodOf.shift {o : Option String} (h : MethodOf o ls) :
    MethodOf o (ls.map (Lexeme.shift n)) := by
  cases h with
  | none => exact .none
  | @named t ht => exact @MethodOf.named (t.shift n) ht

theorem UnitOf.shift {u : SampleUnit} (h : UnitOf u ls) : UnitOf u (ls.map (Lexeme.shift n)) := by
  cases h with
  | rows ht => exact .rows ht
  | percent ht => exact .percent ht
  | unsaid => exact .unsaid

theorem RowsWord.shift (h : RowsWord ls) : RowsWord (ls.map (Lexeme.shift n)) := by
  cases h with
  | rows ht => exact .rows ht
  | row ht => exact .row ht

theorem FetchWord.shift {o : FetchDirection} {t : Lexeme} (h : FetchWord o t) :
    FetchWord o (t.shift n) := by
  cases h with
  | first ht => exact .first ht
  | next ht => exact .next ht

theorem FetchEnd.shift {b : Bool} (h : FetchEnd b ls) : FetchEnd b (ls.map (Lexeme.shift n)) := by
  cases h with
  | only ht => exact .only ht
  | ties ht hu => exact .ties ht hu

/-! ## phrases -/

/-- Lexemes that stand further on spell the same phrases. -/
theorem Derives.shift {p : Phrase} (h : Derives d p ls) :
    Derives d p (ls.map (Lexeme.shift n)) := by
  induction h with
  | literal ht => exact .literal ((literalOf?_shift _).trans ht)
  | star ht => exact .star ht
  | starOf ht hu hv => exact .starOf ht hu hv
  | column ht => exact .column ht
  | columnOf ht hu hv => exact .columnOf ht hu hv
  | call ht hq hu _ hv he ih =>
    simp only [List.map_append, List.map_cons, List.map_nil]
    exact .call ht hq hu ih hv he
  | caseWhen ht _ _ hne _ hu iho ihw ihb =>
    simp only [List.map_append, List.map_cons, List.map_nil]
    exact .caseWhen ht iho ihw hne ihb hu
  | cast ht hk hu _ hv hT hw ih =>
    simp only [List.map_append, List.map_cons, List.map_nil]
    exact .cast ht hk hu ih hv hT.shift hw
  | paren ht _ hu ih =>
    simp only [List.map_append, List.map_cons, List.map_nil]
    exact .paren ht ih hu
  | subquery ht hu _ hv ih =>
    simp only [List.map_append, List.map_cons, List.map_nil]
    exact .subquery ht hu ih hv
  | minus ht _ ih => exact .minus ht ih
  | not ht _ ih => exact .not ht ih
  | binary _ ht _ iha ihb =>
    simp only [List.map_append, List.map_cons]
    exact .binary iha ht ihb
  | tested _ _ iha iht =>
    rw [List.map_append]
    exact .tested iha iht
  | lift _ hk ih => exact .lift ih hk
  | compare ht _ ih => exact .compare ht ih
  | like hn ht _ ih =>
    simp only [List.map_append, List.map_cons]
    exact .like hn.shift ht ih
  | ilike hn ht _ ih =>
    simp only [List.map_append, List.map_cons]
    exact .ilike hn.shift ht ih
  | between hn ht _ hu _ ihl ihh =>
    simp only [List.map_append, List.map_cons]
    exact .between hn.shift ht ihl hu ihh
  | inList hn ht hu _ hv ih =>
    simp only [List.map_append, List.map_cons, List.map_nil]
    exact .inList hn.shift ht hu ih hv
  | isNull ht hn hu =>
    simp only [List.map_append, List.map_cons, List.map_nil]
    exact .isNull ht hn.shift hu
  | exprsOne _ ih => exact .exprsOne ih
  | exprsMore _ ht _ ihe ihs =>
    simp only [List.map_append, List.map_cons]
    exact .exprsMore ihe ht ihs
  | item _ hd ih =>
    rw [List.map_append]
    exact .item ih hd.shift
  | itemsOne _ ih => exact .itemsOne ih
  | itemsMore _ ht _ ihi ihs =>
    simp only [List.map_append, List.map_cons]
    exact .itemsMore ihi ht ihs
  | noSeparator => exact .noSeparator
  | separator ht hs _ ih => exact .separator ht hs ih
  | noArgs => exact .noArgs
  | args hd _ _ _ ihe iho ihs =>
    simp only [List.map_append]
    exact .args hd.shift ihe iho ihs
  | noCaseOperand => exact .noCaseOperand
  | caseOperand _ ih => exact .caseOperand ih
  | noWhens => exact .noWhens
  | whens ht _ hu _ _ iha ihb ihw =>
    simp only [List.map_append, List.map_cons]
    exact .whens ht iha hu ihb ihw
  | noClause => exact .noClause
  | clause ht _ ih => exact .clause ht ih
  | noGroupBy => exact .noGroupBy
  | groupBy ht hu _ ih => exact .groupBy ht hu ih
  | noOrderBy => exact .noOrderBy
  | orderBy ht hu _ ih => exact .orderBy ht hu ih
  | allColumns ht => exact .allColumns ht
  | projection _ hs ih => exact .projection ih (head?_shift (fun _ ht => ht) hs)
  | aliased _ hs ha ih =>
    rw [List.map_append]
    exact .aliased ih (head?_shift (fun _ ht => ht) hs) ha.shift
  | projectionsOne _ ih => exact .projectionsOne ih
  | projectionsMore _ ht _ ihe ihs =>
    simp only [List.map_append, List.map_cons]
    exact .projectionsMore ihe ht ihs
  | table hn ha =>
    rw [List.map_append]
    exact .table hn.shift ha.shift
  | tableSample hn ha ht hm hu _ hr hv ih =>
    simp only [List.map_append, List.map_cons, List.map_nil]
    exact .tableSample hn.shift ha.shift ht hm.shift hu ih hr.shift hv
  | noSource => exact .noSource
  | source ht _ ih => exact .source ht ih
  | noOffset => exact .noOffset
  | offset ht _ hr ih =>
    simp only [List.map_append, List.map_cons]
    exact .offset ht ih (hr.imp (fun h => by rw [h]; rfl) RowsWord.shift)
  | noCount => exact .noCount
  | fetchCount _ hr ih => exact .fetchCount ih (head?_shift (fun _ ht => ht) hr)
  | noFetch => exact .noFetch
  | fetch ht hd _ hp hcp hr he ih =>
    simp only [List.map_append, List.map_cons]
    exact .fetch ht hd.shift ih hp.shift hcp hr.shift he.shift
  | limitPair ht _ hu _ iho ihc =>
    simp only [List.map_append, List.map_cons]
    exact .limitPair ht iho hu ihc
  | limit ht _ _ ihc iho =>
    simp only [List.map_append, List.map_cons]
    exact .limit ht ihc iho
  | offsetFetch _ _ iho ihf =>
    rw [List.map_append]
    exact .offsetFetch iho ihf
  | query hd _ _ _ _ _ _ _ ihp ihs ihw ihg ihh iho ihl =>
    simp only [List.map_append]
    exact .query hd.shift ihp ihs ihw ihg ihh iho ihl

/-! ## statements -/

theorem ConstraintOf.shift {k : Option (ColumnConstraint Expr)} (h : ConstraintOf d k ls) :
    ConstraintOf d k (ls.map (Lexeme.shift n)) := by
  cases h with
  | primaryKey ht hu hd => exact .primaryKey ht hu hd.shift
  | notNull ht hu => exact .notNull ht hu
  | nullable ht => exact .nullable ht
  | unique ht => exact .unique ht
  | autoIncrement ht => exact .autoIncrement ht
  | default ht he => exact .default ht he.shift

theorem ConstraintsOf.shift {ks : List (ColumnConstraint Expr)} (h : ConstraintsOf d ks ls) :
    ConstraintsOf d ks (ls.map (Lexeme.shift n)) := by
  induction h with
  | nil => exact .nil
  | cons hk _ ih =>
    rw [List.map_append]
    exact .cons hk.shift ih

theorem ColumnOf.shift {c : ColumnDef Expr} (h : ColumnOf d c ls) :
    ColumnOf d c (ls.map (Lexeme.shift n)) := by
  obtain ⟨ht, hT, hk⟩ := h
  simp only [List.map_append, List.map_cons]
  refine .mk ht ?_ hk.shift
  cases hT with
  | none => exact .none
  | some hT => exact .some hT.shift

theorem ColumnsOf.shift {cs : List (ColumnDef Expr)} (h : ColumnsOf d cs ls) :
    ColumnsOf d cs (ls.map (Lexeme.shift n)) := by
  induction h with
  | one hc => exact .one hc.shift
  | more hc ht _ ih =>
    simp only [List.map_append, List.map_cons]
    exact .more hc.shift ht ih

theorem ConditionOf.shift {b : Bool} (h : ConditionOf b ls) :
    ConditionOf b (ls.map (Lexeme.shift n)) := by
  cases h with
  | absent => exact .absent
  | present ht hu hv => exact .present ht hu hv

theorem modifierOf_shift (ws : List Lexeme) :
    modifierOf (ws.map (Lexeme.shift n)) = modifierOf ws := by
  rw [modifierOf, modifierOf, List.isEmpty_map, List.map_map]
  rfl

/-- Lexemes that stand further on spell the same statements. -/
theorem StatementOf.shift {e : Expr} (h : StatementOf d e ls) :
    StatementOf d e (ls.map (Lexeme.shift n)) := by
  cases h with
  | select ht hq => exact .select ht hq.shift
  | @transaction t b ws ls ht hw hb =>
    rw [← modifierOf_shift (n := n), List.map_append]
    exact .transaction ht (words_shift hw) hb.shift
  | commit ht hb => exact .commit ht hb.shift
  | rollback ht hb => exact .rollback ht hb.shift
  | createTable ht hu hc hn hv hs hw =>
    simp only [List.map_append, List.map_cons, List.map_nil]
    exact .createTable ht hu hc.shift hn.shift hv hs.shift hw

/-- Lexemes that stand further on spell the same scripts. -/
theorem ScriptOf.shift {es : List Expr} (h : ScriptOf d es ls) :
    ScriptOf d es (ls.map (Lexeme.shift n)) := by
  induction h with
  | nil => exact .nil
  | skip ht _ ih => exact .skip ht ih
  | last he => exact .last he.shift
  | next he ht _ ih =>
    rw [List.map_append, List.map_cons]
    exact .next he.shift ht ih

end SqlDialect.Grammar
