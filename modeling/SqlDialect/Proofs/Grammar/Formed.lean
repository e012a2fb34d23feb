import Mathlib
import SqlDialect.Proofs.Grammar.Parse
import SqlDialect.Proofs.Grammar.Proper
import SqlDialect.Proofs.Tree.WellFormed
import SqlDialect.Rendering

/-!
# SqlDialect.Proofs.Grammar.Formed

The trees that a text is read as are well formed, two literals apart: a number
beyond the greatest float, and a binary literal without digits.

* `Expr.Unprintable` -- the two literals.
* `Derives.formed`, `StatementOf.formed` -- nothing else is wrong with any node
  of what is read, in any dialect.
* `structural_error_iff_unprintable` -- hence printing refuses such a tree exactly for
  these literals, whatever dialect it is printed in.

The tables of a dialect decide which words are keywords, and which functions
have nodes of their own, but neither can make a node that is malformed; so
nothing is asked of the dialect.
-/

namespace SqlDialect

open Text Grammar

/-! ## the two literals -/

/-- The literals that can be read but not printed: a float beyond the greatest
one, and a binary string without digits. -/
def Expr.Unprintable : Expr → Prop
  | .literal (.float f) => f.isFinite = false
  | .literal (.hexString digits) => digits = ""
  | _ => False

/-- Nothing is wrong with a node unless it is one of these literals. -/
def Expr.Formed (e : Expr) : Prop := e.fault? = none ∨ e.Unprintable

/-- These literals are literals, and are refused. -/
theorem Expr.Unprintable.refused {e : Expr} (h : e.Unprintable) :
    e.kind = .literal ∧ ∃ fault, e.fault? = some fault := by
  unfold Unprintable at h
  split at h
  case h_1 f => exact ⟨rfl, .notFinite, by simp [fault?, Literal.fault?, h]⟩
  case h_2 digits =>
    subst h
    exact ⟨rfl, .notHexDigits, rfl⟩
  case h_3 => exact h.elim

/-! ## nodes -/

section

variable {e : Expr}

/-- A node that nothing is wrong with, over such nodes. -/
theorem all_formed (h : e.fault? = none) (hc : ∀ c ∈ e.children, c.All Expr.Formed) :
    e.All Expr.Formed :=
  Expr.all_iff.2 ⟨.inl h, hc⟩

/-- A node over one other node. -/
theorem all_formed_one {a : Expr} (h : e.fault? = none) (hc : e.children = [a])
    (ha : a.All Expr.Formed) : e.All Expr.Formed :=
  all_formed h (by rw [hc]; exact List.forall_mem_singleton.2 ha)

/-- A node over two other nodes. -/
theorem all_formed_two {a b : Expr} (h : e.fault? = none) (hc : e.children = [a, b])
    (ha : a.All Expr.Formed) (hb : b.All Expr.Formed) : e.All Expr.Formed :=
  all_formed h (by
    rw [hc]
    exact List.forall_mem_cons.2 ⟨ha, List.forall_mem_singleton.2 hb⟩)

/-- A leaf. -/
theorem all_formed_leaf (h : e.Formed) (hc : e.children = []) : e.All Expr.Formed :=
  Expr.all_iff.2 ⟨h, by simp [hc]⟩

/-- Digits of base 16 make a literal, if there are any. -/
theorem isHexLiteral_of_hexDigits {digits : String} (hne : digits ≠ "") (h : HexDigits digits) :
    isHexLiteral digits = true := by
  have hchars : digits.toList ≠ [] := fun heq => hne (String.toList_eq_nil_iff.1 heq)
  simp only [isHexLiteral, Bool.and_eq_true, Bool.not_eq_true', List.isEmpty_eq_false_iff,
    List.all_eq_true]
  exact ⟨hchars, h⟩

theorem literalOf?_formed {d : Dialect} {t : Lexeme} {v : Literal} (hg : Genuine d t)
    (h : literalOf? t = some v) : (Expr.literal v).Formed := by
  unfold Genuine at hg
  unfold literalOf? at h
  split at h
  case h_1 =>
    unfold numberOf at h
    simp only at h
    split at h
    · cases h
      exact .inl rfl
    · split at h
      · cases h
        rename_i f _
        cases hf : f.isFinite with
        | true => exact .inl (by simp [Expr.fault?, Literal.fault?, hf])
        | false => exact .inr hf
      · cases h
  case h_3 digits hk =>
    cases h
    rw [hk] at hg
    by_cases hne : digits = ""
    · exact .inr hne
    · exact .inl (by simp [Expr.fault?, Literal.fault?, isHexLiteral_of_hexDigits hne hg])
  case h_4 digits hk =>
    cases h
    rw [hk] at hg
    exact .inl (by simp [Expr.fault?, Literal.fault?, isHexLiteral_of_hexDigits hg.1 hg.2])
  case h_8 => cases h
  all_goals
    cases h
    exact .inl rfl

/-! ## calls -/

/-- A word is more than blanks. -/
theorem isBlankText_of_isWord {s : String} (h : isWord s = true) : isBlankText s = false := by
  unfold isWord at h
  unfold isBlankText
  split at h
  · cases h
  case h_2 c cs hs =>
    simp only [Bool.and_eq_true] at h
    rw [hs]
    simp [isBlank_of_startsWord h.1]

/-- A name without delimiters is more than blanks. -/
theorem isBlankText_of_identOf? {d : Dialect} {t : Lexeme} {i : Ident} (hg : Genuine d t)
    (h : identOf? t = some i) (hq : i.quoted = false) : isBlankText i.name = false := by
  unfold Genuine at hg
  unfold identOf? at h
  split at h
  case h_1 hk =>
    cases h
    rw [hk] at hg
    exact isBlankText_of_isWord hg.1
  case h_2 => cases h; cases hq
  case h_3 k hk =>
    rw [hk] at hg
    split at h
    · cases h
    · cases h
      exact isBlankText_of_isWord hg.1
  case h_4 => cases h

/-- The usual name of a function is more than blanks. -/
theorem isBlankText_name (k : CallKind) : isBlankText k.name = false := by
  have hall : ∀ k ∈ CallKind.all, isBlankText k.name = false := by decide
  exact hall k k.mem_all

/-- The node that a call becomes has as many arguments as its kind needs. -/
theorem build_formed {k : CallKind} {es : List Expr} (hs : ∀ x ∈ es, x.All Expr.Formed)
    (h : k.build es = .ok e) : e.All Expr.Formed := by
  have hplain (k : CallKind) {xs : List Expr} (hxs : ∀ x ∈ xs, x.All Expr.Formed) :
      (Expr.function k.name xs).All Expr.Formed :=
    all_formed (by simp [Expr.fault?, isBlankText_name k]) hxs
  unfold CallKind.build at h
  split at h
  case h_7 =>
    split at h
    · cases h
      simp only [List.forall_mem_cons] at hs
      exact all_formed_two rfl rfl hs.1 hs.2.1
    · cases h
  case h_12 => cases h; exact hplain .jsonExtract hs
  case h_13 => cases h; exact hplain .jsonExtractScalar hs
  case h_14 => cases h; exact hplain .jsonbExtract hs
  case h_15 => cases h; exact hplain .jsonbExtractScalar hs
  case h_18 => cases h
  all_goals
    cases h
    exact all_formed (by simp [Expr.fault?]) hs

theorem call_formed {d : Dialect} (hd : d.UsualFunctions) {name : String} {es : List Expr}
    (hn : isBlankText name = false) (hs : ∀ x ∈ es, x.All Expr.Formed)
    (h : d.call name es = .ok e) : e.All Expr.Formed := by
  rcases hd.call_cases name es with ⟨k, hk⟩ | hplain
  · rw [hk] at h
    exact build_formed hs h
  · rw [hplain] at h
    cases h
    exact all_formed (by simp [Expr.fault?, hn]) hs

end

namespace Grammar

/-! ## phrases -/

/-- What reading a phrase ensures: all nodes of its trees are well formed,
lists that may not be empty are not, and a row limit is a limit or a fetch. -/
def Phrase.Formed : Phrase → Prop
  | .expr _ e | .projection e | .table e => e.All Expr.Formed
  | .test a e => a.All Expr.Formed → e.All Expr.Formed
  | .exprs es | .projections es => es ≠ [] ∧ ∀ e ∈ es, e.All Expr.Formed
  | .item i => i.expr.All Expr.Formed
  | .items is => is ≠ [] ∧ ∀ i ∈ is, i.expr.All Expr.Formed
  | .groupBy es | .args es => ∀ e ∈ es, e.All Expr.Formed
  | .orderBy is => ∀ i ∈ is, i.expr.All Expr.Formed
  | .whens ws => ∀ w ∈ ws, w.1.All Expr.Formed ∧ w.2.All Expr.Formed
  | .clause _ e | .separator e | .caseOperand e | .source e | .offset e | .fetchCount e =>
    ∀ c ∈ e, c.All Expr.Formed
  | .fetch e => ∀ c ∈ e, c.All Expr.Formed ∧ c.kind = .fetch
  | .rowLimit l o =>
    (∀ c ∈ l, c.All Expr.Formed ∧ (c.kind = .limit ∨ c.kind = .fetch)) ∧
      ∀ c ∈ o, c.All Expr.Formed
  | .query q => (Expr.select q).All Expr.Formed

variable {d : Dialect}

/-- The arguments of a call, gathered under `DISTINCT` or an ordering. -/
theorem gatherArgs_formed {distinct : Bool} {first : Expr} {others : List Expr}
    {items : List (OrderItem Expr)} {s : Option Expr}
    (he : ∀ e ∈ first :: others, e.All Expr.Formed) (hi : ∀ i ∈ items, i.expr.All Expr.Formed)
    (hs : ∀ e ∈ s, e.All Expr.Formed) :
    ∀ e ∈ gatherArgs distinct first others items s, e.All Expr.Formed := by
  have hhead : (if distinct then Expr.distinct (first :: others) else first).All Expr.Formed := by
    split
    · exact all_formed rfl he
    · exact he first List.mem_cons_self
  have hothers : ∀ e ∈ (if distinct then [] else others), e.All Expr.Formed := by
    split
    · exact fun _ h => by cases h
    · exact fun e h => he e (List.mem_cons_of_mem _ h)
  unfold gatherArgs
  simp only [List.forall_mem_cons, List.forall_mem_append]
  refine ⟨?_, hothers, fun e h => hs e (Option.mem_toList.1 h)⟩
  split
  · exact hhead
  case isFalse hne =>
    refine all_formed (by simp [Expr.fault?, hne]) ?_
    simp only [Expr.children, List.forall_mem_cons, List.forall_mem_map]
    exact ⟨hhead, hi⟩

/-- A query projects something, and is limited by a limit or a fetch. -/
theorem query_formed {q : Select Expr} (hp : q.projections ≠ [])
    (hl : ∀ c ∈ q.limit, c.kind = .limit ∨ c.kind = .fetch)
    (hc : ∀ c ∈ q.exprs, c.All Expr.Formed) : (Expr.select q).All Expr.Formed := by
  refine all_formed ?_ hc
  simp only [Expr.fault?, Select.fault?, List.isEmpty_iff, if_neg hp]
  cases hlimit : q.limit with
  | none => rfl
  | some c =>
    rcases hl c (by rw [hlimit]; rfl) with h | h
    · simp [h]
    · simp [h]

section

variable (hd : d.UsualFunctions)
include hd

/-- Every node that is read from genuine lexemes is well formed. -/
theorem Derives.formed {p : Phrase} {ls : List Lexeme} (h : Derives d p ls)
    (hg : ∀ t ∈ ls, Genuine d t) : p.Formed := by
  induction h with
  | @literal t v ht =>
    exact all_formed_leaf (literalOf?_formed (hg t List.mem_cons_self) ht) rfl
  | star | starOf | column | columnOf | allColumns | table => exact all_formed_leaf (.inl rfl) rfl
  | @call t u v i es e ls ht hq _ _ _ he ih =>
    exact call_formed hd (isBlankText_of_identOf? (hg t (by simp)) ht hq)
      (ih fun t ht => hg t (by simp [ht])) he
  | @caseWhen t u o c ws ls₁ ls₂ ls₃ _ _ _ hne _ _ iho ihw ihc =>
    have ho := iho fun t ht => hg t (by simp [ht])
    have hw := ihw fun t ht => hg t (by simp [ht])
    have hc := ihc fun t ht => hg t (by simp [ht])
    refine all_formed (by simp [Expr.fault?, hne]) ?_
    simp only [Expr.children, List.forall_mem_append, Option.mem_toList, List.mem_flatMap,
      List.mem_cons, List.not_mem_nil, or_false]
    refine ⟨⟨ho, ?_⟩, hc⟩
    rintro x ⟨w, hmem, rfl | rfl⟩
    · exact (hw w hmem).1
    · exact (hw w hmem).2
  | @cast t u v w k make e type ls₁ ls₂ _ hk _ _ _ _ _ ih =>
    have he := ih fun t ht => hg t (by simp [ht])
    unfold castOf? at hk
    split at hk <;> cases hk
    · exact all_formed_one rfl rfl he
    · exact all_formed_one rfl rfl he
  | paren _ _ _ ih | subquery _ _ _ _ ih | minus _ _ ih | not _ _ ih =>
    exact all_formed_one rfl rfl (ih fun t ht => hg t (by simp [ht]))
  | @binary t k make a c ls₁ ls₂ _ ht _ iha ihc =>
    have ha := iha fun t ht => hg t (by simp [ht])
    have hc := ihc fun t ht => hg t (by simp [ht])
    rcases operatorAt?_shape ht a c with ⟨op, hmake, -⟩ | ⟨-, hmake | hmake⟩ <;> rw [hmake] <;>
      exact all_formed_two rfl rfl ha hc
  | tested _ _ iha iht =>
    exact iht (fun t ht => hg t (by simp [ht])) (iha fun t ht => hg t (by simp [ht]))
  | lift _ _ ih => exact ih hg
  | compare _ _ ih | like _ _ _ ih | ilike _ _ _ ih =>
    intro ha
    exact all_formed_two rfl rfl ha (ih fun t ht => hg t (by simp [ht]))
  | between _ _ _ _ _ ihl ihh =>
    intro ha
    have hl := ihl fun t ht => hg t (by simp [ht])
    have hh := ihh fun t ht => hg t (by simp [ht])
    exact all_formed rfl (by simpa [Expr.children] using ⟨ha, hl, hh⟩)
  | inList _ _ _ _ _ ih =>
    intro ha
    obtain ⟨hne, hs⟩ := ih fun t ht => hg t (by simp [ht])
    refine all_formed (by simp [Expr.fault?, hne]) ?_
    simpa [Expr.children] using ⟨ha, hs⟩
  | isNull => exact fun ha => all_formed_one rfl rfl ha
  | exprsOne _ ih | projectionsOne _ ih => exact ⟨by simp, by simpa [Phrase.Formed] using ih hg⟩
  | exprsMore _ _ _ ihe ihs | projectionsMore _ _ _ ihe ihs =>
    refine ⟨by simp, ?_⟩
    rw [List.forall_mem_cons]
    exact ⟨ihe fun t ht => hg t (by simp [ht]), (ihs fun t ht => hg t (by simp [ht])).2⟩
  | item _ _ ih => exact ih fun t ht => hg t (by simp [ht])
  | itemsOne _ ih => exact ⟨by simp, by simpa [Phrase.Formed] using ih hg⟩
  | itemsMore _ _ _ ihi ihs =>
    refine ⟨by simp, ?_⟩
    rw [List.forall_mem_cons]
    exact ⟨ihi fun t ht => hg t (by simp [ht]), (ihs fun t ht => hg t (by simp [ht])).2⟩
  | noSeparator | noCaseOperand | noClause | noOffset | noCount | noSource | noFetch | noArgs
  | noWhens | noGroupBy | noOrderBy =>
    exact fun _ h => by cases h
  | separator _ _ _ ih | caseOperand _ ih | clause _ _ ih | source _ _ ih | offset _ _ _ ih
  | fetchCount _ _ ih =>
    simpa [Phrase.Formed] using ih fun t ht => hg t (by simp [ht])
  | args _ _ _ _ ihe iho ihs =>
    simp only [List.forall_mem_append] at hg
    obtain ⟨⟨⟨-, hg₁⟩, hg₂⟩, hg₃⟩ := hg
    exact gatherArgs_formed (ihe hg₁).2 (iho hg₂) (ihs hg₃)
  | whens _ _ _ _ _ iha ihb ihw =>
    simp only [Phrase.Formed, List.forall_mem_cons]
    have ha := iha fun t ht => hg t (by simp [ht])
    have hb := ihb fun t ht => hg t (by simp [ht])
    have hw := ihw fun t ht => hg t (by simp [ht])
    exact ⟨⟨ha, hb⟩, hw⟩
  | groupBy _ _ _ ih => exact (ih fun t ht => hg t (by simp [ht])).2
  | orderBy _ _ _ ih => exact (ih fun t ht => hg t (by simp [ht])).2
  | projection _ _ ih => exact ih hg
  | aliased _ _ _ ih =>
    exact all_formed_one rfl rfl (ih fun t ht => hg t (by simp [ht]))
  | @tableSample t u v schema name x _ _ _ _ _ _ _ _ _ _ _ _ _ _ _ _ ih =>
    have hsize := ih fun t ht => hg t (by simp [ht])
    have htable : (Expr.table schema name x).All Expr.Formed := all_formed_leaf (.inl rfl) rfl
    exact all_formed_two rfl rfl htable hsize
  | @fetch t u direction count percent withTies ls₁ ls₂ ls₃ ls₄ _ _ _ _ _ _ _ ih =>
    have hc := ih fun t ht => hg t (by simp [ht])
    simp only [Phrase.Formed, Option.mem_some_iff, forall_eq']
    exact ⟨all_formed rfl fun c h => hc c (Option.mem_toList.1 h), rfl⟩
  | limitPair _ _ _ _ iho ihc =>
    have ho := iho fun t ht => hg t (by simp [ht])
    have hc := ihc fun t ht => hg t (by simp [ht])
    simp only [Phrase.Formed, Option.mem_some_iff, forall_eq']
    exact ⟨⟨all_formed_one rfl rfl hc, .inl rfl⟩, ho⟩
  | limit _ _ _ ihc iho =>
    have hc := ihc fun t ht => hg t (by simp [ht])
    simp only [Phrase.Formed, Option.mem_some_iff, forall_eq']
    exact ⟨⟨all_formed_one rfl rfl hc, .inl rfl⟩,
      iho fun t ht => hg t (by simp [ht])⟩
  | offsetFetch _ _ iho ihf =>
    have hf := ihf fun t ht => hg t (by simp [ht])
    exact ⟨fun c h => ⟨(hf c h).1, .inr (hf c h).2⟩, iho fun t ht => hg t (by simp [ht])⟩
  | query _ _ _ _ _ _ _ _ ihp ihs ihw ihg ihh iho ihl =>
    simp only [List.forall_mem_append] at hg
    obtain ⟨⟨⟨⟨⟨⟨⟨-, hg₁⟩, hg₂⟩, hg₃⟩, hg₄⟩, hg₅⟩, hg₆⟩, hg₇⟩ := hg
    obtain ⟨hne, hp⟩ := ihp hg₁
    obtain ⟨hl, hoffset⟩ := ihl hg₇
    refine query_formed hne (fun c h => (hl c h).2) ?_
    simp only [Select.exprs, List.forall_mem_append, List.forall_mem_map, Option.mem_toList]
    have hlimit := fun c h => (hl c h).1
    exact ⟨⟨⟨⟨⟨⟨⟨hp, ihs hg₂⟩, ihw hg₃⟩, ihg hg₄⟩, ihh hg₅⟩, iho hg₆⟩, hlimit⟩, hoffset⟩

/-! ## statements -/

/-- The values of a demand on a column are well formed. -/
theorem ConstraintOf.formed {k : Option (ColumnConstraint Expr)} {ls : List Lexeme}
    (h : ConstraintOf d k ls) (hg : ∀ t ∈ ls, Genuine d t) :
    ∀ c ∈ k.toList.flatMap ColumnConstraint.exprs, c.All Expr.Formed := by
  cases h with
  | @default t e ls _ he =>
    simp only [Option.toList_some, List.flatMap_singleton, ColumnConstraint.exprs,
      List.forall_mem_singleton]
    exact he.formed hd fun t ht => hg t (by simp [ht])
  | _ => simp [ColumnConstraint.exprs]

theorem ConstraintsOf.formed {ks : List (ColumnConstraint Expr)} {ls : List Lexeme}
    (h : ConstraintsOf d ks ls) (hg : ∀ t ∈ ls, Genuine d t) :
    ∀ c ∈ ks.flatMap ColumnConstraint.exprs, c.All Expr.Formed := by
  induction h with
  | nil => exact fun _ h => by cases h
  | cons hk _ ih =>
    rw [List.flatMap_append, List.forall_mem_append]
    exact ⟨hk.formed hd fun t ht => hg t (by simp [ht]), ih fun t ht => hg t (by simp [ht])⟩

theorem ColumnOf.formed {c : ColumnDef Expr} {ls : List Lexeme} (h : ColumnOf d c ls)
    (hg : ∀ t ∈ ls, Genuine d t) : ∀ x ∈ c.exprs, x.All Expr.Formed := by
  cases h with
  | mk _ _ hk => exact hk.formed hd fun t ht => hg t (by simp [ht])

/-- A table definition has at least one column. -/
theorem ColumnsOf.formed {cs : List (ColumnDef Expr)} {ls : List Lexeme} (h : ColumnsOf d cs ls)
    (hg : ∀ t ∈ ls, Genuine d t) :
    cs ≠ [] ∧ ∀ x ∈ cs.flatMap ColumnDef.exprs, x.All Expr.Formed := by
  induction h with
  | one hc => exact ⟨by simp, by simpa using hc.formed hd hg⟩
  | more hc _ _ ih =>
    refine ⟨by simp, ?_⟩
    rw [List.flatMap_cons, List.forall_mem_append]
    exact ⟨hc.formed hd fun t ht => hg t (by simp [ht]), (ih fun t ht => hg t (by simp [ht])).2⟩

/-- Every node of a statement that is read from genuine lexemes is well
formed. -/
theorem StatementOf.formed {e : Expr} {ls : List Lexeme} (h : StatementOf d e ls)
    (hg : ∀ t ∈ ls, Genuine d t) : e.All Expr.Formed := by
  cases h with
  | select _ hq => exact hq.formed hd fun t ht => hg t (by simp [ht])
  | transaction | commit | rollback => exact all_formed_leaf (.inl rfl) rfl
  | @createTable t u v w conditional schema name cs ls₁ ls₂ ls₃ _ _ _ _ _ hs _ =>
    obtain ⟨hne, hc⟩ := hs.formed hd fun t ht => hg t (by simp [ht])
    have htable : (Expr.table schema name none).All Expr.Formed := all_formed_leaf (.inl rfl) rfl
    refine all_formed (by simp [Expr.fault?, CreateTable.fault?, hne, Expr.kind]) ?_
    simp only [Expr.children, CreateTable.exprs, List.forall_mem_cons]
    exact ⟨htable, hc⟩

end

end Grammar

/-! ## whole texts -/

/-- A tree that a text is read as, alone or among other statements. -/
def Dialect.Accepts (d : Dialect) (sql : String) (e : Expr) : Prop :=
  d.parseExpr sql = .ok e ∨ ∃ es, d.parse sql = .ok es ∧ e ∈ es

section

variable {d : Dialect} (hd : d.UsualFunctions) {sql : String} {e : Expr}
include hd

theorem parseExpr_formed (h : d.parseExpr sql = .ok e) : e.All Expr.Formed := by
  obtain ⟨ls, hscan, hexpr⟩ := parseExpr_eq_ok_iff.1 h
  exact hexpr.formed hd (scan_genuine hscan)

theorem parse_formed {es : List Expr} (h : d.parse sql = .ok es) :
    ∀ e ∈ es, e.All Expr.Formed := by
  intro e he
  obtain ⟨ls, hscan, hs⟩ := parse_sound h
  obtain ⟨us, hsub, hstatement⟩ := hs e he
  exact hstatement.formed hd fun t ht => scan_genuine hscan t (hsub t ht)

/-- Every node of what is read is well formed or one of the two literals. -/
theorem Dialect.Accepts.formed (h : d.Accepts sql e) : e.All Expr.Formed := by
  rcases h with h | ⟨es, h, he⟩
  · exact parseExpr_formed hd h
  · exact parse_formed hd h e he

end

/-! ## printing -/

/-- Printing refuses a tree as malformed for its first malformed node, whatever
the dialect and the options. -/
theorem render_eq_structural_iff {e : Expr} {w : Dialect} {o : RenderOptions} {kind : NodeKind}
    {fault : Fault} :
    e.render w o = .error (.structural kind fault) ↔
      e.preorder.findSome? Expr.structuralError? = some (.structural kind fault) := by
  unfold Expr.render
  rw [Expr.validate_eq_findSome?]
  simp only [bind, Except.bind]
  cases he : e.preorder.findSome? Expr.structuralError? with
  | some error => simp [Expr.refusal]
  | none =>
    simp only [Expr.refusal, reduceCtorEq, iff_false]
    intro h
    split at h
    · cases h
    · cases h

/-- The first node with an error is the first one with a fault. -/
theorem findSome?_structuralError {es : List Expr} {kind : NodeKind} {fault : Fault}
    (h : es.findSome? Expr.structuralError? = some (.structural kind fault)) :
    ∃ pre n post, es = pre ++ n :: post ∧ (∀ m ∈ pre, m.fault? = none) ∧ n.kind = kind ∧
      n.fault? = some fault := by
  obtain ⟨pre, n, post, rfl, hn, hpre⟩ := List.findSome?_eq_some_iff.1 h
  obtain ⟨fault', hfault, heq⟩ := Option.map_eq_some_iff.1 hn
  cases heq
  exact ⟨pre, n, post, rfl, fun m hm => Option.map_eq_none_iff.1 (hpre m hm), rfl, hfault⟩

/-- A tree that a text is read as, in any dialect that knows the usual functions
only, has two sorts of malformed nodes at most: floats that are not finite and
binary strings without digits.  Printing it, in any dialect and with any options,
fails for a malformed node exactly when it holds such a literal, and the error is
that of the first one. -/
theorem structural_error_iff_unprintable (d : Dialect) (hd : d.UsualFunctions) (sql : String)
    (e : Expr) (h : d.Accepts sql e) :
    (∀ n ∈ e.preorder, n.fault? = none ↔ ¬ n.Unprintable) ∧
      ∀ (w : Dialect) (o : RenderOptions),
        ((∃ kind fault, e.render w o = .error (.structural kind fault)) ↔
          ∃ n ∈ e.preorder, n.Unprintable) ∧
        ∀ kind fault, e.render w o = .error (.structural kind fault) →
          kind = .literal ∧ ∃ pre n post, e.preorder = pre ++ n :: post ∧
            (∀ m ∈ pre, ¬ m.Unprintable) ∧ n.Unprintable ∧ n.fault? = some fault := by
  have hnodes : ∀ n ∈ e.preorder, n.fault? = none ↔ ¬ n.Unprintable := by
    intro n hn
    refine ⟨fun hnone hu => ?_, fun hu => (h.formed hd n hn).resolve_right hu⟩
    obtain ⟨_, fault, hfault⟩ := hu.refused
    rw [hnone] at hfault
    cases hfault
  have hfirst : ∀ (w : Dialect) (o : RenderOptions) (kind : NodeKind) (fault : Fault),
      e.render w o = .error (.structural kind fault) → kind = .literal ∧
        ∃ pre n post, e.preorder = pre ++ n :: post ∧ (∀ m ∈ pre, ¬ m.Unprintable) ∧
          n.Unprintable ∧ n.fault? = some fault := by
    intro w o kind fault hrender
    obtain ⟨pre, n, post, hsplit, hpre, hkind, hfault⟩ :=
      findSome?_structuralError (render_eq_structural_iff.1 hrender)
    have hmem {m : Expr} (hm : m ∈ pre ++ n :: post) : m ∈ e.preorder := by rwa [hsplit]
    have hu : n.Unprintable := by
      by_contra hu
      rw [(hnodes n (hmem (by simp))).2 hu] at hfault
      cases hfault
    exact ⟨hkind ▸ hu.refused.1, pre, n, post, hsplit,
      fun m hm => (hnodes m (hmem (by simp [hm]))).1 (hpre m hm), hu, hfault⟩
  refine ⟨hnodes, fun w o => ⟨⟨?_, ?_⟩, hfirst w o⟩⟩
  · rintro ⟨kind, fault, hrender⟩
    obtain ⟨-, pre, n, post, hsplit, -, hu, -⟩ := hfirst w o kind fault hrender
    exact ⟨n, by simp [hsplit], hu⟩
  · rintro ⟨n, hn, hu⟩
    have hsome : (e.preorder.findSome? Expr.structuralError?).isSome = true := by
      rw [List.findSome?_isSome_iff]
      obtain ⟨-, fault, hfault⟩ := hu.refused
      exact ⟨n, hn, by rw [Expr.structuralError?, hfault]; rfl⟩
    obtain ⟨error, herror⟩ := Option.isSome_iff_exists.1 hsome
    obtain ⟨m, -, hm⟩ := List.exists_of_findSome?_eq_some herror
    obtain ⟨fault, -, rfl⟩ := Option.map_eq_some_iff.1 hm
    exact ⟨m.kind, fault, render_eq_structural_iff.2 herror⟩

/-- Both literals can be written in one query. -/
theorem structural_error_of_empty_blob :
    Dialect.sqlite.Accepts "SELECT a, x'', 1e999"
        (.select { projections := [.column none ⟨"a", false⟩, .literal (.hexString ""),
          .literal (.float (.infinite false))] }) ∧
      ∃ kind fault, (Expr.select { projections := [.column none ⟨"a", false⟩,
          .literal (.hexString ""), .literal (.float (.infinite false))] }).render .generic {} =
        .error (.structural kind fault) := by
  have haccepts : Dialect.sqlite.Accepts "SELECT a, x'', 1e999"
      (.select { projections := [.column none ⟨"a", false⟩, .literal (.hexString ""),
        .literal (.float (.infinite false))] }) :=
    .inr ⟨_, by cbv, List.mem_singleton_self _⟩
  refine ⟨haccepts, ((structural_error_iff_unprintable _ (Builtin.usualFunctions .sqlite) _ _ haccepts).2 .generic {}).1.2
    ⟨.literal (.hexString ""), ?_, rfl⟩⟩
  simp [Expr.preorder_eq, Expr.children, Select.exprs]

end SqlDialect
