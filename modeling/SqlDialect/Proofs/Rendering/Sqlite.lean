import SqlDialect.Dialect.Builtin
import SqlDialect.Proofs.Rendering.Text
import SqlDialect.Proofs.Tree.Sqlite

/-!
# SqlDialect.Proofs.Rendering.Sqlite

What SQLite does with a tree can be done to the tree beforehand, and the base
form of every node printed then.

* `Dialect.plain` -- a dialect with its printing of nodes back at the base
  form.
* `Style.text_sqliteForm` -- what is printed of a tree is the base form of the
  tree that stands for it in SQLite.
* `sqlite_renders_base_of_form` -- hence so is the text of the output.
-/

namespace SqlDialect

/-! ## dialects without transforms -/

namespace Dialect

/-- A dialect with every kind of node back at its base form. -/
def plain (d : Dialect) : Dialect := d.applyAll (NodeKind.all.map .clear)

/-- Clearing kinds of nodes touches nothing but the transforms. -/
theorem applyAll_clear (d : Dialect) (ks : List NodeKind) :
    d.applyAll (ks.map .clear) = { d with transforms := ks.foldl Overrides.erase d.transforms } := by
  induction ks generalizing d with
  | nil => rfl
  | cons k ks ih => exact ih (d.apply (.clear k))

theorem get?_foldl_erase {κ ν : Type} [DecidableEq κ] (t : Overrides κ ν) (ks : List κ) (j : κ) :
    (ks.foldl Overrides.erase t).get? j = if j ∈ ks then none else t.get? j := by
  induction ks generalizing t with
  | nil => simp
  | cons k ks ih =>
    rw [List.foldl_cons, ih, Overrides.get?_erase]
    by_cases hj : j ∈ ks
    · simp [hj]
    · simp [hj]

@[simp] theorem transform?_plain (d : Dialect) (k : NodeKind) : d.plain.transform? k = none := by
  rw [plain, applyAll_clear, transform?, get?_foldl_erase, if_pos (NodeKind.mem_all k)]

/-- A piece of output does not hang on the transforms. -/
theorem text_transforms (d : Dialect) (t : Overrides NodeKind Transform) (k : Token) :
    k.text { d with transforms := t } = k.text d := by
  cases k <;> rfl

theorem spell_transforms (d : Dialect) (t : Overrides NodeKind Transform) (ts : List Token) :
    spell { d with transforms := t } ts = d.spell ts := by
  induction ts with
  | nil => rfl
  | cons k ts ih => rw [spell, spell, ih, text_transforms]

/-- Every piece of output keeps its text. -/
theorem spell_plain (d : Dialect) (ts : List Token) : d.plain.spell ts = d.spell ts := by
  rw [plain, applyAll_clear, spell_transforms]

end Dialect

@[simp] theorem Fragment.text_plain (d : Dialect) (f : Fragment) : f.text d.plain = f.text d :=
  d.spell_plain f.tokens

namespace Style

/-- The base form of a node does not hang on the transforms, the place of a
fetch in a query apart. -/
theorem base_transforms {d : Dialect} {t : Overrides NodeKind Transform} {i : Bool}
    {f : Expr → Fragment} {e : Expr}
    (h : ∀ q, e = .select q →
      (⟨{ d with transforms := t }, i⟩ : Style).fetchesLast q = (⟨d, i⟩ : Style).fetchesLast q) :
    (⟨{ d with transforms := t }, i⟩ : Style).base f e = (⟨d, i⟩ : Style).base f e := by
  cases e with
  | select q => rw [base, base, query, query, h q rfl]
  | unaryOp op a => cases op <;> rfl
  | literal v => cases v <;> rfl
  | _ => rfl

theorem base_plain {d : Dialect} {i : Bool} {f : Expr → Fragment} {e : Expr}
    (h : ∀ q, e = .select q →
      (⟨d.plain, i⟩ : Style).fetchesLast q = (⟨d, i⟩ : Style).fetchesLast q) :
    (⟨d.plain, i⟩ : Style).base f e = (⟨d, i⟩ : Style).base f e := by
  rw [Dialect.plain, Dialect.applyAll_clear] at h ⊢
  exact base_transforms h

theorem dataType_transforms (d : Dialect) (t : Overrides NodeKind Transform) (i : Bool)
    (k : DataType) :
    (⟨{ d with transforms := t }, i⟩ : Style).dataType k = (⟨d, i⟩ : Style).dataType k := rfl

theorem dataType_plain (d : Dialect) (i : Bool) (k : DataType) :
    (⟨d.plain, i⟩ : Style).dataType k = (⟨d, i⟩ : Style).dataType k := by
  rw [Dialect.plain, Dialect.applyAll_clear, dataType_transforms]

/-- Without transforms every node has its base form. -/
theorem fragment_plain (d : Dialect) (i : Bool) (e : Expr) :
    (⟨d.plain, i⟩ : Style).fragment e =
      (⟨d.plain, i⟩ : Style).base (⟨d.plain, i⟩ : Style).fragment e := by
  rw [fragment_eq, node, Dialect.transform?_plain]

/-! ## SQLite -/

section

open Fragment

/-- How text for SQLite is written. -/
abbrev sqlite (i : Bool) : Style := ⟨.sqlite, i⟩

/-- The same with every node in its base form. -/
abbrev plainSqlite (i : Bool) : Style := ⟨Dialect.sqlite.plain, i⟩

variable {i : Bool}

/-- SQLite has no fetch behind an offset. -/
theorem fetchesLast_of_sqlite (q : Select Expr) :
    (sqlite i).fetchesLast q = false :=
  Bool.and_false _

/-- Nor does the form of a query have one. -/
theorem fetchesLast_form {q : Select Expr} (h : (Expr.select q).fault? = none) :
    (plainSqlite i).fetchesLast (q.map Expr.sqliteForm) = false := by
  unfold fetchesLast
  cases hl : q.limit with
  | none => simp [Select.map, hl]
  | some l => simp [Select.map, hl, Expr.kind_sqliteForm_limit h hl]

/-- A node over the forms of what is below it is printed in its base form like
the node itself. -/
theorem text_base_form {e : Expr} (h : e.fault? = none)
    (ih : ∀ c ∈ e.children, ((plainSqlite i).fragment c.sqliteForm).text .sqlite =
      ((sqlite i).fragment c).text .sqlite) :
    ((plainSqlite i).base (plainSqlite i).fragment
        (e.mapChildren Expr.sqliteForm)).text .sqlite =
      ((sqlite i).base (sqlite i).fragment e).text .sqlite := by
  have hplain : (plainSqlite i).base (plainSqlite i).fragment
        (e.mapChildren Expr.sqliteForm) =
      (sqlite i).base (plainSqlite i).fragment
        (e.mapChildren Expr.sqliteForm) := by
    refine base_plain fun q hq => ?_
    rw [fetchesLast_of_sqlite]
    cases e <;> cases hq
    exact fetchesLast_form h
  rw [hplain, base_mapChildren fun q _ => by rw [fetchesLast_of_sqlite, fetchesLast_of_sqlite]]
  exact text_base_congr (s := sqlite i) ih

/-- A call over the forms of its arguments is printed like the call. -/
theorem text_function_form {name : String} {args : List Expr}
    (ih : ∀ c ∈ args, ((plainSqlite i).fragment c.sqliteForm).text .sqlite =
      ((sqlite i).fragment c).text .sqlite) :
    ((plainSqlite i).fragment
        (.function name (args.map Expr.sqliteForm))).text .sqlite =
      (Fragment.call name (args.map (sqlite i).fragment)).text .sqlite := by
  have hargs := text_commaSeparated_congr .sqlite args ih
  rw [fragment_plain, base, List.map_map]
  simp only [call, text_append, ← hargs]
  rfl

/-- The only argument of a call of `LEAST` or `GREATEST` stands for the call,
several are those of a call under another name. -/
theorem text_callOrOperand_form {name : String} {args : List Expr} {e : Expr}
    (hne : args ≠ [])
    (he : e = match args.map Expr.sqliteForm with
      | [a] => a
      | as => .function name as)
    (ih : ∀ c ∈ args, ((plainSqlite i).fragment c.sqliteForm).text .sqlite =
      ((sqlite i).fragment c).text .sqlite) :
    ((plainSqlite i).fragment e).text .sqlite =
      (callOrOperand (sqlite i).fragment name args).text .sqlite := by
  match args with
  | [] => exact absurd rfl hne
  | [a] =>
    subst he
    exact ih a List.mem_cons_self
  | a :: b :: as =>
    subst he
    exact text_function_form ih

/-- A fetch is printed as a limit. -/
theorem text_fetch (d : FetchDirection) (count : Option Expr) (percent withTies : Bool) :
    ((sqlite i).fetch (sqlite i).fragment (.fetch d count percent withTies)).text .sqlite =
      (ofTokens [.keyword .LIMIT, .space] ++
        (count.map (sqlite i).fragment).getD (.raw "1")).text .sqlite := by
  cases count <;> cases percent <;> cases withTies <;> simp [fetch]

/-- The limit that is written in front of an offset. -/
theorem text_limitNothing :
    ((plainSqlite i).fragment (.limit (.literal (.int (-1))))).text .sqlite =
      (ofTokens [.keyword .LIMIT, .space, .raw "-1"]).text .sqlite := by
  rw [fragment_plain, base, fragment_plain]
  rfl

/-- With no fetch behind an offset, a query does not hang on the dialect's
transforms, nor on the kind of its row limit. -/
theorem query_otherLimit {s s' : Style} {f : Expr → Fragment} {q : Select Expr} {a : Option Expr}
    {l : Option Fragment} (h : s.fetchesLast { q with limit := a } = false)
    (h' : s'.fetchesLast q = false) : s.query f { q with limit := a } l = s'.query f q l := by
  simp only [query, h, h']

/-- A query over the forms of its clauses, with a limit before a lone offset,
is printed like the query. -/
theorem text_select_form {q : Select Expr} (h : (Expr.select q).fault? = none)
    (ih : ∀ c ∈ q.exprs, ((plainSqlite i).fragment c.sqliteForm).text .sqlite =
      ((sqlite i).fragment c).text .sqlite) :
    ((plainSqlite i).fragment (Expr.sqliteNode (.select (q.map Expr.sqliteForm)))).text .sqlite =
      ((sqlite i).offsetBehindLimit (sqlite i).fragment (.select q)).text .sqlite := by
  have hflags : ((q.map Expr.sqliteForm).limit.isNone && (q.map Expr.sqliteForm).offset.isSome) =
      (q.limit.isNone && q.offset.isSome) := by
    simp [Select.map]
  rw [Expr.sqliteNode, offsetBehindLimit, hflags]
  cases q.limit.isNone && q.offset.isSome with
  | false =>
    simp only [Bool.false_eq_true, if_false]
    rw [fragment_plain]
    exact text_base_form h ih
  | true =>
    have hquery : (plainSqlite i).query (plainSqlite i).fragment
          { q.map Expr.sqliteForm with limit := some (.limit (.literal (.int (-1)))) }
          (some ((plainSqlite i).fragment (.limit (.literal (.int (-1)))))) =
        (sqlite i).query (fun c => (plainSqlite i).fragment c.sqliteForm) q
          (some ((plainSqlite i).fragment (.limit (.literal (.int (-1)))))) := by
      rw [query_otherLimit rfl (fetchesLast_of_sqlite _), query_map]
      rw [fetchesLast_of_sqlite, fetchesLast_of_sqlite]
    simp only [if_true]
    rw [fragment_plain, base, Option.map_some, hquery]
    refine text_query_congr (s := sqlite i) ih ?_
    simp only [optional, text_append, text_limitNothing]

/-- The kinds that SQLite prints in a way that no other node is printed in. -/
def hasOwnText : NodeKind → Bool
  | .groupConcat | .dateAdd | .jsonExtract | .jsonExtractScalar | .jsonbExtract
  | .jsonbExtractScalar => true
  | _ => false

/-- One node: over forms that are printed like what they stand for, the form of
a node is printed like the node. -/
theorem text_sqliteNode {e : Expr} (h : e.fault? = none) (hk : hasOwnText e.kind = false)
    (ih : ∀ c ∈ e.children, ((plainSqlite i).fragment c.sqliteForm).text .sqlite =
      ((sqlite i).fragment c).text .sqlite) :
    ((plainSqlite i).fragment e.sqliteForm).text .sqlite =
      ((sqlite i).fragment e).text .sqlite := by
  have hbase := text_base_form h ih
  rw [Expr.sqliteForm_eq, fragment_eq (sqlite i) e]
  cases e with
  | groupConcat | dateAdd | jsonExtract | jsonExtractScalar | jsonbExtract | jsonbExtractScalar =>
    cases hk
  | ilike n a p =>
    have ha := @text_function_form i "LOWER" [a] fun c hc => ih c (by simp_all [Expr.children])
    have hp := ih p (by simp [Expr.children])
    rw [fragment_plain]
    simp only [List.map_cons, List.map_nil] at ha
    show (predicate (plainSqlite i).fragment .LIKE n (.function "LOWER" [a.sqliteForm])
        p.sqliteForm).text .sqlite =
      ((sqlite i).lowerLike (sqlite i).fragment (.ilike n a p)).text .sqlite
    simp only [predicate, lowerLike, text_append, ha, hp, text_remark, String.empty_append]
  | tryCast a t =>
    have ha := ih a (by simp [Expr.children])
    rw [fragment_plain]
    show ((plainSqlite i).cast (plainSqlite i).fragment .CAST a.sqliteForm t).text .sqlite =
      ((sqlite i).plainCast (sqlite i).fragment (.tryCast a t)).text .sqlite
    have htype : (plainSqlite i).dataType t = (sqlite i).dataType t := dataType_plain .sqlite i t
    simp only [cast, plainCast, text_append, ha, htype, text_remark, String.empty_append]
  | tableSample a m size u =>
    have ha := ih a (by simp [Expr.children])
    show ((plainSqlite i).fragment a.sqliteForm).text .sqlite =
      ((sqlite i).unsampled (sqlite i).fragment (.tableSample a m size u)).text .sqlite
    simp only [unsampled, text_append, ha, text_remark, String.empty_append]
  | dateStrToDate a => exact ih a (by simp [Expr.children])
  | timeStrToTime a => exact ih a (by simp [Expr.children])
  | levenshtein args => exact text_function_form ih
  | least args =>
    have hne : args ≠ [] := by
      rintro rfl
      cases h
    refine text_callOrOperand_form hne ?_ ih
    rcases args with _ | ⟨a, _ | ⟨b, as⟩⟩
    · exact absurd rfl hne
    · rfl
    · rfl
  | greatest args =>
    have hne : args ≠ [] := by
      rintro rfl
      cases h
    refine text_callOrOperand_form hne ?_ ih
    rcases args with _ | ⟨a, _ | ⟨b, as⟩⟩
    · exact absurd rfl hne
    · rfl
    · rfl
  | fetch d count percent withTies =>
    rw [fragment_plain]
    refine Eq.trans ?_ (text_fetch d count percent withTies).symm
    cases count with
    | none =>
      show (Fragment.ofTokens [.keyword .LIMIT, .space] ++
        (plainSqlite i).fragment (.literal (.int 1))).text .sqlite = _
      rw [fragment_plain]
      rfl
    | some a =>
      have ha := ih a (by simp [Expr.children])
      show (Fragment.ofTokens [.keyword .LIMIT, .space] ++
        (plainSqlite i).fragment a.sqliteForm).text .sqlite = _
      rw [text_append, ha]
      exact (text_append _ _ _).symm
  | transaction m =>
    rw [fragment_plain]
    cases m with
    | none => rfl
    | some w =>
      show (Fragment.keyword .BEGIN ++ (.ofTokens [.space] ++ .raw (w ++ " TRANSACTION"))).text
          .sqlite =
        ((Fragment.keyword .BEGIN ++ (.ofTokens [.space] ++ .raw w)) ++
          .ofTokens [.space, .keyword .TRANSACTION]).text .sqlite
      simp only [text_append, text_raw, String.append_assoc]
      rfl
  | select q => exact text_select_form h ih
  | _ =>
    rw [fragment_plain]
    exact hbase

/-- A tree is printed for SQLite like its form without any transforms. -/
theorem text_sqliteForm {e : Expr} (h : e.WellFormed)
    (hk : e.All fun n => hasOwnText n.kind = false) :
    ((plainSqlite i).fragment e.sqliteForm).text .sqlite = ((sqlite i).fragment e).text .sqlite := by
  induction e using Expr.induction with
  | node e ih => exact text_sqliteNode h.fault hk.self fun c hc => ih c hc (h.child hc) (hk.child hc)

end

end Style

/-- SQLite's printing is a rewriting of the tree and then the base form of
every node: the text of a tree that can be printed, and that holds no grouped
concatenation, no date that is moved and no JSON extraction, is the text of
the tree's form in the dialect with every transform cleared. -/
theorem sqlite_renders_base_of_form (e : Expr) (i : Bool) (h : e.validate = .ok ())
    (hk : ∀ n ∈ e.preorder, n.kind ∉ [NodeKind.groupConcat, .dateAdd, .jsonExtract,
      .jsonExtractScalar, .jsonbExtract, .jsonbExtractScalar]) :
    ∃ r s, e.render .sqlite ⟨.ignore, i⟩ = .ok r ∧
      e.sqliteForm.render Dialect.sqlite.plain ⟨.ignore, i⟩ = .ok s ∧ s.sql = r.sql := by
  have hwell : e.WellFormed := Expr.validate_eq_ok_iff.1 h
  have hignore : (⟨.ignore, i⟩ : RenderOptions).level ≠ .raise := nofun
  refine ⟨_, _, hwell.render hignore, (Expr.sqliteForm_wellFormed hwell).render hignore, ?_⟩
  have htext := Style.text_sqliteForm (i := i) hwell fun n hn => by
    have := hk n hn
    cases hkind : n.kind <;> simp_all [Style.hasOwnText]
  exact (Dialect.spell_plain _ _).trans htext

/-- A query with a case-insensitive match, a sample and an offset without a
limit. -/
def sampledQuery : Expr :=
  .select { projections := [.ilike false (.column none ⟨"a", false⟩) (.literal (.string "x"))]
            source := some (.tableSample (.table none ⟨"t", false⟩ none) none (.literal (.int 10))
              .percent)
            offset := some (.literal (.int 5)) }

theorem sqlite_renders_base_of_form_sampled :
    sampledQuery.validate = .ok () ∧
      ∃ r s, sampledQuery.render .sqlite ⟨.ignore, true⟩ = .ok r ∧
        sampledQuery.sqliteForm.render Dialect.sqlite.plain ⟨.ignore, true⟩ = .ok s ∧
        s.sql = r.sql := by
  have hvalid : sampledQuery.validate = .ok () := by cbv
  exact ⟨hvalid, sqlite_renders_base_of_form _ true hvalid
    (by simp [sampledQuery, Expr.preorder_eq, Expr.children, Select.exprs, Expr.kind])⟩

end SqlDialect
