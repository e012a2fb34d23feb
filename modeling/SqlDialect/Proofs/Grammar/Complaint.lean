import SqlDialect.Grammar.Statement
import SqlDialect.Proofs.Lexeme.Offset

/-!
# SqlDialect.Proofs.Grammar.Complaint

Where the complaints of the grammar point.

* `About` -- a complaint that names the text and the offset of a lexeme, or no
  place at all.
* `Fair` -- the shape of every statement here: a reading complains about one of
  the lexemes that there are, and leaves none but these.
* `expression_fair`, `script_about` -- the results for expressions and scripts.

A production may have looked ahead, or may be one of several that were tried.
`Fair` says nothing of what was taken, so neither matters.
-/

namespace SqlDialect.Grammar

/-- What a complaint is about, if it is about a place: the text of one of the
lexemes, at its offset. -/
inductive About (all : List Lexeme) : ParseError → Prop where
  | token {t : Lexeme} {expected : Expected} (ht : t ∈ all) :
      About all (.unexpectedToken t.text expected t.offset)
  | number {t : Lexeme} (ht : t ∈ all) : About all (.invalidNumber t.text t.offset)
  | nowhere {e : ParseError} (he : e.offset? = none) : About all e

/-- A reading that fails complains about one of the lexemes, and one that
succeeds leaves none but these. -/
def Fair (all : List Lexeme) {α : Type} {n : Nat} (x : Reading α n) : Prop :=
  (∀ e, x = .error e → About all e) ∧ ∀ r, x = .ok r → r.rest ⊆ all

variable {all ts : List Lexeme}

namespace Fair

variable {α β : Type} {m n : Nat}

theorem ok {r : Read α n} (h : r.rest ⊆ all) : Fair all (.ok r) := by
  refine ⟨fun e he => ?_, fun s hs => ?_⟩
  · cases he
  · cases hs
    exact h

theorem error {e : ParseError} (h : About all e) : Fair all (.error e : Reading α n) := by
  refine ⟨fun f hf => ?_, fun r hr => ?_⟩
  · cases hf
    exact h
  · cases hr

/-- One reading behind another one. -/
theorem bind {x : Reading α m} {f : Read α m → Reading β n} (hx : Fair all x)
    (hf : ∀ a rest h, rest ⊆ all → Fair all (f ⟨a, rest, h⟩)) : Fair all (x >>= f) := by
  cases x with
  | error e => exact .error (hx.1 e rfl)
  | ok r => exact hf r.value r.rest r.lt (hx.2 r rfl)

end Fair

theorem unexpected_about (expected : Expected) (hts : ts ⊆ all) :
    About all (unexpected expected ts) := by
  cases ts with
  | nil => exact .nowhere rfl
  | cons t ts => exact .token (hts List.mem_cons_self)

/-! ## single lexemes -/

theorem accept_within (kind : LexemeKind) (hts : ts ⊆ all) :
    ∃ b rest h, accept kind ts = ⟨b, rest, h⟩ ∧ rest ⊆ all := by
  cases ts with
  | nil => exact ⟨false, [], Front.lt_succ [], rfl, hts⟩
  | cons t ts =>
    by_cases ht : t.kind = kind
    · simp only [accept, if_pos ht]
      exact ⟨true, ts, Nat.lt_succ_of_lt (Front.lt_cons t ts), rfl, List.subset_of_cons_subset hts⟩
    · simp only [accept, if_neg ht]
      exact ⟨false, t :: ts, Front.lt_succ _, rfl, hts⟩

theorem acceptKeyword_within (k : Keyword) (hts : ts ⊆ all) :
    ∃ b rest h, acceptKeyword k ts = ⟨b, rest, h⟩ ∧ rest ⊆ all :=
  accept_within (.keyword k) hts

theorem acceptKeyword_rest (k : Keyword) (hts : ts ⊆ all) : (acceptKeyword k ts).rest ⊆ all := by
  obtain ⟨b, rest, h, heq, hrest⟩ := acceptKeyword_within k hts
  rw [heq]
  exact hrest

theorem expect_fair (kind : LexemeKind) (expected : Expected) (hts : ts ⊆ all) :
    Fair all (expect kind expected ts) := by
  cases ts with
  | nil => exact .error (.nowhere rfl)
  | cons t ts =>
    unfold expect
    dsimp only
    split
    · exact .ok (List.subset_of_cons_subset hts)
    · exact .error (unexpected_about _ hts)

theorem expectKeyword_fair (k : Keyword) (hts : ts ⊆ all) : Fair all (expectKeyword k ts) :=
  expect_fair _ _ hts

/-! ## repetition -/

section

variable {α : Type} {n : Nat}

theorem commaList_fair {item : (ts : List Lexeme) → ts.length < n → Reading α ts.length}
    (hitem : ∀ ts h, ts ⊆ all → Fair all (item ts h)) (ts : List Lexeme) (h : ts.length < n)
    (hts : ts ⊆ all) : Fair all (commaList item ts h) := by
  rw [commaList]
  refine (hitem ts h hts).bind fun a rest h₁ hrest => ?_
  cases rest with
  | nil => exact .ok hrest
  | cons t rest =>
    have hlt : rest.length < ts.length := Front.tail_lt h₁
    dsimp only
    split
    · refine (commaList_fair hitem rest _ (List.subset_of_cons_subset hrest)).bind
        fun as rest₂ h₂ hrest₂ => ?_
      exact .ok hrest₂
    · exact .ok hrest
termination_by ts.length

theorem operators_fair {item : (ts : List Lexeme) → ts.length ≤ n → Reading α ts.length}
    {operator? : LexemeKind → Option (α → α → α)}
    (hitem : ∀ ts h, ts ⊆ all → Fair all (item ts h)) (left : α) (ts : List Lexeme)
    (h : ts.length ≤ n) (hts : ts ⊆ all) : Fair all (operators item operator? left ts h) := by
  cases ts with
  | nil =>
    rw [operators]
    exact .ok hts
  | cons t ts =>
    rw [operators]
    split
    · exact .ok hts
    · refine (hitem ts _ (List.subset_of_cons_subset hts)).bind fun b rest h₁ hrest => ?_
      have hlt : rest.length < (t :: ts).length := Nat.lt_succ_of_lt h₁
      refine (operators_fair hitem _ rest _ hrest).bind fun c rest₂ h₂ hrest₂ => ?_
      exact .ok hrest₂
termination_by ts.length

theorem leftAssoc_fair {item : (ts : List Lexeme) → ts.length ≤ n → Reading α ts.length}
    {operator? : LexemeKind → Option (α → α → α)}
    (hitem : ∀ ts h, ts ⊆ all → Fair all (item ts h)) (ts : List Lexeme) (h : ts.length ≤ n)
    (hts : ts ⊆ all) : Fair all (leftAssoc item operator? ts h) := by
  refine (hitem ts h hts).bind fun a rest h₁ hrest => ?_
  refine (operators_fair hitem a rest _ hrest).bind fun b rest₂ h₂ hrest₂ => ?_
  exact .ok hrest₂

end

/-! ## names and types -/

theorem ident_fair (expected : Expected) (hts : ts ⊆ all) : Fair all (ident expected ts) := by
  cases ts with
  | nil => exact .error (.nowhere rfl)
  | cons t ts =>
    unfold ident
    dsimp only
    split
    · exact .ok (List.subset_of_cons_subset hts)
    · exact .error (unexpected_about _ hts)

theorem tableName_fair (hts : ts ⊆ all) : Fair all (tableName ts) := by
  refine (ident_fair _ hts).bind fun i rest h₁ hrest => ?_
  cases rest with
  | nil => exact .ok hrest
  | cons u rest =>
    dsimp only
    split
    · refine (ident_fair _ (List.subset_of_cons_subset hrest)).bind fun j rest₂ h₂ hrest₂ => ?_
      exact .ok hrest₂
    · exact .ok hrest

theorem aliasName?_fair (hts : ts ⊆ all) : Fair all (aliasName? ts) := by
  cases ts with
  | nil => exact .ok hts
  | cons t ts =>
    unfold aliasName?
    dsimp only
    split
    · refine (ident_fair _ (List.subset_of_cons_subset hts)).bind fun i rest h hrest => ?_
      exact .ok hrest
    · split
      · refine (ident_fair _ hts).bind fun i rest h hrest => ?_
        exact .ok hrest
      · exact .ok hts

theorem typeParam_fair (hts : ts ⊆ all) : Fair all (typeParam ts) := by
  cases ts with
  | nil => exact .error (.nowhere rfl)
  | cons t ts =>
    unfold typeParam
    dsimp only
    split
    · exact .ok (List.subset_of_cons_subset hts)
    · exact .error (unexpected_about _ hts)

theorem words_within : (ts : List Lexeme) → ts ⊆ all → (words ts).rest ⊆ all
  | [], hts => hts
  | t :: ts, hts => by
    unfold words
    split
    · exact words_within ts (List.subset_of_cons_subset hts)
    · exact hts

theorem typeParams?_fair (hts : ts ⊆ all) : Fair all (typeParams? ts) := by
  cases ts with
  | nil => exact .ok hts
  | cons t ts =>
    unfold typeParams?
    dsimp only
    split
    · refine (commaList_fair (fun ts _ hts => typeParam_fair hts) ts _
        (List.subset_of_cons_subset hts)).bind fun p rest h hrest => ?_
      refine (expect_fair _ _ hrest).bind fun _ rest₂ h₂ hrest₂ => ?_
      exact .ok hrest₂
    · exact .ok hts

theorem dataType_fair (hts : ts ⊆ all) : Fair all (dataType ts) := by
  cases ts with
  | nil => exact .error (.nowhere rfl)
  | cons t ts =>
    unfold dataType
    dsimp only
    split
    · refine (typeParams?_fair (words_within ts (List.subset_of_cons_subset hts))).bind
        fun params rest h hrest => ?_
      dsimp only
      split
      · exact .ok hrest
      · exact .error (.nowhere rfl)
    · exact .error (unexpected_about _ hts)

/-- A number that is none is complained about by its text. -/
theorem numberOf_about {t : Lexeme} {e : ParseError} (ht : t ∈ all)
    (h : numberOf t = .error e) : About all e := by
  unfold numberOf at h
  dsimp only at h
  split at h
  · cases h
  · split at h <;> cases h
    exact .number ht

/-! ## lists and clauses -/

section

variable {d : Dialect} {n : Nat} {sub : Below n}

/-- What productions are given to read expressions with complains about the
lexemes only. -/
def FairBelow (all : List Lexeme) (sub : Below n) : Prop :=
  ∀ level ts h, ts ⊆ all → Fair all (sub level ts h)

variable (hsub : FairBelow all sub)
include hsub

theorem orderItem_fair (ts : List Lexeme) (h : ts.length < n) (hts : ts ⊆ all) :
    Fair all (orderItem sub ts h) := by
  refine (hsub .loose ts h hts).bind fun e rest h₁ hrest => ?_
  cases rest with
  | nil => exact .ok hrest
  | cons t rest =>
    dsimp only
    split
    · exact .ok (List.subset_of_cons_subset hrest)
    · exact .ok (List.subset_of_cons_subset hrest)
    · exact .ok hrest

theorem exprList_fair (ts : List Lexeme) (h : ts.length < n) (hts : ts ⊆ all) :
    Fair all (exprList sub ts h) :=
  commaList_fair (hsub .loose) ts h hts

theorem ordering_fair (ts : List Lexeme) (h : ts.length < n) (hts : ts ⊆ all) :
    Fair all (ordering sub ts h) := by
  refine (expectKeyword_fair .BY hts).bind fun _ rest h₁ hrest => ?_
  refine (commaList_fair (orderItem_fair hsub) rest _ hrest).bind fun p rest₂ h₂ hrest₂ => ?_
  exact .ok hrest₂

theorem clause?_fair (k : Keyword) (ts : List Lexeme) (h : ts.length < n) (hts : ts ⊆ all) :
    Fair all (clause? sub k ts h) := by
  unfold clause?
  obtain ⟨b, rest, h₁, heq, hrest⟩ := acceptKeyword_within k hts
  simp only [heq]
  cases b with
  | false => exact .ok hrest
  | true =>
    refine (hsub .loose rest _ hrest).bind fun e rest₂ h₂ hrest₂ => ?_
    exact .ok hrest₂

theorem groupClause_fair (ts : List Lexeme) (h : ts.length < n) (hts : ts ⊆ all) :
    Fair all (groupClause sub ts h) := by
  unfold groupClause
  obtain ⟨b, rest, h₁, heq, hrest⟩ := acceptKeyword_within .GROUP hts
  simp only [heq]
  cases b with
  | false => exact .ok hrest
  | true =>
    refine (expectKeyword_fair .BY hrest).bind fun _ rest₂ h₂ hrest₂ => ?_
    refine (exprList_fair hsub rest₂ _ hrest₂).bind fun p rest₃ h₃ hrest₃ => ?_
    exact .ok hrest₃

theorem orderClause_fair (ts : List Lexeme) (h : ts.length < n) (hts : ts ⊆ all) :
    Fair all (orderClause sub ts h) := by
  unfold orderClause
  obtain ⟨b, rest, h₁, heq, hrest⟩ := acceptKeyword_within .ORDER hts
  simp only [heq]
  cases b with
  | false => exact .ok hrest
  | true =>
    refine (ordering_fair hsub rest _ hrest).bind fun p rest₂ h₂ hrest₂ => ?_
    exact .ok hrest₂

/-! ## row limits -/

theorem limitClause_fair (ts : List Lexeme) (h : ts.length < n) (hts : ts ⊆ all) :
    Fair all (limitClause sub ts h) := by
  unfold limitClause
  obtain ⟨b, rest, h₁, heq, hrest⟩ := acceptKeyword_within .LIMIT hts
  simp only [heq]
  cases b with
  | false => exact .ok hrest
  | true =>
    refine (hsub .loose rest _ hrest).bind fun e rest₂ h₂ hrest₂ => ?_
    obtain ⟨b, rest₃, h₃, heq, hrest₃⟩ := accept_within .comma hrest₂
    simp only [heq]
    cases b with
    | false => exact .ok hrest₃
    | true =>
      refine (hsub .loose rest₃ _ hrest₃).bind fun count rest₄ h₄ hrest₄ => ?_
      exact .ok hrest₄

theorem offsetClause_fair (ts : List Lexeme) (h : ts.length < n) (hts : ts ⊆ all) :
    Fair all (offsetClause sub ts h) := by
  refine (clause?_fair hsub .OFFSET ts h hts).bind fun e rest h₁ hrest => ?_
  cases e with
  | none => exact .ok hrest
  | some e =>
    dsimp only
    obtain ⟨b, rest₂, h₂, heq, hrest₂⟩ := acceptKeyword_within .ROWS hrest
    simp only [heq]
    cases b with
    | true => exact .ok hrest₂
    | false =>
      obtain ⟨b, rest₃, h₃, heq, hrest₃⟩ := acceptKeyword_within .ROW hrest₂
      simp only [heq]
      exact .ok hrest₃

omit hsub in
theorem fetchDirection_fair (hts : ts ⊆ all) : Fair all (fetchDirection ts) := by
  cases ts with
  | nil => exact .error (.nowhere rfl)
  | cons t ts =>
    unfold fetchDirection
    dsimp only
    split
    · exact .ok (List.subset_of_cons_subset hts)
    · exact .ok (List.subset_of_cons_subset hts)
    · exact .error (unexpected_about _ hts)

omit hsub in
theorem rowsWord_fair (hts : ts ⊆ all) : Fair all (rowsWord ts) := by
  unfold rowsWord
  obtain ⟨b, rest, h₁, heq, hrest⟩ := acceptKeyword_within .ROWS hts
  simp only [heq]
  cases b with
  | true => exact .ok hrest
  | false =>
    refine (expectKeyword_fair .ROW hrest).bind fun _ rest₂ h₂ hrest₂ => ?_
    exact .ok hrest₂

theorem fetchCount_fair (ts : List Lexeme) (h : ts.length < n) (hts : ts ⊆ all) :
    Fair all (fetchCount sub ts h) := by
  unfold fetchCount
  split
  · exact .ok hts
  · refine (hsub .tight ts h hts).bind fun e rest h₁ hrest => ?_
    exact .ok hrest

theorem fetch_fair (ts : List Lexeme) (h : ts.length < n) (hts : ts ⊆ all) :
    Fair all (fetch sub ts h) := by
  refine (fetchDirection_fair hts).bind fun direction ts₁ h₁ hts₁ => ?_
  refine (fetchCount_fair hsub ts₁ _ hts₁).bind fun count ts₂ h₂ hts₂ => ?_
  refine (rowsWord_fair (acceptKeyword_rest .PERCENT hts₂)).bind fun _ ts₄ h₄ hts₄ => ?_
  refine (expectKeyword_fair _ (acceptKeyword_rest .WITH hts₄)).bind fun _ ts₆ h₆ hts₆ => ?_
  exact .ok hts₆

theorem fetchClause_fair (ts : List Lexeme) (h : ts.length < n) (hts : ts ⊆ all) :
    Fair all (fetchClause sub ts h) := by
  unfold fetchClause
  obtain ⟨b, rest, h₁, heq, hrest⟩ := acceptKeyword_within .FETCH hts
  simp only [heq]
  cases b with
  | false => exact .ok hrest
  | true =>
    refine (fetch_fair hsub rest _ hrest).bind fun e rest₂ h₂ hrest₂ => ?_
    exact .ok hrest₂

theorem rowLimit_fair (ts : List Lexeme) (h : ts.length < n) (hts : ts ⊆ all) :
    Fair all (rowLimit sub ts h) := by
  refine (limitClause_fair hsub ts h hts).bind fun p ts₁ h₁ hts₁ => ?_
  obtain ⟨limit, offset⟩ := p
  -- what the first clause gave is not looked for again
  cases limit with
  | some l =>
    cases offset with
    | some o => exact .ok hts₁
    | none => exact (offsetClause_fair hsub ts₁ _ hts₁).bind fun o ts₂ h₂ hts₂ => .ok hts₂
  | none =>
    cases offset with
    | some o => exact (fetchClause_fair hsub ts₁ _ hts₁).bind fun l ts₂ h₂ hts₂ => .ok hts₂
    | none =>
      refine (offsetClause_fair hsub ts₁ _ hts₁).bind fun o ts₂ h₂ hts₂ => ?_
      exact (fetchClause_fair hsub ts₂ _ hts₂).bind fun l ts₃ h₃ hts₃ => .ok hts₃

/-! ## queries -/

theorem projection_fair (ts : List Lexeme) (h : ts.length < n) (hts : ts ⊆ all) :
    Fair all (projection sub ts h) := by
  have haliased : Fair all (aliasedExpr sub ts h) := by
    refine (hsub .loose ts h hts).bind fun e ts₁ h₁ hts₁ => ?_
    refine (aliasName?_fair hts₁).bind fun name ts₂ h₂ hts₂ => ?_
    cases name <;> exact .ok hts₂
  cases ts with
  | nil => exact haliased
  | cons t ts =>
    unfold projection
    dsimp only
    split
    · exact .ok (List.subset_of_cons_subset hts)
    · exact haliased

theorem sampled_fair (table : Expr) (ts : List Lexeme) (h : ts.length < n) (hts : ts ⊆ all) :
    Fair all (sampled sub table ts h) := by
  have hmethod (us : List Lexeme) (hus : us ⊆ all) : (sampleMethod us).rest ⊆ all := by
    cases us with
    | nil => exact hus
    | cons u us =>
      unfold sampleMethod
      dsimp only
      split
      · exact List.subset_of_cons_subset hus
      · exact hus
  have hunit (us : List Lexeme) (hus : us ⊆ all) : (sampleUnit us).rest ⊆ all := by
    unfold sampleUnit
    obtain ⟨b, rest, h₁, heq, hrest⟩ := acceptKeyword_within .ROWS hus
    simp only [heq]
    cases b with
    | true => exact hrest
    | false =>
      obtain ⟨b, rest₂, h₂, heq, hrest₂⟩ := acceptKeyword_within .PERCENT hrest
      simp only [heq]
      exact hrest₂
  unfold sampled
  obtain ⟨b, ts₁, h₁, heq, hts₁⟩ := acceptKeyword_within .TABLESAMPLE hts
  simp only [heq]
  cases b with
  | false => exact .ok hts₁
  | true =>
    refine (expect_fair _ _ (hmethod ts₁ hts₁)).bind fun _ ts₃ h₃ hts₃ => ?_
    refine (hsub .loose ts₃ _ hts₃).bind fun size ts₄ h₄ hts₄ => ?_
    refine (expect_fair _ _ (hunit ts₄ hts₄)).bind fun _ ts₆ h₆ hts₆ => ?_
    exact .ok hts₆

theorem sourceClause_fair (ts : List Lexeme) (h : ts.length < n) (hts : ts ⊆ all) :
    Fair all (sourceClause sub ts h) := by
  unfold sourceClause
  obtain ⟨b, ts₁, h₁, heq, hts₁⟩ := acceptKeyword_within .FROM hts
  simp only [heq]
  cases b with
  | false => exact .ok hts₁
  | true =>
    have htable : Fair all (tableSource sub ts₁ (by omega)) := by
      refine (tableName_fair hts₁).bind fun p ts₂ h₂ hts₂ => ?_
      refine (aliasName?_fair hts₂).bind fun name ts₃ h₃ hts₃ => ?_
      refine (sampled_fair hsub _ ts₃ _ hts₃).bind fun e ts₄ h₄ hts₄ => ?_
      exact .ok hts₄
    exact htable.bind fun e ts₂ h₂ hts₂ => .ok hts₂

theorem query_fair (ts : List Lexeme) (h : ts.length < n) (hts : ts ⊆ all) :
    Fair all (query sub ts h) := by
  have hts₁ := acceptKeyword_rest .DISTINCT hts
  refine (commaList_fair (projection_fair hsub) _ _ hts₁).bind fun p ts₂ h₂ hts₂ => ?_
  refine (sourceClause_fair hsub ts₂ _ hts₂).bind fun source ts₃ h₃ hts₃ => ?_
  refine (clause?_fair hsub .WHERE ts₃ _ hts₃).bind fun filter ts₄ h₄ hts₄ => ?_
  refine (groupClause_fair hsub ts₄ _ hts₄).bind fun groupBy ts₅ h₅ hts₅ => ?_
  refine (clause?_fair hsub .HAVING ts₅ _ hts₅).bind fun having ts₆ h₆ hts₆ => ?_
  refine (orderClause_fair hsub ts₆ _ hts₆).bind fun orderBy ts₇ h₇ hts₇ => ?_
  refine (rowLimit_fair hsub ts₇ _ hts₇).bind fun limits ts₈ h₈ hts₈ => ?_
  exact .ok hts₈

/-! ## operands -/

theorem separator?_fair (ts : List Lexeme) (h : ts.length < n) (hts : ts ⊆ all) :
    Fair all (separator? sub ts h) := by
  cases ts with
  | nil => exact .ok hts
  | cons t ts =>
    unfold separator?
    dsimp only
    split
    · refine (hsub .loose ts _ (List.subset_of_cons_subset hts)).bind fun e rest h₁ hrest => ?_
      exact .ok hrest
    · exact .ok hts

theorem callArgs_fair (ts : List Lexeme) (h : ts.length < n) (hts : ts ⊆ all) :
    Fair all (callArgs sub ts h) := by
  unfold callArgs
  split
  · refine (expect_fair _ _ hts).bind fun _ ts₁ h₁ hts₁ => ?_
    exact .ok hts₁
  · have hts₁ := acceptKeyword_rest .DISTINCT hts
    refine (exprList_fair hsub _ _ hts₁).bind fun p ts₂ h₂ hts₂ => ?_
    refine (orderClause_fair hsub ts₂ _ hts₂).bind fun items ts₃ h₃ hts₃ => ?_
    refine (separator?_fair hsub ts₃ _ hts₃).bind fun s ts₄ h₄ hts₄ => ?_
    refine (expect_fair _ _ hts₄).bind fun _ ts₅ h₅ hts₅ => ?_
    exact .ok hts₅

omit hsub in
theorem columnOf_fair (table : Ident) (hts : ts ⊆ all) : Fair all (columnOf table ts) := by
  cases ts with
  | nil => exact .error (.nowhere rfl)
  | cons t ts =>
    unfold columnOf
    dsimp only
    split
    · exact .ok (List.subset_of_cons_subset hts)
    · refine (ident_fair _ hts).bind fun i rest h₁ hrest => ?_
      exact .ok hrest

theorem whenBranches_fair (ts : List Lexeme) (h : ts.length < n) (hts : ts ⊆ all) :
    Fair all (whenBranches sub ts h) := by
  rw [whenBranches]
  obtain ⟨b, ts₁, h₁, heq, hts₁⟩ := acceptKeyword_within .WHEN hts
  simp only [heq]
  cases b with
  | false => exact .ok hts₁
  | true =>
    refine (hsub .loose ts₁ _ hts₁).bind fun a ts₂ h₂ hts₂ => ?_
    refine (expectKeyword_fair .THEN hts₂).bind fun _ ts₃ h₃ hts₃ => ?_
    refine (hsub .loose ts₃ _ hts₃).bind fun b ts₄ h₄ hts₄ => ?_
    have hlt : ts₄.length < ts.length := by omega
    refine (whenBranches_fair ts₄ _ hts₄).bind fun ws ts₅ h₅ hts₅ => ?_
    exact .ok hts₅
termination_by ts.length

theorem caseExpr_fair (ts : List Lexeme) (h : ts.length < n) (hts : ts ⊆ all) :
    Fair all (caseExpr sub ts h) := by
  have hoperand : Fair all (caseOperand sub ts h) := by
    unfold caseOperand
    split
    · exact .ok hts
    · exact (hsub .loose ts h hts).bind fun e rest h₁ hrest => .ok hrest
  refine hoperand.bind fun operand ts₁ h₁ hts₁ => ?_
  refine (whenBranches_fair hsub ts₁ _ hts₁).bind fun ws ts₂ h₂ hts₂ => ?_
  dsimp only
  split
  · exact .error (unexpected_about _ hts₂)
  · refine (clause?_fair hsub .ELSE ts₂ _ hts₂).bind fun otherwise ts₃ h₃ hts₃ => ?_
    refine (expectKeyword_fair .END hts₃).bind fun _ ts₄ h₄ hts₄ => ?_
    exact .ok hts₄

theorem castParts_fair (ts : List Lexeme) (h : ts.length < n) (hts : ts ⊆ all) :
    Fair all (castParts sub ts h) := by
  refine (expect_fair _ _ hts).bind fun _ ts₁ h₁ hts₁ => ?_
  refine (hsub .loose ts₁ _ hts₁).bind fun e ts₂ h₂ hts₂ => ?_
  refine (expectKeyword_fair .AS hts₂).bind fun _ ts₃ h₃ hts₃ => ?_
  refine (dataType_fair hts₃).bind fun type ts₄ h₄ hts₄ => ?_
  refine (expect_fair _ _ hts₄).bind fun _ ts₅ h₅ hts₅ => ?_
  exact .ok hts₅

theorem parenthesized_fair (ts : List Lexeme) (h : ts.length < n) (hts : ts ⊆ all) :
    Fair all (parenthesized sub ts h) := by
  have hinner : Fair all (queryOrExpr sub ts h) := by
    unfold queryOrExpr
    obtain ⟨b, ts₁, h₁, heq, hts₁⟩ := acceptKeyword_within .SELECT hts
    simp only [heq]
    cases b with
    | true => exact (query_fair hsub ts₁ _ hts₁).bind fun q ts₂ h₂ hts₂ => .ok hts₂
    | false => exact hsub .loose ts h hts
  refine hinner.bind fun e ts₁ h₁ hts₁ => ?_
  refine (expect_fair _ _ hts₁).bind fun _ ts₂ h₂ hts₂ => ?_
  exact .ok hts₂

/-! ## calls and what holds them -/

omit hsub in
/-- A usual function refuses a call for its arguments, which is about no place. -/
theorem call_about (hd : d.UsualFunctions) {name : String} {es : List Expr} {e : ParseError}
    (h : d.call name es = .error e) : About all e := by
  rcases hd.call_cases name es with ⟨k, hk⟩ | hplain
  · rw [hk] at h
    unfold CallKind.build at h
    split at h
    case h_7 =>
      split at h <;> cases h
      exact .nowhere rfl
    case h_18 =>
      cases h
      exact .nowhere rfl
    all_goals cases h
  · rw [hplain] at h
    cases h

variable (hd : d.UsualFunctions)
include hd

theorem columnOrCall_fair (ts : List Lexeme) (h : ts.length ≤ n) (hts : ts ⊆ all) :
    Fair all (columnOrCall d sub ts h) := by
  refine (ident_fair _ hts).bind fun name rest h₁ hrest => ?_
  cases rest with
  | nil => exact .ok hrest
  | cons u rest =>
    have hrest' := List.subset_of_cons_subset hrest
    dsimp only
    split
    · refine (callArgs_fair hsub rest _ hrest').bind fun es ts₁ h₂ hts₁ => ?_
      dsimp only
      cases he : d.call name.name es with
      | error => exact .error (call_about hd he)
      | ok e => exact .ok hts₁
    · split
      · exact (columnOf_fair name hrest').bind fun e ts₁ h₂ hts₁ => .ok hts₁
      · exact .ok hrest

theorem primary_fair (ts : List Lexeme) (h : ts.length ≤ n) (hts : ts ⊆ all) :
    Fair all (primary d sub ts h) := by
  cases ts with
  | nil => exact .error (.nowhere rfl)
  | cons t ts =>
    have hrest := List.subset_of_cons_subset hts
    unfold primary
    dsimp only
    split
    case h_1 =>
      cases hn : numberOf t with
      | error => exact .error (numberOf_about (hts List.mem_cons_self) hn)
      | ok v => exact .ok hrest
    case h_9 => exact (caseExpr_fair hsub ts _ hrest).bind fun e ts₁ h₁ hts₁ => .ok hts₁
    case h_10 => exact (castParts_fair hsub ts _ hrest).bind fun p ts₁ h₁ hts₁ => .ok hts₁
    case h_11 => exact (castParts_fair hsub ts _ hrest).bind fun p ts₁ h₁ hts₁ => .ok hts₁
    case h_12 => exact (parenthesized_fair hsub ts _ hrest).bind fun e ts₁ h₁ hts₁ => .ok hts₁
    case h_13 => exact columnOrCall_fair hsub hd (t :: ts) h hts
    all_goals exact .ok hrest

/-! ## levels of precedence -/

theorem signed_fair (ts : List Lexeme) (h : ts.length ≤ n) (hts : ts ⊆ all) :
    Fair all (signed d sub ts h) := by
  induction ts with
  | nil => exact primary_fair hsub hd [] h hts
  | cons t ts ih =>
    unfold signed
    split
    · exact (ih _ (List.subset_of_cons_subset hts)).bind fun e rest h₁ hrest => .ok hrest
    · exact primary_fair hsub hd (t :: ts) h hts

theorem sum_fair (ts : List Lexeme) (h : ts.length ≤ n) (hts : ts ⊆ all) :
    Fair all (sum d sub ts h) :=
  leftAssoc_fair (leftAssoc_fair (leftAssoc_fair (signed_fair hsub hd))) ts h hts

theorem predicate_fair (p : Predicate) (negated : Bool) (left : Expr) (ts : List Lexeme)
    (h : ts.length < n) (hts : ts ⊆ all) : Fair all (predicate d sub p negated left ts h) := by
  unfold predicate
  cases p with
  | like => exact (sum_fair hsub hd ts _ hts).bind fun b rest h₁ hrest => .ok hrest
  | ilike => exact (sum_fair hsub hd ts _ hts).bind fun b rest h₁ hrest => .ok hrest
  | between =>
    refine (sum_fair hsub hd ts _ hts).bind fun low ts₁ h₁ hts₁ => ?_
    refine (expectKeyword_fair .AND hts₁).bind fun _ ts₂ h₂ hts₂ => ?_
    refine (sum_fair hsub hd ts₂ _ hts₂).bind fun high ts₃ h₃ hts₃ => ?_
    exact .ok hts₃
  | inList =>
    refine (expect_fair _ _ hts).bind fun _ ts₁ h₁ hts₁ => ?_
    refine (exprList_fair hsub ts₁ _ hts₁).bind fun p ts₂ h₂ hts₂ => ?_
    refine (expect_fair _ _ hts₂).bind fun _ ts₃ h₃ hts₃ => ?_
    exact .ok hts₃

omit hsub hd in
theorem nullTest_fair (left : Expr) (hts : ts ⊆ all) : Fair all (nullTest left ts) := by
  have hts₁ := acceptKeyword_rest .NOT hts
  exact (expectKeyword_fair .NULL hts₁).bind fun _ ts₂ h₂ hts₂ => .ok hts₂

/-- Whatever test a lexeme starts complains about a lexeme behind it, also where
`NOT` was looked past. -/
theorem test?_fair (left : Expr) (t : Lexeme) (ts : List Lexeme) (h : ts.length < n)
    (hts : ts ⊆ all) : ∀ x, test? d sub left t ts h = some x → Fair all x := by
  unfold test?
  split
  · intro x hx
    obtain rfl := Option.some.inj hx
    exact (sum_fair hsub hd ts _ hts).bind fun b rest h₁ hrest => .ok hrest
  · split
    · intro x hx
      obtain rfl := Option.some.inj hx
      exact predicate_fair hsub hd _ false left ts h hts
    · generalize t.kind = kind
      split
      · intro x hx
        obtain rfl := Option.some.inj hx
        exact nullTest_fair left hts
      case h_2 u us hlt =>
        intro x hx
        obtain ⟨p, hp, rfl⟩ := Option.map_eq_some_iff.1 hx
        exact (predicate_fair hsub hd p true left us _ (List.subset_of_cons_subset hts)).bind
          fun e rest h₁ hrest => .ok hrest
      · intro x hx
        cases hx

theorem tests_fair (left : Expr) (ts : List Lexeme) (h : ts.length ≤ n) (hts : ts ⊆ all) :
    Fair all (tests d sub left ts h) := by
  cases ts with
  | nil =>
    rw [tests]
    exact .ok hts
  | cons t ts =>
    rw [tests]
    split
    · exact .ok hts
    case h_2 x hx =>
      refine (test?_fair hsub hd left t ts _ (List.subset_of_cons_subset hts) x hx).bind
        fun e rest h₁ hrest => ?_
      have hlt : rest.length < (t :: ts).length := Nat.lt_succ_of_lt h₁
      exact (tests_fair e rest _ hrest).bind fun f rest₂ h₂ hrest₂ => .ok hrest₂
termination_by ts.length

theorem negation_fair (ts : List Lexeme) (h : ts.length ≤ n) (hts : ts ⊆ all) :
    Fair all (negation d sub ts h) := by
  have hcomparison (us : List Lexeme) (h : us.length ≤ n) (hus : us ⊆ all) :
      Fair all (comparison d sub us h) := by
    refine (sum_fair hsub hd us h hus).bind fun a rest h₁ hrest => ?_
    exact (tests_fair hsub hd a rest _ hrest).bind fun e rest₂ h₂ hrest₂ => .ok hrest₂
  induction ts with
  | nil => exact hcomparison [] h hts
  | cons t ts ih =>
    unfold negation
    split
    · exact (ih _ (List.subset_of_cons_subset hts)).bind fun e rest h₁ hrest => .ok hrest
    · exact hcomparison (t :: ts) h hts

theorem disjunction_fair (ts : List Lexeme) (h : ts.length ≤ n) (hts : ts ⊆ all) :
    Fair all (disjunction d sub ts h) :=
  leftAssoc_fair (leftAssoc_fair (negation_fair hsub hd)) ts h hts

end

/-- An expression that is not read is complained about where one of its lexemes
stands. -/
theorem expression_fair {d : Dialect} (hd : d.UsualFunctions) (level : Level) (ts : List Lexeme) (hts : ts ⊆ all) :
    Fair all (expression d level ts) := by
  have hsub : FairBelow all (n := ts.length) fun level ts _ => expression d level ts :=
    fun level us _ hus => expression_fair hd level us hus
  cases level with
  | loose => rw [expression]; exact disjunction_fair hsub hd ts _ hts
  | tight => rw [expression]; exact signed_fair hsub hd ts _ hts
termination_by ts.length

/-! ## statements -/

section

variable {d : Dialect} (hd : d.UsualFunctions)
include hd

theorem constraint?_fair (t : Lexeme) (hts : ts ⊆ all) :
    ∀ x, constraint? d t ts = some x → Fair all x := by
  intro x hx
  unfold constraint? at hx
  split at hx
  case h_1 =>
    cases hx
    refine (expectKeyword_fair .KEY hts).bind fun _ ts₁ h₁ hts₁ => ?_
    have hskip : (skipDirection ts₁).rest ⊆ all := by
      unfold skipDirection
      obtain ⟨b, rest, h₂, heq, hrest⟩ := acceptKeyword_within .ASC hts₁
      simp only [heq]
      cases b with
      | true => exact hrest
      | false =>
        obtain ⟨b, rest₂, h₃, heq, hrest₂⟩ := acceptKeyword_within .DESC hrest
        simp only [heq]
        exact hrest₂
    exact .ok hskip
  case h_2 =>
    cases hx
    exact (expectKeyword_fair .NULL hts).bind fun _ ts₁ h₁ hts₁ => .ok hts₁
  case h_6 =>
    cases hx
    exact (expression_fair hd .tight ts hts).bind fun e ts₁ h₁ hts₁ => .ok hts₁
  case h_7 => cases hx
  all_goals
    cases hx
    exact .ok hts

theorem constraints_fair (ts : List Lexeme) (hts : ts ⊆ all) : Fair all (constraints d ts) := by
  cases ts with
  | nil =>
    rw [constraints]
    exact .ok hts
  | cons t ts =>
    rw [constraints]
    split
    · exact .ok hts
    case h_2 x hx =>
      refine (constraint?_fair hd t (List.subset_of_cons_subset hts) x hx).bind
        fun k rest h₁ hrest => ?_
      have hlt : rest.length < (t :: ts).length := h₁
      exact (constraints_fair rest hrest).bind fun ks rest₂ h₂ hrest₂ => .ok hrest₂
termination_by ts.length

theorem columnDef_fair (hts : ts ⊆ all) : Fair all (columnDef d ts) := by
  have htype (us : List Lexeme) (hus : us ⊆ all) : Fair all (columnType? us) := by
    unfold columnType?
    split
    · exact (dataType_fair hus).bind fun type rest h₁ hrest => .ok hrest
    · exact .ok hus
  refine (ident_fair _ hts).bind fun i ts₁ h₁ hts₁ => ?_
  refine (htype ts₁ hts₁).bind fun type ts₂ h₂ hts₂ => ?_
  refine (constraints_fair hd ts₂ hts₂).bind fun ks ts₃ h₃ hts₃ => ?_
  exact .ok hts₃

theorem createTable_fair (hts : ts ⊆ all) : Fair all (createTable d ts) := by
  have hcondition (us : List Lexeme) (hus : us ⊆ all) : Fair all (ifNotExists us) := by
    unfold ifNotExists
    obtain ⟨b, rest, h₁, heq, hrest⟩ := acceptKeyword_within .IF hus
    simp only [heq]
    cases b with
    | false => exact .ok hrest
    | true =>
      refine (expectKeyword_fair .NOT hrest).bind fun _ ts₁ h₂ hts₁ => ?_
      exact (expectKeyword_fair .EXISTS hts₁).bind fun _ ts₂ h₃ hts₂ => .ok hts₂
  refine (expectKeyword_fair .TABLE hts).bind fun _ ts₁ h₁ hts₁ => ?_
  refine (hcondition ts₁ hts₁).bind fun conditional ts₂ h₂ hts₂ => ?_
  refine (tableName_fair hts₂).bind fun p ts₃ h₃ hts₃ => ?_
  refine (expect_fair _ _ hts₃).bind fun _ ts₄ h₄ hts₄ => ?_
  refine (commaList_fair (fun ts _ hts => columnDef_fair hd hts) ts₄ _ hts₄).bind
    fun cs ts₅ h₅ hts₅ => ?_
  exact (expect_fair _ _ hts₅).bind fun _ ts₆ h₆ hts₆ => .ok hts₆

theorem statement_fair (ts : List Lexeme) (hts : ts ⊆ all) : Fair all (statement d ts) := by
  cases ts with
  | nil => exact .error (.nowhere rfl)
  | cons t ts =>
    have hrest := List.subset_of_cons_subset hts
    unfold statement
    dsimp only
    split
    case h_1 =>
      have hsub : FairBelow all (within d (ts.length + 1)) :=
        fun level us _ hus => expression_fair hd level us hus
      exact (query_fair hsub ts _ hrest).bind fun q rest h₁ hrest₁ => .ok hrest₁
    case h_2 =>
      obtain ⟨b, rest, h₁, heq, hrest₁⟩ :=
        acceptKeyword_within .TRANSACTION (words_within ts hrest)
      refine .ok ?_
      simp only [beginning, heq]
      exact hrest₁
    case h_3 | h_4 =>
      obtain ⟨b, rest, h₁, heq, hrest₁⟩ := acceptKeyword_within .TRANSACTION hrest
      refine .ok ?_
      simp only [ending, heq]
      exact hrest₁
    case h_5 => exact (createTable_fair hd hrest).bind fun e rest h₁ hrest₁ => .ok hrest₁
    case h_6 => exact .error (unexpected_about _ hts)

/-- A script that is not read is complained about where one of its lexemes
stands. -/
theorem script_about (ts : List Lexeme) (hts : ts ⊆ all) :
    ∀ e, script d ts = .error e → About all e := by
  intro e he
  cases ts with
  | nil => rw [script] at he; cases he
  | cons t ts =>
    have hlt : ts.length < (t :: ts).length := Nat.lt_succ_self _
    rw [script] at he
    split at he
    · exact script_about ts (List.subset_of_cons_subset hts) e he
    · obtain ⟨herror, hok⟩ := statement_fair hd (t :: ts) hts
      simp only [bind, Except.bind] at he
      cases hst : statement d (t :: ts) with
      | error f =>
        rw [hst] at he
        cases he
        exact herror e hst
      | ok r =>
        have hrest := hok r hst
        rw [hst] at he
        obtain ⟨first, rest, h₁⟩ := r
        dsimp only at he hrest
        cases rest with
        | nil => cases he
        | cons u rest =>
          dsimp only at he
          split at he
          · have hlt' : rest.length < (t :: ts).length := Nat.lt_of_succ_lt h₁
            cases hscript : script d rest with
            | error f =>
              rw [hscript] at he
              cases he
              exact script_about rest (List.subset_of_cons_subset hrest) e hscript
            | ok others =>
              rw [hscript] at he
              cases he
          · cases he
            exact unexpected_about _ hrest
termination_by ts.length

end

end SqlDialect.Grammar
