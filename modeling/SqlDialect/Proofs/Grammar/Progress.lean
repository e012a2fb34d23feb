import Mathlib
import SqlDialect.Dialect.Builtin
import SqlDialect.Proofs.Grammar.Loop

/-!
# SqlDialect.Proofs.Grammar.Progress

Reading always gets ahead, and never past the end.

* `nested_eq_expression` -- expressions inside expressions are nested no deeper
  than there are lexemes.
* `Loop` -- the loops of the grammar, in one table.
* `listedArgs_eq` -- the arguments of a call as a list that grows and has its
  first element taken away: there always is one.
* `reading_makes_progress` -- all of it.
-/

namespace SqlDialect.Grammar

section

variable (d : Dialect)

/-! ## nesting -/

/-- Reading an expression with no more than so many expressions inside one
another.  What is further in is left to `bottom`. -/
def nested (bottom : (level : Level) → (ts : List Lexeme) → Reading Expr ts.length) :
    Nat → (level : Level) → (ts : List Lexeme) → Reading Expr ts.length
  | 0, level, ts => bottom level ts
  | k + 1, .loose, ts =>
    disjunction d (fun level us _ => nested bottom k level us) ts (Front.le_self ts)
  | k + 1, .tight, ts => signed d (fun level us _ => nested bottom k level us) ts (Front.le_self ts)

/-- Every expression inside another one is read in fewer lexemes, so what is
left to `bottom` is never asked for. -/
theorem nested_eq_expression
    (bottom : (level : Level) → (ts : List Lexeme) → Reading Expr ts.length) (k : Nat)
    (level : Level) (ts : List Lexeme) (hk : ts.length < k) :
    nested d bottom k level ts = expression d level ts := by
  induction k generalizing level ts with
  | zero => exact absurd hk (Nat.not_lt_zero _)
  | succ k ih =>
    -- productions only ever ask for expressions in strictly fewer lexemes
    have hbelow : (fun level us _ => nested d bottom k level us : Below ts.length) =
        fun level us _ => expression d level us := by
      funext level us hlt
      exact ih level us (by omega)
    cases level with
    | loose => rw [nested, expression, hbelow]
    | tight => rw [nested, expression, hbelow]

/-! ## loops -/

/-- The loops of the grammar, each with its turn and the reader that repeats
it. -/
inductive Loop (n : Nat) : {σ : Type} → {m : Nat} →
    (Read σ m → Except ParseError (Turn σ m)) → (Read σ m → Reading σ m) → Prop where
  | exprs : Loop n (itemRound (within d n .loose)).turn (moreItems (within d n .loose))
  | orderItems :
      Loop n (itemRound (orderItem (within d n))).turn (moreItems (orderItem (within d n)))
  | projections :
      Loop n (itemRound (projection (within d n))).turn (moreItems (projection (within d n)))
  | columns : Loop n (itemRound (n := n) fun ts _ => columnDef d ts).turn
      (moreItems fun ts _ => columnDef d ts)
  | typeParams : Loop n (itemRound (n := n) fun ts _ => typeParam ts).turn
      (moreItems fun ts _ => typeParam ts)
  | words : Loop n (Round.turn (wordRound (n := n))) moreWords
  | demands : Loop n (Round.turn (demandRound d (n := n))) (moreDemands d)
  | branches : Loop n (branchRound (within d n)).turn (moreBranches (within d n))
  | joins : Loop n (operatorRound (signed d (within d n)) joinOperator?).turn
      (moreOperators (signed d (within d n)) joinOperator?)
  | products : Loop n (operatorRound (joined d (within d n)) productOperator?).turn
      (moreOperators (joined d (within d n)) productOperator?)
  | sums : Loop n (operatorRound (product d (within d n)) sumOperator?).turn
      (moreOperators (product d (within d n)) sumOperator?)
  | tests : Loop n (testRound d (within d n)).turn (moreTests d (within d n))
  | conjunctions : Loop n (operatorRound (negation d (within d n)) andOperator?).turn
      (moreOperators (negation d (within d n)) andOperator?)
  | disjunctions : Loop n (operatorRound (conjunction d (within d n)) orOperator?).turn
      (moreOperators (conjunction d (within d n)) orOperator?)
  | semicolons : Loop n (Round.turn (semicolonRound (n := n))) moreSemicolons
  | statements : Loop n (statementTurn d (n := n)) (moreStatements d)

namespace Loop

variable {d} {n m : Nat} {σ : Type} {turn : Read σ m → Except ParseError (Turn σ m)}
  {reader : Read σ m → Reading σ m}

/-- No loop goes on without having taken something. -/
theorem advances (h : Loop d n turn reader) : Advances turn := by
  have hsub := within_sound d n
  cases h with
  | exprs => exact itemRound_advances _ fun ts h => (hsub .loose ts h).bounded
  | orderItems => exact itemRound_advances _ fun ts h => (orderItem_sound hsub ts h).bounded
  | projections => exact itemRound_advances _ fun ts h => (projection_sound hsub ts h).bounded
  | columns => exact itemRound_advances _ fun ts _ => (columnDef_sound ts).bounded
  | typeParams => exact itemRound_advances _ fun ts _ => (typeParam_sound ts).bounded
  | words => exact wordRound_advances
  | demands => exact demandRound_advances d
  | branches => exact branchRound_advances d _ hsub
  | joins => exact operatorRound_advances _ _ fun ts h => (signed_sound hsub ts h).bounded
  | products => exact operatorRound_advances _ _ fun ts h => (joined_sound hsub ts h).bounded
  | sums => exact operatorRound_advances _ _ fun ts h => (product_sound hsub ts h).bounded
  | tests => exact testRound_advances d _ hsub
  | conjunctions => exact operatorRound_advances _ _ fun ts h => (negation_sound hsub ts h).bounded
  | disjunctions =>
    exact operatorRound_advances _ _ fun ts h => (conjunction_sound hsub ts h).bounded
  | semicolons => exact semicolonRound_advances
  | statements => exact statementTurn_advances d

theorem repeats (h : Loop d n turn reader) : Repeats turn reader := by
  cases h with
  | exprs => exact itemRound_repeats _
  | orderItems => exact itemRound_repeats _
  | projections => exact itemRound_repeats _
  | columns => exact itemRound_repeats _
  | typeParams => exact itemRound_repeats _
  | words => exact wordRound_repeats
  | demands => exact demandRound_repeats d
  | branches => exact branchRound_repeats _
  | joins => exact operatorRound_repeats _ _
  | products => exact operatorRound_repeats _ _
  | sums => exact operatorRound_repeats _ _
  | tests => exact testRound_repeats d _
  | conjunctions => exact operatorRound_repeats _ _
  | disjunctions => exact operatorRound_repeats _ _
  | semicolons => exact semicolonRound_repeats
  | statements => exact statementTurn_repeats d

end Loop

end

/-! ## arguments -/

section

variable {n : Nat} (sub : Below n)

/-- Expressions with commas between them, as a list that starts with the first
one and grows. -/
def argList (ts : List Lexeme) (h : ts.length < n) : Option (Reading (List Expr) n) :=
  match sub .loose ts h with
  | .error e => some (.error e)
  | .ok r =>
    turns (itemRound (sub .loose)).turn (r.rest.length + 1) ((r.map fun e => [e]).after h)

/-- Takes the first element out of a list and puts it back with an ordering;
nothing if there is none. -/
def orderFirst? (items : List (OrderItem Expr)) : List Expr → Option (List Expr)
  | [] => none
  | first :: others => some (.order first items :: others)

/-- Arguments gathered into one by `DISTINCT`, and the first one ordered if an
ordering comes. -/
def arrange? (distinct : Bool) (items : List (OrderItem Expr)) (args : List Expr) :
    Option (List Expr) :=
  let args := if distinct then [.distinct args] else args
  if items.isEmpty then some args else orderFirst? items args

/-- What comes behind the arguments of a call: perhaps a separator, which is
added to them, and the closing parenthesis. -/
def closeArgs (args : List Expr) (ts : List Lexeme) (h : ts.length < n) :
    Reading (List Expr) n := do
  let r₁ ← separator? sub ts h
  let r₂ ← expect .rparen .closeParen r₁.rest
  return ((r₂.map fun _ => args ++ r₁.value.toList).after r₁.lt).widen h

/-- The arguments of a call, behind the opening parenthesis, kept in a list;
nothing if the loop over them does not end or the first one is missing. -/
def listedArgs (ts : List Lexeme) (h : ts.length < n) : Option (Reading (List Expr) n) :=
  if comes .rparen ts then
    some ((expect .rparen .closeParen ts).map fun r => (r.map fun _ => []).after h)
  else
    let r₁ := (acceptKeyword .DISTINCT ts).widen h
    match argList sub r₁.rest r₁.lt with
    | none => none
    | some (.error e) => some (.error e)
    | some (.ok r₂) =>
      match orderClause sub r₂.rest r₂.lt with
      | .error e => some (.error e)
      | .ok r₃ =>
        let r₃ := r₃.widen r₂.lt
        (arrange? r₁.value r₃.value r₂.value).map fun args => closeArgs sub args r₃.rest r₃.lt

variable {sub}

theorem argList_eq (hadvances : Advances (itemRound (sub .loose)).turn) (ts : List Lexeme)
    (h : ts.length < n) :
    argList sub ts h =
      some ((exprList sub ts h).map fun r => (r.map fun p => p.1 :: p.2).after h) := by
  have hlist := commaList_eq_moreItems (sub .loose) [] ts h
  simp only [List.nil_append] at hlist
  rw [exprList, hlist]
  unfold argList
  cases sub .loose ts h with
  | error e => rfl
  | ok r => exact turns_eq hadvances (itemRound_repeats _) _ _ (Nat.lt_succ_self r.rest.length)

/-- Of one or more arguments there is a first one to be ordered, gathered or
not. -/
theorem arrange?_cons (distinct : Bool) (items : List (OrderItem Expr)) (first : Expr)
    (others : List Expr) :
    arrange? distinct items (first :: others) =
      some ((if items.isEmpty then (if distinct then (.distinct (first :: others), [])
          else (first, others)).1
        else .order (if distinct then (.distinct (first :: others), []) else (first, others)).1
          items) ::
        (if distinct then (.distinct (first :: others), []) else (first, others)).2) := by
  cases distinct <;> cases items <;> rfl

/-- The arguments kept in a list are those of the call: the loop over them ends,
and there always is a first one to be taken out. -/
theorem listedArgs_eq (hadvances : Advances (itemRound (sub .loose)).turn) (ts : List Lexeme)
    (h : ts.length < n) :
    listedArgs sub ts h = some ((callArgs sub ts h).map fun r => r.after h) := by
  unfold listedArgs callArgs
  by_cases hp : comes .rparen ts = true
  · rw [if_pos hp, dif_pos hp]
    cases expect .rparen .closeParen ts <;> rfl
  · rw [if_neg hp, dif_neg hp]
    obtain ⟨distinct, ts₁, h₁⟩ := acceptKeyword .DISTINCT ts
    simp only [argList_eq hadvances, Front.widen]
    cases exprList sub ts₁ _ with
    | error e => rfl
    | ok r₂ =>
      obtain ⟨⟨first, others⟩, ts₂, h₂⟩ := r₂
      simp only [bind, Except.bind, Except.map, Front.map, Front.after, Front.widen]
      cases orderClause sub ts₂ _ with
      | error e => rfl
      | ok r₃ =>
        simp only [arrange?_cons, Option.map_some, closeArgs, bind, Except.bind]
        cases separator? sub r₃.rest _ with
        | error e => rfl
        | ok r₄ =>
          simp only
          cases expect .rparen .closeParen r₄.rest <;> rfl

end

/-! ## progress -/

/-- Reading gets ahead and ends.  An expression and a statement take at least one
lexeme, all from those there are.  Expressions are nested no deeper than there are
lexemes.  A loop takes something before every further turn, so it is left after
one turn more than there are lexemes.  And the list of the arguments of a call
has a first element whenever it is taken out. -/
theorem reading_makes_progress (d : Dialect) :
    (∀ level ts r, expression d level ts = .ok r → Takes ts r.rest) ∧
      (∀ ts r, statement d ts = .ok r → Takes ts r.rest) ∧
      (∀ bottom k level ts, ts.length < k →
        nested d bottom k level ts = expression d level ts) ∧
      (∀ n {σ : Type} {m : Nat} (turn : Read σ m → Except ParseError (Turn σ m))
        (reader : Read σ m → Reading σ m), Loop d n turn reader →
          Advances turn ∧ ∀ k r, r.rest.length < k → turns turn k r = some (reader r)) ∧
      ∀ n ts (h : ts.length < n),
        listedArgs (within d n) ts h =
          some ((callArgs (within d n) ts h).map fun r => r.after h) := by
  refine ⟨fun level ts r hr => ?_, fun ts r hr => ?_, nested_eq_expression d,
    fun n σ m turn reader hloop => ?_, fun n ts h => ?_⟩
  · exact (expression_sound d level ts).takes hr
  · exact (statement_sound ts).takes hr
  · exact ⟨hloop.advances, turns_eq hloop.advances hloop.repeats⟩
  · exact listedArgs_eq (Loop.exprs (d := d)).advances ts h

/-- A name in parentheses is read up to the comma behind it; what would be asked
for further in is an error, and does not matter. -/
theorem reading_makes_progress_parenthesized :
    let ts : List Lexeme := [⟨.lparen, "(", 0⟩, ⟨.word, "a", 1⟩, ⟨.rparen, ")", 2⟩,
      ⟨.comma, ",", 3⟩]
    let r : Read Expr ts.length :=
      ⟨.paren (.column none ⟨"a", false⟩), [⟨.comma, ",", 3⟩], by decide⟩
    expression .sqlite .loose ts = .ok r ∧ Takes ts r.rest ∧
      nested .sqlite (fun _ _ => .error (.unexpectedEnd .expression)) 5 .loose ts = .ok r := by
  intro ts r
  obtain ⟨htakes, -, hnested, -⟩ := reading_makes_progress .sqlite
  have hr : expression .sqlite .loose ts = .ok r := by cbv
  exact ⟨hr, htakes .loose ts r hr, (hnested _ 5 .loose ts (by decide)).trans hr⟩

end SqlDialect.Grammar
