import SqlDialect.Grammar.Statement

/-!
# SqlDialect.Proofs.Grammar.Derivation

The grammar as a relation.  `Derives d p ls` says that the lexemes `ls` spell
the phrase `p`, a part of a query together with the tree it is read as.  The
relation names no strategy of reading: it has one rule for each way to build a
phrase, groups to the left by its rules for operators, and says nothing about
what may follow a phrase.

* `Derives` -- the rules for expressions and queries.
* `Flag`, `AliasOf`, `NameOf`, `TypeOf` -- the parts that hold no expression.

`SqlDialect.Proofs.Grammar.Sound` shows that whatever is read is spelled by
what was taken, `SqlDialect.Proofs.Grammar.Complete` that whatever is spelled
is read, up to the lexeme that cannot continue it.
-/

namespace SqlDialect.Grammar

/-! ## parts without expressions -/

/-- A keyword that may be left out, and whether it is there. -/
inductive Flag (k : Keyword) : Bool → List Lexeme → Prop where
  | absent : Flag k false []
  | present {t : Lexeme} (ht : t.kind = .keyword k) : Flag k true [t]

/-- The direction of an item of an ordering. -/
inductive DirectionOf : Option SortDirection → List Lexeme → Prop where
  | none : DirectionOf none []
  | asc {t : Lexeme} (ht : t.kind = .keyword .ASC) : DirectionOf (some .asc) [t]
  | desc {t : Lexeme} (ht : t.kind = .keyword .DESC) : DirectionOf (some .desc) [t]

/-- An alias, if there is one. -/
inductive AliasOf : Option Ident → List Lexeme → Prop where
  | none : AliasOf none []
  | named {t u : Lexeme} {i : Ident} (ht : t.kind = .keyword .AS) (hu : identOf? u = some i) :
      AliasOf (some i) [t, u]
  | bare {t : Lexeme} {i : Ident} (hb : isBareAlias t = true) (ht : identOf? t = some i) :
      AliasOf (some i) [t]

/-- The name of a table, perhaps with a schema in front. -/
inductive NameOf : Option Ident → Ident → List Lexeme → Prop where
  | plain {t : Lexeme} {i : Ident} (ht : identOf? t = some i) : NameOf none i [t]
  | qualified {t u v : Lexeme} {i j : Ident} (ht : identOf? t = some i) (hu : u.kind = .dot)
      (hv : identOf? v = some j) : NameOf (some i) j [t, u, v]

/-- The parameters of a type, with their texts. -/
inductive ParamsOf : List String → List Lexeme → Prop where
  | one {t : Lexeme} (ht : t.kind = .number) : ParamsOf [t.text] [t]
  | more {t u : Lexeme} {texts : List String} {ls : List Lexeme} (ht : t.kind = .number)
      (hu : u.kind = .comma) (h : ParamsOf texts ls) : ParamsOf (t.text :: texts) (t :: u :: ls)

/-- The words of the name of a type, with a space between them. -/
def typeName (words : List Lexeme) : String := " ".intercalate (words.map Lexeme.text)

/-- A type: words that name it, perhaps with parameters. -/
inductive TypeOf : DataType → List Lexeme → Prop where
  | plain {type : DataType} {t : Lexeme} {ws : List Lexeme}
      (hw : ∀ w ∈ t :: ws, w.kind = .word)
      (h : DataType.ofText? (typeName (t :: ws)) = some type) : TypeOf type (t :: ws)
  | withParams {type : DataType} {t u v : Lexeme} {ws ps : List Lexeme} {texts : List String}
      (hw : ∀ w ∈ t :: ws, w.kind = .word) (hu : u.kind = .lparen) (hp : ParamsOf texts ps)
      (hv : v.kind = .rparen)
      (h : DataType.ofText? (typeName (t :: ws) ++ "(" ++ ", ".intercalate texts ++ ")") =
        some type) :
      TypeOf type (t :: ws ++ u :: ps ++ [v])

/-- The method of a sample, if it is named. -/
inductive MethodOf : Option String → List Lexeme → Prop where
  | none : MethodOf none []
  | named {t : Lexeme} (ht : t.kind = .word) : MethodOf (some (Text.upper t.text)) [t]

/-- What the size of a sample counts. -/
inductive UnitOf : SampleUnit → List Lexeme → Prop where
  | rows {t : Lexeme} (ht : t.kind = .keyword .ROWS) : UnitOf .rows [t]
  | percent {t : Lexeme} (ht : t.kind = .keyword .PERCENT) : UnitOf .percent [t]
  | unsaid : UnitOf .percent []

/-- The word for rows, in either number. -/
inductive RowsWord : List Lexeme → Prop where
  | rows {t : Lexeme} (ht : t.kind = .keyword .ROWS) : RowsWord [t]
  | row {t : Lexeme} (ht : t.kind = .keyword .ROW) : RowsWord [t]

/-- The direction of a fetch. -/
inductive FetchWord : FetchDirection → Lexeme → Prop where
  | first {t : Lexeme} (ht : t.kind = .keyword .FIRST) : FetchWord .first t
  | next {t : Lexeme} (ht : t.kind = .keyword .NEXT) : FetchWord .next t

/-- How the words of a fetch end, and whether they ask for ties. -/
inductive FetchEnd : Bool → List Lexeme → Prop where
  | only {t : Lexeme} (ht : t.kind = .keyword .ONLY) : FetchEnd false [t]
  | ties {t u : Lexeme} (ht : t.kind = .keyword .WITH) (hu : u.kind = .keyword .TIES) :
      FetchEnd true [t, u]

/-! ## single lexemes -/

/-- The value of a lexeme that is a literal by itself. -/
def literalOf? (t : Lexeme) : Option Literal :=
  match t.kind with
  | .number => (numberOf t).toOption
  | .string value => some (.string value)
  | .hexString digits => some (.hexString digits)
  | .hexNumber digits => some (.hexNumber digits)
  | .keyword .TRUE => some (.bool true)
  | .keyword .FALSE => some (.bool false)
  | .keyword .NULL => some .null
  | _ => none

/-- The cast that a keyword starts. -/
def castOf? : Keyword → Option (Expr → DataType → Expr)
  | .CAST => some .cast
  | .TRY_CAST => some .tryCast
  | _ => none

/-- The operators of a level of precedence; the levels without operators
between operands have none. -/
def operatorAt? : Nat → LexemeKind → Option (Expr → Expr → Expr)
  | 2 => joinOperator?
  | 3 => productOperator?
  | 4 => sumOperator?
  | 7 => andOperator?
  | 8 => orOperator?
  | _ => fun _ => none

/-- The place of a level among the levels of precedence, counted from the
tightest one. -/
def Level.number : Level → Nat
  | .loose => 8
  | .tight => 1

/-- The arguments of a call from its parts. -/
def gatherArgs (distinct : Bool) (first : Expr) (others : List Expr)
    (items : List (OrderItem Expr)) (separator : Option Expr) : List Expr :=
  let head := if distinct then .distinct (first :: others) else first
  (if items.isEmpty then head else .order head items) ::
    ((if distinct then [] else others) ++ separator.toList)

/-! ## phrases -/

/-- The parts of a query that hold expressions, each with what it is read as.
The levels of expressions are counted from the tightest one: operands, minus
signs, joins, products, sums, comparisons, negations, conjunctions and
disjunctions. -/
inductive Phrase where
  | expr (level : Nat) (e : Expr)
  /-- A comparison or predicate with the operand in front of it. -/
  | test (left e : Expr)
  | exprs (es : List Expr)
  | item (i : OrderItem Expr)
  | items (is : List (OrderItem Expr))
  /-- An expression behind a keyword, if it is there. -/
  | clause (k : Keyword) (e : Option Expr)
  | groupBy (es : List Expr)
  | orderBy (is : List (OrderItem Expr))
  | separator (e : Option Expr)
  /-- The arguments of a call, without the parentheses. -/
  | args (es : List Expr)
  | caseOperand (e : Option Expr)
  | whens (ws : List (Expr × Expr))
  | projection (e : Expr)
  | projections (es : List Expr)
  | table (e : Expr)
  | source (e : Option Expr)
  | offset (e : Option Expr)
  | fetchCount (e : Option Expr)
  | fetch (e : Option Expr)
  | rowLimit (limit offset : Option Expr)
  | query (q : Select Expr)

/-- The phrases that lexemes spell. -/
inductive Derives (d : Dialect) : Phrase → List Lexeme → Prop where
  -- operands
  | literal {t : Lexeme} {v : Literal} (ht : literalOf? t = some v) :
      Derives d (.expr 0 (.literal v)) [t]
  | star {t : Lexeme} (ht : t.kind = .star) : Derives d (.expr 0 (.star none)) [t]
  | starOf {t u v : Lexeme} {i : Ident} (ht : identOf? t = some i) (hu : u.kind = .dot)
      (hv : v.kind = .star) : Derives d (.expr 0 (.star (some i))) [t, u, v]
  | column {t : Lexeme} {i : Ident} (ht : identOf? t = some i) :
      Derives d (.expr 0 (.column none i)) [t]
  | columnOf {t u v : Lexeme} {i j : Ident} (ht : identOf? t = some i) (hu : u.kind = .dot)
      (hv : identOf? v = some j) : Derives d (.expr 0 (.column (some i) j)) [t, u, v]
  | call {t u v : Lexeme} {i : Ident} {es : List Expr} {e : Expr} {ls : List Lexeme}
      (ht : identOf? t = some i) (hq : i.quoted = false) (hu : u.kind = .lparen)
      (hs : Derives d (.args es) ls) (hv : v.kind = .rparen) (he : d.call i.name es = .ok e) :
      Derives d (.expr 0 e) (t :: u :: ls ++ [v])
  | caseWhen {t u : Lexeme} {o b : Option Expr} {ws : List (Expr × Expr)}
      {ls₁ ls₂ ls₃ : List Lexeme} (ht : t.kind = .keyword .CASE)
      (ho : Derives d (.caseOperand o) ls₁) (hw : Derives d (.whens ws) ls₂) (hne : ws ≠ [])
      (hb : Derives d (.clause .ELSE b) ls₃) (hu : u.kind = .keyword .END) :
      Derives d (.expr 0 (.caseWhen o ws b)) (t :: ls₁ ++ ls₂ ++ ls₃ ++ [u])
  | cast {t u v w : Lexeme} {k : Keyword} {make : Expr → DataType → Expr} {e : Expr}
      {type : DataType} {ls₁ ls₂ : List Lexeme} (ht : t.kind = .keyword k)
      (hk : castOf? k = some make) (hu : u.kind = .lparen) (he : Derives d (.expr 8 e) ls₁)
      (hv : v.kind = .keyword .AS) (hT : TypeOf type ls₂) (hw : w.kind = .rparen) :
      Derives d (.expr 0 (make e type)) (t :: u :: ls₁ ++ v :: ls₂ ++ [w])
  | paren {t u : Lexeme} {e : Expr} {ls : List Lexeme} (ht : t.kind = .lparen)
      (he : Derives d (.expr 8 e) ls) (hu : u.kind = .rparen) :
      Derives d (.expr 0 (.paren e)) (t :: ls ++ [u])
  | subquery {t u v : Lexeme} {q : Select Expr} {ls : List Lexeme} (ht : t.kind = .lparen)
      (hu : u.kind = .keyword .SELECT) (hq : Derives d (.query q) ls) (hv : v.kind = .rparen) :
      Derives d (.expr 0 (.paren (.select q))) (t :: u :: ls ++ [v])
  -- levels of precedence
  | minus {t : Lexeme} {e : Expr} {ls : List Lexeme} (ht : t.kind = .minus)
      (he : Derives d (.expr 1 e) ls) : Derives d (.expr 1 (.unaryOp .minus e)) (t :: ls)
  | not {t : Lexeme} {e : Expr} {ls : List Lexeme} (ht : t.kind = .keyword .NOT)
      (he : Derives d (.expr 6 e) ls) : Derives d (.expr 6 (.unaryOp .not e)) (t :: ls)
  | binary {t : Lexeme} {k : Nat} {make : Expr → Expr → Expr} {a b : Expr}
      {ls₁ ls₂ : List Lexeme} (ha : Derives d (.expr (k + 1) a) ls₁)
      (ht : operatorAt? (k + 1) t.kind = some make) (hb : Derives d (.expr k b) ls₂) :
      Derives d (.expr (k + 1) (make a b)) (ls₁ ++ t :: ls₂)
  | tested {a e : Expr} {ls₁ ls₂ : List Lexeme} (ha : Derives d (.expr 5 a) ls₁)
      (ht : Derives d (.test a e) ls₂) : Derives d (.expr 5 e) (ls₁ ++ ls₂)
  | lift {k : Nat} {e : Expr} {ls : List Lexeme} (he : Derives d (.expr k e) ls) (hk : k < 8) :
      Derives d (.expr (k + 1) e) ls
  -- comparisons and predicates
  | compare {t : Lexeme} {op : BinaryOperator} {a b : Expr} {ls : List Lexeme}
      (ht : comparison? t.kind = some op) (hb : Derives d (.expr 4 b) ls) :
      Derives d (.test a (.binaryOp op a b)) (t :: ls)
  | like {t : Lexeme} {negated : Bool} {a b : Expr} {ns ls : List Lexeme}
      (hn : Flag .NOT negated ns) (ht : t.kind = .keyword .LIKE) (hb : Derives d (.expr 4 b) ls) :
      Derives d (.test a (.like negated a b)) (ns ++ t :: ls)
  | ilike {t : Lexeme} {negated : Bool} {a b : Expr} {ns ls : List Lexeme}
      (hn : Flag .NOT negated ns) (ht : t.kind = .keyword .ILIKE) (hb : Derives d (.expr 4 b) ls) :
      Derives d (.test a (.ilike negated a b)) (ns ++ t :: ls)
  | between {t u : Lexeme} {negated : Bool} {a low high : Expr} {ns ls₁ ls₂ : List Lexeme}
      (hn : Flag .NOT negated ns) (ht : t.kind = .keyword .BETWEEN)
      (hl : Derives d (.expr 4 low) ls₁) (hu : u.kind = .keyword .AND)
      (hh : Derives d (.expr 4 high) ls₂) :
      Derives d (.test a (.between negated a low high)) (ns ++ t :: ls₁ ++ u :: ls₂)
  | inList {t u v : Lexeme} {negated : Bool} {a : Expr} {es : List Expr} {ns ls : List Lexeme}
      (hn : Flag .NOT negated ns) (ht : t.kind = .keyword .IN) (hu : u.kind = .lparen)
      (hs : Derives d (.exprs es) ls) (hv : v.kind = .rparen) :
      Derives d (.test a (.inList negated a es)) (ns ++ t :: u :: ls ++ [v])
  | isNull {t u : Lexeme} {negated : Bool} {a : Expr} {ns : List Lexeme}
      (ht : t.kind = .keyword .IS) (hn : Flag .NOT negated ns) (hu : u.kind = .keyword .NULL) :
      Derives d (.test a (.isNull negated a)) (t :: ns ++ [u])
  -- lists
  | exprsOne {e : Expr} {ls : List Lexeme} (he : Derives d (.expr 8 e) ls) :
      Derives d (.exprs [e]) ls
  | exprsMore {t : Lexeme} {e : Expr} {es : List Expr} {ls₁ ls₂ : List Lexeme}
      (he : Derives d (.expr 8 e) ls₁) (ht : t.kind = .comma) (hs : Derives d (.exprs es) ls₂) :
      Derives d (.exprs (e :: es)) (ls₁ ++ t :: ls₂)
  | item {e : Expr} {direction : Option SortDirection} {ls₁ ls₂ : List Lexeme}
      (he : Derives d (.expr 8 e) ls₁) (hd : DirectionOf direction ls₂) :
      Derives d (.item ⟨e, direction⟩) (ls₁ ++ ls₂)
  | itemsOne {i : OrderItem Expr} {ls : List Lexeme} (hi : Derives d (.item i) ls) :
      Derives d (.items [i]) ls
  | itemsMore {t : Lexeme} {i : OrderItem Expr} {is : List (OrderItem Expr)}
      {ls₁ ls₂ : List Lexeme} (hi : Derives d (.item i) ls₁) (ht : t.kind = .comma)
      (hs : Derives d (.items is) ls₂) : Derives d (.items (i :: is)) (ls₁ ++ t :: ls₂)
  -- parts of calls and cases
  | noSeparator : Derives d (.separator none) []
  | separator {t : Lexeme} {e : Expr} {ls : List Lexeme} (ht : t.kind = .word)
      (hs : Text.sameWord t.text "SEPARATOR" = true) (he : Derives d (.expr 8 e) ls) :
      Derives d (.separator (some e)) (t :: ls)
  | noArgs : Derives d (.args []) []
  | args {distinct : Bool} {first : Expr} {others : List Expr} {items : List (OrderItem Expr)}
      {s : Option Expr} {ls₀ ls₁ ls₂ ls₃ : List Lexeme} (hd : Flag .DISTINCT distinct ls₀)
      (he : Derives d (.exprs (first :: others)) ls₁) (ho : Derives d (.orderBy items) ls₂)
      (hs : Derives d (.separator s) ls₃) :
      Derives d (.args (gatherArgs distinct first others items s)) (ls₀ ++ ls₁ ++ ls₂ ++ ls₃)
  | noCaseOperand : Derives d (.caseOperand none) []
  | caseOperand {e : Expr} {ls : List Lexeme} (he : Derives d (.expr 8 e) ls) :
      Derives d (.caseOperand (some e)) ls
  | noWhens : Derives d (.whens []) []
  | whens {t u : Lexeme} {a b : Expr} {ws : List (Expr × Expr)} {ls₁ ls₂ ls₃ : List Lexeme}
      (ht : t.kind = .keyword .WHEN) (ha : Derives d (.expr 8 a) ls₁)
      (hu : u.kind = .keyword .THEN) (hb : Derives d (.expr 8 b) ls₂)
      (hw : Derives d (.whens ws) ls₃) :
      Derives d (.whens ((a, b) :: ws)) (t :: ls₁ ++ u :: ls₂ ++ ls₃)
  -- clauses
  | noClause {k : Keyword} : Derives d (.clause k none) []
  | clause {t : Lexeme} {k : Keyword} {e : Expr} {ls : List Lexeme} (ht : t.kind = .keyword k)
      (he : Derives d (.expr 8 e) ls) : Derives d (.clause k (some e)) (t :: ls)
  | noGroupBy : Derives d (.groupBy []) []
  | groupBy {t u : Lexeme} {es : List Expr} {ls : List Lexeme} (ht : t.kind = .keyword .GROUP)
      (hu : u.kind = .keyword .BY) (hs : Derives d (.exprs es) ls) :
      Derives d (.groupBy es) (t :: u :: ls)
  | noOrderBy : Derives d (.orderBy []) []
  | orderBy {t u : Lexeme} {is : List (OrderItem Expr)} {ls : List Lexeme}
      (ht : t.kind = .keyword .ORDER) (hu : u.kind = .keyword .BY)
      (hs : Derives d (.items is) ls) : Derives d (.orderBy is) (t :: u :: ls)
  | allColumns {t : Lexeme} (ht : t.kind = .star) : Derives d (.projection (.star none)) [t]
  | projection {e : Expr} {ls : List Lexeme} (he : Derives d (.expr 8 e) ls)
      (hs : ∀ t ∈ ls.head?, t.kind ≠ .star) : Derives d (.projection e) ls
  | aliased {e : Expr} {i : Ident} {ls₁ ls₂ : List Lexeme} (he : Derives d (.expr 8 e) ls₁)
      (hs : ∀ t ∈ ls₁.head?, t.kind ≠ .star) (ha : AliasOf (some i) ls₂) :
      Derives d (.projection (.aliased e i)) (ls₁ ++ ls₂)
  | projectionsOne {e : Expr} {ls : List Lexeme} (he : Derives d (.projection e) ls) :
      Derives d (.projections [e]) ls
  | projectionsMore {t : Lexeme} {e : Expr} {es : List Expr} {ls₁ ls₂ : List Lexeme}
      (he : Derives d (.projection e) ls₁) (ht : t.kind = .comma)
      (hs : Derives d (.projections es) ls₂) :
      Derives d (.projections (e :: es)) (ls₁ ++ t :: ls₂)
  | table {schema : Option Ident} {name : Ident} {aliasName : Option Ident}
      {ls₁ ls₂ : List Lexeme} (hn : NameOf schema name ls₁) (ha : AliasOf aliasName ls₂) :
      Derives d (.table (.table schema name aliasName)) (ls₁ ++ ls₂)
  | tableSample {t u v : Lexeme} {schema : Option Ident} {name : Ident}
      {aliasName : Option Ident} {method : Option String} {size : Expr} {unit : SampleUnit}
      {ls₁ ls₂ ls₃ ls₄ ls₅ : List Lexeme} (hn : NameOf schema name ls₁)
      (ha : AliasOf aliasName ls₂) (ht : t.kind = .keyword .TABLESAMPLE) (hm : MethodOf method ls₃)
      (hu : u.kind = .lparen) (hs : Derives d (.expr 8 size) ls₄) (hr : UnitOf unit ls₅)
      (hv : v.kind = .rparen) :
      Derives d (.table (.tableSample (.table schema name aliasName) method size unit))
        (ls₁ ++ ls₂ ++ t :: ls₃ ++ u :: ls₄ ++ ls₅ ++ [v])
  | noSource : Derives d (.source none) []
  | source {t : Lexeme} {e : Expr} {ls : List Lexeme} (ht : t.kind = .keyword .FROM)
      (he : Derives d (.table e) ls) : Derives d (.source (some e)) (t :: ls)
  | noOffset : Derives d (.offset none) []
  | offset {t : Lexeme} {e : Expr} {ls₁ ls₂ : List Lexeme} (ht : t.kind = .keyword .OFFSET)
      (he : Derives d (.expr 8 e) ls₁) (hr : ls₂ = [] ∨ RowsWord ls₂) :
      Derives d (.offset (some e)) (t :: ls₁ ++ ls₂)
  | noCount : Derives d (.fetchCount none) []
  | fetchCount {e : Expr} {ls : List Lexeme} (he : Derives d (.expr 1 e) ls)
      (hr : ∀ t ∈ ls.head?, t.kind ≠ .keyword .ROW ∧ t.kind ≠ .keyword .ROWS) :
      Derives d (.fetchCount (some e)) ls
  | noFetch : Derives d (.fetch none) []
  | fetch {t u : Lexeme} {direction : FetchDirection} {count : Option Expr}
      {percent withTies : Bool} {ls₁ ls₂ ls₃ ls₄ : List Lexeme} (ht : t.kind = .keyword .FETCH)
      (hd : FetchWord direction u) (hc : Derives d (.fetchCount count) ls₁)
      (hp : Flag .PERCENT percent ls₂) (hcp : count = none → percent = false)
      (hr : RowsWord ls₃) (he : FetchEnd withTies ls₄) :
      Derives d (.fetch (some (.fetch direction count percent withTies)))
        (t :: u :: ls₁ ++ ls₂ ++ ls₃ ++ ls₄)
  /-- A limit and an offset by a comma, the offset first. -/
  | limitPair {t u : Lexeme} {count first : Expr} {ls₁ ls₂ : List Lexeme}
      (ht : t.kind = .keyword .LIMIT) (ho : Derives d (.expr 8 first) ls₁) (hu : u.kind = .comma)
      (hc : Derives d (.expr 8 count) ls₂) :
      Derives d (.rowLimit (some (.limit count)) (some first)) (t :: ls₁ ++ u :: ls₂)
  | limit {t : Lexeme} {count : Expr} {o : Option Expr} {ls₁ ls₂ : List Lexeme}
      (ht : t.kind = .keyword .LIMIT) (hc : Derives d (.expr 8 count) ls₁)
      (ho : Derives d (.offset o) ls₂) :
      Derives d (.rowLimit (some (.limit count)) o) (t :: ls₁ ++ ls₂)
  | offsetFetch {o f : Option Expr} {ls₁ ls₂ : List Lexeme} (ho : Derives d (.offset o) ls₁)
      (hf : Derives d (.fetch f) ls₂) : Derives d (.rowLimit f o) (ls₁ ++ ls₂)
  | query {distinct : Bool} {projections groupBy : List Expr}
      {source filter having limit offset : Option Expr} {orderBy : List (OrderItem Expr)}
      {ls₀ ls₁ ls₂ ls₃ ls₄ ls₅ ls₆ ls₇ : List Lexeme} (hd : Flag .DISTINCT distinct ls₀)
      (hp : Derives d (.projections projections) ls₁) (hs : Derives d (.source source) ls₂)
      (hw : Derives d (.clause .WHERE filter) ls₃) (hg : Derives d (.groupBy groupBy) ls₄)
      (hh : Derives d (.clause .HAVING having) ls₅) (ho : Derives d (.orderBy orderBy) ls₆)
      (hl : Derives d (.rowLimit limit offset) ls₇) :
      Derives d (.query ⟨distinct, projections, source, filter, groupBy, having, orderBy, limit,
        offset⟩) (ls₀ ++ ls₁ ++ ls₂ ++ ls₃ ++ ls₄ ++ ls₅ ++ ls₆ ++ ls₇)

/-- What is spelled at a level is spelled at every looser one. -/
theorem Derives.raise {d : Dialect} {k n : Nat} {e : Expr} {ls : List Lexeme}
    (h : Derives d (.expr k e) ls) (hk : k ≤ n) (hn : n ≤ 8) : Derives d (.expr n e) ls := by
  induction hk with
  | refl => exact h
  | step _ ih => exact (ih (by omega)).lift (by omega)

end SqlDialect.Grammar
