import SqlDialect.Proofs.Grammar.Follow

/-!
# SqlDialect.Proofs.Grammar.Operand

Expressions of every level are read from the lexemes that spell them, rule by
rule, provided their parts are.

* `Reads` -- what reading a phrase means.
* `loopAt_binary`, `readAt_succ` -- one more operator, and one level up.

Operators group to the left, so a derivation reaches its last operator first
while reading reaches the first operand first.  What is stated about an
expression of a level is therefore about the loop of that level: whatever the
loop makes of the expression and the rest, reading the level makes of the
lexemes of the expression and the rest.
-/

namespace SqlDialect.Grammar

/-! ## levels of precedence -/

section

variable (d : Dialect) {n : Nat} (sub : Below n)

/-- Reading an expression of a level. -/
def readAt : Nat → (ts : List Lexeme) → ts.length ≤ n → Reading Expr ts.length
  | 0 => primary d sub
  | 1 => signed d sub
  | 2 => joined d sub
  | 3 => product d sub
  | 4 => sum d sub
  | 5 => comparison d sub
  | 6 => negation d sub
  | 7 => conjunction d sub
  | _ => disjunction d sub

/-- What a level does behind its first operand. -/
def loopAt : Nat → Expr → (ts : List Lexeme) → ts.length ≤ n → Reading Expr (ts.length + 1)
  | 2 => operators (signed d sub) joinOperator?
  | 3 => operators (joined d sub) productOperator?
  | 4 => operators (product d sub) sumOperator?
  | 5 => tests d sub
  | 7 => operators (negation d sub) andOperator?
  | 8 => operators (conjunction d sub) orOperator?
  | _ => fun e ts _ => .ok (.stay e ts)

end

theorem joins_of_operatorAt? {k : Nat} {kind : LexemeKind} {make : Expr → Expr → Expr}
    (h : operatorAt? k kind = some make) : joins kind = k := by
  unfold operatorAt? at h
  split at h
  case h_1 => unfold joinOperator? at h; split at h <;> first | rfl | cases h
  case h_2 => unfold productOperator? at h; split at h <;> first | rfl | cases h
  case h_3 => unfold sumOperator? at h; split at h <;> first | rfl | cases h
  case h_4 => unfold andOperator? at h; split at h <;> first | rfl | cases h
  case h_5 => unfold orOperator? at h; split at h <;> first | rfl | cases h
  case h_6 => cases h

theorem operatorAt?_eq_none {k : Nat} {kind : LexemeKind} (h : k < joins kind) :
    operatorAt? k kind = none := by
  cases ho : operatorAt? k kind with
  | none => rfl
  | some make => have := joins_of_operatorAt? ho; omega

theorem joins_of_comparison? {kind : LexemeKind} {op : BinaryOperator}
    (h : comparison? kind = some op) : joins kind = 5 := by
  unfold comparison? at h
  split at h <;> first | rfl | cases h

theorem joins_of_predicate? {kind : LexemeKind} {p : Predicate} (h : predicate? kind = some p) :
    joins kind = 5 := by
  unfold predicate? at h
  split at h <;> first | rfl | cases h

section

variable {d : Dialect} {n : Nat} {sub : Below n}

/-- Where nothing can be tested there is no comparison and no predicate. -/
theorem test?_eq_none {left : Expr} {t : Lexeme} {ts : List Lexeme} {h : ts.length < n}
    (ht : 5 < joins t.kind) : test? d sub left t ts h = none := by
  have hc : comparison? t.kind = none := by
    cases hc : comparison? t.kind with
    | none => rfl
    | some op => have := joins_of_comparison? hc; omega
  have hp : predicate? t.kind = none := by
    cases hp : predicate? t.kind with
    | none => rfl
    | some p => have := joins_of_predicate? hp; omega
  simp only [test?, hc, hp]
  generalize t.kind = kind at ht
  split
  case h_1 => exact absurd ht (by decide)
  case h_2 => exact absurd ht (by decide)
  case h_3 => rfl

/-- A level does nothing behind an expression that what follows does not
continue. -/
theorem loopAt_stops {k : Nat} {e : Expr} {rest : List Lexeme} {h : rest.length ≤ n}
    (hs : Stops k rest) : Gives (loopAt d sub k e rest h) e rest := by
  have hnone : ∀ t ∈ rest.head?, operatorAt? k t.kind = none :=
    fun t ht => operatorAt?_eq_none (hs t ht)
  unfold loopAt
  split
  case h_1 => exact operators_stop hnone
  case h_2 => exact operators_stop hnone
  case h_3 => exact operators_stop hnone
  case h_4 =>
    cases rest with
    | nil => rw [tests]; exact .pure
    | cons t ts =>
      rw [tests]
      simp only [test?_eq_none (hs t rfl)]
      exact .pure
  case h_5 => exact operators_stop hnone
  case h_6 => exact operators_stop hnone
  case h_7 => exact .pure

/-- An operator of a level with its second operand. -/
theorem loopAt_binary {k : Nat} {make : Expr → Expr → Expr} {a b c : Expr} {t : Lexeme}
    {ts us rest : List Lexeme} {h : (t :: ts).length ≤ n}
    (ht : operatorAt? (k + 1) t.kind = some make) (hb : ∀ h, Gives (readAt d sub k ts h) b us)
    (hc : ∀ h, Gives (loopAt d sub (k + 1) (make a b) us h) c rest) :
    Gives (loopAt d sub (k + 1) a (t :: ts) h) c rest := by
  match k, ht, hb, hc with
  | 1, ht, hb, hc => exact operators_more ht hb hc
  | 2, ht, hb, hc => exact operators_more ht hb hc
  | 3, ht, hb, hc => exact operators_more ht hb hc
  | 6, ht, hb, hc => exact operators_more ht hb hc
  | 7, ht, hb, hc => exact operators_more ht hb hc

/-- A test with the operand in front of it. -/
theorem loopAt_tested {a b c : Expr} {t : Lexeme} {ts us rest : List Lexeme}
    {h : (t :: ts).length ≤ n}
    (hb : ∀ h, ∃ x, test? d sub a t ts h = some x ∧ Gives x b us)
    (hc : ∀ h, Gives (loopAt d sub 5 b us h) c rest) :
    Gives (loopAt d sub 5 a (t :: ts) h) c rest := by
  obtain ⟨x, hx, hb⟩ := hb (Front.tail_lt_of_le h)
  show Gives (tests d sub a (t :: ts) h) c rest
  rw [tests]
  simp only [hx]
  refine hb.bind fun h₁ => ?_
  exact (hc _).bind fun h₂ => .pure

theorem leftAssoc_gives {α : Type}
    {item : (ts : List Lexeme) → ts.length ≤ n → Reading α ts.length}
    {operator? : LexemeKind → Option (α → α → α)} {a c : α} {ts us rest : List Lexeme}
    {h : ts.length ≤ n} (ha : Gives (item ts h) a us)
    (hc : ∀ h, Gives (operators item operator? a us h) c rest) :
    Gives (leftAssoc item operator? ts h) c rest := by
  unfold leftAssoc
  refine ha.bind fun h₁ => ?_
  exact (hc _).bind fun h₂ => .pure

/-- An expression of a level at the front of one of the next looser level. -/
theorem readAt_succ {k : Nat} {a c : Expr} {ts us rest : List Lexeme} {h : ts.length ≤ n}
    (hk : k < 8) (hfirst : Leads k ts) (ha : Gives (readAt d sub k ts h) a us)
    (hc : ∀ h, Gives (loopAt d sub (k + 1) a us h) c rest) :
    Gives (readAt d sub (k + 1) ts h) c rest := by
  obtain rfl | rfl | rfl | rfl | rfl | rfl | rfl | rfl :
    k = 0 ∨ k = 1 ∨ k = 2 ∨ k = 3 ∨ k = 4 ∨ k = 5 ∨ k = 6 ∨ k = 7 := by omega
  case inl =>
    obtain ⟨t, us, rfl, ht⟩ := hfirst
    have hne : t.kind ≠ .minus := fun heq => by rw [heq] at ht; exact absurd ht (by decide)
    obtain ⟨h₁, hc⟩ := hc (Nat.le_trans (Nat.le_of_lt ha.lt) h)
    cases hc
    simp only [readAt]
    rw [signed, if_neg hne]
    exact ha
  case inr.inl => exact leftAssoc_gives ha hc
  case inr.inr.inl => exact leftAssoc_gives ha hc
  case inr.inr.inr.inl => exact leftAssoc_gives ha hc
  case inr.inr.inr.inr.inl =>
    have ha : Gives (sum d sub ts h) a us := ha
    have hc : ∀ h, Gives (tests d sub a us h) c rest := hc
    show Gives (comparison d sub ts h) c rest
    unfold comparison
    refine ha.bind fun h₁ => ?_
    exact (hc _).bind fun h₂ => .pure
  case inr.inr.inr.inr.inr.inl =>
    obtain ⟨t, us, rfl, ht⟩ := hfirst
    have hne : t.kind ≠ .keyword .NOT := fun heq => by rw [heq] at ht; exact absurd ht (by decide)
    obtain ⟨h₁, hc⟩ := hc (Nat.le_trans (Nat.le_of_lt ha.lt) h)
    cases hc
    simp only [readAt]
    rw [negation, if_neg hne]
    exact ha
  case inr.inr.inr.inr.inr.inr.inl => exact leftAssoc_gives ha hc
  case inr.inr.inr.inr.inr.inr.inr => exact leftAssoc_gives ha hc

end

/-! ## what reading a phrase means -/

/-- No lexeme of one of these kinds comes next. -/
def Avoids (kinds : List LexemeKind) (rest : List Lexeme) : Prop :=
  ∀ t ∈ rest.head?, t.kind ∉ kinds

theorem Avoids.lacks {kinds : List LexemeKind} {k : LexemeKind} {rest : List Lexeme}
    (h : Avoids kinds rest) (hk : k ∈ kinds) : Lacks k rest :=
  fun t ht heq => h t ht (heq ▸ hk)

theorem Avoids.mono {kinds kinds' : List LexemeKind} {rest : List Lexeme}
    (h : Avoids kinds rest) (hk : ∀ kind ∈ kinds', kind ∈ kinds) : Avoids kinds' rest :=
  fun t ht hm => h t ht (hk _ hm)

/-- A query ends: a closing parenthesis, a semicolon or nothing at all comes
next. -/
def QueryEnds (rest : List Lexeme) : Prop :=
  ∀ t ∈ rest.head?, t.kind = .rparen ∨ t.kind = .semicolon

/-- What reading a phrase from its lexemes means.  For an expression of a
level it is about the loop of that level. -/
def Reads (d : Dialect) : Phrase → List Lexeme → Prop
  | .expr k e, ls => ∀ {n} (rest : List Lexeme) (f : Expr) (rest' : List Lexeme) h,
      Stops (k - 1) rest → (∀ h, Gives (loopAt d (within d n) k e rest h) f rest') →
      Gives (readAt d (within d n) k (ls ++ rest) h) f rest'
  | .test a e, ls => ∃ t us, ls = t :: us ∧ joins t.kind = 5 ∧
      ∀ {n} (rest : List Lexeme) h, Stops 4 rest →
        ∃ x, test? d (within d n) a t (us ++ rest) h = some x ∧ Gives x e rest
  | .exprs es, ls => ∃ a as, es = a :: as ∧ ∀ {n} (rest : List Lexeme) h, Stops 8 rest →
      Lacks .comma rest → Gives (exprList (within d n) (ls ++ rest) h) (a, as) rest
  | .item i, ls => ∀ {n} (rest : List Lexeme) h, Stops 8 rest →
      Avoids [.keyword .ASC, .keyword .DESC] rest →
      Gives (orderItem (within d n) (ls ++ rest) h) i rest
  | .items is, ls => ∃ a as, is = a :: as ∧ ∀ {n} (rest : List Lexeme) h, Stops 8 rest →
      Avoids [.keyword .ASC, .keyword .DESC, .comma] rest →
      Gives (commaList (orderItem (within d n)) (ls ++ rest) h) (a, as) rest
  | .clause k e, ls => ∀ {n} (rest : List Lexeme) h, Stops 8 rest → Lacks (.keyword k) rest →
      Gives (clause? (within d n) k (ls ++ rest) h) e rest
  | .groupBy es, ls => ∀ {n} (rest : List Lexeme) h, Stops 8 rest →
      Avoids [.keyword .GROUP, .comma] rest → Gives (groupClause (within d n) (ls ++ rest) h) es rest
  | .orderBy is, ls => ∀ {n} (rest : List Lexeme) h, Stops 8 rest →
      Avoids [.keyword .ORDER, .keyword .ASC, .keyword .DESC, .comma] rest →
      Gives (orderClause (within d n) (ls ++ rest) h) is rest
  | .separator e, ls => ∀ {n} (rest : List Lexeme) h, Stops 8 rest → Lacks .word rest →
      Gives (separator? (within d n) (ls ++ rest) h) e rest
  | .args es, ls => ∀ {n v} (rest : List Lexeme) h, v.kind = .rparen →
      Gives (callArgs (within d n) (ls ++ v :: rest) h) es rest
  | .caseOperand e, ls => ∀ {n t} (rest : List Lexeme) h, t.kind = .keyword .WHEN →
      Gives (caseOperand (within d n) (ls ++ t :: rest) h) e (t :: rest)
  | .whens ws, ls => ∀ {n} (rest : List Lexeme) h, Stops 8 rest → Lacks (.keyword .WHEN) rest →
      Gives (whenBranches (within d n) (ls ++ rest) h) ws rest
  | .projection e, ls => ∀ {n} (rest : List Lexeme) h, Stops 8 rest → NoAlias rest →
      Gives (projection (within d n) (ls ++ rest) h) e rest
  | .projections es, ls => ∃ a as, es = a :: as ∧ ∀ {n} (rest : List Lexeme) h, Stops 8 rest →
      NoAlias rest → Lacks .comma rest →
      Gives (commaList (projection (within d n)) (ls ++ rest) h) (a, as) rest
  | .table e, ls => ∀ {n} (rest : List Lexeme) h, NoAlias rest →
      Avoids [.dot, .keyword .TABLESAMPLE] rest →
      Gives (tableSource (within d n) (ls ++ rest) h) e rest
  | .source e, ls => ∀ {n} (rest : List Lexeme) h, NoAlias rest →
      Avoids [.dot, .keyword .TABLESAMPLE, .keyword .FROM] rest →
      Gives (sourceClause (within d n) (ls ++ rest) h) e rest
  | .offset e, ls => ∀ {n} (rest : List Lexeme) h, Stops 8 rest →
      Avoids [.keyword .OFFSET, .keyword .ROW, .keyword .ROWS] rest →
      Gives (offsetClause (within d n) (ls ++ rest) h) e rest
  | .fetchCount e, ls => ∀ {n} (rest : List Lexeme) h, Stops 1 rest →
      (e = none → (comes (.keyword .ROW) rest || comes (.keyword .ROWS) rest) = true) →
      Gives (fetchCount (within d n) (ls ++ rest) h) e rest
  | .fetch e, ls => ∀ {n} (rest : List Lexeme) h, Lacks (.keyword .FETCH) rest →
      Gives (fetchClause (within d n) (ls ++ rest) h) e rest
  | .rowLimit l o, ls => ∀ {n} (rest : List Lexeme) h, QueryEnds rest →
      Gives (rowLimit (within d n) (ls ++ rest) h) (l, o) rest
  | .query q, ls => ∀ {n} (rest : List Lexeme) h, QueryEnds rest →
      Gives (query (within d n) (ls ++ rest) h) q rest

section

variable {d : Dialect} {n : Nat}

/-- An expression of a level is read up to what does not continue it. -/
theorem Reads.expr {k : Nat} {e : Expr} {ls rest : List Lexeme} (he : Reads d (.expr k e) ls)
    (hs : Stops k rest) (h : (ls ++ rest).length ≤ n) :
    Gives (readAt d (within d n) k (ls ++ rest) h) e rest :=
  he rest e rest h (hs.mono (Nat.sub_le k 1)) fun _ => loopAt_stops hs

theorem Reads.loose {e : Expr} {ls rest : List Lexeme} (he : Reads d (.expr 8 e) ls)
    (hs : Stops 8 rest) (h : (ls ++ rest).length < n) :
    Gives (within d n .loose (ls ++ rest) h) e rest := by
  unfold within
  rw [expression]
  exact he.expr hs _

theorem Reads.tight {e : Expr} {ls rest : List Lexeme} (he : Reads d (.expr 1 e) ls)
    (hs : Stops 1 rest) (h : (ls ++ rest).length < n) :
    Gives (within d n .tight (ls ++ rest) h) e rest := by
  unfold within
  rw [expression]
  exact he.expr hs _

end

/-! ## operands -/

section

variable {d : Dialect} {n : Nat}

/-- A level without operators between operands does nothing behind an
expression. -/
theorem reads_of_gives {k : Nat} {e : Expr} {ls : List Lexeme} (hk : k = 0 ∨ k = 1 ∨ k = 6)
    (he : ∀ {n} (rest : List Lexeme) h, Stops (k - 1) rest →
      Gives (readAt d (within d n) k (ls ++ rest) h) e rest) : Reads d (.expr k e) ls := by
  intro n rest f rest' h hs hf
  have hlt : rest.length ≤ n := by
    have := h
    simp only [List.length_append] at this
    omega
  obtain ⟨h₁, hf⟩ := hf hlt
  rcases hk with rfl | rfl | rfl <;> cases hf <;> exact he rest h hs

theorem reads_literal {t : Lexeme} {v : Literal} (ht : literalOf? t = some v) :
    Reads d (.expr 0 (.literal v)) [t] := by
  refine reads_of_gives (.inl rfl) fun rest h _ => ?_
  show Gives (primary d _ (t :: rest) h) _ rest
  unfold literalOf? at ht
  unfold primary
  split at ht
  case h_1 hk =>
    cases hn : numberOf t with
    | error e => rw [hn] at ht; cases ht
    | ok w =>
      rw [hn] at ht
      cases ht
      simp only [hk, hn]
      exact .pure
  case h_8 => cases ht
  all_goals
    rename_i hk
    cases ht
    simp only [hk]
    exact .pure

theorem reads_star {t : Lexeme} (ht : t.kind = .star) : Reads d (.expr 0 (.star none)) [t] := by
  refine reads_of_gives (.inl rfl) fun rest h _ => ?_
  show Gives (primary d _ (t :: rest) h) _ rest
  unfold primary
  simp only [ht]
  exact .pure

theorem primary_of_identOf? {sub : Below n} {t : Lexeme} {i : Ident} (ht : identOf? t = some i)
    (ts : List Lexeme) (h : (t :: ts).length ≤ n) :
    primary d sub (t :: ts) h = columnOrCall d sub (t :: ts) h := by
  unfold identOf? at ht
  unfold primary
  split at ht
  case h_1 hk => simp only [hk]
  case h_2 hk => simp only [hk]
  case h_3 k hk =>
    simp only [hk]
    cases k <;> first | rfl | cases ht
  case h_4 => cases ht

theorem reads_column {t : Lexeme} {i : Ident} (ht : identOf? t = some i) :
    Reads d (.expr 0 (.column none i)) [t] := by
  refine reads_of_gives (.inl rfl) fun rest h hs => ?_
  show Gives (primary d _ (t :: rest) h) _ rest
  rw [primary_of_identOf? ht]
  unfold columnOrCall
  refine (ident_gives _ ht rest).bind fun h₁ => ?_
  cases rest with
  | nil => exact .pure
  | cons u rest =>
    have hu : 0 < joins u.kind := hs u rfl
    have hl : ¬ (u.kind = .lparen ∧ i.quoted = false) := fun hc => by
      rw [hc.1] at hu; exact absurd hu (by decide)
    have hd : u.kind ≠ .dot := fun hc => by rw [hc] at hu; exact absurd hu (by decide)
    simp only [if_neg hl, if_neg hd]
    exact .pure

/-- What stands behind a table and a point. -/
theorem reads_qualified {t u v : Lexeme} {i : Ident} {e : Expr} (ht : identOf? t = some i)
    (hu : u.kind = .dot) (hv : ∀ rest, Gives (columnOf i (v :: rest)) e rest) :
    Reads d (.expr 0 e) [t, u, v] := by
  refine reads_of_gives (.inl rfl) fun rest h hs => ?_
  show Gives (primary d _ (t :: u :: v :: rest) h) _ rest
  rw [primary_of_identOf? ht]
  unfold columnOrCall
  refine (ident_gives _ ht _).bind fun h₁ => ?_
  have hl : ¬ (u.kind = .lparen ∧ i.quoted = false) := fun hc => by
    rw [hu] at hc; exact absurd hc.1 (by decide)
  simp only [if_neg hl, if_pos hu]
  exact (hv rest).bind fun h₂ => .pure

theorem columnOf_star {i : Ident} {v : Lexeme} (hv : v.kind = .star) (rest : List Lexeme) :
    Gives (columnOf i (v :: rest)) (.star (some i)) rest := by
  rw [columnOf, if_pos hv]
  exact .pure

theorem columnOf_column {i j : Ident} {v : Lexeme} (hv : identOf? v = some j)
    (rest : List Lexeme) : Gives (columnOf i (v :: rest)) (.column (some i) j) rest := by
  have hne : v.kind ≠ .star := fun heq => by simp [identOf?, heq] at hv
  rw [columnOf, if_neg hne]
  exact (ident_gives _ hv rest).bind fun h₁ => .pure

theorem reads_call {t u v : Lexeme} {i : Ident} {es : List Expr} {e : Expr} {ls : List Lexeme}
    (ht : identOf? t = some i) (hq : i.quoted = false) (hu : u.kind = .lparen)
    (hs : Reads d (.args es) ls) (hv : v.kind = .rparen) (he : d.call i.name es = .ok e) :
    Reads d (.expr 0 e) (t :: u :: ls ++ [v]) := by
  refine reads_of_gives (.inl rfl) fun rest h _ => ?_
  have hls : t :: u :: ls ++ [v] ++ rest = t :: u :: (ls ++ v :: rest) := by simp
  revert h
  rw [hls]
  intro h
  show Gives (primary d _ (t :: u :: (ls ++ v :: rest)) h) _ rest
  rw [primary_of_identOf? ht]
  unfold columnOrCall
  refine (ident_gives _ ht _).bind fun h₁ => ?_
  simp only [hu, hq, and_self, if_true]
  refine (hs rest _ hv).bind fun h₂ => ?_
  simp only [he]
  exact .pure

theorem clause_leads {k : Keyword} {e : Option Expr} {ls : List Lexeme}
    (h : Derives d (.clause k e) ls) : ls = [] ∨ ∃ t us, ls = t :: us ∧ t.kind = .keyword k := by
  cases h with
  | noClause => exact .inl rfl
  | clause ht _ => exact .inr ⟨_, _, rfl, ht⟩

theorem reads_noClause {k : Keyword} : Reads d (.clause k none) [] := by
  intro n rest h _ hr
  obtain ⟨h₁, heq⟩ := accept_of_lacks hr
  unfold clause? acceptKeyword
  simp only [List.nil_append, heq]
  exact .pure

theorem reads_clause {t : Lexeme} {k : Keyword} {e : Expr} {ls : List Lexeme}
    (ht : t.kind = .keyword k) (he : Reads d (.expr 8 e) ls) :
    Reads d (.clause k (some e)) (t :: ls) := by
  intro n rest h hs _
  obtain ⟨h₁, heq⟩ := accept_cons ht (ls ++ rest)
  unfold clause? acceptKeyword
  simp only [List.cons_append, heq]
  exact (he.loose hs _).bind fun h₂ => .pure

theorem reads_caseWhen {t u : Lexeme} {o b : Option Expr} {ws : List (Expr × Expr)}
    {ls₁ ls₂ ls₃ : List Lexeme} (ht : t.kind = .keyword .CASE)
    (ho : Reads d (.caseOperand o) ls₁) (hw : Reads d (.whens ws) ls₂)
    (hw' : Derives d (.whens ws) ls₂) (hne : ws ≠ []) (hb : Reads d (.clause .ELSE b) ls₃)
    (hb' : Derives d (.clause .ELSE b) ls₃) (hu : u.kind = .keyword .END) :
    Reads d (.expr 0 (.caseWhen o ws b)) (t :: ls₁ ++ ls₂ ++ ls₃ ++ [u]) := by
  refine reads_of_gives (.inl rfl) fun rest h _ => ?_
  have hls : t :: ls₁ ++ ls₂ ++ ls₃ ++ [u] ++ rest = t :: (ls₁ ++ (ls₂ ++ (ls₃ ++ u :: rest))) := by
    simp
  revert h
  rw [hls]
  intro h
  show Gives (primary d _ (t :: (ls₁ ++ (ls₂ ++ (ls₃ ++ u :: rest)))) h) _ rest
  unfold primary
  simp only [ht]
  have hend : Stops 8 (u :: rest) := .cons (by rw [hu]; decide)
  -- behind the branches comes `ELSE` or `END`
  have hwhens : Stops 8 (ls₃ ++ u :: rest) ∧ Lacks (.keyword .WHEN) (ls₃ ++ u :: rest) := by
    rcases clause_leads hb' with rfl | ⟨v, vs, rfl, hv⟩
    · exact ⟨hend, .cons (by rw [hu]; decide)⟩
    · exact ⟨.cons (by rw [hv]; decide), .cons (by rw [hv]; decide)⟩
  refine Gives.bind ?_ fun h₁ => .pure
  unfold caseExpr
  cases hw' with
  | noWhens => exact absurd rfl hne
  | whens hv =>
    refine (ho _ _ hv).bind fun h₁ => ?_
    refine (hw _ _ hwhens.1 hwhens.2).bind fun h₂ => ?_
    refine (hb _ _ hend (.cons (by rw [hu]; decide))).bind fun h₃ => ?_
    exact (expectKeyword_gives hu rest).bind fun h₄ => .pure

theorem castParts_gives {u v w : Lexeme} {e : Expr} {type : DataType} {ls₁ ls₂ : List Lexeme}
    (hu : u.kind = .lparen) (he : Reads d (.expr 8 e) ls₁) (hv : v.kind = .keyword .AS)
    (hT : TypeOf type ls₂) (hw : w.kind = .rparen) (rest : List Lexeme) (h) :
    Gives (castParts (within d n) (u :: (ls₁ ++ v :: (ls₂ ++ w :: rest))) h) (e, type) rest := by
  unfold castParts
  refine (expect_gives _ hu _).bind fun h₁ => ?_
  refine (he.loose (.cons (by rw [hv]; decide)) _).bind fun h₂ => ?_
  refine (expectKeyword_gives hv _).bind fun h₃ => ?_
  refine (hT.gives (.cons (by rw [hw]; decide)) (.cons (by rw [hw]; decide))).bind fun h₄ => ?_
  exact (expect_gives _ hw rest).bind fun h₅ => .pure

theorem reads_cast {t u v w : Lexeme} {k : Keyword} {make : Expr → DataType → Expr} {e : Expr}
    {type : DataType} {ls₁ ls₂ : List Lexeme} (ht : t.kind = .keyword k)
    (hk : castOf? k = some make) (hu : u.kind = .lparen) (he : Reads d (.expr 8 e) ls₁)
    (hv : v.kind = .keyword .AS) (hT : TypeOf type ls₂) (hw : w.kind = .rparen) :
    Reads d (.expr 0 (make e type)) (t :: u :: ls₁ ++ v :: ls₂ ++ [w]) := by
  refine reads_of_gives (.inl rfl) fun rest h _ => ?_
  have hls : t :: u :: ls₁ ++ v :: ls₂ ++ [w] ++ rest =
      t :: (u :: (ls₁ ++ v :: (ls₂ ++ w :: rest))) := by simp
  revert h
  rw [hls]
  intro h
  show Gives (primary d _ (t :: (u :: (ls₁ ++ v :: (ls₂ ++ w :: rest)))) h) _ rest
  unfold primary
  unfold castOf? at hk
  split at hk
  case h_1 =>
    cases hk
    simp only [ht]
    exact (castParts_gives hu he hv hT hw rest _).bind fun h₁ => .pure
  case h_2 =>
    cases hk
    simp only [ht]
    exact (castParts_gives hu he hv hT hw rest _).bind fun h₁ => .pure
  case h_3 => cases hk

theorem reads_paren {t u : Lexeme} {e : Expr} {ls : List Lexeme} (ht : t.kind = .lparen)
    (he : Reads d (.expr 8 e) ls) (hfirst : Leads 8 ls) (hu : u.kind = .rparen) :
    Reads d (.expr 0 (.paren e)) (t :: ls ++ [u]) := by
  refine reads_of_gives (.inl rfl) fun rest h _ => ?_
  have hls : t :: ls ++ [u] ++ rest = t :: (ls ++ u :: rest) := by simp
  revert h
  rw [hls]
  intro h
  show Gives (primary d _ (t :: (ls ++ u :: rest)) h) _ rest
  unfold primary
  simp only [ht]
  have hselect := hfirst.lacks (.keyword .SELECT) (by decide) (u :: rest)
  obtain ⟨h₁, heq⟩ := accept_of_lacks hselect
  unfold parenthesized queryOrExpr acceptKeyword
  simp only [heq]
  refine Gives.bind ?_ fun h₂ => .pure
  refine (he.loose (.cons (by rw [hu]; decide)) _).bind fun h₂ => ?_
  exact (expect_gives _ hu rest).bind fun h₃ => .pure

theorem reads_subquery {t u v : Lexeme} {q : Select Expr} {ls : List Lexeme}
    (ht : t.kind = .lparen) (hu : u.kind = .keyword .SELECT) (hq : Reads d (.query q) ls)
    (hv : v.kind = .rparen) :
    Reads d (.expr 0 (.paren (.select q))) (t :: u :: ls ++ [v]) := by
  refine reads_of_gives (.inl rfl) fun rest h _ => ?_
  have hls : t :: u :: ls ++ [v] ++ rest = t :: u :: (ls ++ v :: rest) := by simp
  revert h
  rw [hls]
  intro h
  show Gives (primary d _ (t :: u :: (ls ++ v :: rest)) h) _ rest
  unfold primary parenthesized
  simp only [ht]
  refine Gives.bind ?_ fun h₂ => .pure
  have hends : QueryEnds (v :: rest) := by
    intro w hw
    cases hw
    exact .inl hv
  have hquery {n : Nat} (h : (u :: (ls ++ v :: rest)).length < n) :
      Gives (queryOrExpr (within d n) (u :: (ls ++ v :: rest)) h) (.select q) (v :: rest) := by
    obtain ⟨h₁, heq⟩ := accept_cons hu (ls ++ v :: rest)
    unfold queryOrExpr acceptKeyword
    simp only [heq]
    exact (hq (v :: rest) _ hends).bind fun h₂ => .pure
  refine (hquery _).bind fun h₂ => ?_
  exact (expect_gives _ hv rest).bind fun h₃ => .pure

/-! ## operators -/

theorem reads_minus {t : Lexeme} {e : Expr} {ls : List Lexeme} (ht : t.kind = .minus)
    (he : Reads d (.expr 1 e) ls) : Reads d (.expr 1 (.unaryOp .minus e)) (t :: ls) := by
  refine reads_of_gives (.inr (.inl rfl)) fun rest h hs => ?_
  show Gives (signed d _ (t :: (ls ++ rest)) h) _ rest
  rw [signed, if_pos ht]
  have he : Gives (signed d _ (ls ++ rest) _) e rest :=
    he rest e rest (Front.tail_le h) hs fun _ => .pure
  exact he.bind fun h₁ => .pure

theorem reads_not {t : Lexeme} {e : Expr} {ls : List Lexeme} (ht : t.kind = .keyword .NOT)
    (he : Reads d (.expr 6 e) ls) : Reads d (.expr 6 (.unaryOp .not e)) (t :: ls) := by
  refine reads_of_gives (.inr (.inr rfl)) fun rest h hs => ?_
  show Gives (negation d _ (t :: (ls ++ rest)) h) _ rest
  rw [negation, if_pos ht]
  have he : Gives (negation d _ (ls ++ rest) _) e rest :=
    he rest e rest (Front.tail_le h) hs fun _ => .pure
  exact he.bind fun h₁ => .pure

theorem reads_binary {t : Lexeme} {k : Nat} {make : Expr → Expr → Expr} {a b : Expr}
    {ls₁ ls₂ : List Lexeme} (ha : Reads d (.expr (k + 1) a) ls₁)
    (ht : operatorAt? (k + 1) t.kind = some make) (hb : Reads d (.expr k b) ls₂) :
    Reads d (.expr (k + 1) (make a b)) (ls₁ ++ t :: ls₂) := by
  intro n rest f rest' h hs hf
  revert h
  rw [List.append_assoc, List.cons_append]
  intro h
  have hj := joins_of_operatorAt? ht
  refine ha (t :: (ls₂ ++ rest)) f rest' h (.cons (by omega)) fun h₁ => ?_
  exact loopAt_binary ht (fun h₂ => hb.expr hs h₂) hf

theorem reads_tested {a e : Expr} {ls₁ ls₂ : List Lexeme} (ha : Reads d (.expr 5 a) ls₁)
    (ht : Reads d (.test a e) ls₂) : Reads d (.expr 5 e) (ls₁ ++ ls₂) := by
  intro n rest f rest' h hs hf
  obtain ⟨t, us, rfl, hj, ht⟩ := ht
  revert h
  rw [List.append_assoc, List.cons_append]
  intro h
  refine ha (t :: (us ++ rest)) f rest' h (.cons (by omega)) fun h₁ => ?_
  exact loopAt_tested (fun h₂ => ht rest h₂ hs) hf

theorem reads_lift {k : Nat} {e : Expr} {ls : List Lexeme} (he : Reads d (.expr k e) ls)
    (hfirst : Leads k ls) (hk : k < 8) : Reads d (.expr (k + 1) e) ls := by
  intro n rest f rest' h hs hf
  exact readAt_succ hk (hfirst.append rest) (he.expr hs h) hf

/-! ## comparisons and predicates -/

theorem reads_compare {t : Lexeme} {op : BinaryOperator} {a b : Expr} {ls : List Lexeme}
    (ht : comparison? t.kind = some op) (hb : Reads d (.expr 4 b) ls) :
    Reads d (.test a (.binaryOp op a b)) (t :: ls) := by
  refine ⟨t, ls, rfl, joins_of_comparison? ht, fun rest h hs => ?_⟩
  unfold test?
  simp only [ht]
  refine ⟨_, rfl, ?_⟩
  have hb : Gives (sum d _ (ls ++ rest) _) b rest := hb.expr hs (Nat.le_of_lt h)
  exact hb.bind fun h₁ => .pure

theorem comparison?_of_predicate? {kind : LexemeKind} {p : Predicate}
    (h : predicate? kind = some p) : comparison? kind = none := by
  unfold predicate? at h
  split at h <;> first | rfl | cases h

/-- A predicate, with `NOT` in front if it is negated. -/
theorem reads_predicate {t : Lexeme} {p : Predicate} {negated : Bool} {a e : Expr}
    {ns ls : List Lexeme} (hn : Flag .NOT negated ns) (ht : predicate? t.kind = some p)
    (he : ∀ {n} (rest : List Lexeme) h, Stops 4 rest →
      Gives (predicate d (within d n) p negated a (ls ++ rest) h) e rest) :
    Reads d (.test a e) (ns ++ t :: ls) := by
  cases hn with
  | absent =>
    refine ⟨t, ls, rfl, joins_of_predicate? ht, fun rest h hs => ?_⟩
    unfold test?
    simp only [comparison?_of_predicate? ht, ht]
    exact ⟨_, rfl, he rest h hs⟩
  | @present u hu =>
    refine ⟨u, t :: ls, rfl, by rw [hu]; rfl, fun rest h hs => ?_⟩
    have hc : comparison? u.kind = none := by rw [hu]; rfl
    have hp : predicate? u.kind = none := by rw [hu]; rfl
    simp only [test?, hu, ht, List.cons_append]
    exact ⟨_, rfl, (he rest (Nat.lt_of_succ_lt h) hs).bind fun h₁ => .pure⟩

theorem reads_like {t : Lexeme} {negated : Bool} {a b : Expr} {ns ls : List Lexeme}
    (hn : Flag .NOT negated ns) (ht : t.kind = .keyword .LIKE) (hb : Reads d (.expr 4 b) ls) :
    Reads d (.test a (.like negated a b)) (ns ++ t :: ls) := by
  refine reads_predicate (p := .like) hn (by rw [ht]; rfl) fun rest h hs => ?_
  have hb : Gives (sum d _ (ls ++ rest) _) b rest := hb.expr hs (Nat.le_of_lt h)
  exact hb.bind fun h₁ => .pure

theorem reads_ilike {t : Lexeme} {negated : Bool} {a b : Expr} {ns ls : List Lexeme}
    (hn : Flag .NOT negated ns) (ht : t.kind = .keyword .ILIKE) (hb : Reads d (.expr 4 b) ls) :
    Reads d (.test a (.ilike negated a b)) (ns ++ t :: ls) := by
  refine reads_predicate (p := .ilike) hn (by rw [ht]; rfl) fun rest h hs => ?_
  have hb : Gives (sum d _ (ls ++ rest) _) b rest := hb.expr hs (Nat.le_of_lt h)
  exact hb.bind fun h₁ => .pure

theorem reads_between {t u : Lexeme} {negated : Bool} {a low high : Expr}
    {ns ls₁ ls₂ : List Lexeme} (hn : Flag .NOT negated ns) (ht : t.kind = .keyword .BETWEEN)
    (hl : Reads d (.expr 4 low) ls₁) (hu : u.kind = .keyword .AND)
    (hh : Reads d (.expr 4 high) ls₂) :
    Reads d (.test a (.between negated a low high)) (ns ++ t :: ls₁ ++ u :: ls₂) := by
  rw [List.append_assoc, List.cons_append]
  refine reads_predicate (p := .between) hn (by rw [ht]; rfl) fun rest h hs => ?_
  revert h
  rw [List.append_assoc, List.cons_append]
  intro h
  have hl : Gives (sum d _ (ls₁ ++ u :: (ls₂ ++ rest)) _) low (u :: (ls₂ ++ rest)) :=
    hl.expr (.cons (by rw [hu]; decide)) (Nat.le_of_lt h)
  refine hl.bind fun h₁ => ?_
  refine (expectKeyword_gives hu _).bind fun h₂ => ?_
  have hh : Gives (sum d _ (ls₂ ++ rest) _) high rest :=
    hh.expr hs (Nat.le_of_lt (Nat.lt_trans (Nat.lt_trans h₂ h₁) h))
  exact hh.bind fun h₃ => .pure

theorem reads_inList {t u v : Lexeme} {negated : Bool} {a : Expr} {es : List Expr}
    {ns ls : List Lexeme} (hn : Flag .NOT negated ns) (ht : t.kind = .keyword .IN)
    (hu : u.kind = .lparen) (hs : Reads d (.exprs es) ls) (hv : v.kind = .rparen) :
    Reads d (.test a (.inList negated a es)) (ns ++ t :: u :: ls ++ [v]) := by
  rw [List.append_assoc, List.cons_append]
  refine reads_predicate (p := .inList) hn (by rw [ht]; rfl) fun rest h _ => ?_
  obtain ⟨b, bs, rfl, hs⟩ := hs
  revert h
  rw [List.append_assoc, List.cons_append]
  intro h
  refine (expect_gives _ hu _).bind fun h₁ => ?_
  refine (hs (v :: rest) _ (.cons (by rw [hv]; decide)) (.cons (by rw [hv]; decide))).bind
    fun h₂ => ?_
  exact (expect_gives _ hv rest).bind fun h₃ => .pure

theorem reads_isNull {t u : Lexeme} {negated : Bool} {a : Expr} {ns : List Lexeme}
    (ht : t.kind = .keyword .IS) (hn : Flag .NOT negated ns) (hu : u.kind = .keyword .NULL) :
    Reads d (.test a (.isNull negated a)) (t :: ns ++ [u]) := by
  refine ⟨t, ns ++ [u], rfl, by rw [ht]; rfl, fun rest h hs => ?_⟩
  have hc : comparison? t.kind = none := by rw [ht]; rfl
  have hp : predicate? t.kind = none := by rw [ht]; rfl
  simp only [test?, ht]
  refine ⟨_, rfl, ?_⟩
  obtain ⟨h₁, heq⟩ := hn.accept (u :: rest) fun _ => .cons (by rw [hu]; decide)
  have hls : ns ++ [u] ++ rest = ns ++ u :: rest := by simp
  rw [hls]
  unfold nullTest
  have hnull : Gives (expectKeyword .NULL (acceptKeyword .NOT (ns ++ u :: rest)).rest) () rest := by
    rw [heq]
    exact expectKeyword_gives hu rest
  have hvalue : (acceptKeyword .NOT (ns ++ u :: rest)).value = negated := by rw [heq]
  refine hnull.bind fun h₂ => ?_
  rw [← hvalue]
  exact .pure

/-! ## lists -/

theorem reads_exprsOne {e : Expr} {ls : List Lexeme} (he : Reads d (.expr 8 e) ls) :
    Reads d (.exprs [e]) ls :=
  ⟨e, [], rfl, fun _ h hs hr => commaList_one (he.loose hs h) hr⟩

theorem reads_exprsMore {t : Lexeme} {e : Expr} {es : List Expr} {ls₁ ls₂ : List Lexeme}
    (he : Reads d (.expr 8 e) ls₁) (ht : t.kind = .comma) (hs : Reads d (.exprs es) ls₂) :
    Reads d (.exprs (e :: es)) (ls₁ ++ t :: ls₂) := by
  obtain ⟨a, as, rfl, hs⟩ := hs
  refine ⟨e, a :: as, rfl, fun rest h hstop hr => ?_⟩
  revert h
  rw [List.append_assoc, List.cons_append]
  intro h
  exact commaList_more (he.loose (.cons (by rw [ht]; decide)) h) ht fun h => hs rest h hstop hr

theorem direction_stops {direction : Option SortDirection} {ls rest : List Lexeme}
    (h : DirectionOf direction ls) (hs : Stops 8 rest) : Stops 8 (ls ++ rest) := by
  cases h with
  | none => exact hs
  | asc ht => exact .cons (by rw [ht]; decide)
  | desc ht => exact .cons (by rw [ht]; decide)

theorem reads_item {e : Expr} {direction : Option SortDirection} {ls₁ ls₂ : List Lexeme}
    (he : Reads d (.expr 8 e) ls₁) (hd : DirectionOf direction ls₂) :
    Reads d (.item ⟨e, direction⟩) (ls₁ ++ ls₂) := by
  intro n rest h hs hr
  revert h
  rw [List.append_assoc]
  intro h
  unfold orderItem
  refine (he.loose (direction_stops hd hs) h).bind fun h₁ => ?_
  cases hd with
  | asc ht =>
    simp only [List.cons_append, ht]
    exact .pure
  | desc ht =>
    simp only [List.cons_append, ht]
    exact .pure
  | none =>
    cases rest with
    | nil => exact .pure
    | cons t rest =>
      have hasc : t.kind ≠ .keyword .ASC := hr.lacks (by simp) t rfl
      have hdesc : t.kind ≠ .keyword .DESC := hr.lacks (by simp) t rfl
      simp only [List.nil_append]
      exact .pure

theorem reads_itemsOne {i : OrderItem Expr} {ls : List Lexeme} (hi : Reads d (.item i) ls) :
    Reads d (.items [i]) ls := by
  refine ⟨i, [], rfl, fun rest h hs hr => ?_⟩
  exact commaList_one (hi rest h hs (hr.mono (by simp))) (hr.lacks (by simp))

theorem reads_itemsMore {t : Lexeme} {i : OrderItem Expr} {is : List (OrderItem Expr)}
    {ls₁ ls₂ : List Lexeme} (hi : Reads d (.item i) ls₁) (ht : t.kind = .comma)
    (hs : Reads d (.items is) ls₂) : Reads d (.items (i :: is)) (ls₁ ++ t :: ls₂) := by
  obtain ⟨a, as, rfl, hs⟩ := hs
  refine ⟨i, a :: as, rfl, fun rest h hstop hr => ?_⟩
  revert h
  rw [List.append_assoc, List.cons_append]
  intro h
  have havoid : Avoids [.keyword .ASC, .keyword .DESC] (t :: (ls₂ ++ rest)) := by
    intro u hu
    cases hu
    rw [ht]
    decide
  exact commaList_more (hi _ h (.cons (by rw [ht]; decide)) havoid) ht
    fun h => hs rest h hstop hr

/-! ## parts of calls and cases -/

theorem reads_noSeparator : Reads d (.separator none) [] := by
  intro n rest h _ hr
  cases rest with
  | nil => exact .pure
  | cons t rest =>
    have hne : ¬ (t.kind = .word ∧ Text.sameWord t.text "SEPARATOR" = true) :=
      fun hc => hr t rfl hc.1
    show Gives (separator? _ (t :: rest) h) _ _
    rw [separator?, if_neg hne]
    exact .pure

theorem reads_separator {t : Lexeme} {e : Expr} {ls : List Lexeme} (ht : t.kind = .word)
    (hs : Text.sameWord t.text "SEPARATOR" = true) (he : Reads d (.expr 8 e) ls) :
    Reads d (.separator (some e)) (t :: ls) := by
  intro n rest h hstop _
  show Gives (separator? _ (t :: (ls ++ rest)) h) _ _
  rw [separator?, if_pos ⟨ht, hs⟩]
  exact (he.loose hstop _).bind fun h₁ => .pure

theorem reads_noArgs : Reads d (.args []) [] := by
  intro n v rest h hv
  have hcomes : comes .rparen (v :: rest) = true := by simp [comes, hv]
  show Gives (callArgs _ (v :: rest) h) _ _
  rw [callArgs, dif_pos hcomes]
  exact (expect_gives _ hv rest).bind fun h₁ => .pure

/-- What comes behind the expressions among the arguments of a call. -/
theorem behind_exprs {s : Option Expr} {items : List (OrderItem Expr)}
    {ls₂ ls₃ : List Lexeme} {v : Lexeme} (ho : Derives d (.orderBy items) ls₂)
    (hs : Derives d (.separator s) ls₃) (hv : v.kind = .rparen) (rest : List Lexeme) :
    (Stops 8 (ls₂ ++ (ls₃ ++ v :: rest)) ∧ Lacks .comma (ls₂ ++ (ls₃ ++ v :: rest))) ∧
      Stops 8 (ls₃ ++ v :: rest) ∧
      Avoids [.keyword .ORDER, .keyword .ASC, .keyword .DESC, .comma] (ls₃ ++ v :: rest) := by
  have hsep : Stops 8 (ls₃ ++ v :: rest) ∧
      Avoids [.keyword .ORDER, .keyword .ASC, .keyword .DESC, .comma] (ls₃ ++ v :: rest) := by
    have hone {t : Lexeme} {ts : List Lexeme} (ht : t.kind = .word ∨ t.kind = .rparen) :
        Stops 8 (t :: ts) ∧
          Avoids [.keyword .ORDER, .keyword .ASC, .keyword .DESC, .comma] (t :: ts) := by
      refine ⟨.cons ?_, fun u hu => ?_⟩
      · rcases ht with ht | ht <;> rw [ht] <;> decide
      · cases hu
        rcases ht with ht | ht <;> rw [ht] <;> decide
    cases hs with
    | noSeparator => exact hone (.inr hv)
    | separator ht _ _ => exact hone (.inl ht)
  refine ⟨?_, hsep⟩
  cases ho with
  | noOrderBy => exact ⟨hsep.1, hsep.2.lacks (by simp)⟩
  | orderBy ht _ _ => exact ⟨.cons (by rw [ht]; decide), .cons (by rw [ht]; decide)⟩

theorem reads_args {distinct : Bool} {first : Expr} {others : List Expr}
    {items : List (OrderItem Expr)} {s : Option Expr} {ls₀ ls₁ ls₂ ls₃ : List Lexeme}
    (hd : Flag .DISTINCT distinct ls₀) (he : Reads d (.exprs (first :: others)) ls₁)
    (hfirst : Leads 8 ls₁) (ho : Reads d (.orderBy items) ls₂)
    (ho' : Derives d (.orderBy items) ls₂) (hs : Reads d (.separator s) ls₃)
    (hs' : Derives d (.separator s) ls₃) :
    Reads d (.args (gatherArgs distinct first others items s)) (ls₀ ++ ls₁ ++ ls₂ ++ ls₃) := by
  intro n v rest h hv
  have hls : ls₀ ++ ls₁ ++ ls₂ ++ ls₃ ++ v :: rest =
      ls₀ ++ (ls₁ ++ (ls₂ ++ (ls₃ ++ v :: rest))) := by simp
  revert h
  rw [hls]
  intro h
  have hcomes : ¬ comes .rparen (ls₀ ++ (ls₁ ++ (ls₂ ++ (ls₃ ++ v :: rest)))) = true := by
    rw [comes_of_lacks]
    · decide
    · cases hd with
      | absent => exact hfirst.lacks _ (by decide) _
      | present ht => exact .cons (by rw [ht]; decide)
  obtain ⟨hexprs, hstop, havoid⟩ := behind_exprs ho' hs' hv rest
  obtain ⟨h₀, heq⟩ := hd.accept (ls₁ ++ (ls₂ ++ (ls₃ ++ v :: rest)))
    fun _ => hfirst.lacks _ (by decide) _
  obtain ⟨a, as, has, he⟩ := he
  cases has
  rw [callArgs, dif_neg hcomes]
  have hrest : (acceptKeyword .DISTINCT (ls₀ ++ (ls₁ ++ (ls₂ ++ (ls₃ ++ v :: rest))))).rest =
      ls₁ ++ (ls₂ ++ (ls₃ ++ v :: rest)) := by rw [heq]
  have hvalue : (acceptKeyword .DISTINCT (ls₀ ++ (ls₁ ++ (ls₂ ++ (ls₃ ++ v :: rest))))).value =
      distinct := by rw [heq]
  have hgives (ts : List Lexeme) (hts : ts = ls₁ ++ (ls₂ ++ (ls₃ ++ v :: rest))) (h) :
      Gives (exprList (within d n) ts h) (first, others) (ls₂ ++ (ls₃ ++ v :: rest)) := by
    subst hts
    exact he _ h hexprs.1 hexprs.2
  have hpair : (if (acceptKeyword .DISTINCT
        (ls₀ ++ (ls₁ ++ (ls₂ ++ (ls₃ ++ v :: rest))))).value = true
      then (Expr.distinct (first :: others), []) else (first, others)) =
      (if distinct then .distinct (first :: others) else first,
        if distinct then [] else others) := by
    rw [hvalue]
    cases distinct <;> rfl
  dsimp only
  refine (hgives _ hrest _).bind fun h₁ => ?_
  dsimp only
  rw [hpair]
  refine (ho _ _ hstop havoid).bind fun h₂ => ?_
  refine (hs _ _ (.cons (by rw [hv]; decide)) (.cons (by rw [hv]; decide))).bind fun h₃ => ?_
  exact (expect_gives _ hv rest).bind fun h₄ => .pure

theorem reads_noCaseOperand : Reads d (.caseOperand none) [] := by
  intro n t rest h ht
  have hcomes : comes (.keyword .WHEN) (t :: rest) = true := by simp [comes, ht]
  show Gives (caseOperand _ (t :: rest) h) _ _
  rw [caseOperand, if_pos hcomes]
  exact .pure

theorem reads_caseOperand {e : Expr} {ls : List Lexeme} (he : Reads d (.expr 8 e) ls)
    (hfirst : Leads 8 ls) : Reads d (.caseOperand (some e)) ls := by
  intro n t rest h ht
  have hcomes : ¬ comes (.keyword .WHEN) (ls ++ t :: rest) = true := by
    rw [comes_of_lacks (hfirst.lacks _ (by decide) _)]
    decide
  rw [caseOperand, if_neg hcomes]
  exact (he.loose (.cons (by rw [ht]; decide)) _).bind fun h₁ => .pure

theorem reads_noWhens : Reads d (.whens []) [] := by
  intro n rest h _ hr
  obtain ⟨h₁, heq⟩ := accept_of_lacks hr
  rw [whenBranches]
  unfold acceptKeyword
  simp only [List.nil_append, heq]
  exact .pure

theorem reads_whens {t u : Lexeme} {a b : Expr} {ws : List (Expr × Expr)}
    {ls₁ ls₂ ls₃ : List Lexeme} (ht : t.kind = .keyword .WHEN) (ha : Reads d (.expr 8 a) ls₁)
    (hu : u.kind = .keyword .THEN) (hb : Reads d (.expr 8 b) ls₂) (hw : Reads d (.whens ws) ls₃)
    (hw' : Derives d (.whens ws) ls₃) :
    Reads d (.whens ((a, b) :: ws)) (t :: ls₁ ++ u :: ls₂ ++ ls₃) := by
  intro n rest h hs hr
  have hls : t :: ls₁ ++ u :: ls₂ ++ ls₃ ++ rest = t :: (ls₁ ++ u :: (ls₂ ++ (ls₃ ++ rest))) := by
    simp
  revert h
  rw [hls]
  intro h
  have hstop : Stops 8 (ls₃ ++ rest) := by
    cases hw' with
    | noWhens => exact hs
    | whens hv => exact .cons (by rw [hv]; decide)
  obtain ⟨h₁, heq⟩ := accept_cons ht (ls₁ ++ u :: (ls₂ ++ (ls₃ ++ rest)))
  rw [whenBranches]
  unfold acceptKeyword
  simp only [heq]
  refine (ha.loose (.cons (by rw [hu]; decide)) _).bind fun h₂ => ?_
  refine (expectKeyword_gives hu _).bind fun h₃ => ?_
  refine (hb.loose hstop _).bind fun h₄ => ?_
  exact (hw rest _ hs hr).bind fun h₅ => .pure

end

end SqlDialect.Grammar
