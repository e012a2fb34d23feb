import SqlDialect.Proofs.Decimal.Readback
import SqlDialect.Proofs.Grammar.Statement
import SqlDialect.Proofs.Lexeme.Name
import SqlDialect.Proofs.Tree.Shape

/-!
# SqlDialect.Proofs.Grammar.Proper

The trees that a text can be read as.

* `Proper` -- what reading a text ensures about a node: its names and values
  can be written, and its operands are bound as tightly as their places ask.
* `Derives.proper` -- every node that is read from genuine lexemes is proper.
* `StatementOf.proper` -- the same for statements.
-/

namespace SqlDialect

open Text

/-! ## what is read -/

/-- A word that no dialect takes for a keyword, except perhaps as a demand on
a column. -/
def PlainWord (word : String) : Prop :=
  isWord word = true ∧ Keyword.ofSpelling? word = none

/-- Reading a JSON extraction takes its kind from two arguments only. -/
def CallKind.extracts : CallKind → Bool
  | jsonExtract | jsonExtractScalar | jsonbExtract | jsonbExtractScalar => true
  | _ => false

/-- What a query projects. -/
def Projected (p : Expr) : Prop :=
  (∃ a i, p = .aliased a i) ∨ p = .star none ∨ p.tier .generic ≤ 8 ∧ p.starred .generic = false

/-- What a query reads from. -/
def Sourced (s : Expr) : Prop :=
  (∃ schema name x, s = .table schema name x) ∨ ∃ a m n u, s = .tableSample a m n u

/-- The names and values of a node can be written down. -/
def Writable : Expr → Prop
  | .column t n => (∀ i ∈ t, Named i) ∧ Named n
  | .literal (.int n) => 0 ≤ n.toInt
  | .literal (.float f) => ∀ s m, f = .finite s m → s = false
  | .star t => ∀ i ∈ t, Named i
  | .aliased a i => Named i ∧ a.starred .generic = false
  | .function name es => Bare name ∧ ∀ k, Builtin.generic.function? name = some k →
      k.extracts = true ∧ name = k.name ∧ 2 < es.length
  | .order a _ => ∀ c is, a ≠ .order c is
  | .table s n x => (∀ i ∈ s, Named i) ∧ Named n ∧ ∀ i ∈ x, Named i
  | .tableSample a m _ _ =>
    (∃ s n x, a = .table s n x) ∧ ∀ w ∈ m, PlainWord w ∧ upper w = w
  | .select q => (∀ p ∈ q.projections, Projected p) ∧ ∀ s ∈ q.source, Sourced s
  | .fetch _ n p _ => (n = none → p = false) ∧ ∀ c ∈ n, c.namesRows = false
  | .transaction m => ∀ text ∈ m, ∃ ws, ws ≠ [] ∧ text = " ".intercalate ws ∧ ∀ w ∈ ws, PlainWord w
  | .createTable t => (∃ s n, t.table = .table s n none) ∧ ∀ c ∈ t.columns, Named c.name
  | _ => True

/-- What reading a text ensures about a node. -/
def Proper (e : Expr) : Prop := (∀ s ∈ e.places, s.2.tier .generic ≤ s.1) ∧ Writable e

namespace Grammar

/-! ## phrases -/

/-- A tree that was read as an operand of a level of precedence. -/
def Operand (k : Nat) (e : Expr) : Prop := e.All Proper ∧ e.tier .generic ≤ k

theorem Operand.mono {k n : Nat} {e : Expr} (h : Operand k e) (hkn : k ≤ n) : Operand n e :=
  ⟨h.1, Nat.le_trans h.2 hkn⟩

/-- Arguments of a call as they are read. -/
def Arguments (es : List Expr) : Prop :=
  (∀ e ∈ es, e.All Proper) ∧ ∀ s ∈ Expr.arguments es, s.2.tier .generic ≤ s.1

/-- A tree that was read from lexemes. -/
structure ReadFrom (k : Nat) (e : Expr) (ls : List Lexeme) : Prop where
  operand : Operand (max k 1) e
  star : e.starred .generic = true → ∃ t ∈ ls.head?, t.kind = .star
  rows : e.namesRows = true → ∃ t ∈ ls.head?, t.kind = .keyword .ROW ∨ t.kind = .keyword .ROWS

/-- What reading a phrase ensures. -/
def Phrase.Proper : Phrase → List Lexeme → Prop
  | .expr k e, ls => ReadFrom k e ls
  | .test a e, _ => Operand 5 a → Operand 5 e ∧ e.starred .generic = a.starred .generic ∧
      e.namesRows = false
  | .exprs es, _ => ∀ e ∈ es, Operand 8 e
  | .item i, _ => Operand 8 i.expr
  | .items is, _ => ∀ i ∈ is, Operand 8 i.expr
  | .clause _ e, _ | .separator e, _ | .caseOperand e, _ | .offset e, _ => ∀ c ∈ e, Operand 8 c
  | .groupBy es, _ => ∀ e ∈ es, Operand 8 e
  | .orderBy is, _ => ∀ i ∈ is, Operand 8 i.expr
  | .args es, _ => Arguments es
  | .whens ws, _ => ∀ w ∈ ws, Operand 8 w.1 ∧ Operand 8 w.2
  | .projection e, _ => e.All SqlDialect.Proper ∧ Projected e
  | .projections es, _ => ∀ e ∈ es, e.All SqlDialect.Proper ∧ Projected e
  | .table e, _ => e.All SqlDialect.Proper ∧ Sourced e
  | .source e, _ => ∀ c ∈ e, c.All SqlDialect.Proper ∧ Sourced c
  | .fetchCount e, _ => ∀ c ∈ e, Operand 1 c ∧ c.namesRows = false
  | .fetch e, _ => ∀ c ∈ e, c.All SqlDialect.Proper
  | .rowLimit l o, _ => (∀ c ∈ l, c.All SqlDialect.Proper) ∧ ∀ c ∈ o, Operand 8 c
  | .query q, _ => (Expr.select q).All SqlDialect.Proper

variable {b : Builtin}

/-! ## nodes -/

section

variable {k : Nat} {e : Expr} {ls : List Lexeme}

/-- A node over proper children. -/
theorem all_proper (hp : Proper e) (hc : ∀ c ∈ e.children, c.All Proper) : e.All Proper :=
  Expr.all_iff.2 ⟨hp, hc⟩

/-- A leaf. -/
theorem all_proper_leaf (hs : Writable e) (hp : e.places = []) (hc : e.children = []) :
    e.All Proper :=
  all_proper ⟨by simp [hp], hs⟩ (by simp [hc])

/-- What is read at a level starts with what nothing looser starts with. -/
theorem ReadFrom.of_operand (h : Operand (max k 1) e) (hs : e.starred .generic = false)
    (hr : e.namesRows = false) : ReadFrom k e ls :=
  ⟨h, by simp [hs], by simp [hr]⟩

theorem ReadFrom.lift (h : ReadFrom k e ls) : ReadFrom (k + 1) e ls :=
  ⟨h.operand.mono (by omega), h.star, h.rows⟩

/-- Lexemes behind those of a tree do not change how it starts. -/
theorem head?_append {P : Lexeme → Prop} {ls ls' : List Lexeme} (h : ∃ t ∈ ls.head?, P t) :
    ∃ t ∈ (ls ++ ls').head?, P t := by
  obtain ⟨t, ht, hP⟩ := h
  refine ⟨t, ?_, hP⟩
  rw [List.head?_append, ht]
  rfl

theorem literalOf?_writable {t : Lexeme} {v : Literal} (hg : Genuine b.dialect t)
    (h : literalOf? t = some v) : Writable (.literal v) := by
  unfold literalOf? at h
  split at h
  case h_1 hk =>
    have hsign : ∀ c ∈ t.text.toList.head?, c ≠ '-' ∧ c ≠ '+' := by
      unfold Genuine at hg
      rwa [hk] at hg
    unfold numberOf at h
    simp only at h
    split at h
    case isTrue hsmall =>
      cases h
      change (0 : Int) ≤ (Int64.ofNat _).toInt
      rw [Int64.toInt_ofNat_of_lt hsmall.2]
      exact Int.natCast_nonneg _
    case isFalse =>
      split at h
      case h_1 f hf =>
        cases h
        rintro s m rfl
        exact Decimal.Binary64.sign_of_ofText? hsign hf
      case h_2 => cases h
  case h_8 => cases h
  all_goals
    cases h
    trivial

/-- The word of a genuine lexeme. -/
theorem word_plain {t : Lexeme} (hg : Genuine b.dialect t) (ht : t.kind = .word) : PlainWord t.text := by
  unfold Genuine at hg
  rw [ht] at hg
  refine ⟨hg.1, Option.eq_none_iff_forall_ne_some.2 fun k hk => ?_⟩
  rw [keyword?_of_ofSpelling? hk b] at hg
  cases hg.2

/-- An identifier that stands for itself and is a word for rows is that
keyword. -/
theorem kind_of_isRowsWord {t : Lexeme} {i : Ident} (hg : Genuine b.dialect t) (h : identOf? t = some i)
    (hq : i.quoted = false) (hr : Expr.isRowsWord i.name = true) :
    t.kind = .keyword .ROW ∨ t.kind = .keyword .ROWS := by
  have hname : i.name = t.text ∧ (t.kind = .word ∨ ∃ k, t.kind = .keyword k) := by
    unfold identOf? at h
    split at h
    case h_1 hk => cases h; exact ⟨rfl, .inl hk⟩
    case h_2 => cases h; cases hq
    case h_3 k hk =>
      split at h
      · cases h
      · cases h; exact ⟨rfl, .inr ⟨k, hk⟩⟩
    case h_4 => cases h
  unfold Expr.isRowsWord at hr
  simp only [Bool.or_eq_true, decide_eq_true_eq, hname.1] at hr
  rcases hname.2 with hk | ⟨k, hk⟩
  · have hnone := (word_plain hg hk).2
    rw [hnone] at hr
    rcases hr with hr | hr <;> cases hr
  · unfold Genuine at hg
    rw [hk] at hg
    rw [hk]
    refine hr.imp (fun hr => ?_) fun hr => ?_
    · have hkeyword := keyword?_of_ofSpelling? hr b
      rw [hg.2] at hkeyword
      cases hkeyword
      rfl
    · have hkeyword := keyword?_of_ofSpelling? hr b
      rw [hg.2] at hkeyword
      cases hkeyword
      rfl

end

/-! ## calls -/

theorem Arguments.all {es : List Expr} (h : Arguments es) : ∀ e ∈ es, e.All Proper := h.1

/-- A function that a built-in dialect does not know is unknown to the base
dialect. -/
theorem function?_generic_of_none {name : String} (h : b.function? name = none) :
    Builtin.generic.function? name = none := by
  cases b with
  | generic => exact h
  | sqlite =>
    unfold Builtin.function? at h
    dsimp only at h
    split at h
    · cases h
    · exact h

/-- A JSON extraction along several paths stays a call under its name. -/
theorem extraction_writable {k : CallKind} (hk : k.extracts = true) {es : List Expr}
    (hes : 2 < es.length) :
    Writable (.function k.name es) ∧ Expr.isRowsWord k.name = false := by
  have hall : ∀ k ∈ CallKind.all, k.extracts = true → Bare k.name ∧
      Builtin.generic.function? k.name = some k ∧ Expr.isRowsWord k.name = false := by
    decide +kernel
  obtain ⟨hbare, hfunction, hrows⟩ := hall k k.mem_all hk
  refine ⟨⟨hbare, fun k' hk' => ?_⟩, hrows⟩
  rw [hfunction] at hk'
  cases hk'
  exact ⟨hk, rfl, hes⟩

/-- A node that a call becomes holds the arguments of the call. -/
theorem build_proper {k : CallKind} {es : List Expr} {e : Expr} (hs : Arguments es)
    (h : k.build es = .ok e) :
    Operand 1 e ∧ e.starred .generic = false ∧ e.namesRows = false := by
  obtain ⟨hall, hplaces⟩ := hs
  have hcall {k : CallKind} (hk : k.extracts = true) {a c : Expr} {rest : List Expr}
      (hes : es = a :: c :: rest) (hne : rest ≠ []) : Operand 1 (.function k.name (a :: c :: rest)) ∧
        (Expr.function k.name (a :: c :: rest)).starred .generic = false ∧
        (Expr.function k.name (a :: c :: rest)).namesRows = false := by
    subst hes
    have hlength : 2 < (a :: c :: rest).length := by
      have := List.length_pos_iff.2 hne
      simp only [List.length_cons]
      omega
    obtain ⟨hwritable, hrows⟩ := extraction_writable hk hlength
    exact ⟨⟨all_proper ⟨hplaces, hwritable⟩ hall, Nat.zero_le _⟩, rfl, hrows⟩
  unfold CallKind.build at h
  split at h
  case h_7 u _ =>
    split at h
    · cases h
      refine ⟨⟨all_proper ⟨?_, trivial⟩ ?_, Nat.zero_le _⟩, rfl, rfl⟩
      · simp_all [Expr.places, Expr.arguments]
      · simp_all [Expr.children]
    · cases h
  case h_12 hne => cases h; exact hcall rfl rfl (by rintro rfl; exact hne rfl)
  case h_13 hne => cases h; exact hcall rfl rfl (by rintro rfl; exact hne rfl)
  case h_14 hne => cases h; exact hcall rfl rfl (by rintro rfl; exact hne rfl)
  case h_15 hne => cases h; exact hcall rfl rfl (by rintro rfl; exact hne rfl)
  case h_18 => cases h
  all_goals
    cases h
    exact ⟨⟨all_proper ⟨hplaces, trivial⟩ hall, Nat.zero_le _⟩, by simp [Expr.starred], rfl⟩

theorem call_proper {name : String} {es : List Expr} {e : Expr} (hn : Bare name)
    (hs : Arguments es) (h : b.dialect.call name es = .ok e) :
    Operand 1 e ∧ e.starred .generic = false ∧
      (e.namesRows = true → Expr.isRowsWord name = true) := by
  rw [Builtin.call_dialect] at h
  split at h
  case h_2 hnone =>
    cases h
    refine ⟨⟨all_proper ⟨hs.2, hn, fun k hk => ?_⟩ hs.1, Nat.zero_le _⟩, rfl, id⟩
    rw [function?_generic_of_none hnone] at hk
    cases hk
  case h_1 k _ =>
    obtain ⟨hoperand, hstar, hrows⟩ := build_proper hs h
    exact ⟨hoperand, hstar, by simp [hrows]⟩

/-! ## operands -/

section

variable {k : Nat} {e : Expr} {ls : List Lexeme}

/-- The lexemes in front decide how a tree starts. -/
theorem ReadFrom.append {a : Expr} {ls' : List Lexeme} (h : ReadFrom k a ls)
    (he : Operand (max k 1) e) (hs : e.starred .generic = true → a.starred .generic = true)
    (hr : e.namesRows = false) : ReadFrom k e (ls ++ ls') :=
  ⟨he, fun hstar => head?_append (h.star (hs hstar)), by simp [hr]⟩

/-- Operators between operands group to the left. -/
theorem operatorAt?_shape {n : Nat} {kind : LexemeKind} {make : Expr → Expr → Expr}
    (h : operatorAt? (n + 1) kind = some make) (a c : Expr) :
    (∃ op : BinaryOperator, make a c = .binaryOp op a c ∧ op.level = n + 1 ∧ 1 ≤ n) ∨
      n = 1 ∧ (make a c = .jsonExtract a c ∨ make a c = .jsonExtractScalar a c) := by
  match n, h with
  | 1, h =>
    change joinOperator? kind = some make at h
    unfold joinOperator? at h
    split at h <;> cases h
    · exact .inl ⟨.concat, rfl, rfl, Nat.le_refl _⟩
    · exact .inr ⟨rfl, .inl rfl⟩
    · exact .inr ⟨rfl, .inr rfl⟩
  | 2, h =>
    change productOperator? kind = some make at h
    unfold productOperator? at h
    split at h <;> cases h <;> exact .inl ⟨_, rfl, rfl, by decide⟩
  | 3, h =>
    change sumOperator? kind = some make at h
    unfold sumOperator? at h
    split at h <;> cases h <;> exact .inl ⟨_, rfl, rfl, by decide⟩
  | 6, h =>
    change andOperator? kind = some make at h
    unfold andOperator? at h
    split at h <;> cases h
    exact .inl ⟨.and, rfl, rfl, by decide⟩
  | 7, h =>
    change orOperator? kind = some make at h
    unfold orOperator? at h
    split at h <;> cases h
    exact .inl ⟨.or, rfl, rfl, by decide⟩
  | 0, h | 4, h | 5, h | _ + 8, h => cases h

theorem comparison?_level {kind : LexemeKind} {op : BinaryOperator} (h : comparison? kind = some op) :
    op.level = 5 := by
  unfold comparison? at h
  split at h <;> cases h <;> rfl

/-- What is read between operands is proper. -/
theorem ReadFrom.binary {n : Nat} {kind : LexemeKind} {make : Expr → Expr → Expr} {a c : Expr}
    {ls₁ ls₂ : List Lexeme} {t : Lexeme} (ha : ReadFrom (n + 1) a ls₁)
    (ht : operatorAt? (n + 1) kind = some make) (hc : ReadFrom n c ls₂) :
    ReadFrom (n + 1) (make a c) (ls₁ ++ t :: ls₂) := by
  have ha' := ha.operand
  have hc' := hc.operand
  rcases operatorAt?_shape ht a c with ⟨op, heq, hlevel, hn⟩ | ⟨rfl, heq | heq⟩
  · rw [heq]
    refine ha.append ⟨all_proper ⟨?_, trivial⟩ ?_, ?_⟩ id rfl
    · simp only [Expr.places, List.forall_mem_cons, hlevel]
      exact ⟨Nat.le_trans ha'.2 (by omega), Nat.le_trans hc'.2 (by omega), by simp⟩
    · simp [Expr.children, ha'.1, hc'.1]
    · have htier : (Expr.binaryOp op a c).tier .generic = op.level := rfl
      rw [htier, hlevel]
      omega
  all_goals
    rw [heq]
    refine ha.append ⟨all_proper ⟨?_, trivial⟩ ?_, ?_⟩ (by simp [Expr.starred]) rfl
    · simp only [Expr.places, Expr.arguments, List.map_cons, List.map_nil, List.forall_mem_cons]
      exact ⟨Nat.le_trans ha'.2 (by omega), Nat.le_trans hc'.2 (by omega), by simp⟩
    · simp [Expr.children, ha'.1, hc'.1]
    · exact Nat.zero_le _

/-- A test of an operand starts as the operand does. -/
theorem test_proper {a e : Expr} (hp : Proper e) (hc : ∀ c ∈ e.children, c.All Proper)
    (hl : e.level .generic = 5) (hs : e.starred .generic = a.starred .generic)
    (hr : e.namesRows = false) :
    Operand 5 e ∧ e.starred .generic = a.starred .generic ∧ e.namesRows = false :=
  ⟨⟨all_proper hp hc, by rw [Expr.tier_generic, hl]⟩, hs, hr⟩

end

/-! ## derivations -/

/-- What gathers the arguments of a call is proper. -/
theorem gatherArgs_proper {distinct : Bool} {first : Expr} {others : List Expr}
    {items : List (OrderItem Expr)} {separator : Option Expr}
    (hs : ∀ e ∈ first :: others, Operand 8 e) (hi : ∀ i ∈ items, Operand 8 i.expr)
    (ho : ∀ c ∈ separator, Operand 8 c) :
    Arguments (gatherArgs distinct first others items separator) := by
  rw [List.forall_mem_cons] at hs
  have hdistinct : (Expr.distinct (first :: others)).All Proper := by
    refine all_proper ⟨?_, trivial⟩ ?_
    · simp only [Expr.places, List.forall_mem_map, List.forall_mem_cons]
      exact ⟨hs.1.2, fun e he => (hs.2 e he).2⟩
    · simp only [Expr.children, List.forall_mem_cons]
      exact ⟨hs.1.1, fun e he => (hs.2 e he).1⟩
  have horder {a : Expr} (ha : Operand 9 a) (hne : ∀ c is, a ≠ .order c is) :
      Operand 9 (if items.isEmpty then a else .order a items) := by
    split
    · exact ha
    · refine ⟨all_proper ⟨?_, hne⟩ ?_, Nat.le_refl _⟩
      · simp only [Expr.places, List.forall_mem_cons, List.forall_mem_map]
        exact ⟨ha.2, fun i hi' => (hi i hi').2⟩
      · simp only [Expr.children, List.forall_mem_cons, List.forall_mem_map]
        exact ⟨ha.1, fun i hi' => (hi i hi').1⟩
  have hhead : Operand 9 (if items.isEmpty then (if distinct then .distinct (first :: others)
      else first) else .order (if distinct then .distinct (first :: others) else first) items) := by
    cases distinct with
    | true => exact horder ⟨hdistinct, Nat.le_refl _⟩ fun _ _ h => by cases h
    | false =>
      refine horder (hs.1.mono (by decide)) fun c is heq => ?_
      have hle := hs.1.2
      simp only [Bool.false_eq_true, if_false] at heq
      rw [heq, Expr.tier_generic] at hle
      exact Nat.not_succ_le_self 8 hle
  have hrest : ∀ e ∈ (if distinct then [] else others) ++ separator.toList, Operand 8 e := by
    intro e he
    rcases List.mem_append.1 he with he | he
    · split at he
      · cases he
      · exact hs.2 e he
    · exact ho e (Option.mem_toList.1 he)
  unfold gatherArgs Arguments
  simp only [Expr.arguments, List.forall_mem_cons, List.forall_mem_map]
  exact ⟨⟨hhead.1, fun e he => (hrest e he).1⟩, hhead.2, fun e he => (hrest e he).2⟩

theorem AliasOf.writable {x : Option Ident} {ls : List Lexeme} (h : AliasOf x ls)
    (hg : ∀ t ∈ ls, Genuine b.dialect t) : ∀ i ∈ x, Named i := by
  cases h with
  | none => exact fun _ h => by cases h
  | @named t u i _ hu => simpa using identOf?_named (hg u (by simp)) hu
  | @bare t i _ ht => simpa using identOf?_named (hg t (by simp)) ht

theorem NameOf.named {schema : Option Ident} {name : Ident} {ls : List Lexeme}
    (h : NameOf schema name ls) (hg : ∀ t ∈ ls, Genuine b.dialect t) :
    (∀ i ∈ schema, Named i) ∧ Named name := by
  cases h with
  | @plain t i ht => exact ⟨(fun _ h => by cases h), identOf?_named (hg t (by simp)) ht⟩
  | @qualified t u v i j ht _ hv =>
    exact ⟨by simpa using identOf?_named (hg t (by simp)) ht, identOf?_named (hg v (by simp)) hv⟩

theorem table_writable {schema x : Option Ident} {name : Ident} {ls₁ ls₂ : List Lexeme}
    (hn : NameOf schema name ls₁) (ha : AliasOf x ls₂) (hg : ∀ t ∈ ls₁ ++ ls₂, Genuine b.dialect t) :
    Writable (.table schema name x) := by
  obtain ⟨hschema, hname⟩ := hn.named fun t ht => hg t (List.mem_append_left _ ht)
  exact ⟨hschema, hname, ha.writable fun t ht => hg t (List.mem_append_right _ ht)⟩

theorem limit_proper {count : Expr} (h : Operand 8 count) : (Expr.limit count).All Proper := by
  refine all_proper ⟨?_, trivial⟩ ?_
  · simpa [Expr.places] using h.2
  · simpa [Expr.children] using h.1

theorem query_proper {distinct : Bool} {projections groupBy : List Expr}
    {source filter having limit offset : Option Expr} {orderBy : List (OrderItem Expr)}
    (hp : ∀ e ∈ projections, e.All Proper ∧ Projected e)
    (hs : ∀ c ∈ source, c.All Proper ∧ Sourced c) (hw : ∀ c ∈ filter, Operand 8 c)
    (hg : ∀ e ∈ groupBy, Operand 8 e) (hh : ∀ c ∈ having, Operand 8 c)
    (ho : ∀ i ∈ orderBy, Operand 8 i.expr)
    (hl : (∀ c ∈ limit, c.All Proper) ∧ ∀ c ∈ offset, Operand 8 c) :
    (Expr.select ⟨distinct, projections, source, filter, groupBy, having, orderBy, limit,
      offset⟩).All Proper := by
  have hi : ∀ x ∈ orderBy.map OrderItem.expr, Operand 8 x := List.forall_mem_map.2 ho
  refine all_proper ⟨?_, fun p h => (hp p h).2, fun s h => (hs s h).2⟩ ?_
  · simp only [Expr.places, List.forall_mem_map, List.forall_mem_append, Option.mem_toList]
    and_intros
    · exact fun c h => (hw c h).2
    · exact fun c h => (hg c h).2
    · exact fun c h => (hh c h).2
    · exact fun i h => (ho i h).2
    · exact fun c h => (hl.2 c h).2
  · simp only [Expr.children, Select.exprs, List.forall_mem_append, Option.mem_toList,
      List.forall_mem_map]
    and_intros
    · exact fun c h => (hp c h).1
    · exact fun c h => (hs c h).1
    · exact fun c h => (hw c h).1
    · exact fun c h => (hg c h).1
    · exact fun c h => (hh c h).1
    · exact fun i h => (ho i h).1
    · exact hl.1
    · exact fun c h => (hl.2 c h).1

theorem level_literal (v : Literal) : (Expr.literal v).level .generic ≤ 1 := by
  unfold Expr.level
  split <;> simp_all
  split <;> omega

/-- Every node that is read from genuine lexemes is proper. -/
theorem Derives.proper {p : Phrase} {ls : List Lexeme} (h : Derives b.dialect p ls)
    (hg : ∀ t ∈ ls, Genuine b.dialect t) : p.Proper ls := by
  induction h with
  | @literal t v ht =>
    refine .of_operand ⟨all_proper_leaf (literalOf?_writable (hg _ List.mem_cons_self) ht) rfl rfl,
      ?_⟩ rfl rfl
    rw [Expr.tier_generic]
    exact level_literal v
  | @star t ht =>
    exact ⟨⟨all_proper_leaf (by simp [Writable]) rfl rfl, Nat.zero_le _⟩,
      fun _ => ⟨_, rfl, ht⟩, by simp [Expr.namesRows]⟩
  | @starOf t u v i ht hu hv =>
    have hi := identOf?_named (hg t (by simp)) ht
    refine ⟨⟨all_proper_leaf (by simpa [Writable] using hi) rfl rfl, Nat.zero_le _⟩,
      by simp [Expr.starred], fun hr => ?_⟩
    simp only [Expr.namesRows, Bool.and_eq_true, Bool.not_eq_true'] at hr
    exact ⟨t, rfl, kind_of_isRowsWord (hg t (by simp)) ht hr.1 hr.2⟩
  | @column t i ht =>
    have hi := identOf?_named (hg t (by simp)) ht
    refine ⟨⟨all_proper_leaf (by simpa [Writable] using hi) rfl rfl, Nat.zero_le _⟩,
      by simp [Expr.starred], fun hr => ?_⟩
    simp only [Expr.namesRows, Bool.and_eq_true, Bool.not_eq_true'] at hr
    exact ⟨t, rfl, kind_of_isRowsWord (hg t (by simp)) ht hr.1 hr.2⟩
  | @columnOf t u v i j ht hu hv =>
    have hi := identOf?_named (hg t (by simp)) ht
    have hj := identOf?_named (hg v (by simp)) hv
    refine ⟨⟨all_proper_leaf (by simpa [Writable] using ⟨hi, hj⟩) rfl rfl, Nat.zero_le _⟩,
      by simp [Expr.starred], fun hr => ?_⟩
    simp only [Expr.namesRows, Bool.and_eq_true, Bool.not_eq_true'] at hr
    exact ⟨t, rfl, kind_of_isRowsWord (hg t (by simp)) ht hr.1 hr.2⟩
  | @call t u v i es e ls ht hq hu _ hv he ih =>
    have hname : Bare i.name :=
      (identOf?_named (hg t (by simp)) ht).resolve_left (by simp [hq])
    obtain ⟨hoperand, hstar, hrows⟩ := call_proper hname (ih fun t ht => hg t (by simp [ht])) he
    exact ⟨hoperand, by simp [hstar],
      fun hr => ⟨t, rfl, kind_of_isRowsWord (hg t (by simp)) ht hq (hrows hr)⟩⟩
  | @caseWhen t u o c ws ls₁ ls₂ ls₃ _ _ _ _ _ _ iho ihw ihc =>
    simp only [List.forall_mem_append, List.forall_mem_cons] at hg
    have ho := iho hg.1.1.1.2
    have hw := ihw hg.1.1.2
    have hc := ihc hg.1.2
    have hparts : ∀ x ∈ o.toList ++ ws.flatMap (fun w => [w.1, w.2]) ++ c.toList, Operand 8 x := by
      intro x hx
      simp only [List.mem_append, Option.mem_toList, List.mem_flatMap, List.mem_cons,
        List.not_mem_nil, or_false] at hx
      rcases hx with (hx | ⟨w, hmem, rfl | rfl⟩) | hx
      · exact ho x hx
      · exact (hw w hmem).1
      · exact (hw w hmem).2
      · exact hc x hx
    refine .of_operand ⟨all_proper ⟨?_, trivial⟩ fun x hx => (hparts x hx).1, ?_⟩ rfl rfl
    · simp only [Expr.places, List.forall_mem_map]
      exact fun x hx => (hparts x hx).2
    · exact Nat.zero_le _
  | @cast t u v w k make e type ls₁ ls₂ _ hk _ _ _ _ _ ih =>
    have he := (ih fun t ht => hg t (by simp [ht])).operand
    have hmake : (make e type).children = [e] ∧ (make e type).places = [(8, e)] ∧
        Writable (make e type) ∧ (make e type).level .generic = 0 ∧
        (make e type).starred .generic = false ∧ (make e type).namesRows = false := by
      unfold castOf? at hk
      split at hk <;> cases hk
      · exact ⟨rfl, rfl, trivial, rfl, rfl, rfl⟩
      · exact ⟨rfl, rfl, trivial, rfl, rfl, rfl⟩
    obtain ⟨hchildren, hplaces, hwritable, hlevel, hstar, hrows⟩ := hmake
    refine .of_operand ⟨all_proper ⟨?_, hwritable⟩ ?_, ?_⟩ hstar hrows
    · simpa [hplaces] using he.2
    · simpa [hchildren] using he.1
    · simp [hlevel]
  | @paren t u e ls _ _ _ ih =>
    have he := (ih fun t ht => hg t (by simp [ht])).operand
    refine .of_operand ⟨all_proper ⟨?_, trivial⟩ ?_, Nat.zero_le _⟩ rfl rfl
    · intro s hs
      rw [Expr.mem_places_paren hs]
      exact he.2
    · simpa [Expr.children] using he.1
  | @subquery t u v q ls _ _ _ _ ih =>
    have hq := ih fun t ht => hg t (by simp [ht])
    refine .of_operand ⟨all_proper ⟨by simp [Expr.places], trivial⟩ ?_, Nat.zero_le _⟩ rfl rfl
    simp only [Expr.children, List.forall_mem_singleton]
    exact hq
  | @minus t e ls _ _ ih =>
    have he := (ih fun t ht => hg t (by simp [ht])).operand
    refine .of_operand ⟨all_proper ⟨?_, trivial⟩ ?_, Nat.le_max_left ..⟩ rfl rfl
    · simpa [Expr.places] using he.2
    · simpa [Expr.children] using he.1
  | @not t e ls _ _ ih =>
    have he := (ih fun t ht => hg t (by simp [ht])).operand
    refine .of_operand ⟨all_proper ⟨?_, trivial⟩ ?_, Nat.le_max_left ..⟩ rfl rfl
    · simpa [Expr.places] using he.2
    · simpa [Expr.children] using he.1
  | @binary t k make a c ls₁ ls₂ _ ht _ iha ihc =>
    exact (iha fun t ht => hg t (by simp [ht])).binary ht (ihc fun t ht => hg t (by simp [ht]))
  | @tested a e ls₁ ls₂ _ _ iha iht =>
    have ha := iha fun t ht => hg t (by simp [ht])
    obtain ⟨he, hstar, hrows⟩ := iht (fun t ht => hg t (by simp [ht])) ha.operand
    exact ha.append he (fun h => hstar ▸ h) hrows
  | @lift k e ls _ _ ih => exact (ih hg).lift
  | @compare t op a c ls ht _ ih =>
    intro ha
    have hc := (ih fun t ht => hg t (by simp [ht])).operand
    have hlevel := comparison?_level ht
    refine test_proper ⟨?_, trivial⟩ ?_ hlevel rfl rfl
    · simp only [Expr.places, hlevel, List.forall_mem_cons]
      exact ⟨ha.2, hc.2, by simp⟩
    · simp [Expr.children, ha.1, hc.1]
  | @like t negated a c ns ls _ _ _ ih =>
    intro ha
    have hc := (ih fun t ht => hg t (by simp [ht])).operand
    refine test_proper ⟨?_, trivial⟩ ?_ rfl rfl rfl
    · simp only [Expr.places, List.forall_mem_cons]
      exact ⟨ha.2, hc.2, by simp⟩
    · simp [Expr.children, ha.1, hc.1]
  | @ilike t negated a c ns ls _ _ _ ih =>
    intro ha
    have hc := (ih fun t ht => hg t (by simp [ht])).operand
    refine test_proper ⟨?_, trivial⟩ ?_ rfl (by simp [Expr.starred]) rfl
    · simp only [Expr.places, List.forall_mem_cons]
      exact ⟨ha.2, hc.2, by simp⟩
    · simp [Expr.children, ha.1, hc.1]
  | @between t u negated a low high ns ls₁ ls₂ _ _ _ _ _ ihl ihh =>
    intro ha
    have hl := (ihl fun t ht => hg t (by simp [ht])).operand
    have hh := (ihh fun t ht => hg t (by simp [ht])).operand
    refine test_proper ⟨?_, trivial⟩ ?_ rfl rfl rfl
    · simp only [Expr.places, List.forall_mem_cons]
      exact ⟨ha.2, hl.2, hh.2, by simp⟩
    · simp [Expr.children, ha.1, hl.1, hh.1]
  | @inList t u v negated a es ns ls _ _ _ _ _ ih =>
    intro ha
    have hs := ih fun t ht => hg t (by simp [ht])
    refine test_proper ⟨?_, trivial⟩ ?_ rfl rfl rfl
    · simp only [Expr.places, List.forall_mem_cons, List.forall_mem_map]
      exact ⟨ha.2, fun e he => (hs e he).2⟩
    · simp only [Expr.children, List.forall_mem_cons]
      exact ⟨ha.1, fun e he => (hs e he).1⟩
  | @isNull t u negated a ns _ _ _ =>
    intro ha
    refine test_proper ⟨?_, trivial⟩ ?_ rfl rfl rfl
    · simpa [Expr.places] using ha.2
    · simpa [Expr.children] using ha.1
  | @exprsOne e ls _ ih =>
    simpa [Phrase.Proper] using (ih hg).operand
  | @exprsMore t e es ls₁ ls₂ _ _ _ ihe ihs =>
    simp only [Phrase.Proper, List.forall_mem_cons]
    exact ⟨(ihe fun t ht => hg t (by simp [ht])).operand, ihs fun t ht => hg t (by simp [ht])⟩
  | @item e direction ls₁ ls₂ _ _ ih => exact (ih fun t ht => hg t (by simp [ht])).operand
  | @itemsOne i ls _ ih => simpa [Phrase.Proper] using ih hg
  | @itemsMore t i is ls₁ ls₂ _ _ _ ihi ihs =>
    simp only [Phrase.Proper, List.forall_mem_cons]
    exact ⟨ihi fun t ht => hg t (by simp [ht]), ihs fun t ht => hg t (by simp [ht])⟩
  | noSeparator | noCaseOperand | noClause | noOffset | noCount | noFetch | noSource =>
    exact fun _ h => by cases h
  | @separator t e ls _ _ _ ih =>
    simpa [Phrase.Proper] using (ih fun t ht => hg t (by simp [ht])).operand
  | noArgs => exact ⟨(fun _ h => by cases h), fun _ h => by cases h⟩
  | @args distinct first others items s ls₀ ls₁ ls₂ ls₃ _ _ _ _ ihe iho ihs =>
    simp only [List.forall_mem_append] at hg
    obtain ⟨⟨⟨-, hg₁⟩, hg₂⟩, hg₃⟩ := hg
    exact gatherArgs_proper (ihe hg₁) (iho hg₂) (ihs hg₃)
  | @caseOperand e ls _ ih => simpa [Phrase.Proper] using (ih hg).operand
  | noWhens | noGroupBy | noOrderBy => exact fun _ h => by cases h
  | @whens t u a c ws ls₁ ls₂ ls₃ _ _ _ _ _ iha ihc ihw =>
    simp only [Phrase.Proper, List.forall_mem_cons]
    have ha := iha fun t ht => hg t (by simp [ht])
    have hc := ihc fun t ht => hg t (by simp [ht])
    have hw := ihw fun t ht => hg t (by simp [ht])
    exact ⟨⟨ha.operand, hc.operand⟩, hw⟩
  | @clause t k e ls _ _ ih =>
    simpa [Phrase.Proper] using (ih fun t ht => hg t (by simp [ht])).operand
  | @groupBy t u es ls _ _ _ ih => exact ih fun t ht => hg t (by simp [ht])
  | @orderBy t u is ls _ _ _ ih => exact ih fun t ht => hg t (by simp [ht])
  | @allColumns t _ =>
    exact ⟨all_proper_leaf (by simp [Writable]) rfl rfl, .inr (.inl rfl)⟩
  | @projection e ls _ hs ih =>
    have he := ih hg
    refine ⟨he.operand.1, .inr (.inr ⟨he.operand.2, Bool.eq_false_iff.2 fun h => ?_⟩)⟩
    obtain ⟨t, ht, hk⟩ := he.star h
    exact hs t ht hk
  | @aliased e i ls₁ ls₂ _ hs ha ih =>
    have he := ih fun t ht => hg t (by simp [ht])
    refine ⟨all_proper ⟨?_, ?_, Bool.eq_false_iff.2 fun h => ?_⟩ ?_, .inl ⟨_, _, rfl⟩⟩
    · simpa [Expr.places] using he.operand.2
    · exact ha.writable (fun t ht => hg t (by simp [ht])) i rfl
    · obtain ⟨t, ht, hk⟩ := he.star h
      exact hs t ht hk
    · simpa [Expr.children] using he.operand.1
  | @projectionsOne e ls _ ih => simpa [Phrase.Proper] using ih hg
  | @projectionsMore t e es ls₁ ls₂ _ _ _ ihe ihs =>
    simp only [Phrase.Proper, List.forall_mem_cons]
    exact ⟨ihe fun t ht => hg t (by simp [ht]), ihs fun t ht => hg t (by simp [ht])⟩
  | @table schema name x ls₁ ls₂ hn ha =>
    exact ⟨all_proper_leaf (table_writable hn ha hg) rfl rfl, .inl ⟨_, _, _, rfl⟩⟩
  | @tableSample t u v schema name x method size unit ls₁ ls₂ ls₃ ls₄ ls₅ hn ha _ hm _ _ _ _ ih =>
    have hsize := (ih fun t ht => hg t (by simp [ht])).operand
    have htable : (Expr.table schema name x).All Proper :=
      all_proper_leaf (table_writable hn ha fun t ht => hg t (by
        rcases List.mem_append.1 ht with h | h <;> simp [h])) rfl rfl
    refine ⟨all_proper ⟨?_, ⟨_, _, _, rfl⟩, ?_⟩ ?_, .inr ⟨_, _, _, _, rfl⟩⟩
    · simpa [Expr.places] using hsize.2
    · cases hm with
      | none => exact fun _ h => by cases h
      | @named t ht =>
        have hword := word_plain (hg t (by simp)) ht
        simp only [Option.mem_some_iff, forall_eq']
        exact ⟨⟨isWord_upper hword.1, (ofSpelling?_upper _).trans hword.2⟩, upper_upper _⟩
    · simp [Expr.children, htable, hsize.1]
  | @source t e ls _ _ ih => simpa [Phrase.Proper] using ih fun t ht => hg t (by simp [ht])
  | @offset t e ls₁ ls₂ _ _ _ ih =>
    simpa [Phrase.Proper] using (ih fun t ht => hg t (by simp [ht])).operand
  | @fetchCount e ls _ hr ih =>
    have he := ih hg
    simp only [Phrase.Proper, Option.mem_some_iff, forall_eq']
    refine ⟨he.operand, Bool.eq_false_iff.2 fun h => ?_⟩
    obtain ⟨t, ht, hk⟩ := he.rows h
    exact hk.elim (hr t ht).1 (hr t ht).2
  | @fetch t u direction count percent withTies ls₁ ls₂ ls₃ ls₄ _ _ _ _ hcp _ _ ih =>
    have hc := ih fun t ht => hg t (by simp [ht])
    simp only [Phrase.Proper, Option.mem_some_iff, forall_eq']
    refine all_proper ⟨?_, hcp, fun c h => (hc c h).2⟩ fun c h => (hc c (Option.mem_toList.1 h)).1.1
    simp only [Expr.places, List.forall_mem_map]
    exact fun c h => (hc c (Option.mem_toList.1 h)).1.2
  | @limitPair t u count first ls₁ ls₂ _ _ _ _ iho ihc =>
    have ho := (iho fun t ht => hg t (by simp [ht])).operand
    have hc := (ihc fun t ht => hg t (by simp [ht])).operand
    simp only [Phrase.Proper, Option.mem_some_iff, forall_eq']
    exact ⟨limit_proper hc, ho⟩
  | @limit t count o ls₁ ls₂ _ _ _ ihc iho =>
    have hc := (ihc fun t ht => hg t (by simp [ht])).operand
    simp only [Phrase.Proper, Option.mem_some_iff, forall_eq']
    exact ⟨limit_proper hc, iho fun t ht => hg t (by simp [ht])⟩
  | @offsetFetch o f ls₁ ls₂ _ _ iho ihf =>
    exact ⟨ihf fun t ht => hg t (by simp [ht]), iho fun t ht => hg t (by simp [ht])⟩
  | @query distinct projections groupBy source filter having limit offset orderBy ls₀ ls₁ ls₂ ls₃
      ls₄ ls₅ ls₆ ls₇ _ _ _ _ _ _ _ _ ihp ihs ihw ihg ihh iho ihl =>
    simp only [List.forall_mem_append] at hg
    obtain ⟨⟨⟨⟨⟨⟨⟨-, hg₁⟩, hg₂⟩, hg₃⟩, hg₄⟩, hg₅⟩, hg₆⟩, hg₇⟩ := hg
    exact query_proper (ihp hg₁) (ihs hg₂) (ihw hg₃) (ihg hg₄) (ihh hg₅) (iho hg₆) (ihl hg₇)

/-! ## statements -/

theorem modifierOf_plain {ws : List Lexeme} (hg : ∀ t ∈ ws, Genuine b.dialect t)
    (hw : ∀ w ∈ ws, w.kind = .word) : Writable (.transaction (modifierOf ws)) := by
  intro text htext
  unfold modifierOf at htext
  split at htext
  case isTrue => cases htext
  case isFalse hne =>
    cases htext
    refine ⟨ws.map Lexeme.text, by simpa using hne, rfl, ?_⟩
    rw [List.forall_mem_map]
    exact fun w h => word_plain (hg w h) (hw w h)

/-- The values of a demand on a column are proper. -/
theorem ConstraintOf.proper {k : Option (ColumnConstraint Expr)} {ls : List Lexeme}
    (h : ConstraintOf b.dialect k ls) (hg : ∀ t ∈ ls, Genuine b.dialect t) :
    ∀ c ∈ k.toList.flatMap ColumnConstraint.exprs, Operand 1 c := by
  cases h with
  | @default t e ls _ he =>
    have := (he.proper fun t ht => hg t (by simp [ht])).operand
    simpa [ColumnConstraint.exprs] using this
  | _ => simp [ColumnConstraint.exprs]

theorem ConstraintsOf.proper {ks : List (ColumnConstraint Expr)} {ls : List Lexeme}
    (h : ConstraintsOf b.dialect ks ls) (hg : ∀ t ∈ ls, Genuine b.dialect t) :
    ∀ c ∈ ks.flatMap ColumnConstraint.exprs, Operand 1 c := by
  induction h with
  | nil => exact fun _ h => by cases h
  | @cons k ks ls₁ ls₂ hk _ ih =>
    rw [List.flatMap_append, List.forall_mem_append]
    exact ⟨hk.proper fun t ht => hg t (by simp [ht]), ih fun t ht => hg t (by simp [ht])⟩

theorem ColumnOf.proper {c : ColumnDef Expr} {ls : List Lexeme} (h : ColumnOf b.dialect c ls)
    (hg : ∀ t ∈ ls, Genuine b.dialect t) : Named c.name ∧ ∀ x ∈ c.exprs, Operand 1 x := by
  cases h with
  | @mk t i type ks ls₁ ls₂ ht _ hk =>
    exact ⟨identOf?_named (hg t (by simp)) ht, hk.proper fun t ht => hg t (by simp [ht])⟩

theorem ColumnsOf.proper {cs : List (ColumnDef Expr)} {ls : List Lexeme}
    (h : ColumnsOf b.dialect cs ls) (hg : ∀ t ∈ ls, Genuine b.dialect t) :
    ∀ c ∈ cs, Named c.name ∧ ∀ x ∈ c.exprs, Operand 1 x := by
  induction h with
  | one hc => simpa using hc.proper hg
  | @more t c cs ls₁ ls₂ hc _ _ ih =>
    rw [List.forall_mem_cons]
    exact ⟨hc.proper fun t ht => hg t (by simp [ht]), ih fun t ht => hg t (by simp [ht])⟩

/-- Every node of a statement that is read from genuine lexemes is proper. -/
theorem StatementOf.proper {e : Expr} {ls : List Lexeme} (h : StatementOf b.dialect e ls)
    (hg : ∀ t ∈ ls, Genuine b.dialect t) : e.All Proper := by
  cases h with
  | @select t q ls _ hq => exact hq.proper fun t ht => hg t (by simp [ht])
  | @transaction t _ ws ls _ hw _ =>
    exact all_proper_leaf (modifierOf_plain (fun t ht => hg t (by simp [ht])) hw) rfl rfl
  | commit => exact all_proper_leaf trivial rfl rfl
  | rollback => exact all_proper_leaf trivial rfl rfl
  | @createTable t u v w conditional schema name cs ls₁ ls₂ ls₃ _ _ _ hn _ hs _ =>
    have hname := hn.named fun t ht => hg t (by simp [ht])
    have hcolumns := hs.proper fun t ht => hg t (by simp [ht])
    have htable : (Expr.table schema name none).All Proper :=
      all_proper_leaf ⟨hname.1, hname.2, fun _ h => by cases h⟩ rfl rfl
    have hvalues : ∀ x ∈ cs.flatMap ColumnDef.exprs, Operand 1 x := by
      intro x hx
      obtain ⟨c, hc, hx⟩ := List.mem_flatMap.1 hx
      exact (hcolumns c hc).2 x hx
    refine all_proper ⟨?_, ⟨_, _, rfl⟩, fun c hc => (hcolumns c hc).1⟩ ?_
    · simp only [Expr.places, List.forall_mem_map]
      exact fun x hx => (hvalues x hx).2
    · simp only [Expr.children, CreateTable.exprs, List.forall_mem_cons]
      exact ⟨htable, fun x hx => (hvalues x hx).1⟩

end Grammar

end SqlDialect
