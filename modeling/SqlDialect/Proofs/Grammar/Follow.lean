import SqlDialect.Proofs.Grammar.Derivation

/-!
# SqlDialect.Proofs.Grammar.Follow

Readings that succeed, and what may come next to a phrase.

* `Gives` -- a reading succeeds with a value and a rest.
* `Stops`, `Lacks`, `NoAlias` -- what may come behind a phrase.
* `Leads`, `Derives.leads` -- what an expression starts with.

Single lexemes, lists, names and types are read here; they hold no expression,
so they need no induction over phrases.
-/

namespace SqlDialect.Grammar

/-- A reading succeeds with a value and a rest. -/
def Gives {α : Type} {n : Nat} (x : Reading α n) (a : α) (rest : List Lexeme) : Prop :=
  ∃ h, x = .ok ⟨a, rest, h⟩

namespace Gives

variable {α β : Type} {m n : Nat} {a : α} {b : β} {rest rest' : List Lexeme}

theorem pure {h : rest.length < n} : Gives (.ok ⟨a, rest, h⟩ : Reading α n) a rest := ⟨h, rfl⟩

/-- One reading behind another one. -/
theorem bind {x : Reading α m} {f : Read α m → Reading β n} (hx : Gives x a rest)
    (hf : ∀ h, Gives (f ⟨a, rest, h⟩) b rest') : Gives (x >>= f) b rest' := by
  obtain ⟨h, rfl⟩ := hx
  exact hf h

/-- A reading that cannot fail, by its value and its rest. -/
theorem of_front (r : Read α n) (hv : r.value = a) (hr : r.rest = rest) :
    Gives (.ok r : Reading α n) a rest := by
  cases r
  cases hv
  cases hr
  exact .pure

/-- The rest is shorter than the bound of the reading. -/
theorem lt {x : Reading α n} (h : Gives x a rest) : rest.length < n := h.1

end Gives

/-! ## what may follow -/

/-- The tightest level at which a lexeme continues an expression in front of
it; the last number of all if it continues none. -/
def joins : LexemeKind → Nat
  | .dot | .lparen => 0
  | .concat | .arrow | .doubleArrow => 2
  | .star | .slash | .percent => 3
  | .plus | .minus => 4
  | .eq | .ne | .lt | .gt | .lte | .gte => 5
  | .keyword .LIKE | .keyword .ILIKE | .keyword .BETWEEN | .keyword .IN | .keyword .IS
  | .keyword .NOT => 5
  | .keyword .AND => 7
  | .keyword .OR => 8
  | _ => 9

/-- What follows does not continue an expression of a level. -/
def Stops (k : Nat) (rest : List Lexeme) : Prop := ∀ t ∈ rest.head?, k < joins t.kind

theorem Stops.mono {k j : Nat} {rest : List Lexeme} (h : Stops k rest) (hj : j ≤ k) :
    Stops j rest := fun t ht => Nat.lt_of_le_of_lt hj (h t ht)

theorem Stops.nil {k : Nat} : Stops k [] := fun _ ht => nomatch ht

theorem Stops.cons {k : Nat} {t : Lexeme} {ts : List Lexeme} (h : k < joins t.kind) :
    Stops k (t :: ts) := by
  intro u hu
  cases hu
  exact h

/-- No lexeme of a kind comes next. -/
def Lacks (kind : LexemeKind) (rest : List Lexeme) : Prop := ∀ t ∈ rest.head?, t.kind ≠ kind

theorem Lacks.cons {kind : LexemeKind} {t : Lexeme} {ts : List Lexeme} (h : t.kind ≠ kind) :
    Lacks kind (t :: ts) := by
  intro u hu
  cases hu
  exact h

theorem Lacks.nil {kind : LexemeKind} : Lacks kind [] := fun _ ht => nomatch ht

/-! ## what may come first -/

/-- The tightest level of an expression that a lexeme can start; the last
number of all if it can start none. -/
def starts : LexemeKind → Nat
  | .word | .quotedIdent _ | .string _ | .hexString _ | .hexNumber _ | .number | .lparen | .star => 0
  | .minus => 1
  | .keyword .TRUE | .keyword .FALSE | .keyword .NULL | .keyword .CASE | .keyword .CAST
  | .keyword .TRY_CAST => 0
  | .keyword .NOT => 6
  | .keyword k => if k.isReserved then 9 else 0
  | _ => 9

theorem starts_of_identOf? {t : Lexeme} {i : Ident} (h : identOf? t = some i) :
    starts t.kind = 0 := by
  unfold identOf? at h
  split at h
  case h_1 ht => rw [ht]; rfl
  case h_2 ht => rw [ht]; rfl
  case h_3 k ht =>
    rw [ht]
    cases k <;> first | rfl | cases h
  case h_4 => cases h

theorem starts_of_literalOf? {t : Lexeme} {v : Literal} (h : literalOf? t = some v) :
    starts t.kind = 0 := by
  unfold literalOf? at h
  split at h <;> first | (rename_i ht; rw [ht]; rfl) | cases h

theorem starts_of_castOf? {k : Keyword} {make : Expr → DataType → Expr}
    (h : castOf? k = some make) : starts (.keyword k) = 0 := by
  cases k <;> first | rfl | cases h

/-- There is a first lexeme, and it can start an expression of a level. -/
def Leads (k : Nat) (ls : List Lexeme) : Prop := ∃ t us, ls = t :: us ∧ starts t.kind ≤ k

namespace Leads

variable {k : Nat} {ls : List Lexeme}

theorem cons {t : Lexeme} (h : starts t.kind ≤ k) : Leads k (t :: ls) := ⟨t, ls, rfl, h⟩

theorem append (h : Leads k ls) (ls' : List Lexeme) : Leads k (ls ++ ls') := by
  obtain ⟨t, us, rfl, ht⟩ := h
  exact cons ht

theorem mono {j : Nat} (h : Leads k ls) (hj : k ≤ j) : Leads j ls := by
  obtain ⟨t, us, rfl, ht⟩ := h
  exact cons (Nat.le_trans ht hj)

/-- A kind that starts nothing of a level is not the first one. -/
theorem lacks (h : Leads k ls) (kind : LexemeKind) (hk : k < starts kind) (rest : List Lexeme) :
    Lacks kind (ls ++ rest) := by
  obtain ⟨t, us, rfl, ht⟩ := h
  refine .cons fun heq => ?_
  rw [heq] at ht
  omega

end Leads

/-- The level of a phrase that starts like an expression. -/
def Phrase.level? : Phrase → Option Nat
  | .expr k _ => some k
  | .exprs _ | .item _ | .items _ | .projection _ | .projections _ => some 8
  | _ => none

/-- A phrase that starts like an expression has a first lexeme, and one that
can start an expression of its level. -/
theorem Derives.leads {d : Dialect} {p : Phrase} {ls : List Lexeme} (h : Derives d p ls) :
    ∀ k ∈ p.level?, Leads k ls := by
  induction h <;> intro k hk <;> cases hk
  case literal ht => exact .cons (Nat.le_of_eq (starts_of_literalOf? ht))
  case star ht => exact .cons (by rw [ht]; decide)
  case allColumns ht => exact .cons (by rw [ht]; decide)
  case starOf ht _ _ => exact .cons (Nat.le_of_eq (starts_of_identOf? ht))
  case column ht => exact .cons (Nat.le_of_eq (starts_of_identOf? ht))
  case columnOf ht _ _ => exact .cons (Nat.le_of_eq (starts_of_identOf? ht))
  case call ht _ _ _ _ _ _ => exact .cons (Nat.le_of_eq (starts_of_identOf? ht))
  case caseWhen ht _ _ _ _ _ _ _ _ => exact .cons (by rw [ht]; decide)
  case cast ht hk _ _ _ _ _ _ => exact .cons (by rw [ht]; exact Nat.le_of_eq (starts_of_castOf? hk))
  case paren ht _ _ _ => exact .cons (by rw [ht]; decide)
  case subquery ht _ _ _ _ => exact .cons (by rw [ht]; decide)
  case minus ht _ _ => exact .cons (by rw [ht]; decide)
  case not ht _ _ => exact .cons (by rw [ht]; decide)
  case binary ih _ => exact (ih _ rfl).append _
  case tested ih _ => exact (ih _ rfl).append _
  case lift ih => exact (ih _ rfl).mono (Nat.le_succ _)
  case exprsOne ih => exact ih _ rfl
  case exprsMore ih _ => exact (ih _ rfl).append _
  case item ih => exact (ih _ rfl).append _
  case itemsOne ih => exact ih _ rfl
  case itemsMore ih _ => exact (ih _ rfl).append _
  case projection ih => exact ih _ rfl
  case aliased ih => exact (ih _ rfl).append _
  case projectionsOne ih => exact ih _ rfl
  case projectionsMore ih _ => exact (ih _ rfl).append _

/-! ## single lexemes -/

theorem accept_cons {kind : LexemeKind} {t : Lexeme} (ht : t.kind = kind) (ts : List Lexeme) :
    ∃ h, accept kind (t :: ts) = ⟨true, ts, h⟩ :=
  ⟨Nat.lt_succ_of_lt (Front.lt_cons t ts), by rw [accept, if_pos ht]; rfl⟩

theorem accept_of_ne {k : LexemeKind} {t : Lexeme} (ht : t.kind ≠ k) (ts : List Lexeme) :
    ∃ h, accept k (t :: ts) = ⟨false, t :: ts, h⟩ :=
  ⟨Front.lt_succ _, by rw [accept, if_neg ht]; rfl⟩

theorem accept_of_lacks {kind : LexemeKind} {ts : List Lexeme} (h : Lacks kind ts) :
    ∃ h, accept kind ts = ⟨false, ts, h⟩ := by
  cases ts with
  | nil => exact ⟨_, rfl⟩
  | cons t ts => exact accept_of_ne (h t rfl) ts

/-- A keyword that may be left out is taken if it is there, and nothing is
taken if it is not and does not come next. -/
theorem Flag.accept {k : Keyword} {b : Bool} {ls : List Lexeme} (hf : Flag k b ls)
    (rest : List Lexeme) (hr : b = false → Lacks (.keyword k) rest) :
    ∃ h, acceptKeyword k (ls ++ rest) = ⟨b, rest, h⟩ := by
  cases hf with
  | absent => exact accept_of_lacks (hr rfl)
  | present ht => exact accept_cons ht rest

theorem expect_gives {kind : LexemeKind} (expected : Expected) {t : Lexeme} (ht : t.kind = kind)
    (ts : List Lexeme) : Gives (expect kind expected (t :: ts)) () ts := by
  rw [expect, if_pos ht]
  exact .pure

theorem expectKeyword_gives {k : Keyword} {t : Lexeme} (ht : t.kind = .keyword k)
    (ts : List Lexeme) : Gives (expectKeyword k (t :: ts)) () ts :=
  expect_gives _ ht ts

theorem comes_of_lacks {kind : LexemeKind} {ts : List Lexeme} (h : Lacks kind ts) :
    comes kind ts = false := by
  cases ts with
  | nil => rfl
  | cons t ts => simpa [comes] using h t rfl

/-! ## repetition -/

section

variable {α : Type} {n : Nat}

theorem commaList_one {item : (ts : List Lexeme) → ts.length < n → Reading α ts.length} {a : α}
    {ts rest : List Lexeme} {h : ts.length < n} (ha : Gives (item ts h) a rest)
    (hr : Lacks .comma rest) : Gives (commaList item ts h) (a, []) rest := by
  rw [commaList]
  refine ha.bind fun h₁ => ?_
  cases rest with
  | nil => exact .pure
  | cons t rest =>
    simp only [if_neg (hr t rfl)]
    exact .pure

theorem commaList_more {item : (ts : List Lexeme) → ts.length < n → Reading α ts.length} {a b : α}
    {as : List α} {ts us rest : List Lexeme} {t : Lexeme} {h : ts.length < n}
    (ha : Gives (item ts h) a (t :: us)) (ht : t.kind = .comma)
    (hs : ∀ h, Gives (commaList item us h) (b, as) rest) :
    Gives (commaList item ts h) (a, b :: as) rest := by
  rw [commaList]
  refine ha.bind fun h₁ => ?_
  simp only [if_pos ht]
  exact (hs _).bind fun h₂ => .pure

theorem operators_stop {item : (ts : List Lexeme) → ts.length ≤ n → Reading α ts.length}
    {operator? : LexemeKind → Option (α → α → α)} {a : α} {rest : List Lexeme}
    {h : rest.length ≤ n} (hr : ∀ t ∈ rest.head?, operator? t.kind = none) :
    Gives (operators item operator? a rest h) a rest := by
  cases rest with
  | nil => rw [operators]; exact .pure
  | cons t ts =>
    rw [operators]
    simp only [hr t rfl]
    exact .pure

theorem operators_more {item : (ts : List Lexeme) → ts.length ≤ n → Reading α ts.length}
    {operator? : LexemeKind → Option (α → α → α)} {make : α → α → α} {a b c : α}
    {t : Lexeme} {ts us rest : List Lexeme} {h : (t :: ts).length ≤ n}
    (ht : operator? t.kind = some make) (hb : ∀ h, Gives (item ts h) b us)
    (hc : ∀ h, Gives (operators item operator? (make a b) us h) c rest) :
    Gives (operators item operator? a (t :: ts) h) c rest := by
  rw [operators]
  simp only [ht]
  refine (hb _).bind fun h₁ => ?_
  exact (hc _).bind fun h₂ => .pure

end

/-! ## names and types -/

/-- Nothing that could be an alias comes next. -/
def NoAlias (rest : List Lexeme) : Prop :=
  ∀ t ∈ rest.head?, t.kind ≠ .keyword .AS ∧ isBareAlias t = false

theorem ident_gives (expected : Expected) {t : Lexeme} {i : Ident} (ht : identOf? t = some i)
    (ts : List Lexeme) : Gives (ident expected (t :: ts)) i ts := by
  rw [ident]
  simp only [ht]
  exact .pure

theorem NameOf.gives {schema : Option Ident} {name : Ident} {ls rest : List Lexeme}
    (h : NameOf schema name ls) (hr : Lacks .dot rest) :
    Gives (tableName (ls ++ rest)) (schema, name) rest := by
  unfold tableName
  cases h with
  | plain ht =>
    refine (ident_gives _ ht rest).bind fun h₁ => ?_
    cases rest with
    | nil => exact .pure
    | cons u rest =>
      simp only [if_neg (hr u rfl)]
      exact .pure
  | qualified ht hu hv =>
    refine (ident_gives _ ht _).bind fun h₁ => ?_
    simp only [List.append_eq, List.cons_append, List.nil_append, if_pos hu]
    exact (ident_gives _ hv rest).bind fun h₂ => .pure

theorem aliasName?_gives {a : Option Ident} {ls rest : List Lexeme} (h : AliasOf a ls)
    (hr : a = none → NoAlias rest) : Gives (aliasName? (ls ++ rest)) a rest := by
  cases h with
  | none =>
    cases rest with
    | nil => exact .pure
    | cons t rest =>
      obtain ⟨hne, hb⟩ := hr rfl t rfl
      show Gives (aliasName? (t :: rest)) none (t :: rest)
      rw [aliasName?, if_neg hne, if_neg (by simp [hb])]
      exact .pure
  | named ht hu =>
    show Gives (aliasName? (_ :: _ :: rest)) _ rest
    rw [aliasName?, if_pos ht]
    exact (ident_gives _ hu rest).bind fun h₁ => .pure
  | @bare t i hb ht =>
    have hne : t.kind ≠ .keyword .AS := by
      intro heq
      simp [isBareAlias, heq] at hb
    show Gives (aliasName? (t :: rest)) _ rest
    rw [aliasName?, if_neg hne, if_pos hb]
    exact (ident_gives _ ht rest).bind fun h₁ => .pure

theorem words_gives {ws rest : List Lexeme} (hw : ∀ w ∈ ws, w.kind = .word)
    (hr : Lacks .word rest) : ∃ h, words (ws ++ rest) = ⟨ws.map Lexeme.text, rest, h⟩ := by
  induction ws with
  | nil =>
    cases rest with
    | nil => exact ⟨_, rfl⟩
    | cons t rest =>
      refine ⟨Front.lt_succ _, ?_⟩
      show words (t :: rest) = _
      rw [words, if_neg (hr t rfl)]
      rfl
  | cons w ws ih =>
    obtain ⟨h, hws⟩ := ih fun u hu => hw u (List.mem_cons_of_mem w hu)
    refine ⟨Nat.lt_succ_of_lt h, ?_⟩
    show words (w :: (ws ++ rest)) = _
    rw [words, if_pos (hw w List.mem_cons_self), hws]
    rfl

theorem ParamsOf.gives {texts : List String} {ps : List Lexeme} (hp : ParamsOf texts ps) :
    ∃ a as, texts = a :: as ∧ ∀ {n : Nat} (rest : List Lexeme) (h : (ps ++ rest).length < n),
      Lacks .comma rest → Gives (commaList (fun ts _ => typeParam ts) (ps ++ rest) h) (a, as) rest := by
  have hone {t : Lexeme} (ht : t.kind = .number) (ts : List Lexeme) :
      Gives (typeParam (t :: ts)) t.text ts := by
    rw [typeParam, if_pos ht]
    exact .pure
  induction hp with
  | @one t ht => exact ⟨t.text, [], rfl, fun rest _ hr => commaList_one (hone ht rest) hr⟩
  | @more t u texts ls ht hu _ ih =>
    obtain ⟨a, as, rfl, ih⟩ := ih
    refine ⟨t.text, a :: as, rfl, fun rest _ hr => ?_⟩
    exact commaList_more (hone ht _) hu fun h => ih rest h hr

theorem TypeOf.gives {type : DataType} {ls rest : List Lexeme} (h : TypeOf type ls)
    (hw : Lacks .word rest) (hl : Lacks .lparen rest) :
    Gives (dataType (ls ++ rest)) type rest := by
  cases h with
  | @plain t ws hws htype =>
    obtain ⟨h₁, heq⟩ := words_gives (fun w hm => hws w (List.mem_cons_of_mem t hm)) hw
    have hparams : Gives (typeParams? (words (ws ++ rest)).rest) none rest := by
      rw [heq]
      cases rest with
      | nil => exact .pure
      | cons u rest =>
        simp only [typeParams?, if_neg (hl u rfl)]
        exact .pure
    show Gives (dataType (t :: (ws ++ rest))) type rest
    rw [dataType, if_pos (hws t List.mem_cons_self)]
    simp only [heq]
    refine hparams.bind fun h₂ => ?_
    have htype : DataType.ofText? (" ".intercalate (t.text :: ws.map Lexeme.text)) = some type :=
      htype
    simp only [htype]
    exact .pure
  | @withParams t u v ws ps texts hws hu hp hv htype =>
    obtain ⟨a, as, rfl, hps⟩ := hp.gives
    have hlu : Lacks .word (u :: (ps ++ v :: rest)) := .cons (by rw [hu]; decide)
    obtain ⟨h₁, heq⟩ := words_gives (fun w hm => hws w (List.mem_cons_of_mem t hm)) hlu
    have hparams : Gives (typeParams? (words (ws ++ u :: (ps ++ v :: rest))).rest)
        (some (a :: as)) rest := by
      rw [heq]
      simp only [typeParams?, if_pos hu]
      refine (hps (v :: rest) _ (.cons (by rw [hv]; decide))).bind fun h₂ => ?_
      exact (expect_gives _ hv rest).bind fun h₃ => .pure
    have hls : t :: ws ++ u :: ps ++ [v] ++ rest = t :: (ws ++ u :: (ps ++ v :: rest)) := by simp
    rw [hls, dataType, if_pos (hws t List.mem_cons_self)]
    simp only [heq]
    refine hparams.bind fun h₂ => ?_
    have htype : DataType.ofText? (" ".intercalate (t.text :: ws.map Lexeme.text) ++ "(" ++
        ", ".intercalate (a :: as) ++ ")") = some type := htype
    simp only [htype]
    exact .pure

end SqlDialect.Grammar
