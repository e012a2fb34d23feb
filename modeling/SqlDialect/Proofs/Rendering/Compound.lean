import SqlDialect.Proofs.Rendering.Call

/-!
# SqlDialect.Proofs.Rendering.Compound

The texts of parentheses, casts, cases and lists.

* `shown_paren` -- parentheses around an expression or a query.
* `shown_castTo` -- a cast, and what is printed as one.
* `shown_caseWhen`, `shown_inList`, `shown_ilike` -- nodes that hold lists, and
  the predicate that SQLite prints as another one.
-/

namespace SqlDialect

open Text Grammar

variable {b : Builtin} {i : Bool} {e a : Expr}

/-! ## parentheses -/

theorem tokensOf_paren (a : Expr) :
    tokensOf b i (.paren a) = .lparen :: (tokensOf b i a ++ [.rparen]) := by
  rw [tokensOf_base (by cases b <;> rfl)]
  simp [Style.base, tokensOf, Fragment.ofTokens]

/-- A node between parentheses. -/
theorem shown_between_parens {ts : List Token} {a' : Expr} {P : List Lexeme → Prop}
    (htokens : tokensOf b i e = .lparen :: (ts ++ [.rparen])) (htier : e.tier b = 0)
    (hw : Written b ts P) (hd : ∀ (t u : Lexeme) (ls : List Lexeme), t.kind = .lparen → P ls →
      u.kind = .rparen → Derives b.dialect (.expr 0 a') (t :: (ls ++ [u])))
    (hf : e.All (Faithful b) → a' = e.settled b i) : Shown b i e := by
  refine ⟨⟨a', ?_, hf⟩, fun _ _ => htokens ▸ undashed_lparen⟩
  rw [htokens]
  refine .lparen fun t ht => ?_
  refine hw.append (by simp) fun ls h => ?_
  refine .rparen fun u hu => ?_
  refine .nil (.first ?_ (by simp [ht]))
  rw [htier]
  exact hd t u ls ht h hu

theorem Expr.settled_paren (a : Expr) : (paren a).settled b i = paren (a.settled b i) := by
  rw [settled_eq]
  cases b <;> rfl

theorem shown_paren (h : Prepared b i (.paren a)) : Shown b i (.paren a) := by
  have ha : Ready b i a := (h.children a (by simp [Expr.children])).self
  have hchild : a ∈ (Expr.paren a).children := by simp [Expr.children]
  by_cases hq : ∃ q, a = .select q
  · obtain ⟨q, rfl⟩ := hq
    obtain ⟨q', hw, hf⟩ := ha.query q rfl
    refine @shown_between_parens b i _ _ (.paren (.select q')) _ (tokensOf_paren _)
      (by cases b <;> rfl) hw ?_ fun hfaith => ?_
    · rintro t u _ ht ⟨v, vs, rfl, hv, hd⟩ hu
      exact .subquery ht hv hd hu
    · rw [Expr.settled_paren, hf (hfaith.child hchild)]
  · have hslot : a.tier b ≤ 8 := by
      refine h.clear.1 (8, a) ?_
      have hplaces := Expr.places_paren fun q heq => hq ⟨q, heq⟩
      cases b <;> simp [Expr.slots, hplaces]
    obtain ⟨a', hw, hf⟩ := (ha.shown hslot).loose hslot
    refine shown_between_parens (tokensOf_paren a) (by cases b <;> rfl) hw
      (fun t u ls ht hd hu => .paren ht hd hu) fun hfaith => ?_
    rw [Expr.settled_paren, hf (hfaith.child hchild)]

/-! ## casts -/

/-- The pieces of a cast. -/
def castTokens (b : Builtin) (i : Bool) (k : Keyword) (a : Expr) (t : DataType) : List Token :=
  .keyword k :: .lparen ::
    (tokensOf b i a ++ .space :: .keyword .AS :: .space :: .raw (typeText b t) :: [.rparen])

theorem tokens_cast (k : Keyword) (a : Expr) (t : DataType) :
    ((style b i).cast (style b i).fragment k a t).tokens = castTokens b i k a t := by
  simp [Style.cast, castTokens, tokensOf, tokens_dataType, Fragment.ofTokens]

/-- A node printed as a cast. -/
theorem shown_castTo {k : Keyword} {make : Expr → DataType → Expr} {t : DataType}
    (hk : castOf? k = some make) (ha : Shown b i a) (hslot : a.tier b ≤ 8)
    (htokens : tokensOf b i e = castTokens b i k a t) (htier : e.tier b = 0)
    (hf : e.All (Faithful b) → a.All (Faithful b) ∧
      make (a.settled b i) (retyped b t) = e.settled b i) : Shown b i e := by
  obtain ⟨a', hw, hfa⟩ := ha.loose hslot
  have hkind : LexemeKind.keyword k ∉ [.star, .keyword .ROW, .keyword .ROWS] := by
    cases k <;> cases hk <;> decide
  refine ⟨⟨make a' (retyped b t), ?_, fun hfaith => ?_⟩, fun _ _ => ?_⟩
  · rw [htokens]
    refine .keyword (by simp) fun u hu => ?_
    refine .lparen fun v hv => ?_
    refine Written.append hw (by simp) fun ls h => ?_
    refine .space (.spacedKeyword fun w hw => ?_)
    refine .dataType (by simp) fun ls' h' => ?_
    refine .rparen fun x hx => ?_
    refine .nil (.first ?_ (by rwa [hu]))
    rw [htier]
    simpa using Derives.cast hu hk hv h hw h' hx
  · obtain ⟨hall, heq⟩ := hf hfaith
    rw [hfa hall, heq]
  · rw [htokens]
    exact undashed_keyword

theorem shown_cast {t : DataType} (h : Prepared b i (.cast a t)) : Shown b i (.cast a t) := by
  have hchild : a ∈ (Expr.cast a t).children := by simp [Expr.children]
  have hslot : a.tier b ≤ 8 := by
    have := h.clear.1
    cases b <;> simpa [Expr.slots, Expr.places] using this
  refine shown_castTo (k := .CAST) rfl ((h.children a hchild).self.shown hslot) hslot
    ((tokensOf_base (by cases b <;> rfl)).trans (tokens_cast ..)) (by cases b <;> rfl)
    fun hf => ⟨hf.child hchild, ?_⟩
  rw [Expr.settled_eq b i (.cast a t), (hf.self : retyped b t = t)]
  cases b <;> rfl

theorem shown_tryCast {t : DataType} (h : Prepared b i (.tryCast a t)) :
    Shown b i (.tryCast a t) := by
  have hchild : a ∈ (Expr.tryCast a t).children := by simp [Expr.children]
  have hslot : a.tier b ≤ 8 := by
    have := h.clear.1
    cases b <;> simpa [Expr.slots, Expr.places] using this
  have ha := (h.children a hchild).self.shown hslot
  cases b with
  | generic =>
    refine shown_castTo (k := .TRY_CAST) rfl ha hslot ((tokensOf_base rfl).trans (tokens_cast ..))
      rfl fun hf => ⟨hf.child hchild, ?_⟩
    rw [Expr.settled_eq .generic i (.tryCast a t), retyped_generic]
    rfl
  | sqlite =>
    refine shown_castTo (k := .CAST) (t := t) rfl ha hslot ?_ rfl
      fun hf => by cases (hf.self : Builtin.sqlite = .generic)
    rw [tokensOf, Style.fragment_eq, Style.node]
    exact tokens_cast ..

/-- A conversion of a text to a date or a time. -/
def Expr.conversion (time : Bool) (a : Expr) : Expr :=
  if time then .timeStrToTime a else .dateStrToDate a

theorem shown_conversion {time : Bool} (h : Prepared b i (.conversion time a)) :
    Shown b i (.conversion time a) := by
  have hchild : a ∈ (Expr.conversion time a).children := by
    cases time <;> simp [Expr.conversion, Expr.children]
  have hslot : a.tier b ≤ 8 := by
    have := h.clear.1
    cases b <;> cases time <;> simpa [Expr.conversion, Expr.slots] using this
  have ha := (h.children a hchild).self.shown hslot
  cases b with
  | generic =>
    refine shown_castTo (k := .CAST) (t := .ofKind (if time then .timestamp else .date)) rfl ha hslot
      ?_ (by cases time <;> rfl) fun hf => ?_
    · cases time <;> exact (tokensOf_base rfl).trans (tokens_cast ..)
    · cases time <;> cases (hf.self : Builtin.generic = .sqlite)
  | sqlite =>
    refine shown_operand ha ?_ (by cases time <;> rfl) (by cases time <;> rfl) fun hf =>
      ⟨hf.child hchild, ?_⟩
    · rw [tokensOf, Style.fragment_eq, Style.node]
      cases time <;> rfl
    · rw [Expr.settled_eq]
      cases time <;> rfl

/-! ## cases -/

theorem tokens_concat (fs : List Fragment) :
    (Fragment.concat fs).tokens = fs.flatMap Fragment.tokens := by
  induction fs with
  | nil => rfl
  | cons f fs ih =>
    change (f ++ Fragment.concat fs).tokens = _
    rw [Fragment.tokens_append, ih, List.flatMap_cons]

/-- The pieces of a part behind words, if it is there. -/
def optionalTokens (b : Builtin) (i : Bool) (words : List Token) (e : Option Expr) : List Token :=
  e.elim [] fun e => words ++ tokensOf b i e

theorem tokens_optional (words : List Token) (e : Option Expr) :
    (Style.optional words (e.map (style b i).fragment)).tokens = optionalTokens b i words e := by
  cases e <;> rfl

/-- The pieces of a branch. -/
def whenTokens (b : Builtin) (i : Bool) (w : Expr × Expr) : List Token :=
  .space :: .keyword .WHEN :: .space ::
    (tokensOf b i w.1 ++ .space :: .keyword .THEN :: .space :: tokensOf b i w.2)

theorem tokensOf_caseWhen (o : Option Expr) (ws : List (Expr × Expr)) (c : Option Expr) :
    tokensOf b i (.caseWhen o ws c) =
      .keyword .CASE :: (optionalTokens b i [.space] o ++ (ws.flatMap (whenTokens b i) ++
        (optionalTokens b i [.space, .keyword .ELSE, .space] c ++ [.space, .keyword .END]))) := by
  rw [tokensOf_base (by cases b <;> rfl)]
  have hwhens : (ws.map fun w => Fragment.ofTokens [.space, .keyword .WHEN, .space] ++
      (style b i).fragment w.1 ++ Fragment.ofTokens [.space, .keyword .THEN, .space] ++
        (style b i).fragment w.2).flatMap Fragment.tokens = ws.flatMap (whenTokens b i) := by
    rw [List.flatMap_map]
    refine List.flatMap_congr fun w _ => ?_
    simp [whenTokens, tokensOf, Fragment.ofTokens]
  simp only [Style.base, Fragment.tokens_append, tokens_concat, hwhens, tokens_optional]
  simp [Fragment.keyword, Fragment.ofTokens]

/-- The branches of a case are read one by one. -/
theorem whens_written {ws : List (Expr × Expr)}
    (h : ∀ w ∈ ws, (Shown b i w.1 ∧ w.1.tier b ≤ 8) ∧ Shown b i w.2 ∧ w.2.tier b ≤ 8) :
    ∃ ws', ws'.length = ws.length ∧ Written b (ws.flatMap (whenTokens b i))
        (fun ls => Derives b.dialect (.whens ws') ls) ∧
      ((∀ w ∈ ws, w.1.All (Faithful b) ∧ w.2.All (Faithful b)) →
        ws' = ws.map fun w => (w.1.settled b i, w.2.settled b i)) := by
  induction ws with
  | nil => exact ⟨[], rfl, .nil .noWhens, fun _ => rfl⟩
  | cons w ws ih =>
    rw [List.forall_mem_cons] at h
    obtain ⟨⟨⟨hs₁, ht₁⟩, hs₂, ht₂⟩, hrest⟩ := h
    obtain ⟨ws', hlength, hws, hfs⟩ := ih hrest
    obtain ⟨x', hx, hfx⟩ := hs₁.loose ht₁
    obtain ⟨y', hy, hfy⟩ := hs₂.loose ht₂
    refine ⟨(x', y') :: ws', by simp [hlength], ?_, fun hf => ?_⟩
    · rw [List.flatMap_cons, whenTokens]
      simp only [List.cons_append, List.append_assoc]
      refine .space (.spacedKeyword fun t ht => ?_)
      refine Written.append hx (by simp) fun ls₁ h₁ => ?_
      refine .space (.spacedKeyword fun u hu => ?_)
      refine Written.append hy ?_ fun ls₂ h₂ => ?_
      · cases ws <;> simp [whenTokens]
      · refine hws.imp fun ls₃ h₃ => ?_
        simpa using Derives.whens ht h₁ hu h₂ h₃
    · rw [List.forall_mem_cons] at hf
      rw [List.map_cons, hfx hf.1.1, hfy hf.1.2, hfs hf.2]

/-- A part behind a keyword is read as a clause. -/
theorem clause_written {k : Keyword} {e : Option Expr}
    (h : ∀ c ∈ e, Shown b i c ∧ c.tier b ≤ 8) :
    ∃ e', Written b (optionalTokens b i [.space, .keyword k, .space] e)
        (fun ls => Derives b.dialect (.clause k e') ls) ∧
      ((∀ c ∈ e, c.All (Faithful b)) → e' = e.map (Expr.settled b i)) := by
  cases e with
  | none => exact ⟨none, .nil .noClause, fun _ => rfl⟩
  | some c =>
    obtain ⟨c', hc, hf⟩ := (h c rfl).1.loose (h c rfl).2
    refine ⟨some c', ?_, fun hfaith => ?_⟩
    · refine .space (.spacedKeyword fun t ht => ?_)
      exact Written.imp hc fun ls h => .clause ht h
    · rw [hf (hfaith c rfl)]
      rfl

theorem ends_optional {words : List Token} {us : List Token} {e : Option Expr}
    (hu : Ends us) : Ends (optionalTokens b i (.space :: words) e ++ us) := by
  cases e with
  | none => exact hu
  | some c => simp [optionalTokens]

theorem shown_caseWhen {o c : Option Expr} {ws : List (Expr × Expr)}
    (h : Prepared b i (.caseWhen o ws c)) : Shown b i (.caseWhen o ws c) := by
  have hmem : ∀ x, (x ∈ o ∨ (∃ w ∈ ws, x = w.1 ∨ x = w.2) ∨ x ∈ c) →
      x ∈ (Expr.caseWhen o ws c).children := by
    intro x hx
    simp only [Expr.children, List.mem_append, Option.mem_toList, List.mem_flatMap, List.mem_cons,
      List.not_mem_nil, or_false, or_assoc]
    exact hx
  have hparts : ∀ x, (x ∈ o ∨ (∃ w ∈ ws, x = w.1 ∨ x = w.2) ∨ x ∈ c) →
      Shown b i x ∧ x.tier b ≤ 8 := by
    intro x hx
    have hslot : x.tier b ≤ 8 := by
      refine h.clear.1 (8, x) ?_
      cases b <;> exact List.mem_map_of_mem (hmem x hx)
    exact ⟨(h.children x (hmem x hx)).self.shown hslot, hslot⟩
  obtain ⟨ws', hlength, hws, hfw⟩ := @whens_written b i ws fun w hw =>
    ⟨hparts w.1 (.inr (.inl ⟨w, hw, .inl rfl⟩)), hparts w.2 (.inr (.inl ⟨w, hw, .inr rfl⟩))⟩
  obtain ⟨c', hc, hfc⟩ := clause_written (b := b) (i := i) (k := .ELSE) fun x hx =>
    hparts x (.inr (.inr hx))
  obtain ⟨o', ho, hfo⟩ : ∃ o', Written b (optionalTokens b i [.space] o)
      (fun ls => Derives b.dialect (.caseOperand o') ls) ∧
      ((∀ x ∈ o, x.All (Faithful b)) → o' = o.map (Expr.settled b i)) := by
    cases o with
    | none => exact ⟨none, .nil .noCaseOperand, fun _ => rfl⟩
    | some x =>
      obtain ⟨x', hx, hf⟩ := (hparts x (.inl rfl)).1.loose (hparts x (.inl rfl)).2
      refine ⟨some x', .space (Written.imp hx fun ls h => .caseOperand h), fun hfaith => ?_⟩
      rw [hf (hfaith x rfl)]
      rfl
  have hne : ws ≠ [] := by
    rintro rfl
    cases h.sound
  have htier : (Expr.caseWhen o ws c).tier b = 0 := by cases b <;> rfl
  refine ⟨⟨.caseWhen o' ws' c', ?_, fun hf => ?_⟩, fun _ _ => ?_⟩
  · rw [tokensOf_caseWhen]
    have hwhens : ∀ us, Ends (ws.flatMap (whenTokens b i) ++ us) := by
      intro us
      obtain ⟨w, ws, rfl⟩ := List.exists_cons_of_ne_nil hne
      simp [whenTokens]
    have hsplits : ∀ us, Splits (optionalTokens b i [.space] o ++
        (ws.flatMap (whenTokens b i) ++ us)) := by
      intro us
      cases o with
      | none => exact (hwhens us).splits
      | some x => simp [optionalTokens]
    have hne' : ws' ≠ [] := by
      rintro rfl
      exact hne (List.length_eq_zero_iff.1 hlength.symm)
    refine .keyword (hsplits _) fun t ht => ?_
    refine ho.append (hwhens _) fun ls₁ h₁ => ?_
    refine hws.append (ends_optional (by simp)) fun ls₂ h₂ => ?_
    refine hc.append (by simp) fun ls₃ h₃ => ?_
    refine .space (.keyword (by simp) fun u hu => ?_)
    refine .nil (.first ?_ (by simp [ht]))
    rw [htier]
    simpa using Derives.caseWhen ht h₁ h₂ hne' h₃ hu
  · rw [Expr.settled_eq, hfo fun x hx => hf.child (hmem x (.inl hx)),
      hfc fun x hx => hf.child (hmem x (.inr (.inr hx))),
      hfw fun w hw => ⟨hf.child (hmem w.1 (.inr (.inl ⟨w, hw, .inl rfl⟩))),
        hf.child (hmem w.2 (.inr (.inl ⟨w, hw, .inr rfl⟩)))⟩]
    cases b <;> rfl
  · rw [tokensOf_caseWhen]
    exact undashed_keyword

/-! ## lists and patterns -/

theorem tokensOf_inList (negated : Bool) (a : Expr) (es : List Expr) :
    tokensOf b i (.inList negated a es) =
      tokensOf b i a ++ .space :: (negationTokens negated ++ .keyword .IN :: .space :: .lparen ::
        (commas (es.map (tokensOf b i)) ++ [.rparen])) := by
  rw [tokensOf_base (by cases b <;> rfl), Style.base]
  simp only [Fragment.tokens_append, tokens_commaSeparated, tokens_fragments, tokens_negation]
  simp [tokensOf, Fragment.ofTokens]

theorem shown_inList {negated : Bool} {es : List Expr} (h : Prepared b i (.inList negated a es)) :
    Shown b i (.inList negated a es) := by
  have hslots : a.tier b ≤ 5 ∧ ∀ e ∈ es, e.tier b ≤ 8 := by
    have := h.clear.1
    cases b <;> simpa only [Expr.slots, Expr.places, List.forall_mem_cons, List.forall_mem_map]
      using this
  have ha : a ∈ (Expr.inList negated a es).children := List.mem_cons_self
  have hes : ∀ e ∈ es, e ∈ (Expr.inList negated a es).children :=
    fun e he => List.mem_cons_of_mem _ he
  obtain ⟨es', hs, hfs⟩ := listed_of_shown fun e he =>
    ⟨(h.children e (hes e he)).self.shown (hslots.2 e he), hslots.2 e he⟩
  have hsound := h.sound
  cases es with
  | nil => cases hsound
  | cons e es =>
    obtain _ | ⟨he, hrest⟩ := hs
    rename_i e' es'
    refine shown_test (f := fun a' => .inList negated a' (e' :: es'))
      ((h.children a ha).self.shown (by omega)) hslots.1 (by cases b <;> rfl)
      (by cases b <;> rfl) (tokensOf_inList negated a (e :: es)) (fun a' => ?_) fun hf => ?_
    · refine .negation fun ns hn => ?_
      refine .spacedKeyword fun t ht => ?_
      refine .lparen fun u hu => ?_
      refine (Listed.exprs (.cons he hrest)).append (by simp) fun ls h => ?_
      refine .rparen fun v hv => .nil ?_
      simpa using Derives.inList (a := a') hn ht hu h hv
    · refine ⟨hf.child ha, ?_⟩
      rw [Expr.settled_eq b i (.inList ..), hfs fun x hx => hf.child (hes x hx)]
      cases b <;> rfl

theorem tokensOf_ilike_generic (negated : Bool) (a p : Expr) :
    tokensOf .generic i (.ilike negated a p) =
      tokensOf .generic i a ++ .space :: (negationTokens negated ++
        .keyword .ILIKE :: .space :: tokensOf .generic i p) := by
  rw [tokensOf_base rfl]
  simp [Style.base, Style.predicate, tokensOf, Fragment.ofTokens, tokens_negation]

theorem tokensOf_ilike_sqlite (negated : Bool) (a p : Expr) :
    tokensOf .sqlite i (.ilike negated a p) =
      .raw "LOWER" :: .lparen :: (tokensOf .sqlite i a ++ .rparen :: .space ::
        (negationTokens negated ++ .keyword .LIKE :: .space :: tokensOf .sqlite i p)) := by
  rw [tokensOf, Style.fragment_eq, Style.node]
  change (Style.lowerLike (style .sqlite i) (style .sqlite i).fragment (.ilike negated a p)).tokens = _
  simp [Style.lowerLike, tokens_call, commas, tokensOf, Fragment.ofTokens, tokens_negation,
    Fragment.remark]

theorem shown_ilike {negated : Bool} {p : Expr} (ha : Shown b i a) (hp : Shown b i p)
    (hc : Clear b (.ilike negated a p)) : Shown b i (.ilike negated a p) := by
  cases b with
  | generic =>
    obtain ⟨⟨p', hp, hfp⟩, -⟩ := hp
    have hslots : a.tier .generic ≤ 5 ∧ p.tier .generic ≤ 4 := by
      simpa [Expr.slots, Expr.places] using hc.1
    refine shown_test (f := fun a' => .ilike negated a' p') ha hslots.1 rfl rfl
      (tokensOf_ilike_generic negated a p) (fun a' => ?_) fun hf => ?_
    · refine .negation fun ns hn => ?_
      refine .spacedKeyword fun t ht => ?_
      exact hp.imp fun ls h => .ilike hn ht (h.derives.raise hslots.2 (by decide))
    · refine ⟨hf.child (by simp [Expr.children]), ?_⟩
      rw [Expr.settled_eq _ _ (.ilike ..), hfp (hf.child (by simp [Expr.children]))]
      rfl
  | sqlite =>
    have hslots : a.tier .sqlite ≤ 8 ∧ p.tier .sqlite ≤ 4 := by simpa [Expr.slots] using hc.1
    obtain ⟨a', ha, -⟩ := ha.loose hslots.1
    obtain ⟨⟨p', hp, -⟩, -⟩ := hp
    have hname := @bare_of_mem "LOWER" (by decide)
    have hnone : Builtin.sqlite.function? "LOWER" = none := by decide
    refine ⟨⟨.like negated (.function "LOWER" [a']) p', ?_,
      fun hf => by cases (hf.self : Builtin.sqlite = .generic)⟩,
      fun h => absurd h (by simp [Expr.tier, Expr.core, Expr.level])⟩
    rw [tokensOf_ilike_sqlite]
    refine .word hname.1.1 (by simp) fun t ht htext => ?_
    refine .lparen fun u hu => ?_
    refine (Listed.args (.cons ha .nil)).append (by simp) fun ls₁ h₁ => ?_
    refine .rparen fun v hv => .space ?_
    refine .negation fun ns hn => ?_
    refine .spacedKeyword fun w hw => ?_
    refine hp.imp fun ls₂ h₂ => .first ?_ ?_
    · have hcall := Derives.call (hname.1.identOf? ht htext) rfl hu h₁ hv
        (@call_of_none .sqlite _ hnone _)
      have htest := Derives.tested (hcall.raise (Nat.zero_le 5) (by decide))
        (.like hn hw (h₂.derives.raise hslots.2 (by decide)))
      change Derives _ (.expr 5 _) _
      simpa using htest
    · obtain ⟨hstar, hrows⟩ := Bare.kind ht
      simp [hstar, hrows hname.2]

end SqlDialect
