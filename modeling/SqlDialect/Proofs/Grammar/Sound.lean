import SqlDialect.Proofs.Grammar.Derivation

/-!
# SqlDialect.Proofs.Grammar.Sound

Whatever the grammar reads is spelled by the lexemes it takes.

* `Sound` -- the shape of every statement here: if a reading succeeds, the
  lexemes taken have a property together with its value.
* `commaList_sound`, `leftAssoc_sound` -- repetition, once for all uses.
* `expression_sound`, `query_sound` -- the two results.

Each production is sound if what it is given to read expressions with is;
`expression_sound` closes the circle by induction on the number of lexemes.
-/

namespace SqlDialect.Grammar

/-- If a reading of `ts` succeeds, its value and the lexemes taken have the
property `P`. -/
def Sound {α : Type} {n : Nat} (ts : List Lexeme) (x : Reading α n)
    (P : α → List Lexeme → Prop) : Prop :=
  ∀ r, x = .ok r → ∃ ls, ts = ls ++ r.rest ∧ P r.value ls

namespace Sound

variable {α β : Type} {m n : Nat} {ts : List Lexeme} {P : α → List Lexeme → Prop}
  {Q : β → List Lexeme → Prop}

/-- A successful reading that takes nothing. -/
theorem pure {a : α} {h : ts.length < n} (ha : P a []) :
    Sound ts (.ok ⟨a, ts, h⟩ : Reading α n) P := by
  intro r hr
  cases hr
  exact ⟨[], rfl, ha⟩

/-- A successful reading, by the lexemes it took. -/
theorem took {a : α} {ls rest : List Lexeme} {h : rest.length < n} (hts : ts = ls ++ rest)
    (ha : P a ls) : Sound ts (.ok ⟨a, rest, h⟩ : Reading α n) P := by
  intro r hr
  cases hr
  exact ⟨ls, hts, ha⟩

/-- A successful reading that takes one lexeme. -/
theorem one {a : α} {t : Lexeme} {h : ts.length < n} (ha : P a [t]) :
    Sound (t :: ts) (.ok ⟨a, ts, h⟩ : Reading α n) P :=
  .took (show t :: ts = [t] ++ ts from rfl) ha

/-- A failed reading. -/
theorem error {e : ParseError} : Sound ts (.error e : Reading α n) P := by
  intro r hr
  cases hr

/-- One reading behind another one. -/
theorem bind {x : Reading α m} {f : Read α m → Reading β n} (hx : Sound ts x P)
    (hf : ∀ a ls rest h, ts = ls ++ rest → P a ls →
      Sound rest (f ⟨a, rest, h⟩) fun b ls' => Q b (ls ++ ls')) :
    Sound ts (x >>= f) Q := by
  intro r hr
  cases x with
  | error e => cases hr
  | ok r₁ =>
    obtain ⟨ls, hts, ha⟩ := hx r₁ rfl
    obtain ⟨ls', hrest, hb⟩ := hf r₁.value ls r₁.rest r₁.lt hts ha r hr
    exact ⟨ls ++ ls', by rw [hts, hrest, List.append_assoc], hb⟩

theorem mono {x : Reading α n} {P' : α → List Lexeme → Prop} (hx : Sound ts x P)
    (h : ∀ a ls, P a ls → P' a ls) : Sound ts x P' := by
  intro r hr
  obtain ⟨ls, hts, ha⟩ := hx r hr
  exact ⟨ls, hts, h _ _ ha⟩

/-- Lexemes taken in front of a reading. -/
theorem append {x : Reading α n} {ls rest : List Lexeme} (hts : ts = ls ++ rest)
    (hx : Sound rest x fun a ls' => P a (ls ++ ls')) : Sound ts x P := by
  intro r hr
  obtain ⟨ls', hrest, ha⟩ := hx r hr
  exact ⟨ls ++ ls', by rw [hts, hrest, List.append_assoc], ha⟩

/-- One lexeme in front of a reading. -/
theorem cons {t : Lexeme} {x : Reading α n} (hx : Sound ts x fun a ls => P a (t :: ls)) :
    Sound (t :: ts) x P :=
  .append (show t :: ts = [t] ++ ts from rfl) hx

end Sound

/-! ## single lexemes -/

theorem acceptKeyword_eq (k : Keyword) (ts : List Lexeme) :
    ∃ b ls rest h, ts = ls ++ rest ∧ Flag k b ls ∧ acceptKeyword k ts = ⟨b, rest, h⟩ := by
  cases ts with
  | nil => exact ⟨false, [], [], Front.lt_succ [], rfl, .absent, rfl⟩
  | cons t ts =>
    by_cases ht : t.kind = .keyword k
    · simp only [acceptKeyword, accept, if_pos ht]
      exact ⟨true, [t], ts, Nat.lt_succ_of_lt (Front.lt_cons t ts), rfl, .present ht, rfl⟩
    · simp only [acceptKeyword, accept, if_neg ht]
      exact ⟨false, [], t :: ts, Front.lt_succ _, rfl, .absent, rfl⟩

theorem acceptKeyword_flag (k : Keyword) (ts : List Lexeme) :
    ∃ ls, ts = ls ++ (acceptKeyword k ts).rest ∧ Flag k (acceptKeyword k ts).value ls := by
  obtain ⟨b, ls, rest, h, hts, hf, heq⟩ := acceptKeyword_eq k ts
  exact ⟨ls, by rw [heq]; exact hts, by rw [heq]; exact hf⟩

theorem expect_sound (kind : LexemeKind) (expected : Expected) (ts : List Lexeme) :
    Sound ts (expect kind expected ts) fun _ ls => ∃ t, ls = [t] ∧ t.kind = kind := by
  unfold expect
  split
  · exact .error
  · split
    case isTrue ht => exact .one ⟨_, rfl, ht⟩
    case isFalse => exact .error

theorem expectKeyword_sound (k : Keyword) (ts : List Lexeme) :
    Sound ts (expectKeyword k ts) fun _ ls => ∃ t, ls = [t] ∧ t.kind = .keyword k :=
  expect_sound _ _ ts

/-! ## repetition -/

section

variable {α : Type} {n : Nat} {P Q : α → List Lexeme → Prop}

/-- Items with commas between them, from what holds of one item and of one
more in front. -/
theorem commaList_sound {item : (ts : List Lexeme) → ts.length < n → Reading α ts.length}
    {L : List α → List Lexeme → Prop} (hitem : ∀ ts h, Sound ts (item ts h) P)
    (one : ∀ a ls, P a ls → L [a] ls)
    (more : ∀ a as ls₁ t ls₂, P a ls₁ → t.kind = .comma → L as ls₂ → L (a :: as) (ls₁ ++ t :: ls₂))
    (ts : List Lexeme) (h : ts.length < n) :
    Sound ts (commaList item ts h) fun p ls => L (p.1 :: p.2) ls := by
  rw [commaList]
  refine (hitem ts h).bind fun a ls rest h₁ _ ha => ?_
  cases rest with
  | nil => exact .pure (by simpa using one a ls ha)
  | cons t rest =>
    by_cases ht : t.kind = .comma
    · simp only [if_pos ht]
      refine .cons ((commaList_sound hitem one more rest _).bind fun as ls₂ rest₂ h₂ _ has => ?_)
      exact .pure (by simpa using more a _ ls t ls₂ ha ht has)
    · simp only [if_neg ht]
      exact .pure (by simpa using one a ls ha)
termination_by ts.length

/-- Operators that group to the left, from what holds of a first operand and
of one operator with its second operand. -/
theorem operators_sound {item : (ts : List Lexeme) → ts.length ≤ n → Reading α ts.length}
    {operator? : LexemeKind → Option (α → α → α)} (hitem : ∀ ts h, Sound ts (item ts h) P)
    (more : ∀ a b ls₁ t ls₂ make, Q a ls₁ → operator? t.kind = some make → P b ls₂ →
      Q (make a b) (ls₁ ++ t :: ls₂))
    (left : α) (ls : List Lexeme) (hleft : Q left ls) (ts : List Lexeme) (h : ts.length ≤ n) :
    Sound ts (operators item operator? left ts h) fun b ls' => Q b (ls ++ ls') := by
  cases ts with
  | nil => rw [operators]; exact .pure (by simpa using hleft)
  | cons t ts =>
    rw [operators]
    cases ht : operator? t.kind with
    | none => exact .pure (by simpa using hleft)
    | some make =>
      refine .cons ((hitem ts _).bind fun b ls₂ rest h₂ _ hb => ?_)
      have hlt : rest.length < (t :: ts).length := Nat.lt_succ_of_lt h₂
      refine (operators_sound hitem more _ _ (more left b ls t ls₂ make hleft ht hb) rest _).bind
        fun c ls₃ rest₃ h₃ _ hc => ?_
      exact .pure (a := c) (by simpa using hc)
termination_by ts.length

theorem leftAssoc_sound {item : (ts : List Lexeme) → ts.length ≤ n → Reading α ts.length}
    {operator? : LexemeKind → Option (α → α → α)} (hitem : ∀ ts h, Sound ts (item ts h) P)
    (one : ∀ a ls, P a ls → Q a ls)
    (more : ∀ a b ls₁ t ls₂ make, Q a ls₁ → operator? t.kind = some make → P b ls₂ →
      Q (make a b) (ls₁ ++ t :: ls₂))
    (ts : List Lexeme) (h : ts.length ≤ n) : Sound ts (leftAssoc item operator? ts h) Q := by
  refine (hitem ts h).bind fun a ls rest h₁ _ ha => ?_
  refine (operators_sound hitem more a ls (one a ls ha) rest _).bind fun b ls₂ rest₂ h₂ _ hb => ?_
  exact .pure (a := b) (by simpa using hb)

end

/-! ## names and types -/

theorem ident_sound (expected : Expected) (ts : List Lexeme) :
    Sound ts (ident expected ts) fun i ls => ∃ t, ls = [t] ∧ identOf? t = some i := by
  unfold ident
  split
  · exact .error
  · split
    case h_1 i hi => exact .one ⟨_, rfl, hi⟩
    case h_2 => exact .error

theorem tableName_sound (ts : List Lexeme) :
    Sound ts (tableName ts) fun p ls => NameOf p.1 p.2 ls := by
  refine (ident_sound _ ts).bind fun i ls rest h₁ _ hi => ?_
  obtain ⟨t, rfl, ht⟩ := hi
  cases rest with
  | nil => exact .pure (.plain ht)
  | cons u rest =>
    by_cases hu : u.kind = .dot
    · simp only [if_pos hu]
      refine .cons ((ident_sound _ rest).bind fun j ls rest h₂ _ hj => ?_)
      obtain ⟨v, rfl, hv⟩ := hj
      exact .pure (.qualified ht hu hv)
    · simp only [if_neg hu]
      exact .pure (.plain ht)

theorem aliasName?_sound (ts : List Lexeme) : Sound ts (aliasName? ts) AliasOf := by
  cases ts with
  | nil => exact .pure .none
  | cons t ts =>
    unfold aliasName?
    by_cases ht : t.kind = .keyword .AS
    · simp only [if_pos ht]
      refine .cons ((ident_sound _ ts).bind fun i ls rest h _ hi => ?_)
      obtain ⟨u, rfl, hu⟩ := hi
      exact .pure (.named ht hu)
    · simp only [if_neg ht]
      by_cases hb : isBareAlias t = true
      · simp only [if_pos hb]
        refine (ident_sound _ (t :: ts)).bind fun i ls rest h hts hi => ?_
        obtain ⟨u, rfl, hu⟩ := hi
        obtain ⟨rfl, rfl⟩ := List.cons.inj hts
        exact .pure (.bare hb hu)
      · simp only [if_neg hb]
        exact .pure .none

theorem typeParam_sound (ts : List Lexeme) :
    Sound ts (typeParam ts) fun text ls => ∃ t, ls = [t] ∧ t.kind = .number ∧ t.text = text := by
  unfold typeParam
  split
  · exact .error
  · split
    case isTrue ht => exact .one ⟨_, rfl, ht, rfl⟩
    case isFalse => exact .error

theorem words_sound : (ts : List Lexeme) →
    ∃ ws, ts = ws ++ (words ts).rest ∧ (words ts).value = ws.map Lexeme.text ∧
      ∀ w ∈ ws, w.kind = .word
  | [] => ⟨[], rfl, rfl, by simp⟩
  | t :: ts => by
    unfold words
    by_cases ht : t.kind = .word
    · obtain ⟨ws, hts, hv, hw⟩ := words_sound ts
      simp only [if_pos ht]
      exact ⟨t :: ws, congrArg (t :: ·) hts, congrArg (t.text :: ·) hv, by simp [ht]; exact hw⟩
    · simp only [if_neg ht]
      exact ⟨[], rfl, rfl, by simp⟩

/-- The parameters of a type with the parentheses around them, if they
come. -/
theorem typeParams?_sound (ts : List Lexeme) :
    Sound ts (typeParams? ts) fun params ls => match params with
      | none => ls = []
      | some texts => ∃ u ps v, ls = u :: ps ++ [v] ∧ u.kind = .lparen ∧ ParamsOf texts ps ∧
          v.kind = .rparen := by
  cases ts with
  | nil => exact .pure rfl
  | cons u ts =>
    unfold typeParams?
    by_cases hu : u.kind = .lparen
    · simp only [if_pos hu]
      have hone (text : String) (ls : List Lexeme)
          (h : ∃ t, ls = [t] ∧ t.kind = .number ∧ t.text = text) : ParamsOf [text] ls := by
        obtain ⟨t, rfl, ht, rfl⟩ := h
        exact .one ht
      have hmore (text : String) (texts : List String) (ls₁ : List Lexeme) (t : Lexeme)
          (ls₂ : List Lexeme) (h : ∃ t, ls₁ = [t] ∧ t.kind = .number ∧ t.text = text)
          (ht : t.kind = .comma) (hs : ParamsOf texts ls₂) :
          ParamsOf (text :: texts) (ls₁ ++ t :: ls₂) := by
        obtain ⟨u, rfl, hu, rfl⟩ := h
        exact .more hu ht hs
      refine .cons ((commaList_sound (fun ts _ => typeParam_sound ts) hone hmore ts _).bind
        fun texts ps rest h₁ _ hp => ?_)
      refine (expect_sound _ _ rest).bind fun _ ls rest h₂ _ hv => ?_
      obtain ⟨v, rfl, hv⟩ := hv
      exact .pure (a := some (texts.1 :: texts.2)) ⟨u, ps, v, by simp, hu, hp, hv⟩
    · simp only [if_neg hu]
      exact .pure (a := none) rfl

theorem dataType_sound (ts : List Lexeme) : Sound ts (dataType ts) TypeOf := by
  cases ts with
  | nil => exact .error
  | cons t ts =>
    unfold dataType
    by_cases ht : t.kind = .word
    · simp only [if_pos ht]
      obtain ⟨ws, hts, hv, hw⟩ := words_sound ts
      have hws : ∀ w ∈ t :: ws, w.kind = .word := by simp [ht]; exact hw
      generalize words ts = r at hts hv
      obtain ⟨others, rest, h₁⟩ := r
      cases hv
      refine .cons (.append hts ((typeParams?_sound rest).bind fun params ls rest h₂ _ hp => ?_))
      dsimp only
      split
      case h_1 type htype =>
        refine .pure ?_
        cases params with
        | none =>
          obtain rfl : ls = [] := hp
          simpa using TypeOf.plain hws htype
        | some texts =>
          obtain ⟨u, ps, v, rfl, hu, hp, hv⟩ := hp
          simpa using TypeOf.withParams hws hu hp hv htype
      case h_2 => exact .error
    · simp only [if_neg ht]
      exact .error

/-! ## lists and clauses -/

/-- Whatever is read by `sub` is spelled by the lexemes it takes. -/
def SoundBelow (d : Dialect) {n : Nat} (sub : Below n) : Prop :=
  ∀ level ts h, Sound ts (sub level ts h) fun e ls => Derives d (.expr level.number e) ls

section

variable {d : Dialect} {n : Nat} {sub : Below n} (hsub : SoundBelow d sub)

include hsub

theorem exprList_sound (ts : List Lexeme) (h : ts.length < n) :
    Sound ts (exprList sub ts h) fun p ls => Derives d (.exprs (p.1 :: p.2)) ls :=
  commaList_sound (L := fun es ls => Derives d (.exprs es) ls) (hsub .loose)
    (fun _ _ he => .exprsOne he) (fun _ _ _ _ _ he ht hs => .exprsMore he ht hs) ts h

theorem orderItem_sound (ts : List Lexeme) (h : ts.length < n) :
    Sound ts (orderItem sub ts h) fun i ls => Derives d (.item i) ls := by
  refine (hsub .loose ts h).bind fun e ls rest h₁ _ he => ?_
  cases rest with
  | nil => exact .pure (.item he .none)
  | cons t rest =>
    dsimp only
    split
    case h_1 ht => exact .one (.item he (.asc ht))
    case h_2 ht => exact .one (.item he (.desc ht))
    case h_3 => exact .pure (.item he .none)

theorem ordering_sound (ts : List Lexeme) (h : ts.length < n) :
    Sound ts (ordering sub ts h) fun p ls =>
      ∃ u ls', ls = u :: ls' ∧ u.kind = .keyword .BY ∧ Derives d (.items (p.1 :: p.2)) ls' := by
  refine (expectKeyword_sound .BY ts).bind fun _ ls rest h₁ _ hu => ?_
  obtain ⟨u, rfl, hu⟩ := hu
  have hitems := commaList_sound (L := fun is ls => Derives d (.items is) ls) (orderItem_sound hsub)
    (fun _ _ hi => .itemsOne hi) fun _ _ _ _ _ hi ht hs => .itemsMore hi ht hs
  refine (hitems rest _).bind fun p ls rest h₂ _ hs => ?_
  exact .pure (a := p) ⟨u, ls, by simp, hu, hs⟩

theorem clause?_sound (k : Keyword) (ts : List Lexeme) (h : ts.length < n) :
    Sound ts (clause? sub k ts h) fun e ls => Derives d (.clause k e) ls := by
  unfold clause?
  obtain ⟨b, ls, rest, h₁, hts, hf, heq⟩ := acceptKeyword_eq k ts
  simp only [heq]
  refine .append hts ?_
  cases hf with
  | absent => exact .pure .noClause
  | present ht =>
    refine (hsub .loose rest _).bind fun e ls rest h₂ _ he => ?_
    exact .pure (by simpa using .clause ht he)

theorem groupClause_sound (ts : List Lexeme) (h : ts.length < n) :
    Sound ts (groupClause sub ts h) fun es ls => Derives d (.groupBy es) ls := by
  unfold groupClause
  obtain ⟨b, ls, rest, h₁, hts, hf, heq⟩ := acceptKeyword_eq .GROUP ts
  simp only [heq]
  refine .append hts ?_
  cases hf with
  | absent => exact .pure .noGroupBy
  | present ht =>
    refine (expectKeyword_sound .BY rest).bind fun _ ls rest h₂ _ hu => ?_
    obtain ⟨u, rfl, hu⟩ := hu
    refine (exprList_sound hsub rest _).bind fun p ls rest h₃ _ hs => ?_
    exact .pure (by simpa using .groupBy ht hu hs)

theorem orderClause_sound (ts : List Lexeme) (h : ts.length < n) :
    Sound ts (orderClause sub ts h) fun is ls => Derives d (.orderBy is) ls := by
  unfold orderClause
  obtain ⟨b, ls, rest, h₁, hts, hf, heq⟩ := acceptKeyword_eq .ORDER ts
  simp only [heq]
  refine .append hts ?_
  cases hf with
  | absent => exact .pure .noOrderBy
  | present ht =>
    refine (ordering_sound hsub rest _).bind fun p ls rest h₂ _ hs => ?_
    obtain ⟨u, ls, rfl, hu, hs⟩ := hs
    exact .pure (by simpa using .orderBy ht hu hs)

/-! ## row limits -/

theorem offsetClause_sound (ts : List Lexeme) (h : ts.length < n) :
    Sound ts (offsetClause sub ts h) fun e ls => Derives d (.offset e) ls := by
  refine (clause?_sound hsub .OFFSET ts h).bind fun e ls rest h₁ _ he => ?_
  cases he with
  | noClause => exact .pure .noOffset
  | clause ht he =>
    dsimp only
    obtain ⟨b, ls₂, rest₂, h₂, hts, hf, heq⟩ := acceptKeyword_eq .ROWS rest
    simp only [heq]
    refine .append hts ?_
    cases hf with
    | present hu => exact .pure (by simpa using Derives.offset ht he (.inr (.rows hu)))
    | absent =>
      obtain ⟨b, ls₃, rest₃, h₃, hts, hf, heq⟩ := acceptKeyword_eq .ROW rest₂
      simp only [heq]
      refine .append hts ?_
      cases hf with
      | present hu => exact .pure (by simpa using Derives.offset ht he (.inr (.row hu)))
      | absent => exact .pure (by simpa using Derives.offset ht he (.inl rfl))

omit hsub in
theorem fetchDirection_sound (ts : List Lexeme) :
    Sound ts (fetchDirection ts) fun direction ls => ∃ t, ls = [t] ∧ FetchWord direction t := by
  unfold fetchDirection
  split
  · exact .error
  · split
    case h_1 ht => exact .one ⟨_, rfl, .first ht⟩
    case h_2 ht => exact .one ⟨_, rfl, .next ht⟩
    case h_3 => exact .error

omit hsub in
theorem rowsWord_sound (ts : List Lexeme) : Sound ts (rowsWord ts) fun _ ls => RowsWord ls := by
  unfold rowsWord
  obtain ⟨b, ls, rest, h₁, hts, hf, heq⟩ := acceptKeyword_eq .ROWS ts
  simp only [heq]
  refine .append hts ?_
  cases hf with
  | present ht => exact .pure (.rows ht)
  | absent =>
    refine (expectKeyword_sound .ROW rest).bind fun _ ls rest h₂ _ ht => ?_
    obtain ⟨t, rfl, ht⟩ := ht
    exact .pure (.row ht)

/-- The count of a fetch is absent only where the word for rows comes. -/
theorem fetchCount_sound (ts : List Lexeme) (h : ts.length < n) :
    Sound ts (fetchCount sub ts h) fun e ls => Derives d (.fetchCount e) ls ∧
      (e = none → ls = [] ∧ (comes (.keyword .ROW) ts || comes (.keyword .ROWS) ts) = true) := by
  unfold fetchCount
  split
  case isTrue hc => exact .pure ⟨.noCount, fun _ => ⟨rfl, hc⟩⟩
  case isFalse hc =>
    refine (hsub .tight ts h).bind fun e ls rest h₁ hts he => ?_
    have hr : ∀ t ∈ ls.head?, t.kind ≠ .keyword .ROW ∧ t.kind ≠ .keyword .ROWS := by
      intro t ht
      obtain ⟨ls', rfl⟩ : ∃ ls', ls = t :: ls' := by
        cases ls with
        | nil => cases ht
        | cons u ls' => cases ht; exact ⟨ls', rfl⟩
      subst hts
      simpa [comes] using hc
    exact .pure (a := some e) ⟨by simpa using .fetchCount he hr, fun h => by cases h⟩

omit hsub in
/-- No percentage comes where the word for rows does. -/
theorem acceptKeyword_percent_of_rows {ts : List Lexeme}
    (h : (comes (.keyword .ROW) ts || comes (.keyword .ROWS) ts) = true) :
    (acceptKeyword .PERCENT ts).value = false := by
  cases ts with
  | nil => rfl
  | cons t ts =>
    have hne : t.kind ≠ .keyword .PERCENT := by
      intro ht
      simp [comes, ht] at h
    simp only [acceptKeyword, accept, if_neg hne]
    rfl

theorem fetch_sound (ts : List Lexeme) (h : ts.length < n) :
    Sound ts (fetch sub ts h) fun e ls =>
      ∀ t, t.kind = .keyword .FETCH → Derives d (.fetch (some e)) (t :: ls) := by
  refine (fetchDirection_sound ts).bind fun direction ls₀ ts₁ h₁ _ hd => ?_
  obtain ⟨u, rfl, hd⟩ := hd
  refine (fetchCount_sound hsub ts₁ _).bind fun count ls₁ ts₂ h₂ hts₁ hc => ?_
  obtain ⟨hc, hnone⟩ := hc
  obtain ⟨ls₂, hts, hp⟩ := acceptKeyword_flag .PERCENT ts₂
  have hcp (hn : count = none) : (acceptKeyword .PERCENT ts₂).value = false := by
    obtain ⟨rfl, hcomes⟩ := hnone hn
    rw [hts₁] at hcomes
    exact acceptKeyword_percent_of_rows hcomes
  dsimp only
  refine .append hts ((rowsWord_sound _).bind fun _ ls₃ ts₄ h₄ _ hr => ?_)
  obtain ⟨ls₄, hts, hw⟩ := acceptKeyword_flag .WITH ts₄
  dsimp only
  refine .append hts ((expectKeyword_sound _ _).bind fun _ ls₅ ts₆ h₆ _ hv => ?_)
  obtain ⟨v, rfl, hv⟩ := hv
  refine .pure fun t ht => ?_
  have he : FetchEnd (acceptKeyword .WITH ts₄).value (ls₄ ++ [v]) := by
    generalize (acceptKeyword .WITH ts₄).value = ties at hw hv
    cases hw with
    | absent => exact .only hv
    | present hu => exact .ties hu hv
  simpa using Derives.fetch ht hd hc hp hcp hr he

theorem fetchClause_sound (ts : List Lexeme) (h : ts.length < n) :
    Sound ts (fetchClause sub ts h) fun e ls => Derives d (.fetch e) ls := by
  unfold fetchClause
  obtain ⟨b, ls, rest, h₁, hts, hf, heq⟩ := acceptKeyword_eq .FETCH ts
  simp only [heq]
  refine .append hts ?_
  cases hf with
  | absent => exact .pure .noFetch
  | present ht =>
    refine (fetch_sound hsub rest _).bind fun e ls rest h₂ _ he => ?_
    exact .pure (by simpa using he _ ht)

omit hsub in
theorem acceptComma_sound (ts : List Lexeme) :
    ∃ b ls rest h, ts = ls ++ rest ∧ accept .comma ts = ⟨b, rest, h⟩ ∧
      ((b = false ∧ ls = []) ∨ (b = true ∧ ∃ t, ls = [t] ∧ t.kind = .comma)) := by
  cases ts with
  | nil => exact ⟨false, [], [], Front.lt_succ [], rfl, rfl, .inl ⟨rfl, rfl⟩⟩
  | cons t ts =>
    by_cases ht : t.kind = .comma
    · simp only [accept, if_pos ht]
      exact ⟨true, [t], ts, Nat.lt_succ_of_lt (Front.lt_cons t ts), rfl, rfl,
        .inr ⟨rfl, t, rfl, ht⟩⟩
    · simp only [accept, if_neg ht]
      exact ⟨false, [], t :: ts, Front.lt_succ _, rfl, rfl, .inl ⟨rfl, rfl⟩⟩

/-- What `LIMIT` gives: nothing, a limit, or an offset and a limit. -/
theorem limitClause_sound (ts : List Lexeme) (h : ts.length < n) :
    Sound ts (limitClause sub ts h) fun p ls => (p = (none, none) ∧ ls = []) ∨
      (∃ t count ls', p = (some (.limit count), none) ∧ ls = t :: ls' ∧
        t.kind = .keyword .LIMIT ∧ Derives d (.expr 8 count) ls') ∨
      (∃ count first, p = (some (.limit count), some first) ∧
        Derives d (.rowLimit (some (.limit count)) (some first)) ls) := by
  unfold limitClause
  obtain ⟨b, ls, rest, h₁, hts, hf, heq⟩ := acceptKeyword_eq .LIMIT ts
  simp only [heq]
  refine .append hts ?_
  cases hf with
  | absent => exact .pure (.inl ⟨rfl, rfl⟩)
  | present ht =>
    refine (hsub .loose rest _).bind fun e ls₁ ts₁ h₂ _ he => ?_
    obtain ⟨b, ls₂, ts₂, h₃, hts, heq, hc⟩ := acceptComma_sound ts₁
    simp only [heq]
    refine .append hts ?_
    rcases hc with ⟨rfl, rfl⟩ | ⟨rfl, u, rfl, hu⟩
    · exact .pure (.inr (.inl ⟨_, e, ls₁, rfl, by simp, ht, he⟩))
    · refine (hsub .loose ts₂ _).bind fun count ls₃ ts₃ h₄ _ hcount => ?_
      exact .pure (.inr (.inr ⟨count, e, rfl, by simpa using .limitPair ht he hu hcount⟩))

theorem rowLimit_sound (ts : List Lexeme) (h : ts.length < n) :
    Sound ts (rowLimit sub ts h) fun p ls => Derives d (.rowLimit p.1 p.2) ls := by
  refine (limitClause_sound hsub ts h).bind fun p ls₁ ts₁ h₁ _ hp => ?_
  rcases hp with ⟨rfl, rfl⟩ | ⟨t, count, ls, rfl, rfl, ht, hc⟩ | ⟨count, first, rfl, hp⟩
  · refine (offsetClause_sound hsub ts₁ _).bind fun o ls₂ ts₂ h₂ _ ho => ?_
    refine (fetchClause_sound hsub ts₂ _).bind fun f ls₃ ts₃ h₃ _ hf => ?_
    exact .pure (by simpa using .offsetFetch ho hf)
  · refine (offsetClause_sound hsub ts₁ _).bind fun o ls₂ ts₂ h₂ _ ho => ?_
    exact .pure (by simpa using .limit ht hc ho)
  · exact .pure (by simpa using hp)

/-! ## queries -/

theorem aliasedExpr_sound (ts : List Lexeme) (h : ts.length < n)
    (hs : ∀ t ∈ ts.head?, t.kind ≠ .star) :
    Sound ts (aliasedExpr sub ts h) fun e ls => Derives d (.projection e) ls := by
  refine (hsub .loose ts h).bind fun e ls₁ rest h₁ hts he => ?_
  have hs : ∀ t ∈ ls₁.head?, t.kind ≠ .star := by
    intro t ht
    cases ls₁ with
    | nil => cases ht
    | cons u ls => exact hs t (by rw [hts]; exact ht)
  refine (aliasName?_sound rest).bind fun name ls₂ rest₂ h₂ _ ha => ?_
  cases name with
  | none =>
    cases ha
    exact .pure (by simpa using .projection he hs)
  | some i => exact .pure (by simpa using .aliased he hs ha)

theorem projection_sound (ts : List Lexeme) (h : ts.length < n) :
    Sound ts (projection sub ts h) fun e ls => Derives d (.projection e) ls := by
  cases ts with
  | nil => exact aliasedExpr_sound hsub [] h (by simp)
  | cons t ts =>
    unfold projection
    by_cases ht : t.kind = .star
    · simp only [if_pos ht]
      exact .one (.allColumns ht)
    · simp only [if_neg ht]
      exact aliasedExpr_sound hsub (t :: ts) h (by simpa using ht)

omit hsub in
theorem sampleMethod_spec (ts : List Lexeme) :
    ∃ ls, ts = ls ++ (sampleMethod ts).rest ∧ MethodOf (sampleMethod ts).value ls := by
  cases ts with
  | nil => exact ⟨[], rfl, .none⟩
  | cons t ts =>
    unfold sampleMethod
    by_cases ht : t.kind = .word
    · simp only [if_pos ht]
      exact ⟨[t], rfl, .named ht⟩
    · simp only [if_neg ht]
      exact ⟨[], rfl, .none⟩

omit hsub in
theorem sampleUnit_spec (ts : List Lexeme) :
    ∃ ls, ts = ls ++ (sampleUnit ts).rest ∧ UnitOf (sampleUnit ts).value ls := by
  unfold sampleUnit
  obtain ⟨b, ls, rest, h₁, hts, hf, heq⟩ := acceptKeyword_eq .ROWS ts
  simp only [heq]
  cases hf with
  | present ht => exact ⟨_, hts, .rows ht⟩
  | absent =>
    obtain ⟨ls, hrest, hf⟩ := acceptKeyword_flag .PERCENT rest
    refine ⟨ls, hts.trans hrest, ?_⟩
    generalize (acceptKeyword .PERCENT rest).value = b at hf
    cases hf with
    | present ht => exact .percent ht
    | absent => exact .unsaid

theorem tableSource_sound (ts : List Lexeme) (h : ts.length < n) :
    Sound ts (tableSource sub ts h) fun e ls => Derives d (.table e) ls := by
  unfold tableSource
  refine (tableName_sound ts).bind fun p ls₁ ts₁ h₁ _ hn => ?_
  refine (aliasName?_sound ts₁).bind fun aliasName ls₂ ts₂ h₂ _ ha => ?_
  dsimp only
  unfold sampled
  obtain ⟨b, ls, rest, h₃, hts, hf, heq⟩ := acceptKeyword_eq .TABLESAMPLE ts₂
  simp only [heq]
  refine .append hts ?_
  cases hf with
  | absent => exact .pure (by simpa using .table hn ha)
  | present ht =>
    dsimp only
    obtain ⟨ls₃, hts₃, hm⟩ := sampleMethod_spec rest
    simp only [bind_assoc]
    refine .append hts₃ ((expect_sound _ _ _).bind fun _ ls ts₄ h₄ _ hu => ?_)
    obtain ⟨u, rfl, hu⟩ := hu
    refine (hsub .loose ts₄ _).bind fun size ls₄ ts₅ h₅ _ hs => ?_
    dsimp only
    obtain ⟨ls₅, hts₅, hr⟩ := sampleUnit_spec ts₅
    refine .append hts₅ ((expect_sound _ _ _).bind fun _ ls ts₆ h₆ _ hv => ?_)
    obtain ⟨v, rfl, hv⟩ := hv
    exact .pure (by simpa using Derives.tableSample hn ha ht hm hu hs hr hv)

theorem sourceClause_sound (ts : List Lexeme) (h : ts.length < n) :
    Sound ts (sourceClause sub ts h) fun e ls => Derives d (.source e) ls := by
  unfold sourceClause
  obtain ⟨b, ls, rest, h₁, hts, hf, heq⟩ := acceptKeyword_eq .FROM ts
  simp only [heq]
  refine .append hts ?_
  cases hf with
  | absent => exact .pure .noSource
  | present ht =>
    refine (tableSource_sound hsub rest _).bind fun e ls rest h₂ _ he => ?_
    exact .pure (by simpa using .source ht he)

theorem query_sound (ts : List Lexeme) (h : ts.length < n) :
    Sound ts (query sub ts h) fun q ls => Derives d (.query q) ls := by
  unfold query
  obtain ⟨ls₀, hts, hd⟩ := acceptKeyword_flag .DISTINCT ts
  dsimp only
  have hprojections := commaList_sound (L := fun es ls => Derives d (.projections es) ls)
    (projection_sound hsub) (fun _ _ he => .projectionsOne he)
    fun _ _ _ _ _ he ht hs => .projectionsMore he ht hs
  refine .append hts ?_
  refine (hprojections _ _).bind fun ps ls₁ ts₁ h₁ _ hp => ?_
  refine (sourceClause_sound hsub ts₁ _).bind fun source ls₂ ts₂ h₂ _ hs => ?_
  refine (clause?_sound hsub .WHERE ts₂ _).bind fun filter ls₃ ts₃ h₃ _ hw => ?_
  refine (groupClause_sound hsub ts₃ _).bind fun groupBy ls₄ ts₄ h₄ _ hg => ?_
  refine (clause?_sound hsub .HAVING ts₄ _).bind fun having ls₅ ts₅ h₅ _ hh => ?_
  refine (orderClause_sound hsub ts₅ _).bind fun orderBy ls₆ ts₆ h₆ _ ho => ?_
  refine (rowLimit_sound hsub ts₆ _).bind fun limits ls₇ ts₇ h₇ _ hl => ?_
  exact .pure (by simpa using Derives.query hd hp hs hw hg hh ho hl)

/-! ## operands -/

theorem separator?_sound (ts : List Lexeme) (h : ts.length < n) :
    Sound ts (separator? sub ts h) fun e ls => Derives d (.separator e) ls := by
  cases ts with
  | nil => exact .pure .noSeparator
  | cons t ts =>
    unfold separator?
    by_cases ht : t.kind = .word ∧ Text.sameWord t.text "SEPARATOR" = true
    · simp only [if_pos ht]
      refine .cons ((hsub .loose ts _).bind fun e ls rest h₁ _ he => ?_)
      exact .pure (a := some e) (by simpa using .separator ht.1 ht.2 he)
    · simp only [if_neg ht]
      exact .pure .noSeparator

/-- The arguments of a call with the closing parenthesis behind them. -/
theorem callArgs_sound (ts : List Lexeme) (h : ts.length < n) :
    Sound ts (callArgs sub ts h) fun es ls =>
      ∃ ls' v, ls = ls' ++ [v] ∧ Derives d (.args es) ls' ∧ v.kind = .rparen := by
  unfold callArgs
  split
  · refine (expect_sound _ _ ts).bind fun _ ls rest h₁ _ hv => ?_
    obtain ⟨v, rfl, hv⟩ := hv
    exact .pure ⟨[], v, rfl, .noArgs, hv⟩
  · obtain ⟨ls₀, hts, hd⟩ := acceptKeyword_flag .DISTINCT ts
    dsimp only
    generalize (acceptKeyword .DISTINCT ts).value = distinct at hd
    refine .append hts ((exprList_sound hsub _ _).bind fun p ls₁ ts₁ h₁ _ hs => ?_)
    -- both parts of the pair choose by the same flag
    have hpair : (if distinct = true then (Expr.distinct (p.1 :: p.2), []) else (p.1, p.2)) =
        (if distinct then .distinct (p.1 :: p.2) else p.1, if distinct then [] else p.2) := by
      cases distinct <;> rfl
    simp only [hpair]
    refine (orderClause_sound hsub ts₁ _).bind fun items ls₂ ts₂ h₂ _ ho => ?_
    refine (separator?_sound hsub ts₂ _).bind fun s ls₃ ts₃ h₃ _ hsep => ?_
    refine (expect_sound _ _ ts₃).bind fun _ ls₄ ts₄ h₄ _ hv => ?_
    obtain ⟨v, rfl, hv⟩ := hv
    exact .pure ⟨ls₀ ++ ls₁ ++ ls₂ ++ ls₃, v, by simp, .args hd hs ho hsep, hv⟩

omit hsub in
theorem columnOf_sound {t u : Lexeme} {i : Ident} (ht : identOf? t = some i) (hu : u.kind = .dot)
    (ts : List Lexeme) :
    Sound ts (columnOf i ts) fun e ls => Derives d (.expr 0 e) (t :: u :: ls) := by
  cases ts with
  | nil => exact .error
  | cons v ts =>
    unfold columnOf
    by_cases hv : v.kind = .star
    · simp only [if_pos hv]
      exact .one (.starOf ht hu hv)
    · simp only [if_neg hv]
      refine (ident_sound _ (v :: ts)).bind fun j ls rest h₁ _ hj => ?_
      obtain ⟨v, rfl, hv⟩ := hj
      exact .pure (.columnOf ht hu hv)

theorem columnOrCall_sound (ts : List Lexeme) (h : ts.length ≤ n) :
    Sound ts (columnOrCall d sub ts h) fun e ls => Derives d (.expr 0 e) ls := by
  refine (ident_sound _ ts).bind fun name ls rest h₁ _ hi => ?_
  obtain ⟨t, rfl, ht⟩ := hi
  cases rest with
  | nil => exact .pure (.column ht)
  | cons u rest =>
    dsimp only
    split
    case isTrue hu =>
      refine .cons ((callArgs_sound hsub rest _).bind fun es ls ts₁ h₂ _ hs => ?_)
      obtain ⟨ls, v, rfl, hs, hv⟩ := hs
      dsimp only
      cases he : d.call name.name es with
      | error => exact .error
      | ok e => exact .pure (a := e) (by simpa using .call ht hu.2 hu.1 hs hv he)
    case isFalse =>
      split
      case isTrue hu =>
        refine .cons ((columnOf_sound (d := d) ht hu rest).bind fun e ls ts₁ h₂ _ he => ?_)
        exact .pure (a := e) (by simpa using he)
      case isFalse => exact .pure (.column ht)

theorem whenBranches_sound (ts : List Lexeme) (h : ts.length < n) :
    Sound ts (whenBranches sub ts h) fun ws ls => Derives d (.whens ws) ls := by
  rw [whenBranches]
  obtain ⟨b, ls, rest, h₁, hts, hf, heq⟩ := acceptKeyword_eq .WHEN ts
  simp only [heq]
  refine .append hts ?_
  cases hf with
  | absent => exact .pure .noWhens
  | present ht =>
    refine (hsub .loose rest _).bind fun a ls₁ ts₁ h₂ _ ha => ?_
    refine (expectKeyword_sound .THEN ts₁).bind fun _ ls ts₂ h₃ _ hu => ?_
    obtain ⟨u, rfl, hu⟩ := hu
    refine (hsub .loose ts₂ _).bind fun b ls₂ ts₃ h₄ _ hb => ?_
    have hlt : ts₃.length < ts.length := by omega
    refine (whenBranches_sound ts₃ _).bind fun ws ls₃ ts₄ h₅ _ hw => ?_
    exact .pure (by simpa using Derives.whens ht ha hu hb hw)
termination_by ts.length

theorem caseExpr_sound (ts : List Lexeme) (h : ts.length < n) :
    Sound ts (caseExpr sub ts h) fun e ls =>
      ∀ t, t.kind = .keyword .CASE → Derives d (.expr 0 e) (t :: ls) := by
  have hoperand : Sound ts (caseOperand sub ts h) fun e ls => Derives d (.caseOperand e) ls := by
    unfold caseOperand
    split
    · exact .pure .noCaseOperand
    · refine (hsub .loose ts h).bind fun e ls rest h₁ _ he => ?_
      exact .pure (a := some e) (by simpa using .caseOperand he)
  refine hoperand.bind fun operand ls₁ ts₁ h₁ _ ho => ?_
  refine (whenBranches_sound hsub ts₁ _).bind fun ws ls₂ ts₂ h₂ _ hw => ?_
  dsimp only
  split
  · exact .error
  case isFalse hne =>
    refine (clause?_sound hsub .ELSE ts₂ _).bind fun otherwise ls₃ ts₃ h₃ _ hb => ?_
    refine (expectKeyword_sound .END ts₃).bind fun _ ls ts₄ h₄ _ hu => ?_
    obtain ⟨u, rfl, hu⟩ := hu
    have hne : ws ≠ [] := by simpa using hne
    exact .pure fun t ht => by simpa using Derives.caseWhen ht ho hw hne hb hu

theorem castParts_sound (ts : List Lexeme) (h : ts.length < n) :
    Sound ts (castParts sub ts h) fun p ls => ∀ t k make, t.kind = .keyword k →
      castOf? k = some make → Derives d (.expr 0 (make p.1 p.2)) (t :: ls) := by
  refine (expect_sound _ _ ts).bind fun _ ls ts₁ h₁ _ hu => ?_
  obtain ⟨u, rfl, hu⟩ := hu
  refine (hsub .loose ts₁ _).bind fun e ls₁ ts₂ h₂ _ he => ?_
  refine (expectKeyword_sound .AS ts₂).bind fun _ ls ts₃ h₃ _ hv => ?_
  obtain ⟨v, rfl, hv⟩ := hv
  refine (dataType_sound ts₃).bind fun type ls₂ ts₄ h₄ _ hT => ?_
  refine (expect_sound _ _ ts₄).bind fun _ ls ts₅ h₅ _ hw => ?_
  obtain ⟨w, rfl, hw⟩ := hw
  exact .pure fun t k make ht hk => by simpa using Derives.cast ht hk hu he hv hT hw

theorem queryOrExpr_sound (ts : List Lexeme) (h : ts.length < n) :
    Sound ts (queryOrExpr sub ts h) fun e ls => Derives d (.expr 8 e) ls ∨
      ∃ u q ls', e = .select q ∧ ls = u :: ls' ∧ u.kind = .keyword .SELECT ∧
        Derives d (.query q) ls' := by
  unfold queryOrExpr
  obtain ⟨b, ls, rest, h₁, hts, hf, heq⟩ := acceptKeyword_eq .SELECT ts
  simp only [heq]
  cases hf with
  | present hu =>
    refine .append hts ((query_sound hsub rest _).bind fun q ls ts₁ h₂ _ hq => ?_)
    exact .pure (.inr ⟨_, q, ls, rfl, by simp, hu, hq⟩)
  | absent => exact (hsub .loose ts h).mono fun e ls he => .inl he

theorem parenthesized_sound (ts : List Lexeme) (h : ts.length < n) :
    Sound ts (parenthesized sub ts h) fun e ls =>
      ∀ t, t.kind = .lparen → Derives d (.expr 0 e) (t :: ls) := by
  refine (queryOrExpr_sound hsub ts h).bind fun e ls ts₁ h₁ _ he => ?_
  refine (expect_sound _ _ ts₁).bind fun _ ls ts₂ h₂ _ hv => ?_
  obtain ⟨v, rfl, hv⟩ := hv
  refine .pure fun t ht => ?_
  rcases he with he | ⟨u, q, ls, rfl, rfl, hu, hq⟩
  · simpa using Derives.paren ht he hv
  · simpa using Derives.subquery ht hu hq hv

theorem primary_sound (ts : List Lexeme) (h : ts.length ≤ n) :
    Sound ts (primary d sub ts h) fun e ls => Derives d (.expr 0 e) ls := by
  cases ts with
  | nil => exact .error
  | cons t ts =>
    have hliteral (v : Literal) (hv : literalOf? t = some v) :
        Sound (t :: ts) (.ok (.step (.literal v) t ts)) fun e ls => Derives d (.expr 0 e) ls :=
      .one (.literal hv)
    unfold primary
    dsimp only
    split
    case h_1 ht =>
      cases hn : numberOf t with
      | error => exact .error
      | ok v => exact hliteral v (by simp [literalOf?, ht, hn, Except.toOption])
    case h_2 ht => exact hliteral _ (by simp [literalOf?, ht])
    case h_3 ht => exact hliteral _ (by simp [literalOf?, ht])
    case h_4 ht => exact hliteral _ (by simp [literalOf?, ht])
    case h_5 ht => exact hliteral _ (by simp [literalOf?, ht])
    case h_6 ht => exact hliteral _ (by simp [literalOf?, ht])
    case h_7 ht => exact hliteral _ (by simp [literalOf?, ht])
    case h_8 ht => exact .one (.star ht)
    case h_9 ht =>
      refine .cons ((caseExpr_sound hsub ts _).bind fun e ls rest h₁ _ he => ?_)
      exact .pure (a := e) (by simpa using he t ht)
    case h_10 ht =>
      refine .cons ((castParts_sound hsub ts _).bind fun p ls rest h₁ _ hp => ?_)
      exact .pure (a := Expr.cast p.1 p.2) (by simpa using hp t _ .cast ht rfl)
    case h_11 ht =>
      refine .cons ((castParts_sound hsub ts _).bind fun p ls rest h₁ _ hp => ?_)
      exact .pure (a := Expr.tryCast p.1 p.2) (by simpa using hp t _ .tryCast ht rfl)
    case h_12 ht =>
      refine .cons ((parenthesized_sound hsub ts _).bind fun e ls rest h₁ _ he => ?_)
      exact .pure (a := e) (by simpa using he t ht)
    case h_13 => exact columnOrCall_sound hsub (t :: ts) h

/-! ## levels of precedence -/

theorem signed_sound (ts : List Lexeme) (h : ts.length ≤ n) :
    Sound ts (signed d sub ts h) fun e ls => Derives d (.expr 1 e) ls := by
  induction ts with
  | nil => exact (primary_sound hsub [] h).mono fun e ls he => .lift he (by decide)
  | cons t ts ih =>
    unfold signed
    by_cases ht : t.kind = .minus
    · simp only [if_pos ht]
      refine .cons ((ih _).bind fun e ls rest h₁ _ he => ?_)
      exact .pure (a := Expr.unaryOp .minus e) (by simpa using Derives.minus ht he)
    · simp only [if_neg ht]
      exact (primary_sound hsub (t :: ts) h).mono fun e ls he => .lift he (by decide)

theorem joined_sound (ts : List Lexeme) (h : ts.length ≤ n) :
    Sound ts (joined d sub ts h) fun e ls => Derives d (.expr 2 e) ls :=
  leftAssoc_sound (signed_sound hsub) (fun _ _ he => .lift he (by decide))
    (fun _ _ _ _ _ _ ha ht hb => .binary (k := 1) ha ht hb) ts h

theorem product_sound (ts : List Lexeme) (h : ts.length ≤ n) :
    Sound ts (product d sub ts h) fun e ls => Derives d (.expr 3 e) ls :=
  leftAssoc_sound (joined_sound hsub) (fun _ _ he => .lift he (by decide))
    (fun _ _ _ _ _ _ ha ht hb => .binary (k := 2) ha ht hb) ts h

theorem sum_sound (ts : List Lexeme) (h : ts.length ≤ n) :
    Sound ts (sum d sub ts h) fun e ls => Derives d (.expr 4 e) ls :=
  leftAssoc_sound (product_sound hsub) (fun _ _ he => .lift he (by decide))
    (fun _ _ _ _ _ _ ha ht hb => .binary (k := 3) ha ht hb) ts h

theorem predicate_sound {t : Lexeme} {p : Predicate} {negated : Bool} {left : Expr}
    {ns : List Lexeme} (hn : Flag .NOT negated ns) (ht : predicate? t.kind = some p)
    (ts : List Lexeme) (h : ts.length < n) :
    Sound ts (predicate d sub p negated left ts h) fun e ls =>
      Derives d (.test left e) (ns ++ t :: ls) := by
  have hkind : t.kind = .keyword (match p with
      | .like => .LIKE
      | .ilike => .ILIKE
      | .between => .BETWEEN
      | .inList => .IN) := by
    unfold predicate? at ht
    split at ht <;> cases ht <;> assumption
  unfold predicate
  cases p with
  | like =>
    refine (sum_sound hsub ts _).bind fun b ls rest h₁ _ hb => ?_
    exact .pure (a := Expr.like negated left b) (by simpa using Derives.like hn hkind hb)
  | ilike =>
    refine (sum_sound hsub ts _).bind fun b ls rest h₁ _ hb => ?_
    exact .pure (a := Expr.ilike negated left b) (by simpa using Derives.ilike hn hkind hb)
  | between =>
    refine (sum_sound hsub ts _).bind fun low ls₁ ts₁ h₁ _ hl => ?_
    refine (expectKeyword_sound .AND ts₁).bind fun _ ls ts₂ h₂ _ hu => ?_
    obtain ⟨u, rfl, hu⟩ := hu
    refine (sum_sound hsub ts₂ _).bind fun high ls₂ ts₃ h₃ _ hh => ?_
    exact .pure (by simpa using Derives.between hn hkind hl hu hh)
  | inList =>
    refine (expect_sound _ _ ts).bind fun _ ls ts₁ h₁ _ hu => ?_
    obtain ⟨u, rfl, hu⟩ := hu
    refine (exprList_sound hsub ts₁ _).bind fun p ls ts₂ h₂ _ hs => ?_
    refine (expect_sound _ _ ts₂).bind fun _ ls ts₃ h₃ _ hv => ?_
    obtain ⟨v, rfl, hv⟩ := hv
    exact .pure (by simpa using Derives.inList hn hkind hu hs hv)

omit hsub in
theorem nullTest_sound {t : Lexeme} {left : Expr} (ht : t.kind = .keyword .IS) (ts : List Lexeme) :
    Sound ts (nullTest left ts) fun e ls => Derives d (.test left e) (t :: ls) := by
  unfold nullTest
  obtain ⟨ns, hts, hn⟩ := acceptKeyword_flag .NOT ts
  dsimp only
  refine .append hts ((expectKeyword_sound .NULL _).bind fun _ ls rest h₁ _ hu => ?_)
  obtain ⟨u, rfl, hu⟩ := hu
  exact .pure (by simpa using Derives.isNull ht hn hu)

theorem test?_sound (left : Expr) (t : Lexeme) (ts : List Lexeme) (h : ts.length < n) :
    ∀ x, test? d sub left t ts h = some x →
      Sound ts x fun e ls => Derives d (.test left e) (t :: ls) := by
  unfold test?
  split
  case h_1 op hop =>
    intro x hx
    obtain rfl := Option.some.inj hx
    refine (sum_sound hsub ts _).bind fun b ls rest h₁ _ hb => ?_
    exact .pure (a := Expr.binaryOp op left b) (by simpa using Derives.compare hop hb)
  case h_2 =>
    split
    case h_1 p hp =>
      intro x hx
      obtain rfl := Option.some.inj hx
      exact (predicate_sound hsub .absent hp ts h).mono fun e ls he => he
    case h_2 =>
      generalize hk : t.kind = kind
      split
      case h_1 =>
        intro x hx
        obtain rfl := Option.some.inj hx
        exact nullTest_sound hk _
      case h_2 u us hlt =>
        intro x hx
        obtain ⟨p, hp, rfl⟩ := Option.map_eq_some_iff.1 hx
        refine .cons ((predicate_sound hsub (.present hk) hp us _).bind fun e ls rest h₁ _ he => ?_)
        exact .pure (a := e) (by simpa using he)
      case h_3 => intro x hx; cases hx

theorem tests_sound (left : Expr) (ls : List Lexeme) (hleft : Derives d (.expr 5 left) ls)
    (ts : List Lexeme) (h : ts.length ≤ n) :
    Sound ts (tests d sub left ts h) fun e ls' => Derives d (.expr 5 e) (ls ++ ls') := by
  cases ts with
  | nil =>
    rw [tests]
    exact .pure (by simpa using hleft)
  | cons t ts =>
    rw [tests]
    split
    · exact .pure (by simpa using hleft)
    case h_2 x hx =>
      refine .cons ((test?_sound hsub left t ts _ x hx).bind fun e ls₁ rest h₁ _ he => ?_)
      have hlt : rest.length < (t :: ts).length := Nat.lt_succ_of_lt h₁
      refine (tests_sound e _ (.tested hleft he) rest _).bind fun f ls₂ rest₂ h₂ _ hf => ?_
      exact .pure (a := f) (by simpa using hf)
termination_by ts.length

theorem comparison_sound (ts : List Lexeme) (h : ts.length ≤ n) :
    Sound ts (comparison d sub ts h) fun e ls => Derives d (.expr 5 e) ls := by
  refine (sum_sound hsub ts h).bind fun a ls rest h₁ _ ha => ?_
  refine (tests_sound hsub a ls (.lift ha (by decide)) rest _).bind fun e ls₁ rest₁ h₂ _ he => ?_
  exact .pure (a := e) (by simpa using he)

theorem negation_sound (ts : List Lexeme) (h : ts.length ≤ n) :
    Sound ts (negation d sub ts h) fun e ls => Derives d (.expr 6 e) ls := by
  induction ts with
  | nil => exact (comparison_sound hsub [] h).mono fun e ls he => .lift he (by decide)
  | cons t ts ih =>
    unfold negation
    by_cases ht : t.kind = .keyword .NOT
    · simp only [if_pos ht]
      refine .cons ((ih _).bind fun e ls rest h₁ _ he => ?_)
      exact .pure (a := Expr.unaryOp .not e) (by simpa using Derives.not ht he)
    · simp only [if_neg ht]
      exact (comparison_sound hsub (t :: ts) h).mono fun e ls he => .lift he (by decide)

theorem conjunction_sound (ts : List Lexeme) (h : ts.length ≤ n) :
    Sound ts (conjunction d sub ts h) fun e ls => Derives d (.expr 7 e) ls :=
  leftAssoc_sound (negation_sound hsub) (fun _ _ he => .lift he (by decide))
    (fun _ _ _ _ _ _ ha ht hb => .binary (k := 6) ha ht hb) ts h

theorem disjunction_sound (ts : List Lexeme) (h : ts.length ≤ n) :
    Sound ts (disjunction d sub ts h) fun e ls => Derives d (.expr 8 e) ls :=
  leftAssoc_sound (conjunction_sound hsub) (fun _ _ he => .lift he (by decide))
    (fun _ _ _ _ _ _ ha ht hb => .binary (k := 7) ha ht hb) ts h

end

/-- Whatever expression is read is spelled by the lexemes it takes. -/
theorem expression_sound (d : Dialect) (level : Level) (ts : List Lexeme) :
    Sound ts (expression d level ts) fun e ls => Derives d (.expr level.number e) ls := by
  have hsub : SoundBelow d (n := ts.length) fun level ts _ => expression d level ts :=
    fun level us _ => expression_sound d level us
  cases level with
  | loose => rw [expression]; exact disjunction_sound hsub ts _
  | tight => rw [expression]; exact signed_sound hsub ts _
termination_by ts.length

theorem within_sound (d : Dialect) (n : Nat) : SoundBelow d (within d n) :=
  fun level ts _ => expression_sound d level ts

end SqlDialect.Grammar
