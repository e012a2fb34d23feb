import SqlDialect.Proofs.Grammar.Follow
import SqlDialect.Proofs.Rendering.Readable

/-!
# SqlDialect.Proofs.Rendering.Operator

The texts of operators, predicates and parentheses.

* `ReadAs.behind`, `ReadAs.first` -- how the text of a node starts.
* `shown_binaryOp`, `shown_minus`, `shown_between`, … -- one lemma for each
  kind of node.
-/

namespace SqlDialect

open Text Grammar

variable {b : Builtin} {i : Bool} {e e' a a' : Expr} {ls ls' : List Lexeme}

/-! ## how a text starts -/

/-- A node whose text starts with that of an operand. -/
theorem ReadAs.behind (ha : ReadAs b a a' ls)
    (hd : Derives b.dialect (.expr (e.tier b) e') (ls ++ ls'))
    (hs : a.starred b = true → e.starred b = true) (ht : 2 ≤ e.tier b) :
    ReadAs b e e' (ls ++ ls') := by
  obtain ⟨t, us, rfl, -⟩ := ha.derives.leads _ rfl
  refine ⟨hd, fun u hu hk => hs (ha.star u ?_ hk), fun h => absurd h (by omega)⟩
  cases hu
  rfl

/-- A node whose text starts with a lexeme that is neither a star nor a word
for rows. -/
theorem ReadAs.first {t : Lexeme} (hd : Derives b.dialect (.expr (e.tier b) e') (t :: ls))
    (ht : t.kind ∉ [.star, .keyword .ROW, .keyword .ROWS]) : ReadAs b e e' (t :: ls) := by
  simp only [List.mem_cons, List.not_mem_nil, or_false, not_or] at ht
  refine ⟨hd, fun u hu hk => ?_, fun _ _ u hu => ?_⟩
  · cases hu
    exact absurd hk ht.1
  · cases hu
    exact ⟨ht.2.1, ht.2.2⟩

theorem Undashed.append {cs ds : List Char} (h : Undashed cs) : Undashed (cs ++ ds) := by
  obtain ⟨c, cs, rfl, hc⟩ := h
  exact ⟨c, cs ++ ds, rfl, hc⟩

/-- The first piece decides how a text starts. -/
theorem undashed_cons {d : Dialect} {t : Token} {ts : List Token}
    (h : Undashed (t.text d).toList) : Undashed (d.spell (t :: ts)).toList := by
  rw [toList_spell_cons]
  exact h.append

theorem undashed_lparen {d : Dialect} {ts : List Token} :
    Undashed (d.spell (.lparen :: ts)).toList := by
  refine undashed_cons ?_
  rw [toList_text_lparen]
  exact ⟨_, _, rfl, by decide, by decide⟩

/-- A word starts with a letter or an underscore. -/
theorem undashed_word {s : String} (h : isWord s = true) : Undashed s.toList := by
  unfold isWord at h
  split at h
  case h_1 => cases h
  case h_2 c cs hcs =>
    rw [Bool.and_eq_true] at h
    refine ⟨c, cs, hcs, ne_of_startsWord h.1 (by decide), ?_⟩
    rintro rfl
    exact absurd h.1 (Bool.eq_false_iff.1 (not_continuesWord (by decide)).1)

theorem undashed_keyword {k : Keyword} {ts : List Token} :
    Undashed (b.dialect.spell (.keyword k :: ts)).toList :=
  undashed_cons (undashed_word (isWord_spelling b k))

/-! ## binary operators -/

/-- An operator between operands, at its level. -/
theorem Grammar.Derives.operator {d : Dialect} {op : BinaryOperator} {t : Lexeme} {c : Expr}
    {ls₁ ls₂ : List Lexeme} (ha : Derives d (.expr op.level a) ls₁)
    (ht : t.kind = operatorKind op) (hc : Derives d (.expr (op.level - 1) c) ls₂) :
    Derives d (.expr op.level (.binaryOp op a c)) (ls₁ ++ t :: ls₂) := by
  cases op with
  | eq | ne | lt | gt | lte | gte => exact .tested ha (.compare (by rw [ht]; rfl) hc)
  | and | or | plus | minus | mul | div | mod | concat =>
    exact .binary ha (by rw [ht]; rfl) hc

theorem tokensOf_binaryOp (op : BinaryOperator) (l r : Expr) :
    tokensOf b i (.binaryOp op l r) =
      tokensOf b i l ++ .space :: Style.operator op :: .space :: tokensOf b i r := by
  rw [tokensOf_base (by cases b <;> rfl)]
  simp [Style.base, tokensOf, Fragment.ofTokens]

theorem shown_binaryOp {op : BinaryOperator} {l r : Expr} (hl : Shown b i l) (hr : Shown b i r)
    (hc : Clear b (.binaryOp op l r)) : Shown b i (.binaryOp op l r) := by
  obtain ⟨⟨l', hl, hfl⟩, -⟩ := hl
  obtain ⟨⟨r', hr, hfr⟩, -⟩ := hr
  have hslots : l.tier b ≤ op.level ∧ r.tier b ≤ op.level - 1 := by
    have := hc.1
    cases b <;> simpa [Expr.slots, Expr.places] using this
  have hlevel := op.level_bounds
  have htier : (Expr.binaryOp op l r).tier b = op.level := by cases b <;> rfl
  refine ⟨⟨.binaryOp op l' r', ?_, fun hf => ?_⟩, fun h => absurd h (by omega)⟩
  · rw [tokensOf_binaryOp]
    refine hl.append (by simp) fun ls₁ h₁ => ?_
    refine .space (.operator op fun t ht => ?_)
    refine hr.imp fun ls₂ h₂ => h₁.behind ?_ (by cases b <;> exact id) (by omega)
    rw [htier]
    exact .operator (h₁.derives.raise hslots.1 hlevel.2) ht
      (h₂.derives.raise hslots.2 (by omega))
  · rw [Expr.settled_eq, hfl (hf.child (by simp [Expr.children])),
      hfr (hf.child (by simp [Expr.children]))]
    cases b <;> rfl

/-! ## operators in front -/

theorem tokensOf_not (a : Expr) :
    tokensOf b i (.unaryOp .not a) = .keyword .NOT :: .space :: tokensOf b i a := by
  rw [tokensOf_base (by cases b <;> rfl)]
  rfl

theorem shown_not (ha : Shown b i a) (hc : Clear b (.unaryOp .not a)) :
    Shown b i (.unaryOp .not a) := by
  obtain ⟨⟨a', ha, hfa⟩, -⟩ := ha
  have hslot : a.tier b ≤ 6 := by
    have := hc.1
    cases b <;> simpa [Expr.slots, Expr.places] using this
  have htier : (Expr.unaryOp .not a).tier b = 6 := by cases b <;> rfl
  refine ⟨⟨.unaryOp .not a', ?_, fun hf => ?_⟩, fun h => absurd h (by omega)⟩
  · rw [tokensOf_not]
    refine .spacedKeyword fun t ht => ?_
    refine ha.imp fun ls h => .first ?_ (by simp [ht])
    rw [htier]
    exact .not ht (h.derives.raise hslot (by decide))
  · rw [Expr.settled_eq, hfa (hf.child (by simp [Expr.children]))]
    cases b <;> rfl

theorem tokensOf_minus (a : Expr) :
    tokensOf b i (.unaryOp .minus a) = .raw "-" :: tokensOf b i a := by
  rw [tokensOf_base (by cases b <;> rfl)]
  rfl

theorem toList_text_minus (d : Dialect) : ((Token.raw "-").text d).toList = ['-'] := by
  simp [Token.text]

/-- A minus sign in front of a text that does not fuse with it. -/
theorem Written.minus {us : List Token} {Q : List Lexeme → Prop}
    (hu : Undashed (b.dialect.spell us).toList)
    (hk : ∀ t : Lexeme, t.kind = .minus → Written b us fun ls => Q (t :: ls)) :
    Written b (.raw "-" :: us) Q := by
  refine .one (F := fun rest => rest.head? ≠ some '-' ∧ rest.head? ≠ some '>') "-" ?_
    (fun rest _ => ?_) fun t ht _ => hk t ht
  · rw [toList_text_minus]
    exact scans_minus fun _ hr => hr
  · obtain ⟨c, ds, hcs, hdash, harrow⟩ := hu
    rw [hcs]
    exact ⟨fun h => hdash (Option.some.inj h), fun h => harrow (Option.some.inj h)⟩

theorem shown_minus (ha : Shown b i a) (hc : Clear b (.unaryOp .minus a)) :
    Shown b i (.unaryOp .minus a) := by
  obtain ⟨⟨a', ha, hfa⟩, hstart⟩ := ha
  have hslot : a.tier b ≤ 1 := by
    have := hc.1
    cases b <;> simpa [Expr.slots, Expr.places] using this
  have htier : (Expr.unaryOp .minus a).tier b = 1 := by cases b <;> rfl
  refine ⟨⟨.unaryOp .minus a', ?_, fun hf => ?_⟩, fun _ h => ?_⟩
  · rw [tokensOf_minus]
    refine .minus (hstart hslot hc.2) fun t ht => ?_
    refine ha.imp fun ls h => .first ?_ (by simp [ht])
    rw [htier]
    exact .minus ht (h.derives.raise hslot (by decide))
  · rw [Expr.settled_eq, hfa (hf.child (by simp [Expr.children]))]
    cases b <;> rfl
  · cases b <;> cases h

/-! ## predicates -/

/-- The pieces of a negation. -/
def negationTokens (negated : Bool) : List Token :=
  if negated then [.keyword .NOT, .space] else []

theorem tokens_negation (negated : Bool) :
    (Style.negation negated).tokens = negationTokens negated := by
  cases negated <;> rfl

theorem Written.negation {negated : Bool} {us : List Token} {Q : List Lexeme → Prop}
    (hk : ∀ ns, Flag .NOT negated ns → Written b us fun ls => Q (ns ++ ls)) :
    Written b (negationTokens negated ++ us) Q := by
  cases negated with
  | true => exact .spacedKeyword fun t ht => hk [t] (.present ht)
  | false => exact hk [] .absent

/-- A text behind an operand that tests it. -/
theorem shown_test {f : Expr → Expr} {us : List Token} (ha : Shown b i a) (hslot : a.tier b ≤ 5)
    (he : e.tier b = 5) (hs : e.starred b = a.starred b)
    (htokens : tokensOf b i e = tokensOf b i a ++ .space :: us)
    (hus : ∀ a', Written b us fun ls => Derives b.dialect (.test a' (f a')) ls)
    (hf : e.All (Faithful b) → a.All (Faithful b) ∧ f (a.settled b i) = e.settled b i) :
    Shown b i e := by
  obtain ⟨⟨a', ha, hfa⟩, -⟩ := ha
  refine ⟨⟨f a', ?_, fun h => ?_⟩, fun h => absurd h (by omega)⟩
  · rw [htokens]
    refine ha.append (by simp) fun ls₁ h₁ => ?_
    refine .space ((hus a').imp fun ls₂ h₂ => ?_)
    refine h₁.behind ?_ (by rw [hs]; exact id) (by omega)
    rw [he]
    exact .tested (h₁.derives.raise hslot (by decide)) h₂
  · obtain ⟨hall, heq⟩ := hf h
    rw [hfa hall, heq]

theorem tokensOf_like (negated : Bool) (a p : Expr) :
    tokensOf b i (.like negated a p) =
      tokensOf b i a ++ .space ::
        (negationTokens negated ++ .keyword .LIKE :: .space :: tokensOf b i p) := by
  rw [tokensOf_base (by cases b <;> rfl)]
  simp [Style.base, Style.predicate, tokensOf, Fragment.ofTokens, tokens_negation]

theorem shown_like {negated : Bool} {p : Expr} (ha : Shown b i a) (hp : Shown b i p)
    (hc : Clear b (.like negated a p)) : Shown b i (.like negated a p) := by
  obtain ⟨⟨p', hp, hfp⟩, -⟩ := hp
  have hslots : a.tier b ≤ 5 ∧ p.tier b ≤ 4 := by
    have := hc.1
    cases b <;> simpa [Expr.slots, Expr.places] using this
  refine shown_test (f := fun a' => .like negated a' p') ha hslots.1 (by cases b <;> rfl)
    (by cases b <;> rfl) (tokensOf_like negated a p) (fun a' => ?_) fun hf => ?_
  · refine .negation fun ns hn => ?_
    refine .spacedKeyword fun t ht => ?_
    exact hp.imp fun ls h => .like hn ht (h.derives.raise hslots.2 (by decide))
  · refine ⟨hf.child (by simp [Expr.children]), ?_⟩
    rw [Expr.settled_eq _ _ (.like ..), hfp (hf.child (by simp [Expr.children]))]
    cases b <;> rfl

theorem tokensOf_isNull (negated : Bool) (a : Expr) :
    tokensOf b i (.isNull negated a) =
      tokensOf b i a ++ .space ::
        .keyword .IS :: .space :: (negationTokens negated ++ [.keyword .NULL]) := by
  rw [tokensOf_base (by cases b <;> rfl)]
  simp [Style.base, tokensOf, Fragment.ofTokens, tokens_negation, Fragment.keyword]

theorem shown_isNull {negated : Bool} (ha : Shown b i a) (hc : Clear b (.isNull negated a)) :
    Shown b i (.isNull negated a) := by
  have hslot : a.tier b ≤ 5 := by
    have := hc.1
    cases b <;> simpa [Expr.slots, Expr.places] using this
  refine shown_test (f := fun a' => .isNull negated a') ha hslot (by cases b <;> rfl)
    (by cases b <;> rfl) (tokensOf_isNull negated a) (fun a' => ?_) fun hf => ?_
  · refine .spacedKeyword fun t ht => ?_
    refine .negation fun ns hn => ?_
    exact .keyword (by simp) fun u hu => .nil (.isNull ht hn hu)
  · refine ⟨hf.child (by simp [Expr.children]), ?_⟩
    rw [Expr.settled_eq _ _ (.isNull ..)]
    cases b <;> rfl

theorem tokensOf_between (negated : Bool) (a low high : Expr) :
    tokensOf b i (.between negated a low high) =
      tokensOf b i a ++ .space :: (negationTokens negated ++ .keyword .BETWEEN :: .space ::
        (tokensOf b i low ++ .space :: .keyword .AND :: .space :: tokensOf b i high)) := by
  rw [tokensOf_base (by cases b <;> rfl)]
  simp [Style.base, Style.predicate, tokensOf, Fragment.ofTokens, tokens_negation]

theorem shown_between {negated : Bool} {low high : Expr} (ha : Shown b i a)
    (hl : Shown b i low) (hh : Shown b i high) (hc : Clear b (.between negated a low high)) :
    Shown b i (.between negated a low high) := by
  obtain ⟨⟨low', hl, hfl⟩, -⟩ := hl
  obtain ⟨⟨high', hh, hfh⟩, -⟩ := hh
  have hslots : a.tier b ≤ 5 ∧ low.tier b ≤ 4 ∧ high.tier b ≤ 4 := by
    have := hc.1
    cases b <;> simpa [Expr.slots, Expr.places] using this
  refine shown_test (f := fun a' => .between negated a' low' high') ha hslots.1
    (by cases b <;> rfl) (by cases b <;> rfl) (tokensOf_between negated a low high)
    (fun a' => ?_) fun hf => ?_
  · refine .negation fun ns hn => ?_
    refine .spacedKeyword fun t ht => ?_
    refine hl.append (by simp) fun ls₁ h₁ => ?_
    refine .space (.spacedKeyword fun u hu => ?_)
    refine hh.imp fun ls₂ h₂ => ?_
    have htest := Derives.between (a := a') hn ht (h₁.derives.raise hslots.2.1 (by decide)) hu
      (h₂.derives.raise hslots.2.2 (by decide))
    simpa using htest
  · refine ⟨hf.child (by simp [Expr.children]), ?_⟩
    rw [Expr.settled_eq _ _ (.between ..), hfl (hf.child (by simp [Expr.children])),
      hfh (hf.child (by simp [Expr.children]))]
    cases b <;> rfl

end SqlDialect
