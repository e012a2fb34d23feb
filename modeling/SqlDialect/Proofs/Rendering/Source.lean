import SqlDialect.Proofs.Rendering.Compound
import SqlDialect.Proofs.Rendering.Primary

/-!
# SqlDialect.Proofs.Rendering.Source

The texts of the tables and projections of a query.

* `source_written` -- a table, perhaps sampled.
* `projections_written` -- what a query projects.
-/

namespace SqlDialect

open Text Grammar

variable {b : Builtin} {i : Bool} {us : List Token} {Q : List Lexeme → Prop}

/-! ## tables -/

/-- The pieces of a name behind another one and a point, or alone. -/
def nameTokens (i : Bool) (s : Option Ident) (n : Ident) : List Token :=
  (s.elim [] fun s => [.raw (identText i s), .raw "."]) ++ [.raw (identText i n)]

/-- The pieces of an alias, if there is one. -/
def aliasTokens (i : Bool) (x : Option Ident) : List Token :=
  x.elim [] fun x => [.space, .keyword .AS, .space, .raw (identText i x)]

theorem Written.name {s : Option Ident} {n : Ident} (hs : ∀ x ∈ s, Named x) (hn : Named n)
    (hu : Splits us) (hk : ∀ ls, NameOf (s.map (Ident.marked i)) (n.marked i) ls →
      Written b us fun ls' => Q (ls ++ ls')) : Written b (nameTokens i s n ++ us) Q := by
  cases s with
  | none => exact .ident hn hu fun t ht => hk [t] (.plain ht.1)
  | some s =>
    exact .dotted (hs s rfl) hn hu fun t u v ht hu' hv => hk [t, u, v] (.qualified ht.1 hu' hv.1)

theorem Written.named {x : Option Ident} (hx : ∀ y ∈ x, Named y) (hu : Splits us)
    (hk : ∀ ls, AliasOf (x.map (Ident.marked i)) ls → Written b us fun ls' => Q (ls ++ ls')) :
    Written b (aliasTokens i x ++ us) Q := by
  cases x with
  | none => exact hk [] .none
  | some x =>
    refine .space (.spacedKeyword fun t ht => ?_)
    exact .ident (hx x rfl) hu fun u hu' => hk [t, u] (.named ht hu'.1)

theorem splits_alias {x : Option Ident} (hu : Splits us) : Splits (aliasTokens i x ++ us) := by
  cases x with
  | none => exact hu
  | some x => simp [aliasTokens]

theorem tokensOf_table (s : Option Ident) (n : Ident) (x : Option Ident) :
    tokensOf b i (.table s n x) = nameTokens i s n ++ aliasTokens i x := by
  rw [tokensOf_base (by cases b <;> rfl), Style.base, Fragment.tokens_append, tokens_qualified]
  cases x <;> simp [Style.optional, tokens_identifier, Fragment.ofTokens, nameTokens, aliasTokens]

theorem Expr.settled_table (s : Option Ident) (n : Ident) (x : Option Ident) :
    (table s n x).settled b i =
      table (s.map (Ident.marked i)) (n.marked i) (x.map (Ident.marked i)) := by
  rw [settled_eq]
  cases b <;> rfl

theorem table_written {s x : Option Ident} {n : Ident} (hw : Writable (.table s n x)) :
    Written b (tokensOf b i (.table s n x)) fun ls =>
      Derives b.dialect (.table ((Expr.table s n x).settled b i)) ls := by
  rw [tokensOf_table, Expr.settled_table]
  refine .name hw.1 hw.2.1 ?_ fun ls₁ h₁ => ?_
  · simpa using splits_alias (i := i) (x := x) splits_nil
  · have halias : Written b (aliasTokens i x ++ []) fun ls₂ => Derives b.dialect (.table (.table
        (s.map (Ident.marked i)) (n.marked i) (x.map (Ident.marked i)))) (ls₁ ++ ls₂) :=
      .named hw.2.2 splits_nil fun ls₂ h₂ => .nil (by simpa using Derives.table h₁ h₂)
    simpa using halias

/-- The pieces of the method of a sample, if it is named. -/
def methodTokens (m : Option String) : List Token := m.elim [] fun m => [.raw m, .space]

/-- The word for what the size of a sample counts. -/
def unitWord : SampleUnit → Keyword
  | .percent => .PERCENT
  | .rows => .ROWS

theorem tokensOf_tableSample (a : Expr) (m : Option String) (size : Expr) (u : SampleUnit) :
    tokensOf .generic i (.tableSample a m size u) =
      tokensOf .generic i a ++ .space :: .keyword .TABLESAMPLE :: .space :: (methodTokens m ++
        .lparen :: (tokensOf .generic i size ++ [.space, .keyword (unitWord u), .rparen])) := by
  rw [tokensOf_base rfl]
  cases m <;> cases u <;>
    simp [Style.base, tokensOf, Fragment.ofTokens, methodTokens, unitWord]

theorem Written.method {m : Option String} (hm : ∀ w ∈ m, PlainWord w ∧ upper w = w)
    (hk : ∀ ls, MethodOf m ls → Written .generic us fun ls' => Q (ls ++ ls')) :
    Written .generic (methodTokens m ++ us) Q := by
  cases m with
  | none => exact hk [] .none
  | some m =>
    obtain ⟨⟨hword, hplain⟩, hupper⟩ := hm m rfl
    refine .word hword (by simp) fun t ht htext => ?_
    refine .space (hk [t] ?_)
    have hkind : t.kind = .word := by
      have hkeyword : Builtin.generic.dialect.keyword? m = none := hplain
      rw [ht, wordKind, hkeyword]
    have := MethodOf.named hkind
    rwa [htext, hupper] at this

theorem tableSample_written {s x : Option Ident} {n : Ident} {m : Option String} {size : Expr}
    {u : SampleUnit} (hw : Writable (.table s n x)) (hm : ∀ w ∈ m, PlainWord w ∧ upper w = w)
    (hs : Shown .generic i size) (ht : size.tier .generic ≤ 8) :
    ∃ e', Written .generic (tokensOf .generic i (.tableSample (.table s n x) m size u))
        (fun ls => Derives Builtin.generic.dialect (.table e') ls) ∧
      (size.All (Faithful .generic) →
        e' = (Expr.tableSample (.table s n x) m size u).settled .generic i) := by
  obtain ⟨size', hsize, hf⟩ := hs.loose ht
  refine ⟨.tableSample (.table (s.map (Ident.marked i)) (n.marked i) (x.map (Ident.marked i)))
    m size' u, ?_, fun hfaith => ?_⟩
  · rw [tokensOf_tableSample, tokensOf_table, List.append_assoc]
    refine .name hw.1 hw.2.1 (splits_alias (by simp)) fun ls₁ h₁ => ?_
    refine .named hw.2.2 (by simp) fun ls₂ h₂ => ?_
    refine .space (.spacedKeyword fun t ht => ?_)
    refine .method hm fun ls₃ h₃ => ?_
    refine .lparen fun v hv => ?_
    refine Written.append hsize (by simp) fun ls₄ h₄ => ?_
    refine .space (.keyword (by simp) fun w hw => ?_)
    have hunit : UnitOf u [w] := by
      cases u with
      | percent => exact .percent hw
      | rows => exact .rows hw
    refine .rparen fun z hz => .nil ?_
    simpa using Derives.tableSample h₁ h₂ ht h₃ hv h₄ hunit hz
  · rw [Expr.settled_eq, hf hfaith]
    simp only [Expr.mapChildren, Expr.settled_table]
    rfl

/-- What a query reads from. -/
theorem source_written {e : Expr} (h : e.All (Ready b i)) (hs : Sourced e) :
    ∃ e', Written b (tokensOf b i e) (fun ls => Derives b.dialect (.table e') ls) ∧
      (b = .generic → e.All (Faithful b) → e' = e.settled b i) := by
  obtain ⟨s, n, x, rfl⟩ | ⟨a, m, size, u, rfl⟩ := hs
  · exact ⟨_, table_written h.self.proper.2, fun _ _ => rfl⟩
  · obtain ⟨⟨s, n, x, rfl⟩, hm⟩ := h.self.proper.2
    have htable : Writable (.table s n x) :=
      (h.child (by simp [Expr.children])).self.proper.2
    cases b with
    | generic =>
      have hmem : size ∈ (Expr.tableSample (.table s n x) m size u).children := by
        simp [Expr.children]
      have hslot : size.tier .generic ≤ 8 := h.self.clear.1 (8, size) List.mem_cons_self
      obtain ⟨e', hw, hf⟩ := tableSample_written (u := u) htable hm
        ((h.child hmem).self.shown hslot) hslot
      exact ⟨e', hw, fun _ hfaith => hf (hfaith.child hmem)⟩
    | sqlite =>
      have htokens : tokensOf .sqlite i (.tableSample (.table s n x) m size u) =
          tokensOf .sqlite i (.table s n x) := by
        rw [tokensOf, Style.fragment_eq, Style.node]
        rfl
      rw [htokens]
      exact ⟨_, table_written htable, fun h => by cases h⟩

/-! ## projections -/

/-- The text of a tree is that of its core. -/
theorem tokensOf_core (b : Builtin) (i : Bool) (e : Expr) :
    tokensOf b i (e.core b) = tokensOf b i e := by
  induction e using Expr.induction with
  | node e ih =>
    cases b with
    | generic => rw [Expr.core_generic]
    | sqlite =>
      rw [Expr.core.eq_def]
      split
      case h_1 a _ =>
        rw [ih a (by simp [Expr.children])]
        exact (tokensOf_extremum (b := .sqlite) false [a]).symm
      case h_2 a _ =>
        rw [ih a (by simp [Expr.children])]
        exact (tokensOf_extremum (b := .sqlite) true [a]).symm
      case h_3 a _ =>
        rw [ih a (by simp [Expr.children]), tokensOf, tokensOf, Style.fragment_eq _ (.dateStrToDate a)]
        rfl
      case h_4 a _ =>
        rw [ih a (by simp [Expr.children]), tokensOf, tokensOf, Style.fragment_eq _ (.timeStrToTime a)]
        rfl
      case h_5 => rfl

theorem tokensOf_aliased (a : Expr) (n : Ident) :
    tokensOf b i (.aliased a n) =
      tokensOf b i a ++ [.space, .keyword .AS, .space, .raw (identText i n)] := by
  rw [tokensOf_base (by cases b <;> rfl)]
  simp [Style.base, tokensOf, tokens_identifier, Fragment.ofTokens]

/-- The pieces of a projection, read as a tree. -/
def ProjectedAs (b : Builtin) (ts : List Token) (e : Expr) : Prop :=
  Written b ts fun ls => Derives b.dialect (.projection e) ls

theorem ReadAs.not_star {e e' : Expr} {ls : List Lexeme} (h : ReadAs b e e' ls)
    (hs : e.starred b = false) : ∀ t ∈ ls.head?, t.kind ≠ .star := by
  intro t ht hk
  rw [h.star t ht hk] at hs
  cases hs

/-- What a query projects is read one by one. -/
theorem projection_written {e : Expr} (h : e.All (Ready b i)) (hp : Projected e)
    (hc : e.core b = .star none ∨ e.starred b = false) :
    ∃ e', ProjectedAs b (tokensOf b i e) e' ∧
      (b = .generic → e.All (Faithful b) → e' = e.settled b i) := by
  by_cases ha : ∃ a n, e = .aliased a n
  · obtain ⟨a, n, rfl⟩ := ha
    have hchild : a ∈ (Expr.aliased a n).children := by simp [Expr.children]
    have hslot : a.tier b ≤ 8 := by
      have := h.self.clear.1
      cases b <;> simpa [Expr.slots, Expr.places] using this
    obtain ⟨⟨a', hw, hf⟩, -⟩ := (h.child hchild).self.shown hslot
    refine ⟨.aliased a' (n.marked i), ?_, fun hb hfaith => ?_⟩
    · rw [tokensOf_aliased]
      refine Written.append hw (by simp) fun ls hls => ?_
      refine .space (.spacedKeyword fun t ht => ?_)
      refine .ident h.self.proper.2.1 (by simp) fun u hu => .nil ?_
      exact .aliased (hls.derives.raise hslot (Nat.le_refl 8)) (hls.not_star h.self.clear.2)
        (.named ht hu.1)
    · rw [Expr.settled_eq, hf (hfaith.child hchild)]
      cases b <;> rfl
  · have htier : e.tier b ≤ 8 := by
      refine h.self.clear.tier_of_generic ?_
      rcases hp with hp | rfl | hp
      · exact absurd hp ha
      · decide
      · exact hp.1
    rcases hc with hc | hc
    · refine ⟨.star none, ?_, fun hb hfaith => ?_⟩
      · rw [← tokensOf_core, hc, tokensOf_star]
        refine Written.one (F := fun _ => True) (k := .star) "*" ?_ (fun _ _ => trivial)
          fun t ht _ => ?_
        · rw [toList_text_star]
          exact scans_star
        · exact .nil (.allColumns ht)
      · subst hb
        rw [Expr.core_generic] at hc
        rw [hc, Expr.settled_eq]
        rfl
    · obtain ⟨⟨e', hw, hf⟩, -⟩ := h.self.shown htier
      refine ⟨e', hw.imp fun ls hls => ?_, fun _ => hf⟩
      exact .projection (hls.derives.raise htier (Nat.le_refl 8)) (hls.not_star hc)

theorem projections_written {es : List Expr} (hne : es ≠ [])
    (h : ∀ e ∈ es, e.All (Ready b i) ∧ Projected e ∧
      (e.core b = .star none ∨ e.starred b = false)) :
    ∃ es', Written b (commas (es.map (tokensOf b i)))
        (fun ls => Derives b.dialect (.projections es') ls) ∧
      (b = .generic → (∀ e ∈ es, e.All (Faithful b)) → es' = es.map (Expr.settled b i)) := by
  induction es with
  | nil => exact absurd rfl hne
  | cons e es ih =>
    rw [List.forall_mem_cons] at h
    obtain ⟨e', he, hfe⟩ := projection_written h.1.1 h.1.2.1 h.1.2.2
    cases es with
    | nil =>
      refine ⟨[e'], Written.imp he fun ls h => .projectionsOne h, fun hb hf => ?_⟩
      rw [hfe hb (hf e List.mem_cons_self)]
      rfl
    | cons c es =>
      obtain ⟨es', hs, hfs⟩ := ih (List.cons_ne_nil c es) h.2
      refine ⟨e' :: es', ?_, fun hb hf => ?_⟩
      · rw [List.map_cons, commas_cons (by simp)]
        refine Written.append he (by simp) fun ls h => ?_
        refine .comma fun t ht => .space ?_
        exact hs.imp fun ls' h' => .projectionsMore h ht h'
      · rw [List.forall_mem_cons] at hf
        rw [hfe hb hf.1, hfs hb hf.2]
        rfl

end SqlDialect
