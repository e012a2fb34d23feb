import SqlDialect.Proofs.Columns.Spelling
import SqlDialect.Proofs.Rendering.Compound
import SqlDialect.Proofs.Rendering.Primary

/-!
# SqlDialect.Proofs.Columns.Node

The columns of SQLite's text of each kind of node.

* `Expr.shows` -- the columns that the text of a tree spells out.
* `Kept` -- the text of a tree is an operand with these columns.
* `kept_binaryOp`, `kept_call`, … -- one lemma for each shape of node, whatever
  the levels of its operands.
-/

namespace SqlDialect

open Text Grammar Watch

variable {i : Bool} {s s' s₁ : State} {us : List Token} {R : State → Prop} {a c e : Expr}
  {es : List Expr} {cs : List Expr}

/-! ## trees -/

/-- The columns that SQLite's text of a tree spells out, as it spells them. -/
def Expr.shows (i : Bool) (e : Expr) : List Expr := e.spelledColumns.map (markNode i)

/-- A node that is no column shows the columns of what is spelled of it. -/
theorem shows_node (h : e.ownColumns = []) : e.shows i = e.spelled.flatMap (Expr.shows i) := by
  rw [Expr.shows, Expr.spelledColumns_eq, h, List.nil_append, List.map_flatMap]
  rfl

theorem shows_one (h : e.ownColumns = []) (hs : e.spelled = [a]) : e.shows i = a.shows i := by
  rw [shows_node h, hs, List.flatMap_cons, List.flatMap_nil, List.append_nil]

theorem shows_two (h : e.ownColumns = []) (hs : e.spelled = [a, c]) :
    e.shows i = a.shows i ++ c.shows i := by
  rw [shows_node h, hs, List.flatMap_cons, List.flatMap_cons, List.flatMap_nil, List.append_nil]

/-- The text of a tree is an operand with the columns that it spells out. -/
def Kept (i : Bool) (e : Expr) : Prop := Spells (tokensOf .sqlite i e) (e.shows i)

theorem kept_all (h : ∀ e ∈ es, Kept i e) :
    List.Forall₂ Spells (es.map (tokensOf .sqlite i)) (es.map (Expr.shows i)) :=
  List.forall₂_map_left_iff.2 (List.forall₂_map_right_iff.2 (List.forall₂_same.2 h))

theorem flatten_shows (es : List Expr) :
    (es.map (Expr.shows i)).flatten = es.flatMap (Expr.shows i) := List.flatMap_def.symm

/-! ## leaves -/

/-- A name behind another one and a point. -/
theorem Leads.dotted {x y : Ident} {s₂ : State} (hx : Named x) (hy : Named y) (hu : Splits us)
    (hs : s.mode.awaits = true) (hdot : (s.name (x.marked i)).dot = some s₁)
    (hs₁ : s₁.mode.awaits = true) (hs₂ : s₁.name (y.marked i) = s₂) (h : Leads us s₂ R) :
    Leads (.raw (identText i x) :: .raw "." :: .raw (identText i y) :: us) s R := by
  subst hs₂
  refine Written.dotted hx hy hu fun t u v ht hu hv => ?_
  refine Written.imp (h.behind (step_name hv.1 hs₁)) fun ls hls => ?_
  rw [run_name ht.1 hs, run_to hu rfl hdot]
  exact hls

theorem kept_column {t : Option Ident} {n : Ident} (hw : Writable (.column t n)) :
    Kept i (.column t n) := by
  have hshows : (Expr.column t n).shows i = [.column (t.map (Ident.marked i)) (n.marked i)] := by
    rw [Expr.shows, Expr.spelledColumns_eq]
    rfl
  have htokens : tokensOf .sqlite i (.column t n) =
      (t.elim [] fun t => [.raw (identText i t), .raw "."]) ++ [.raw (identText i n)] :=
    (tokensOf_base rfl).trans (tokens_qualified t n)
  rintro ⟨m, nest, o, cs⟩ rfl
  rw [htokens, hshows]
  cases t with
  | none =>
    refine .ident hw.2 rfl (by simp) (.nil ⟨⟨rfl, ?_⟩, rfl, rfl⟩)
    exact congrArg (· ++ _) (List.append_nil cs).symm
  | some t =>
    refine .dotted (hw.1 t rfl) hw.2 (by simp) rfl rfl rfl rfl (.nil ⟨⟨rfl, ?_⟩, rfl, rfl⟩)
    exact (List.append_nil _).trans (congrArg (· ++ _) (List.append_nil cs).symm)

theorem kept_star {t : Option Ident} (hw : Writable (.star t)) : Kept i (.star t) := by
  have hshows : (Expr.star t).shows i = [] := shows_node rfl
  rintro ⟨m, n, o, cs⟩ rfl
  have hrests : Rests ⟨.due, n, o, cs⟩ ⟨.whole, n, o, cs ++ []⟩ [] :=
    ⟨⟨rfl, by simp [State.columns, Mode.columns]⟩, rfl, rfl⟩
  rw [tokensOf_star, hshows]
  cases t with
  | none =>
    refine Written.one (F := fun _ => True) (k := .star) "*" ?_ (fun _ _ => trivial)
      fun u hu _ => ?_
    · rw [toList_text_star]
      exact scans_star
    · exact (Leads.nil hrests).behind (step_mark hu rfl _)
  | some t =>
    refine Written.dottedStar (hw t rfl) fun t u v ht hu hv => ?_
    refine .nil ?_
    rw [run_due ht.1, run_to hu rfl rfl, run_to hv rfl rfl]
    exact ⟨_, rfl, hrests⟩

/-- A value that is one lexeme. -/
theorem Spells.value {ts : List Token} (h : Written .sqlite ts fun ls => ∃ t k, ls = [t] ∧
    t.kind = k ∧ k.isName = false ∧ ∀ s : State, s.mark k = s.value) : Spells ts [] := by
  intro s hs
  refine Written.imp h ?_
  rintro _ ⟨t, k, rfl, ht, hk, hmark⟩
  refine ⟨s.turn .whole, ?_, adds_turn rfl, rfl, rfl⟩
  rw [run_to ht hk ((hmark s).trans (if_pos hs)), run_nil]

theorem spells_string (v : String) : Spells [.raw (quoteString v)] [] := by
  refine .value (Written.string (by simp) fun t ht => ?_)
  exact .nil ⟨t, _, rfl, ht, rfl, fun _ => rfl⟩

theorem spells_number {s : String} (hs : NumberText s.toList) : Spells [.raw s] [] := by
  refine .value (Written.number hs (by simp) fun t ht _ => ?_)
  exact .nil ⟨t, _, rfl, ht, rfl, fun _ => rfl⟩

/-- A keyword that is a value. -/
theorem spells_keyword {k : Keyword} (hname : (LexemeKind.keyword k).isName = false)
    (hvalue : ∀ s : State, s.mark (.keyword k) = s.value) : Spells [.keyword k] [] := by
  refine .value (Written.keyword (by simp) fun t ht => ?_)
  exact .nil ⟨t, _, rfl, ht, hname, hvalue⟩

/-- A hexadecimal literal that can be printed has digits. -/
theorem isHexLiteral_of_fault {digits : String} {v : Literal}
    (h : v = .hexString digits ∨ v = .hexNumber digits) (hv : v.fault? = none) :
    isHexLiteral digits = true := by
  rcases h with rfl | rfl <;>
  · by_contra hd
    simp [Literal.fault?, hd] at hv

/-- An integer without a sign is written as one number. -/
theorem numberText_int {n : Int64} (hn : 0 ≤ n.toInt) : NumberText (toString n.toInt).toList := by
  obtain ⟨m, hm⟩ := Int.eq_ofNat_of_zero_le hn
  have htext : toString n.toInt = String.ofList (Nat.toDigits 10 m) := by
    rw [hm, ← Nat.toString_eq_ofList_toDigits]
    rfl
  rw [htext, String.toList_ofList]
  exact numberText_toDigits m

/-- A finite number that was read has no sign. -/
theorem finite_of_writable {f : Decimal.Binary64} (hw : Writable (.literal (.float f)))
    (hf : (Literal.float f).fault? = none) : ∃ m, f = .finite false m := by
  cases f with
  | finite s m => exact ⟨m, by rw [hw s m rfl]⟩
  | infinite | notANumber => cases hf

theorem numberText_float (m : Decimal.Magnitude) :
    NumberText (Decimal.Binary64.text (.finite false m)).toList := by
  have htext : (Decimal.Binary64.text (.finite false m)).toList = m.chars := String.toList_ofList
  rw [htext]
  exact m.numberText

theorem kept_literal {v : Literal} (hw : Writable (.literal v)) (hv : v.fault? = none) :
    Kept i (.literal v) := by
  have hshows : (Expr.literal v).shows i = [] := shows_node rfl
  rw [Kept, hshows, tokensOf_literal]
  cases v with
  | int n => exact spells_number (numberText_int hw)
  | float f =>
    obtain ⟨m, rfl⟩ := finite_of_writable hw hv
    exact spells_number (numberText_float m)
  | string s => exact spells_string s
  | hexString digits =>
    obtain ⟨whole, htokens, hwhole, -⟩ := tokensOf_hexString (b := .sqlite) (i := i)
      (isHexLiteral_of_fault (.inl rfl) hv)
    rw [← tokensOf_literal, htokens]
    refine .value (Written.hexString hwhole fun t ht => ?_)
    exact .nil ⟨t, _, rfl, ht, rfl, fun _ => rfl⟩
  | hexNumber digits =>
    obtain ⟨hne, hd⟩ := hexDigits_of_fault (isHexLiteral_of_fault (.inr rfl) hv)
    rw [← tokensOf_literal, tokensOf_hexNumber_sqlite]
    refine .value (Written.hexNumber hne hd (by simp) fun t ht => ?_)
    exact .nil ⟨t, _, rfl, ht, rfl, fun _ => rfl⟩
  | bool value =>
    cases value with
    | true => exact spells_keyword (k := .TRUE) rfl fun _ => rfl
    | false => exact spells_keyword (k := .FALSE) rfl fun _ => rfl
  | null => exact spells_keyword (k := .NULL) rfl fun _ => rfl

/-! ## operators -/

/-- A text behind an operand. -/
theorem kept_behind {ds : List Expr} (ha : Kept i a)
    (htokens : tokensOf .sqlite i e = tokensOf .sqlite i a ++ .space :: us)
    (hshows : e.shows i = a.shows i ++ ds)
    (h : ∀ s : State, s.mode.awaits = false → Leads us s fun s' => Rests s s' ds) : Kept i e := by
  intro s hs
  rw [htokens, hshows]
  refine .operand ha hs (by simp) fun s₁ h₁ => ?_
  exact .space ((h s₁ h₁.rests).imp fun s' h' => h₁.trans h')

theorem kept_binaryOp {op : BinaryOperator} (ha : Kept i a) (hc : Kept i c) :
    Kept i (.binaryOp op a c) := by
  refine kept_behind ha (tokensOf_binaryOp op a c) (shows_two rfl rfl) fun s hs => ?_
  have hoperand : Leads (tokensOf .sqlite i c) (s.turn .due) fun s' => Rests s s' (c.shows i) :=
    .last hc rfl fun _ h => h.of_turn rfl
  exact .operator hs hoperand

theorem kept_not (ha : Kept i a) : Kept i (.unaryOp .not a) := by
  have hshows : (Expr.unaryOp .not a).shows i = a.shows i := shows_one rfl rfl
  intro s hs
  rw [tokensOf_not, hshows]
  refine .spacedKeyword rfl rfl ?_
  exact .last ha rfl fun _ h => h.of_turn rfl

/-- A minus sign in front of a text that does not fuse with it. -/
theorem kept_minus (ha : Kept i a)
    (hstart : Undashed (Dialect.sqlite.spell (tokensOf .sqlite i a)).toList) :
    Kept i (.unaryOp .minus a) := by
  have hshows : (Expr.unaryOp .minus a).shows i = a.shows i := shows_one rfl rfl
  intro s hs
  rw [tokensOf_minus, hshows]
  have hoperand : Leads (tokensOf .sqlite i a) (s.turn .due) fun s' => Rests s s' (a.shows i) :=
    .last ha rfl fun _ h => h.of_turn rfl
  exact Written.minus hstart fun t ht => Leads.behind (step_mark ht rfl s) hoperand

/-! ## predicates -/

/-- A negation leaves the next operand due, if one is. -/
theorem Leads.negation {negated : Bool} (h : ∀ s', Adds s s' [] → s'.nest = s.nest →
    (s.mode = .due → s'.mode = .due) → Leads us s' R) :
    Leads (negationTokens negated ++ us) s R := by
  cases negated with
  | true => exact .spacedKeyword rfl rfl (h _ (adds_turn rfl) rfl fun _ => rfl)
  | false => exact h s (.refl s) rfl id

theorem kept_like {negated : Bool} (ha : Kept i a) (hc : Kept i c) : Kept i (.like negated a c) := by
  refine kept_behind ha (tokensOf_like negated a c) (shows_two rfl rfl) fun s _ => ?_
  refine .negation fun s₁ h₁ hn _ => ?_
  refine .spacedKeyword rfl rfl ?_
  exact .last hc rfl fun s₂ h₂ => h₁.rests hn (h₂.of_turn rfl)

theorem kept_isNull {negated : Bool} (ha : Kept i a) : Kept i (.isNull negated a) := by
  have hshows : (Expr.isNull negated a).shows i = a.shows i ++ [] :=
    (shows_node rfl).trans (by simp [Expr.spelled, Expr.children])
  refine kept_behind ha (tokensOf_isNull negated a) hshows fun s _ => ?_
  refine .spacedKeyword rfl rfl ?_
  refine .negation fun s₁ h₁ hn hdue => ?_
  have hvalue : s₁.keyword .NULL = some (s₁.turn .whole) := if_pos (hdue rfl)
  have hwhole : Rests s₁ (s₁.turn .whole) [] := ⟨adds_turn rfl, rfl, rfl⟩
  exact .keyword rfl hvalue (by simp) (.nil ((h₁.rests hn hwhole).of_turn rfl))

theorem kept_between {negated : Bool} {low high : Expr} (ha : Kept i a) (hl : Kept i low)
    (hh : Kept i high) : Kept i (.between negated a low high) := by
  have hshows : (Expr.between negated a low high).shows i =
      a.shows i ++ (low.shows i ++ high.shows i) :=
    (shows_node rfl).trans (by simp [Expr.spelled, Expr.children])
  refine kept_behind ha (tokensOf_between negated a low high) hshows fun s _ => ?_
  refine .negation fun s₁ h₁ hn _ => ?_
  refine .spacedKeyword rfl rfl ?_
  refine .operand hl rfl (by simp) fun s₂ h₂ => ?_
  refine .space (.spacedKeyword rfl rfl ?_)
  exact .last hh rfl fun s₃ h₃ => h₁.rests hn ((h₂.of_turn rfl).trans (h₃.of_turn rfl))

theorem kept_inList {negated : Bool} (ha : Kept i a) (hes : ∀ e ∈ es, Kept i e) (hne : es ≠ []) :
    Kept i (.inList negated a es) := by
  have hshows : (Expr.inList negated a es).shows i = a.shows i ++ es.flatMap (Expr.shows i) :=
    (shows_node rfl).trans (by simp [Expr.spelled, Expr.children])
  refine kept_behind ha (tokensOf_inList negated a es) hshows fun s _ => ?_
  refine .negation fun s₁ h₁ hn _ => ?_
  refine .spacedKeyword rfl rfl (.lparen rfl ?_)
  refine (Leads.list (kept_all hes) (by simpa using hne) rfl rfl).append (by simp) fun s₂ h₂ => ?_
  rw [flatten_shows] at h₂
  exact .close (s := s₁) h₂.toAdds rfl fun s₃ h₃ => .nil (h₁.rests hn h₃)

/-! ## parentheses and casts -/

/-- What stands in parentheses where an operand is due. -/
theorem Spells.parens {ts : List Token} (h : ∀ s : State, s.mode = .due → s.nest = .free →
    Leads ts s fun s' => Adds s s' cs) : Spells (.lparen :: (ts ++ [.rparen])) cs := by
  rintro ⟨m, n, o, ds⟩ rfl
  refine .lparen rfl ?_
  refine (h _ rfl rfl).append (by simp) fun s₁ h₁ => ?_
  exact .close (s := ⟨.due, n, o, ds⟩) h₁ (List.append_nil _).symm fun s' h => .nil h

theorem shows_paren (a : Expr) : (Expr.paren a).shows i = a.shows i := shows_one rfl rfl

theorem kept_paren (ha : Kept i a) : Kept i (.paren a) := by
  rw [Kept, tokensOf_paren, shows_paren]
  exact .parens fun s hs _ => (ha hs).imp fun s' h => h.toAdds

/-- A type holds no columns. -/
theorem Leads.dataType {t : DataType} (hs : s.mode = .label) (hu : Ends us)
    (h : ∀ s', Rests s s' [] → Leads us s' R) : Leads (.raw (typeText .sqlite t) :: us) s R := by
  obtain ⟨m, n, o, ds⟩ := s
  obtain rfl : m = .label := hs
  refine Written.dataType hu fun ls hls => ?_
  obtain ⟨s₁, hrun, h₁⟩ := run_type hls
  refine Written.imp (h s₁ h₁) fun ls' hls' => ?_
  obtain ⟨s', hrun', hs'⟩ := hls'
  exact ⟨s', run_append_eq_some.2 ⟨s₁, hrun, hrun'⟩, hs'⟩

theorem kept_cast {t : DataType} (ha : Kept i a) : Kept i (.cast a t) := by
  have hshows : (Expr.cast a t).shows i = a.shows i := shows_one rfl rfl
  have htokens : tokensOf .sqlite i (.cast a t) = castTokens .sqlite i .CAST a t :=
    (tokensOf_base rfl).trans (tokens_cast ..)
  intro s hs
  rw [htokens, hshows]
  refine .keyword rfl rfl (by simp) (.lparen rfl ?_)
  refine .operand ha rfl (by simp) fun s₁ h₁ => ?_
  refine .space (.spacedKeyword rfl rfl ?_)
  refine .dataType rfl (by simp) fun s₂ h₂ => ?_
  have hadds := h₁.toAdds.trans (h₂.of_turn rfl).toAdds
  rw [List.append_nil] at hadds
  exact .close (s := s) hadds rfl fun s' h => .nil h

/-! ## cases -/

/-- A part behind a keyword, if it is there. -/
theorem Leads.clause {k : Keyword} {o : Option Expr} (hk : k ∈ [.ELSE, .WHERE, .HAVING])
    (ho : ∀ c ∈ o, Kept i c) (hs : s.mode.awaits = false) (hu : Ends us)
    (h : ∀ s', Rests s s' (o.toList.flatMap (Expr.shows i)) → Leads us s' R) :
    Leads (optionalTokens .sqlite i [.space, .keyword k, .space] o ++ us) s R := by
  cases o with
  | none => exact h s ⟨.refl s, hs, rfl⟩
  | some c =>
    obtain ⟨hreserved, hkeyword⟩ : k.isReserved = true ∧ s.keyword k = some (s.turn .due) := by
      simp only [List.mem_cons, List.not_mem_nil, or_false] at hk
      rcases hk with rfl | rfl | rfl <;> exact ⟨rfl, rfl⟩
    refine .space (.spacedKeyword hreserved hkeyword ?_)
    exact .operand (ho c rfl) rfl hu fun s₁ h₁ => h s₁ (by simpa using h₁.of_turn rfl)

/-- A branch of a case. -/
theorem Leads.branch {w : Expr × Expr} (hw : Kept i w.1 ∧ Kept i w.2) (hu : Ends us)
    (h : ∀ s', Rests s s' (w.1.shows i ++ w.2.shows i) → Leads us s' R) :
    Leads (whenTokens .sqlite i w ++ us) s R := by
  simp only [whenTokens, List.cons_append, List.append_assoc]
  refine .space (.spacedKeyword rfl rfl ?_)
  refine .operand hw.1 rfl (by simp) fun s₁ h₁ => ?_
  refine .space (.spacedKeyword rfl rfl ?_)
  refine .operand hw.2 rfl hu fun s₂ h₂ => ?_
  exact h s₂ ((h₁.of_turn rfl).trans (h₂.of_turn rfl))

/-- The columns that the branches of a case spell out. -/
def showsBranches (i : Bool) (ws : List (Expr × Expr)) : List Expr :=
  ws.flatMap fun w => w.1.shows i ++ w.2.shows i

theorem ends_branches {ws : List (Expr × Expr)} (hu : Ends us) :
    Ends (ws.flatMap (whenTokens .sqlite i) ++ us) := by
  cases ws with
  | nil => exact hu
  | cons w ws => simp [whenTokens]

theorem Leads.branches {ws : List (Expr × Expr)} (hws : ∀ w ∈ ws, Kept i w.1 ∧ Kept i w.2)
    (hs : s.mode.awaits = false) (hu : Ends us)
    (h : ∀ s', Rests s s' (showsBranches i ws) → Leads us s' R) :
    Leads (ws.flatMap (whenTokens .sqlite i) ++ us) s R := by
  induction ws generalizing s with
  | nil => exact h s ⟨.refl s, hs, rfl⟩
  | cons w ws ih =>
    rw [List.forall_mem_cons] at hws
    rw [List.flatMap_cons, List.append_assoc]
    refine .branch hws.1 (ends_branches hu) fun s₁ h₁ => ?_
    exact ih hws.2 h₁.rests fun s₂ h₂ => h s₂ (h₁.trans h₂)

theorem kept_caseWhen {o c : Option Expr} {ws : List (Expr × Expr)} (hne : ws ≠ [])
    (ho : ∀ a ∈ o, Kept i a) (hws : ∀ w ∈ ws, Kept i w.1 ∧ Kept i w.2) (hc : ∀ a ∈ c, Kept i a) :
    Kept i (.caseWhen o ws c) := by
  have hshows : (Expr.caseWhen o ws c).shows i = o.toList.flatMap (Expr.shows i) ++
      (showsBranches i ws ++ c.toList.flatMap (Expr.shows i)) := by
    rw [shows_node rfl]
    simp [Expr.spelled, Expr.children, showsBranches, List.flatMap_assoc]
  obtain ⟨w, ws, rfl⟩ := List.exists_cons_of_ne_nil hne
  rw [List.forall_mem_cons] at hws
  intro s hs
  rw [tokensOf_caseWhen, hshows, List.flatMap_cons, List.append_assoc]
  -- behind the operand, if there is one, comes the first branch
  have hrest {s₁ : State} (h₁ : Adds s s₁ (o.toList.flatMap (Expr.shows i)))
      (hn : s₁.nest = s.nest) : Leads (whenTokens .sqlite i w ++
        (ws.flatMap (whenTokens .sqlite i) ++ (optionalTokens .sqlite i [.space, .keyword .ELSE,
          .space] c ++ [.space, .keyword .END]))) s₁ fun s' => Rests s s'
            (o.toList.flatMap (Expr.shows i) ++ (showsBranches i (w :: ws) ++
              c.toList.flatMap (Expr.shows i))) := by
    have hends : Ends (optionalTokens .sqlite i [.space, .keyword .ELSE, .space] c ++
        [.space, .keyword .END]) := ends_optional (by simp)
    refine .branch hws.1 (ends_branches hends) fun s₂ h₂ => ?_
    refine .branches hws.2 h₂.rests hends fun s₃ h₃ => ?_
    refine .clause (by simp) hc h₃.rests (by simp) fun s₄ h₄ => ?_
    have hadds := (h₁.rests hn ((h₂.trans h₃).trans h₄)).trans
      ⟨adds_turn (s := s₄) (m := .whole) rfl, rfl, rfl⟩
    refine .space (.keyword rfl rfl (by simp) (.nil ?_))
    simpa [showsBranches] using hadds
  cases o with
  | none =>
    exact .keyword rfl rfl (by simp [optionalTokens, whenTokens]) (hrest (adds_turn rfl) rfl)
  | some a =>
    refine .keyword rfl rfl (by simp [optionalTokens]) ?_
    change Leads (.space :: (tokensOf .sqlite i a ++ _)) _ _
    refine .space (.operand (ho a rfl) rfl (by simp [whenTokens]) fun s₁ h₁ => ?_)
    exact hrest (by simpa using (h₁.of_turn rfl).toAdds) h₁.nest

end SqlDialect
