import SqlDialect.Proofs.Columns.Watch
import SqlDialect.Proofs.Rendering.Arguments

/-!
# SqlDialect.Proofs.Columns.Spelling

What watching the text of printed pieces gives.

* `Leads ts s R` -- watched from the state `s`, the text of the pieces `ts` leads
  to a state with the property `R`.
* `Leads.keyword`, `Leads.operand`, … -- pieces in a row, each with the state
  behind it, from which the rest is watched.
* `Spells` -- pieces that are an operand with some columns.
* `Leads.list`, `Opens` -- lists with commas, and arguments of calls.
-/

namespace SqlDialect

open Text Grammar Watch

/-- Watched from a state, the text of the pieces leads to a state with a
property. -/
def Leads (ts : List Token) (s : State) (R : State → Prop) : Prop :=
  Written .sqlite ts fun ls => ∃ s', run s ls = some s' ∧ R s'

/-- The pieces are an operand with the columns. -/
def Spells (ts : List Token) (cs : List Expr) : Prop :=
  ∀ ⦃s⦄, s.mode = .due → Leads ts s fun s' => Rests s s' cs

variable {i : Bool} {s s' s₁ : State} {ts us : List Token} {cs ds : List Expr} {R : State → Prop}

/-! ## pieces in a row -/

namespace Leads

theorem nil (h : R s) : Leads [] s R := Written.nil ⟨s, rfl, h⟩

theorem imp {R' : State → Prop} (h : Leads ts s R) (hR : ∀ s', R s' → R' s') : Leads ts s R' :=
  Written.imp h fun _ ⟨s', hrun, hs'⟩ => ⟨s', hrun, hR s' hs'⟩

theorem space (h : Leads us s R) : Leads (.space :: us) s R := Written.space h

/-- Pieces in front of others. -/
theorem append {R' : State → Prop} (h : Leads ts s R') (hu : Ends us)
    (hk : ∀ s', R' s' → Leads us s' R) : Leads (ts ++ us) s R := by
  refine Written.append h hu fun ls hls => ?_
  obtain ⟨s₁, hrun, hs₁⟩ := hls
  refine Written.imp (hk s₁ hs₁) fun ls' hls' => ?_
  obtain ⟨s', hrun', hs'⟩ := hls'
  exact ⟨s', run_append_eq_some.2 ⟨s₁, hrun, hrun'⟩, hs'⟩

/-- A lexeme and the state behind it. -/
theorem behind {t : Lexeme} (ht : s.step t = some s₁) (h : Leads us s₁ R) :
    Written .sqlite us fun ls => ∃ s', run s (t :: ls) = some s' ∧ R s' := by
  refine Written.imp h fun ls hls => ?_
  rw [run_cons, ht]
  exact hls

theorem keyword {k : Keyword} (hk : k.isReserved = true) (hs : s.keyword k = some s₁)
    (hu : Splits us) (h : Leads us s₁ R) : Leads (.keyword k :: us) s R :=
  Written.keyword hu fun _ ht => h.behind <| by
    rw [step_mark ht (by simp [LexemeKind.isName, hk])]
    exact hs

/-- A keyword and the space behind it. -/
theorem spacedKeyword {k : Keyword} (hk : k.isReserved = true) (hs : s.keyword k = some s₁)
    (h : Leads us s₁ R) : Leads (.keyword k :: .space :: us) s R :=
  .keyword hk hs (by simp) (.space h)

theorem comma {n : Nest} (hn : s.nest.comma = some n)
    (h : Leads us ⟨.due, n, s.outer, s.columns⟩ R) : Leads (.comma :: us) s R :=
  Written.comma fun _ ht => h.behind <| by
    rw [step_mark ht rfl]
    exact congrArg (Option.map _) hn

theorem lparen (hs : s.enter = some s₁) (h : Leads us s₁ R) : Leads (.lparen :: us) s R :=
  Written.lparen fun _ ht => h.behind ((step_mark ht rfl s).trans hs)

theorem rparen (hs : s.leave = some s₁) (h : Leads us s₁ R) : Leads (.rparen :: us) s R :=
  Written.rparen fun _ ht => h.behind ((step_mark ht rfl s).trans hs)

theorem ident {x : Ident} (hx : Named x) (hs : s.mode.awaits = true) (hu : Splits us)
    (h : Leads us (s.name (x.marked i)) R) : Leads (.raw (identText i x) :: us) s R :=
  Written.ident hx hu fun _ ht => h.behind (step_name ht.1 hs)

/-- An operator behind an operand. -/
theorem operator {op : BinaryOperator} (hs : s.mode.awaits = false)
    (h : Leads us (s.turn .due) R) : Leads (Style.operator op :: .space :: us) s R := by
  refine Written.operator op fun t ht => h.behind ((step_rests ht hs).trans ?_)
  cases op <;> try rfl
  change s.star = _
  unfold State.star
  split <;> simp_all [Mode.awaits]

/-- The offset of a query: its word may be a name elsewhere. -/
theorem offset (hs : s.mode.awaits = false) (hu : Splits us) (h : Leads us (s.turn .due) R) :
    Leads (.keyword .OFFSET :: us) s R :=
  Written.keyword hu fun _ ht => h.behind ((step_rests ht hs).trans rfl)

/-- The end of parentheses, behind what they hold. -/
theorem close {n : Nest} (h : Adds ⟨.due, n, s.nest :: s.outer, ds⟩ s₁ cs) (hds : ds = s.columns)
    (hk : ∀ s', Rests s s' cs → Leads us s' R) : Leads (.rparen :: us) s₁ R := by
  obtain ⟨s', hleave, hpasses⟩ := h.leave hds
  exact .rparen hleave (hk s' ⟨hpasses.toAdds, hpasses.rests, hpasses.nest⟩)

/-- An operand where one is due. -/
theorem operand (h : Spells ts cs) (hs : s.mode = .due) (hu : Ends us)
    (hk : ∀ s', Rests s s' cs → Leads us s' R) : Leads (ts ++ us) s R :=
  (h hs).append hu hk

/-- An operand at the end. -/
theorem last (h : Spells ts cs) (hs : s.mode = .due) (hk : ∀ s', Rests s s' cs → R s') :
    Leads ts s R :=
  (h hs).imp hk

/-- Operands with commas between them, in parentheses that commas leave as they
are. -/
theorem list {tss : List (List Token)} {css : List (List Expr)}
    (h : List.Forall₂ Spells tss css) (hne : tss ≠ []) (hs : s.mode = .due)
    (hn : s.nest.comma = some s.nest) :
    Leads (commas tss) s fun s' => Rests s s' css.flatten := by
  induction h generalizing s with
  | nil => exact absurd rfl hne
  | @cons ts cs tss css hts htss ih =>
    cases htss with
    | nil => exact .last hts hs fun s' h => by simpa using h
    | cons =>
      rw [commas_cons (by simp)]
      refine .operand hts hs (by simp) fun s₁ h₁ => ?_
      refine .comma (by rw [h₁.nest]; exact hn) (.space ?_)
      refine (@ih ⟨.due, s.nest, s₁.outer, s₁.columns⟩ (by simp) rfl hn).imp fun s' h => ?_
      exact ⟨h₁.toAdds.trans h.toAdds.of_due, h.rests, h.nest⟩

end Leads

/-! ## arguments of calls -/

/-- Pieces that may be the first argument of a call: in its parentheses they
leave room for an ordering, and thereby for commas. -/
def Opens (ts : List Token) (cs : List Expr) : Prop :=
  ∀ ⦃s⦄, s.mode = .due → s.nest.order = some .free → Leads ts s fun s' => Adds s s' cs ∧
    s'.mode.awaits = false ∧ s'.nest.order = some .free

theorem Spells.opens (h : Spells ts cs) : Opens ts cs := fun _ hs hn =>
  (h hs).imp fun _ h => ⟨h.toAdds, h.rests, h.nest ▸ hn⟩

theorem Watch.Nest.distinct_of_order {n : Nest} (h : n.order = some .free) :
    n.distinct = .free := by
  cases n <;> first | rfl | cases h

theorem Watch.Nest.comma_of_order {n : Nest} (h : n.order = some .free) :
    ∃ m, n.comma = some m ∧ m.comma = some m := by
  cases n <;> first | exact ⟨_, rfl, rfl⟩ | cases h

/-- Distinct operands. -/
theorem Opens.distinct {tss : List (List Token)} {css : List (List Expr)}
    (h : List.Forall₂ Spells tss css) (hne : tss ≠ []) :
    Opens (distinctTokens true ++ commas tss) css.flatten := by
  intro s hs hn
  have hfree := Nest.distinct_of_order hn
  refine .spacedKeyword rfl rfl ?_
  refine (Leads.list h hne rfl (by rw [hfree]; rfl)).imp fun s' h => ?_
  refine ⟨h.toAdds.of_due, h.rests, ?_⟩
  rw [h.nest, hfree]
  rfl

/-- An ordering behind operands. -/
theorem Opens.order {iss : List (List Token)} {css : List (List Expr)} (h : Opens ts cs)
    (hi : List.Forall₂ Spells iss css) : Opens (ts ++ orderTokens iss) (cs ++ css.flatten) := by
  intro s hs hn
  cases hi with
  | nil => simpa [orderTokens] using h hs hn
  | cons hfirst hrest =>
    refine (h hs hn).append (by simp [orderTokens]) fun s₁ h₁ => ?_
    obtain ⟨hadds, -, hn₁⟩ := h₁
    have horder : s₁.keyword .ORDER = some ⟨.due, .free, s₁.outer, s₁.columns⟩ :=
      congrArg (Option.map _) hn₁
    refine .space (.spacedKeyword rfl horder ?_)
    refine .spacedKeyword rfl rfl ?_
    refine (Leads.list (.cons hfirst hrest) (by simp) rfl rfl).imp fun s' h => ?_
    refine ⟨hadds.trans (h.toAdds.of_turn rfl).of_due, h.rests, ?_⟩
    rw [h.nest]
    rfl

/-- A name in front of parentheses. -/
theorem Leads.function {name : String} {n : Nest} {o : List Nest} (hname : Bare name)
    (hdate : upper name ≠ CallKind.dateAdd.name) (h : Leads us ⟨.due, .call, n :: o, cs⟩ R) :
    Leads (.raw name :: .lparen :: us) ⟨.due, n, o, cs⟩ R := by
  refine Written.word hname.1 (by simp) fun t ht htext => ?_
  have henter : State.enter ⟨.named ⟨name, false⟩, n, o, cs⟩ = some ⟨.due, .call, n :: o, cs⟩ :=
    if_neg hdate
  exact (Leads.lparen henter h).behind (step_name (hname.identOf? ht htext) rfl)

/-- A name and arguments in parentheses. -/
theorem Spells.call {name : String} {tss : List (List Token)} {css : List (List Expr)}
    (hname : Bare name) (hdate : upper name ≠ CallKind.dateAdd.name) (ht : Opens ts cs)
    (h : List.Forall₂ Spells tss css) :
    Spells (.raw name :: .lparen :: (commas (ts :: tss) ++ [.rparen])) (cs ++ css.flatten) := by
  rintro ⟨m, n, o, ds⟩ rfl
  refine .function hname hdate ?_
  cases h with
  | nil =>
    refine (ht rfl rfl).append (by simp) fun s₁ h₁ => ?_
    exact .close (s := ⟨.due, n, o, ds⟩) h₁.1 (List.append_nil _).symm fun s' h =>
      .nil (by simpa using h)
  | @cons us ds' uss dss hus huss =>
    rw [commas_cons (by simp), List.append_assoc]
    refine (ht rfl rfl).append (by simp) fun s₁ h₁ => ?_
    obtain ⟨m, hm, hmm⟩ := Nest.comma_of_order h₁.2.2
    refine .comma hm (.space ?_)
    refine (Leads.list (.cons hus huss) (by simp) rfl hmm).append (by simp) fun s₂ h₂ => ?_
    have hadds := h₁.1.trans h₂.toAdds.of_due
    exact .close hadds (List.append_nil _).symm fun s' h => .nil h

/-- A name and empty parentheses. -/
theorem Spells.callNone {name : String} (hname : Bare name)
    (hdate : upper name ≠ CallKind.dateAdd.name) :
    Spells [.raw name, .lparen, .rparen] [] := by
  rintro ⟨m, n, o, cs⟩ rfl
  exact .function hname hdate (.close (.refl _) (List.append_nil _).symm fun s' h => .nil h)

end SqlDialect
