import SqlDialect.Proofs.Rendering.Call

/-!
# SqlDialect.Proofs.Rendering.Aggregate

The text of a grouped concatenation.

* `separator_written` -- a separator behind its word.
* `aggregated_tier` -- what SQLite aggregates is an expression.
* `shown_groupConcat` -- the result.
-/

namespace SqlDialect

open Text Grammar

variable {b : Builtin} {i : Bool} {a : Expr} {s : Option Expr}

/-! ## the base form -/

/-- The pieces of a separator. -/
def separatorTokens (b : Builtin) (i : Bool) (s : Option Expr) : List Token :=
  s.elim [] fun e => .space :: .raw "SEPARATOR" :: .space :: tokensOf b i e

theorem tokensOf_groupConcat_generic (a : Expr) (s : Option Expr) :
    tokensOf .generic i (.groupConcat a s) =
      .raw "GROUP_CONCAT" :: .lparen ::
        (tokensOf .generic i a ++ separatorTokens .generic i s ++ [.rparen]) := by
  rw [tokensOf_base rfl, Style.base]
  cases s <;> simp [Style.optional, Fragment.ofTokens, tokensOf, separatorTokens]

theorem ends_separatorTokens {us : List Token} (hu : Ends us) :
    Ends (separatorTokens b i s ++ us) := by
  cases s with
  | none => exact hu
  | some e => simp [separatorTokens]

/-- A separator is read behind its word. -/
theorem separator_written (h : ∀ e ∈ s, Shown b i e ∧ e.tier b ≤ 8) :
    ∃ s', Written b (separatorTokens b i s) (fun ls => Derives b.dialect (.separator s') ls) ∧
      ((∀ e ∈ s, e.All (Faithful b)) → s' = s.map (Expr.settled b i)) := by
  cases s with
  | none => exact ⟨none, .nil .noSeparator, fun _ => rfl⟩
  | some e =>
    obtain ⟨e', he, hf⟩ := (h e rfl).1.loose (h e rfl).2
    refine ⟨some e', ?_, fun hfaith => ?_⟩
    · refine .space (.word (by decide) (by simp) fun t ht htext => ?_)
      have hkind : t.kind = .word := ht.trans (by cases b <;> decide)
      have hname : sameWord t.text "SEPARATOR" = true := by
        rw [htext]
        decide
      exact .space (Written.imp he fun ls h => .separator hkind hname h)
    · rw [hf (hfaith e rfl)]
      rfl

theorem Expr.settled_groupConcat (a : Expr) (s : Option Expr) :
    (groupConcat a s).settled b i = groupConcat (a.settled b i) (s.map (settled b i)) := by
  rw [settled_eq]
  cases b <;> rfl

theorem shown_groupConcat_generic (h : Prepared .generic i (.groupConcat a s)) :
    Shown .generic i (.groupConcat a s) := by
  have ha : a.All (Ready .generic i) := h.children a (by simp [Expr.children])
  have hslots : a.tier .generic ≤ 9 ∧ ∀ e ∈ s, e.tier .generic ≤ 8 := by
    have := h.clear.1
    simp only [Expr.slots, Expr.places, Expr.arguments, List.forall_mem_cons, List.forall_mem_map]
      at this
    exact ⟨this.1, fun e he => this.2 e (Option.mem_toList.2 he)⟩
  have hseparator : ∀ e ∈ s, e ∈ (Expr.groupConcat a s).children :=
    fun e he => List.mem_cons_of_mem _ (Option.mem_toList.2 he)
  obtain ⟨distinct, x, xs, items, hg⟩ := gathering_of_ready ha hslots.1
  obtain ⟨x', xs', items', hx, hi, hfaith⟩ := hg.listed ha
  obtain ⟨s', hs, hfs⟩ := separator_written (i := i) fun e he =>
    ⟨(h.children e (hseparator e he)).self.shown (hslots.2 e he), hslots.2 e he⟩
  have hothers : (if distinct then [] else xs') = [] := by
    cases distinct with
    | true => rfl
    | false =>
      cases hg.single rfl
      cases hx with
      | cons _ hx =>
        cases hx
        rfl
  obtain ⟨a', hgather⟩ : ∃ a', ∀ s', gatherArgs distinct x' xs' items' s' = a' :: s'.toList := by
    refine ⟨if items'.isEmpty then (if distinct then .distinct (x' :: xs') else x')
      else .order (if distinct then .distinct (x' :: xs') else x') items', fun s' => ?_⟩
    rw [gatherArgs, hothers]
    rfl
  have hname := @bare_of_mem "GROUP_CONCAT" (by decide)
  have hcall : Builtin.generic.dialect.call "GROUP_CONCAT" (a' :: s'.toList) =
      .ok (.groupConcat a' s') := by
    refine (@call_of_some .generic _ _ (function?_name .generic .groupConcat) _).trans ?_
    cases s' <;> rfl
  refine shown_call hname.1 (tokensOf_groupConcat_generic a s) ?_ hcall rfl (fun _ => hname.2)
    fun hf => ?_
  · rw [hg.tokens]
    have hwritten := Written.gathered distinct hx hi
      (by simpa using ends_separatorTokens (i := i) (s := s) (b := .generic) ends_nil) hs
    rw [hgather] at hwritten
    simpa using hwritten
  · obtain ⟨rfl, rfl, rfl⟩ := hfaith (hf.child (by simp [Expr.children]))
    have hsettled := hg.settled
    rw [hgather] at hsettled
    cases hsettled
    rw [Expr.settled_groupConcat, hfs fun e he => hf.child (hseparator e he)]

/-! ## with a comma -/

/-- A `DISTINCT` stands somewhere in the argument. -/
def distinctBelow (a : Expr) : Bool := (a.find? fun e => e.kind = .distinct).isSome

theorem tokensOf_groupConcat_sqlite (a : Expr) (s : Option Expr) :
    tokensOf .sqlite i (.groupConcat a s) =
      .raw "GROUP_CONCAT" :: .lparen :: (distinctTokens (distinctBelow a) ++
        commas ((Style.aggregated a :: s.toList).map (tokensOf .sqlite i)) ++ [.rparen]) := by
  rw [tokensOf_custom (r := .groupConcat) rfl]
  simp only [Renderer.apply, Style.groupConcat]
  rw [← tokens_fragments, ← tokens_commaSeparated]
  unfold distinctTokens distinctBelow
  by_cases hd : (a.find? fun e => e.kind = .distinct).isSome = true <;>
    by_cases ho : a.kind = .order <;>
    simp [hd, ho, Fragment.ofTokens, Fragment.remark]

theorem firstDistinct?_distinct (es : List Expr) :
    Style.firstDistinct? (.distinct es) = some es := by
  rw [Style.firstDistinct?, Expr.find?_eq]
  rfl

theorem firstDistinct?_order (es : List Expr) (items : List (OrderItem Expr)) :
    Style.firstDistinct? (.order (.distinct es) items) = some es := by
  rw [Style.firstDistinct?, Expr.find?_eq, if_neg (by simp [Expr.kind]), Expr.children,
    List.findSome?_cons, Expr.find?_eq]
  rfl

/-- What SQLite aggregates is an expression. -/
theorem aggregated_tier (ha : a.All (Ready b i)) (ht : a.tier b ≤ 9) :
    (Style.aggregated a).tier b ≤ 8 := by
  cases hd : Style.firstDistinct? a with
  | some es =>
    have hready := ha _ (Style.firstDistinct?_mem hd)
    unfold Style.firstDistinct? at hd
    simp only [Style.aggregated, hd]
    cases es with
    | nil => cases hready.sound
    | cons e es =>
      refine hready.clear.1 (8, e) ?_
      cases b <;> exact List.mem_cons_self
  | none =>
    have hfind := hd
    unfold Style.firstDistinct? at hfind
    have hself := ha.self
    cases a with
    | order c items =>
      simp only [Style.aggregated, hfind]
      have hc : Ready b i c := (ha.child (by simp [Expr.children])).self
      refine hc.clear.tier_le (hself.clear.1 (9, c) (by cases b <;> exact List.mem_cons_self)) ?_
      cases c with
      | order c' is => exact absurd rfl (hself.proper.2 c' is)
      | distinct es => rw [firstDistinct?_order] at hd; cases hd
      | _ => rfl
    | distinct es => rw [firstDistinct?_distinct] at hd; cases hd
    | _ =>
      simp only [Style.aggregated, hfind]
      exact hself.clear.tier_le ht rfl

theorem shown_groupConcat_sqlite (h : Prepared .sqlite i (.groupConcat a s)) :
    Shown .sqlite i (.groupConcat a s) := by
  have ha : a.All (Ready .sqlite i) := h.children a (by simp [Expr.children])
  have hslots : a.tier .sqlite ≤ 9 ∧ ∀ e ∈ s, e.tier .sqlite ≤ 8 := by
    have := h.clear.1
    simp only [Expr.slots, Expr.places, Expr.arguments, List.forall_mem_cons, List.forall_mem_map]
      at this
    exact ⟨this.1, fun e he => this.2 e (Option.mem_toList.2 he)⟩
  have hagg : Shown .sqlite i (Style.aggregated a) ∧ (Style.aggregated a).tier .sqlite ≤ 8 :=
    ⟨(ha _ (Style.aggregated_mem a)).shown (aggregated_tier ha hslots.1),
      aggregated_tier ha hslots.1⟩
  have hshown : ∀ e ∈ Style.aggregated a :: s.toList, Shown .sqlite i e ∧ e.tier .sqlite ≤ 8 := by
    rw [List.forall_mem_cons]
    refine ⟨hagg, fun e he => ?_⟩
    have hmem := Option.mem_toList.1 he
    exact ⟨(h.children e (List.mem_cons_of_mem _ he)).self.shown (hslots.2 e hmem),
      hslots.2 e hmem⟩
  obtain ⟨es', hs, -⟩ := listed_of_shown hshown
  have hlength := hs.length_eq
  obtain _ | ⟨hx, hrest⟩ := hs
  rename_i x' xs'
  have hname := @bare_of_mem "GROUP_CONCAT" (by decide)
  obtain ⟨e', he'⟩ : ∃ e', CallKind.groupConcat.build
      (gatherArgs (distinctBelow a) x' xs' [] none) = .ok e' := by
    cases distinctBelow a with
    | true => exact ⟨_, rfl⟩
    | false =>
      rcases xs' with _ | ⟨y, _ | ⟨z, zs⟩⟩
      · exact ⟨_, rfl⟩
      · exact ⟨_, rfl⟩
      · cases s <;> simp at hlength
  refine shown_call hname.1 (tokensOf_groupConcat_sqlite a s) ?_
    ((@call_of_some .sqlite _ _ (function?_name .sqlite .groupConcat) _).trans he') rfl
    (fun _ => hname.2) fun hf => by cases (hf.self : Builtin.sqlite = .generic)
  have hwritten := Written.gathered (distinctBelow a) (.cons hx hrest) .nil (by simp : Ends [])
    (.nil .noSeparator)
  simpa [orderTokens] using hwritten

end SqlDialect
