import SqlDialect.Proofs.Grammar.Proper

/-!
# SqlDialect.Proofs.Grammar.Inversion

From a tree back to the lexemes that it was read from.

* `Spelled`, `Derives.spelled` -- a column or a literal is a lexeme or three, and
  a moved date is a call.
* `Derives.leaf_split` -- so a leaf is read from the same lexemes in any way.
* `Derives.args_cons`, `Derives.args_three` -- the lexemes of arguments, taken
  apart.
-/

namespace SqlDialect

/-- A column or a literal. -/
def Expr.isLeaf : Expr → Bool
  | column .. | literal _ => true
  | _ => false

theorem Expr.kind_of_isLeaf {e : Expr} (h : e.isLeaf = true) : e.kind ∉ [.distinct, .order] := by
  cases e <;> first
    | exact absurd h Bool.false_ne_true
    | simp [Expr.kind]

/-- The number of lexemes of a leaf. -/
def Expr.width : Expr → Nat
  | column (some _) _ => 3
  | _ => 1

namespace Grammar

variable {d : Dialect} {e a b c : Expr} {es : List Expr} {ls : List Lexeme}

/-! ## single lexemes -/

/-- A delimited name is the name of one lexeme only. -/
theorem kind_of_quoted {t : Lexeme} {name : String} (h : identOf? t = some ⟨name, true⟩) :
    t.kind = .quotedIdent name := by
  unfold identOf? at h
  split at h
  case h_2 hk =>
    cases h
    exact hk
  all_goals simp_all

/-- A text is the value of one lexeme only. -/
theorem kind_of_string {t : Lexeme} {v : String} (h : literalOf? t = some (.string v)) :
    t.kind = .string v := by
  unfold literalOf? at h
  split at h
  case h_1 =>
    unfold numberOf at h
    dsimp only at h
    split at h
    · cases h
    · split at h <;> cases h
  case h_2 hk =>
    cases h
    exact hk
  all_goals cases h

/-! ## leaves and moved dates -/

/-- How a column, a literal or a moved date stands in lexemes. -/
def Spelled (d : Dialect) : Expr → List Lexeme → Prop
  | .column none i, ls => ∃ t, ls = [t] ∧ identOf? t = some i
  | .column (some _) _, ls => ls.length = 3
  | .literal v, ls => ∃ t, ls = [t] ∧ literalOf? t = some v
  | .dateAdd a n unit, ls => ∃ t u v i es us, ls = t :: u :: us ++ [v] ∧ identOf? t = some i ∧
      Derives d (.args es) us ∧ d.call i.name es = .ok (.dateAdd a n unit)
  | _, _ => True

theorem Spelled.length (h : Spelled d e ls) (he : e.isLeaf = true) : ls.length = e.width := by
  cases e with
  | column t i =>
    cases t with
    | none =>
      obtain ⟨t, rfl, -⟩ := h
      rfl
    | some => exact h
  | literal v =>
    obtain ⟨t, rfl, -⟩ := h
    rfl
  | _ => cases he

/-- Every other node. -/
theorem spelled_other (h : e.kind ∉ [.column, .literal, .dateAdd]) : Spelled d e ls := by
  cases e <;> first
    | trivial
    | simp [Expr.kind] at h

/-- How the trees of a phrase stand in lexemes. -/
def Phrase.Spelled (d : Dialect) : Phrase → List Lexeme → Prop
  | .expr _ e, ls => Grammar.Spelled d e ls
  | .test _ e, _ => e.kind ∉ [.column, .literal, .dateAdd]
  | _, _ => True

/-- A call is no leaf. -/
theorem kind_of_call (hd : d.UsualFunctions) {name : String} (h : d.call name es = .ok e) :
    e.kind ∉ [.column, .literal] := by
  rcases hd.call_cases name es with ⟨k, hk⟩ | hplain
  · rw [hk] at h
    unfold CallKind.build at h
    split at h
    case h_7 => split at h <;> cases h; simp [Expr.kind]
    case h_18 => cases h
    all_goals cases h; simp [Expr.kind]
  · rw [hplain] at h
    cases h
    simp [Expr.kind]

theorem Derives.spelled (hd : d.UsualFunctions) {p : Phrase} (h : Derives d p ls) : p.Spelled d ls := by
  induction h with
  | literal ht => exact ⟨_, rfl, ht⟩
  | column ht => exact ⟨_, rfl, ht⟩
  | columnOf => exact rfl
  | @call t u v i es e ls ht _ _ hs _ he =>
    have hkind := kind_of_call hd he
    cases e with
    | dateAdd a n unit => exact ⟨t, u, v, i, es, ls, rfl, ht, hs, he⟩
    | column | literal => simp [Expr.kind] at hkind
    | _ => trivial
  | cast _ hk =>
    unfold castOf? at hk
    split at hk <;> cases hk <;> trivial
  | @binary t k make a c _ _ _ ht =>
    rcases operatorAt?_shape ht a c with ⟨op, hmake, -⟩ | ⟨-, hmake | hmake⟩ <;>
      exact spelled_other (by simp [hmake, Expr.kind])
  | tested _ _ _ ih => exact spelled_other ih
  | lift _ _ ih => exact ih
  | compare | like | ilike | between | inList | isNull => simp [Phrase.Spelled, Expr.kind]
  | _ => trivial

/-- A leaf in front of lexemes takes as many of them in any other way to read
it. -/
theorem Derives.leaf_split (hd : d.UsualFunctions) {k k' : Nat} {ls₁ ls₁' ls₂ ls₂' : List Lexeme}
    (h : Derives d (.expr k e) ls₁) (h' : Derives d (.expr k' e) ls₁') (he : e.isLeaf = true)
    (heq : ls₁ ++ ls₂ = ls₁' ++ ls₂') : ls₁ = ls₁' ∧ ls₂ = ls₂' :=
  List.append_inj heq (((h.spelled hd).length he).trans ((h'.spelled hd).length he).symm)

/-! ## lists -/

theorem Derives.exprs_cons (h : Derives d (.exprs (a :: b :: es)) ls) :
    ∃ ls₁ t ls₂, ls = ls₁ ++ t :: ls₂ ∧ t.kind = .comma ∧ Derives d (.expr 8 a) ls₁ ∧
      Derives d (.exprs (b :: es)) ls₂ := by
  cases h with
  | exprsMore ha ht hs => exact ⟨_, _, _, rfl, ht, ha, hs⟩

theorem Derives.exprs_singleton (h : Derives d (.exprs [a]) ls) : Derives d (.expr 8 a) ls := by
  cases h with
  | exprsOne ha => exact ha
  | exprsMore _ _ hs => cases hs

/-- Arguments that gather nothing under the first one are a list, and perhaps a
separator behind it. -/
theorem Derives.args_cons (h : Derives d (.args (a :: es)) ls)
    (ha : a.kind ∉ [.distinct, .order]) :
    ∃ others s ls₁ ls₂, es = others ++ s.toList ∧ ls = ls₁ ++ ls₂ ∧
      Derives d (.exprs (a :: others)) ls₁ ∧ Derives d (.separator s) ls₂ := by
  generalize hp : Phrase.args (a :: es) = p at h
  cases h with
  | @args distinct first others items s ls₀ ls₁ ls₂ ls₃ hd he ho hs =>
    simp only [Phrase.args.injEq, gatherArgs, List.cons.injEq] at hp
    obtain ⟨hhead, htail⟩ := hp
    cases items with
    | cons i is => simp [hhead, Expr.kind] at ha
    | nil =>
      cases distinct with
      | true => simp [hhead, Expr.kind] at ha
      | false =>
        cases hd
        have hls₂ : ls₂ = [] := by
          cases ho with
          | noOrderBy => rfl
          | orderBy _ _ hi => cases hi
        subst hls₂
        obtain rfl : a = first := hhead
        exact ⟨others, s, ls₁, ls₃, htail, by simp, he, hs⟩
  | _ => cases hp

/-- Three arguments have a lexeme between the first two, and one between the
last two: another comma, or the word in front of a separator. -/
theorem Derives.args_three (h : Derives d (.args [a, b, c]) ls) (ha : a.kind ∉ [.distinct, .order]) :
    ∃ ls₁ t ls₂ u ls₃, ls = ls₁ ++ t :: (ls₂ ++ u :: ls₃) ∧ Derives d (.expr 8 a) ls₁ ∧
      Derives d (.expr 8 b) ls₂ ∧ Derives d (.expr 8 c) ls₃ := by
  obtain ⟨others, s, ls₁, ls₂, hes, rfl, hexprs, hsep⟩ := h.args_cons ha
  cases others with
  | nil => cases s <;> simp at hes
  | cons b' others =>
    obtain ⟨rfl, hrest⟩ : b = b' ∧ [c] = others ++ s.toList := by simpa using hes
    obtain ⟨as, t, bs, rfl, -, has, hbs⟩ := hexprs.exprs_cons
    cases others with
    | nil =>
      obtain rfl : s = some c := by simpa using Option.toList_eq_singleton_iff.1 hrest.symm
      cases hsep with
      | @separator u _ cs _ _ hcs =>
        exact ⟨as, t, bs, u, cs, by simp, has, hbs.exprs_singleton, hcs⟩
    | cons c' others =>
      obtain ⟨rfl, rfl, rfl⟩ : c = c' ∧ others = [] ∧ s = none := by simpa using hrest
      obtain ⟨bs', u, cs, rfl, -, hbs, hcs⟩ := hbs.exprs_cons
      cases hsep
      exact ⟨as, t, bs', u, cs, by simp, has, hbs, hcs.exprs_singleton⟩

end Grammar

end SqlDialect
