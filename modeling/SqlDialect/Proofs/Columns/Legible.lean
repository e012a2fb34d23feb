import SqlDialect.Proofs.Columns.Query
import SqlDialect.Proofs.Rendering.Remarks

/-!
# SqlDialect.Proofs.Columns.Legible

Trees that SQLite prints without remarks, and whose parts stay apart in the
text.

* `Expr.signed` -- the text of a tree starts with a minus sign.
* `Legible` -- a node that was read, can be printed, and keeps its parts apart.
* `undashed_of_legible` -- the text of a tree that is not signed does not fuse with a
  minus sign.
-/

namespace SqlDialect

open Text Grammar Watch

variable {i : Bool} {a c e : Expr} {es : List Expr}

/-! ## nodes -/

/-- SQLite's text of a tree starts with a minus sign. -/
def Expr.signed : Expr → Bool
  | unaryOp .minus _ => true
  | binaryOp _ a _ | like _ a _ | isNull _ a | between _ a _ _ | inList _ a _ | jsonExtract a _
  | jsonExtractScalar a _ | jsonbExtract a _ | jsonbExtractScalar a _ | least [a] | greatest [a]
  | dateStrToDate a | timeStrToTime a => signed a
  | _ => false

/-- The parts of a node stay apart in SQLite's text: no minus sign is put in
front of another one, and what gathers the arguments of a call keeps the call
around it. -/
def Apart : Expr → Prop
  | .unaryOp .minus a => a.signed = false
  | .least [a] | .greatest [a] | .dateStrToDate a | .timeStrToTime a | .jsonExtract a _
  | .jsonExtractScalar a _ | .jsonbExtract a _ | .jsonbExtractScalar a _ => a.gathers = false
  | _ => True

/-- A node that was read, that SQLite prints without a remark, and whose parts
stay apart. -/
structure Legible (e : Expr) : Prop where
  proper : Proper e
  sound : e.fault? = none
  quiet : e.sqliteOwn = []
  single : e.kind ≠ .groupConcat
  apart : Apart e

/-- What gathers no arguments and may be one is an expression. -/
theorem Expr.tier_le_of_gathers (ht : e.tier .generic ≤ 9) (hg : e.gathers = false) :
    e.tier .generic ≤ 8 := by
  rw [tier_generic] at ht ⊢
  cases e with
  | binaryOp op _ _ => exact op.level_bounds.2
  | unaryOp op _ => cases op <;> simp [level]
  | literal v =>
    unfold level
    split <;> simp_all
    split <;> omega
  | distinct | order => cases hg
  | _ => simp_all [level]

/-- The operand of a node that may be the first argument of a call and gathers
nothing. -/
theorem Legible.operand (h : Legible e) {k : Nat} (hp : (k, a) ∈ e.places) (hk : k ≤ 9)
    (hg : a.gathers = false) : a.tier .generic ≤ 8 :=
  Expr.tier_le_of_gathers ((h.proper.1 _ hp).trans hk) hg

/-! ## how a text starts -/

theorem undashed_front {us : List Token}
    (htokens : tokensOf .sqlite i e = tokensOf .sqlite i a ++ us)
    (ha : Undashed (Dialect.sqlite.spell (tokensOf .sqlite i a)).toList) :
    Undashed (Dialect.sqlite.spell (tokensOf .sqlite i e)).toList := by
  rw [htokens, toList_spell_append]
  exact ha.append

theorem undashed_call {name : String} {us : List Token} (hname : Bare name)
    (htokens : tokensOf .sqlite i e = .raw name :: us) :
    Undashed (Dialect.sqlite.spell (tokensOf .sqlite i e)).toList := by
  rw [htokens]
  exact undashed_cons (undashed_word hname.1)

theorem undashed_literal {v : Literal} (hw : Writable (.literal v)) (hv : v.fault? = none) :
    Undashed (Dialect.sqlite.spell (tokensOf .sqlite i (.literal v))).toList := by
  cases v with
  | int n => exact (shown_int (b := .sqlite) hw).start (Nat.zero_le 1) rfl
  | float f =>
    obtain ⟨m, rfl⟩ := finite_of_writable hw hv
    rw [tokensOf_literal]
    exact undashed_cons (undashed_number (numberText_float m))
  | string s => exact (shown_string (b := .sqlite)).start (Nat.zero_le 1) rfl
  | hexString digits =>
    exact (shown_hexString (b := .sqlite) (isHexLiteral_of_fault (.inl rfl) hv)).start
      (Nat.zero_le 1) rfl
  | hexNumber digits =>
    exact (shown_hexNumber_sqlite (isHexLiteral_of_fault (.inr rfl) hv)).start (Nat.zero_le 1) rfl
  | bool value =>
    rw [tokensOf_literal]
    cases value <;> exact undashed_keyword (b := .sqlite)
  | null =>
    rw [tokensOf_literal]
    exact undashed_keyword (b := .sqlite)

theorem undashed_extremum {greatest : Bool} (hne : es ≠ [])
    (hone : ∀ a, es = [a] → Undashed (Dialect.sqlite.spell (tokensOf .sqlite i a)).toList) :
    Undashed (Dialect.sqlite.spell (tokensOf .sqlite i (.extremum greatest es))).toList := by
  have htokens := @tokensOf_extremum .sqlite i greatest es
  rcases es with _ | ⟨a, _ | ⟨c, es⟩⟩
  · exact absurd rfl hne
  · rw [if_neg (by simp)] at htokens
    rw [htokens]
    exact hone a rfl
  · rw [if_pos (.inr (by simp))] at htokens
    refine undashed_call (bare_of_mem ?_).1 htokens
    cases greatest <;> decide

/-- The text of an expression that is not signed does not fuse with a minus sign
in front of it. -/
theorem undashed_of_legible (h : e.All Legible) (ht : e.tier .generic ≤ 8) (hs : e.signed = false) :
    Undashed (Dialect.sqlite.spell (tokensOf .sqlite i e)).toList := by
  induction e using Expr.induction with
  | node e ih =>
    have hself := h.self
    obtain ⟨hplaces, hwritable⟩ := hself.proper
    -- an operand in front of everything else, bound by its place or bare
    have hfront {a : Expr} {us : List Token} {k : Nat}
        (htokens : tokensOf .sqlite i e = tokensOf .sqlite i a ++ us) (hs : a.signed = false)
        (ha : a ∈ e.children) (hp : (k, a) ∈ e.places) (hk : k ≤ 8) :
        Undashed (Dialect.sqlite.spell (tokensOf .sqlite i e)).toList :=
      undashed_front htokens (ih a ha (h.child ha) ((hplaces _ hp).trans hk) hs)
    have hbare {a : Expr} {us : List Token}
        (htokens : tokensOf .sqlite i e = tokensOf .sqlite i a ++ us) (hs : a.signed = false)
        (hg : a.gathers = false) (ha : a ∈ e.children) (hp : (9, a) ∈ e.places) :
        Undashed (Dialect.sqlite.spell (tokensOf .sqlite i e)).toList :=
      undashed_front htokens (ih a ha (h.child ha) (hself.operand hp (by decide) hg) hs)
    have hword {k : Keyword} {us : List Token} (htokens : tokensOf .sqlite i e = .keyword k :: us) :
        Undashed (Dialect.sqlite.spell (tokensOf .sqlite i e)).toList := by
      rw [htokens]
      exact undashed_keyword (b := .sqlite)
    cases e with
    | column t n => exact (shown_column (b := .sqlite) hwritable).start (Nat.zero_le 1) rfl
    | literal v => exact undashed_literal hwritable hself.sound
    | star t => exact (shown_star (b := .sqlite) hwritable).start (Nat.zero_le 1) rfl
    | paren a =>
      rw [tokensOf_paren]
      exact undashed_lparen
    | binaryOp op a c =>
      exact hfront (tokensOf_binaryOp op a c) hs List.mem_cons_self List.mem_cons_self
        op.level_bounds.2
    | unaryOp op a =>
      cases op with
      | not => exact hword (tokensOf_not a)
      | minus => cases hs
    | like n a c =>
      exact hfront (tokensOf_like n a c) hs List.mem_cons_self List.mem_cons_self (by decide)
    | isNull n a =>
      exact hfront (tokensOf_isNull n a) hs List.mem_cons_self List.mem_cons_self (by decide)
    | between n a low high =>
      exact hfront (tokensOf_between n a low high) hs List.mem_cons_self List.mem_cons_self
        (by decide)
    | inList n a es =>
      exact hfront (tokensOf_inList n a es) hs List.mem_cons_self List.mem_cons_self (by decide)
    | caseWhen o ws c => exact hword (tokensOf_caseWhen o ws c)
    | cast a t => exact hword ((tokensOf_base rfl).trans (tokens_cast ..))
    | function name es => exact undashed_call hwritable.1 (tokensOf_function name es)
    | dateAdd a n u =>
      exact undashed_call (bare_of_mem (by decide)).1 (tokensOf_dateAdd_sqlite a n u)
    | least es =>
      refine @undashed_extremum i es false (by rintro rfl; cases hself.sound) fun a hes => ?_
      subst hes
      exact ih a List.mem_cons_self (h.child List.mem_cons_self)
        (hself.operand List.mem_cons_self (by decide) hself.apart) hs
    | greatest es =>
      refine @undashed_extremum i es true (by rintro rfl; cases hself.sound) fun a hes => ?_
      subst hes
      exact ih a List.mem_cons_self (h.child List.mem_cons_self)
        (hself.operand List.mem_cons_self (by decide) hself.apart) hs
    | levenshtein es => exact undashed_call (bare_of_mem (by decide)).1 (tokensOf_levenshtein es)
    | jsonExtract a p =>
      exact hbare (tokensOf_extraction_sqlite false false a p) hs hself.apart List.mem_cons_self
        List.mem_cons_self
    | jsonExtractScalar a p =>
      exact hbare (tokensOf_extraction_sqlite false true a p) hs hself.apart List.mem_cons_self
        List.mem_cons_self
    | jsonbExtract a p =>
      exact hbare (tokensOf_extraction_sqlite true false a p) hs hself.apart List.mem_cons_self
        List.mem_cons_self
    | jsonbExtractScalar a p =>
      exact hbare (tokensOf_extraction_sqlite true true a p) hs hself.apart List.mem_cons_self
        List.mem_cons_self
    | dateStrToDate a =>
      have htokens := tokensOf_conversion_sqlite (i := i) false a
      rw [← List.append_nil (tokensOf .sqlite i a)] at htokens
      exact hbare htokens hs hself.apart List.mem_cons_self List.mem_cons_self
    | timeStrToTime a =>
      have htokens := tokensOf_conversion_sqlite (i := i) true a
      rw [← List.append_nil (tokensOf .sqlite i a)] at htokens
      exact hbare htokens hs hself.apart List.mem_cons_self List.mem_cons_self
    | groupConcat => exact absurd rfl hself.single
    | ilike | tryCast => cases hself.quiet
    | _ => simp [Expr.level] at ht

end SqlDialect
