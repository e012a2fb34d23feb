import Mathlib
import SqlDialect.Proofs.Grammar.Inversion
import SqlDialect.Proofs.Lexeme.Quoting
import SqlDialect.Proofs.Rendering.Generic

/-!
# SqlDialect.Proofs.Rendering.DateUnit

The unit by which a date is moved, printed and read again.

A unit is read from a word, a delimited name or a string, and is printed as it
is, in upper case.

* `front_written`, `unit_lexeme` -- a printed call in front of its unit, and what
  has to stand there for the call to be read again.
* `Layout.text_lt` -- a lexeme in front of another one is shorter than the text:
  there is no room for delimiters around a unit.
* `date_unit_kept` -- the call is read again where the unit is a bare name, and
  nowhere else.
-/

namespace SqlDialect

open Text Grammar

variable {a n e : Expr} {unit : Option String} {u : String}

/-! ## operands -/

/-- A column or an integer. -/
def Expr.isTerm : Expr → Bool
  | column .. | literal (.int _) => true
  | _ => false

theorem Expr.isTerm_iff : e.isTerm = true ↔
    (∃ t i, e = column t i) ∨ ∃ m, e = literal (.int m) := by
  unfold isTerm
  split <;> simp_all

theorem Expr.isLeaf_of_isTerm (h : e.isTerm = true) : e.isLeaf = true := by
  rcases isTerm_iff.1 h with ⟨t, i, rfl⟩ | ⟨m, rfl⟩ <;> rfl

/-- Columns and integers are read again as they were. -/
theorem loose_of_isTerm (h : e.isTerm = true) (hp : Proper e) :
    Loose .generic (tokensOf .generic false e) e := by
  have hshown : Shown .generic false e ∧ e.tier .generic ≤ 8 ∧ e.All (Faithful .generic) := by
    rcases Expr.isTerm_iff.1 h with ⟨t, i, rfl⟩ | ⟨m, rfl⟩
    · exact ⟨shown_column hp.2, Nat.zero_le 8, Expr.all_iff.2 ⟨trivial, by simp [Expr.children]⟩⟩
    · have htier : (Expr.literal (.int m)).tier .generic ≤ 1 := by
        rw [Expr.tier_generic]
        exact level_literal (.int m)
      exact ⟨shown_int hp.2, Nat.le_trans htier (by decide),
        Expr.all_iff.2 ⟨trivial, by simp [Expr.children]⟩⟩
  obtain ⟨hshown, htier, hfaithful⟩ := hshown
  obtain ⟨e', hloose, hsame⟩ := hshown.loose htier
  obtain rfl := hsame hfaithful
  rwa [Expr.settled_generic, Expr.marked_false] at hloose

/-! ## in front of the unit -/

/-- The pieces of a call that moves a date, up to the comma in front of the
unit. -/
def frontTokens (a n : Expr) : List Token :=
  Token.raw "DATE_ADD" :: Token.lparen ::
    (tokensOf .generic false a ++
      Token.comma :: Token.space :: (tokensOf .generic false n ++ [Token.comma]))

theorem tokensOf_dateAdd_some (a n : Expr) (u : String) :
    tokensOf .generic false (.dateAdd a n (some u)) =
      frontTokens a n ++ [Token.space, Token.raw (upper u), Token.rparen] := by
  rw [tokensOf_dateAdd_generic]
  simp [unitTokens, commas, frontTokens]

theorem front_written (ha : Loose .generic (tokensOf .generic false a) a)
    (hn : Loose .generic (tokensOf .generic false n) n) :
    Written .generic (frontTokens a n) fun ls => ∃ t v c₁ c₂ las lns,
      ls = t :: v :: (las ++ c₁ :: (lns ++ [c₂])) ∧ identOf? t = some ⟨"DATE_ADD", false⟩ ∧
        Derives .generic (.expr 8 a) las ∧ Derives .generic (.expr 8 n) lns := by
  have hname := (@bare_of_mem "DATE_ADD" (by decide)).1
  refine .word hname.1 (by simp) fun t ht htext => ?_
  refine .lparen fun v _ => ?_
  refine Written.append ha (by simp) fun las hlas => ?_
  refine .comma fun c₁ _ => .space ?_
  refine Written.append hn (by simp) fun lns hlns => ?_
  refine .comma fun c₂ _ => .nil ?_
  exact ⟨t, v, c₁, c₂, las, lns, rfl, hname.identOf? ht htext, hlas, hlns⟩

/-! ## behind it -/

theorem build_dateAdd {es : List Expr}
    (h : CallKind.dateAdd.build es = .ok (.dateAdd a n (some u))) :
    ∃ x, es = [a, n, x] ∧ CallKind.unit? x = some u := by
  rcases es with _ | ⟨b, _ | ⟨c, _ | ⟨x, _ | ⟨y, es⟩⟩⟩⟩
  case cons.cons.cons.nil =>
    rw [CallKind.build] at h
    split at h
    case h_1 v hunit =>
      cases h
      exact ⟨x, rfl, hunit⟩
    case h_2 => cases h
  all_goals cases h

/-- A lexeme that names a unit: an identifier or a string. -/
def NamesUnit (u : String) (w : Lexeme) : Prop :=
  (∃ quoted, identOf? w = some ⟨u, quoted⟩) ∨ literalOf? w = some (.string u)

theorem unit_spelled {x : Expr} {ls : List Lexeme} (hx : CallKind.unit? x = some u)
    (h : Derives .generic (.expr 8 x) ls) : ∃ w, ls = [w] ∧ NamesUnit u w := by
  have hspelled := h.spelled (Builtin.usualFunctions .generic)
  unfold CallKind.unit? at hx
  split at hx <;> cases hx
  case h_1 i =>
    obtain ⟨w, rfl, hw⟩ := hspelled
    exact ⟨w, rfl, .inl ⟨_, hw⟩⟩
  case h_2 =>
    obtain ⟨w, rfl, hw⟩ := hspelled
    exact ⟨w, rfl, .inr hw⟩

/-- Behind the front of a call that moves a date by a unit stand a lexeme that
names the unit and another one. -/
theorem unit_lexeme {t v c₁ c₂ : Lexeme} {las lns rest : List Lexeme}
    (h : Derives .generic (.expr 8 (.dateAdd a n (some u)))
      (t :: v :: (las ++ c₁ :: (lns ++ [c₂])) ++ rest))
    (ht : identOf? t = some ⟨"DATE_ADD", false⟩) (ha : Derives .generic (.expr 8 a) las)
    (hn : Derives .generic (.expr 8 n) lns) (hla : a.isLeaf = true) (hln : n.isLeaf = true) :
    ∃ w w', rest = [w, w'] ∧ NamesUnit u w := by
  have husual := Builtin.usualFunctions .generic
  obtain ⟨t', v', w', i, es, us, hls, ht', hargs, hcall⟩ := h.spelled husual
  simp only [List.cons_append, List.append_assoc, List.cons.injEq, List.nil_append] at hls
  obtain ⟨rfl, -, hls⟩ := hls
  obtain rfl : ⟨"DATE_ADD", false⟩ = i := Option.some.inj (ht.symm.trans ht')
  have hfunction : Builtin.generic.function? "DATE_ADD" = some .dateAdd :=
    function?_name .generic .dateAdd
  obtain ⟨x, rfl, hx⟩ := build_dateAdd ((@call_of_some .generic _ _ hfunction es).symm.trans hcall)
  -- leaves have as many lexemes as in the front, so the unit starts where the front ends
  obtain ⟨as, c, ns, c', xs, rfl, has, hns, hxs⟩ := hargs.args_three (Expr.kind_of_isLeaf hla)
  simp only [List.append_assoc, List.cons_append] at hls
  obtain ⟨-, hbehind⟩ := ha.leaf_split husual has hla hls
  obtain ⟨-, hbehind⟩ := hn.leaf_split husual hns hln (List.cons.inj hbehind).2
  obtain ⟨w, rfl, hw⟩ := unit_spelled hx hxs
  exact ⟨w, w', (List.cons.inj hbehind).2, hw⟩

/-! ## no room for delimiters -/

/-- A lexeme in front of another one is shorter than the text. -/
theorem Layout.text_lt {offset : Nat} {cs : List Char} {t v : Lexeme} {ls : List Lexeme}
    (h : Layout offset cs (t :: v :: ls)) : t.text.toList.length < cs.length := by
  cases h with
  | lexeme _ _ _ hrest =>
    cases hrest with
    | lexeme _ hne =>
      have hpos : 0 < v.text.toList.length := by
        rw [List.length_pos_iff]
        exact fun hnil => hne (String.toList_inj.1 hnil)
      simp only [List.length_append]
      omega

theorem length_le_doubled (closing : Char) (cs : List Char) :
    cs.length ≤ (doubled closing cs).length := by
  induction cs with
  | nil => exact Nat.zero_le _
  | cons c cs ih =>
    rw [doubled]
    split <;> simp only [List.length_cons] <;> omega

theorem length_quoteWith (opening closing : Char) (s : String) :
    s.toList.length + 2 ≤ (quoteWith opening closing s).toList.length := by
  have := length_le_doubled closing s.toList
  rw [toList_quoteWith]
  simp only [List.length_cons, List.length_append, List.length_nil]
  omega

/-- A lexeme that names a unit without room for delimiters is the unit as a bare
name. -/
theorem NamesUnit.bare {b : Builtin} {w : Lexeme} (h : NamesUnit u w)
    (hg : Genuine b.dialect w) (henclosed : Enclosed b.dialect w)
    (hlt : w.text.toList.length < u.toList.length + 2) : Bare u := by
  unfold Enclosed at henclosed
  rcases h with ⟨quoted, hident⟩ | hstring
  · refine (identOf?_named hg hident).resolve_left fun hquoted => ?_
    obtain rfl : quoted = true := hquoted
    rw [kind_of_quoted hident] at henclosed
    obtain ⟨q, -, htext⟩ := henclosed
    rw [htext] at hlt
    exact absurd (length_quoteWith q.1 q.2 u) (Nat.not_le_of_lt hlt)
  · rw [kind_of_string hstring] at henclosed
    rw [henclosed] at hlt
    exact absurd (length_quoteWith '\x27' '\x27' u) (Nat.not_le_of_lt hlt)

/-! ## the call -/

/-- A call that moves a date and is read again has a bare name for a unit. -/
theorem bare_of_parseExpr (ha : Loose .generic (tokensOf .generic false a) a)
    (hn : Loose .generic (tokensOf .generic false n) n) (hla : a.isLeaf = true)
    (hln : n.isLeaf = true)
    (h : Builtin.generic.dialect.parseExpr (Builtin.generic.dialect.spell
      (tokensOf .generic false (.dateAdd a n (some u)))) = .ok (.dateAdd a n (some (upper u)))) :
    Bare (upper u) := by
  rw [tokensOf_dateAdd_some] at h
  obtain ⟨ls, hscan, hd⟩ := parseExpr_eq_ok_iff.1 h
  obtain ⟨front, behind, offset, rfl, ⟨t, v, c₁, c₂, las, lns, rfl, ht, hlas, hlns⟩, hbehind⟩ :=
    (front_written ha hn).split (by simp) hscan
  obtain ⟨w, w', rfl, hw⟩ := unit_lexeme hd ht hlas hlns hla hln
  have hlt := (scanFrom_layout hbehind).text_lt
  have hmem : w ∈ t :: v :: (las ++ c₁ :: (lns ++ [c₂])) ++ [w, w'] := by simp
  have hgenuine := scan_genuine hscan w hmem
  have henclosed := scan_enclosed hscan w hmem
  refine hw.bare hgenuine henclosed ?_
  have hroom : (Builtin.generic.dialect.spell [.space, .raw (upper u), .rparen]).toList.length =
      (upper u).toList.length + 2 := by
    simp [Dialect.spell, Token.text]
  rwa [hroom] at hlt

/-- A call that moves a date is read again where its unit is a bare name. -/
theorem loose_dateAdd (ha : Loose .generic (tokensOf .generic false a) a)
    (hn : Loose .generic (tokensOf .generic false n) n) (hunit : ∀ u ∈ unit, Bare (upper u)) :
    Loose .generic (tokensOf .generic false (.dateAdd a n unit))
      (.dateAdd a n (unit.map upper)) := by
  obtain ⟨args', hargs, hcall⟩ := moved_arguments ha hn fun u hu => hunit u hu
  have hname := (@bare_of_mem "DATE_ADD" (by decide)).1
  rw [tokensOf_dateAdd_generic]
  exact (written_call hname hargs hcall).imp fun ls h =>
    h.1.raise (Nat.zero_le 8) (Nat.le_refl 8)

/-- A column or an integer can be printed. -/
theorem Expr.wellFormed_of_isTerm (h : e.isTerm = true) : e.WellFormed := by
  rcases isTerm_iff.1 h with ⟨t, i, rfl⟩ | ⟨m, rfl⟩ <;>
    exact .node rfl fun c hc => by cases hc

/-- A column or an integer is printed without remarks. -/
theorem diagnostics_of_isTerm (h : e.isTerm = true) :
    ((style .generic false).fragment e).diagnostics = [] := by
  rw [fragment_generic]
  rcases Expr.isTerm_iff.1 h with ⟨t, i, rfl⟩ | ⟨m, rfl⟩
  · exact Style.diagnostics_qualified t i
  · rfl

/-- A call that moves a column or an integer by another one is printed without
remarks by the base dialect, and is read again with the unit in upper case where
that is a bare name, and nowhere else. -/
theorem date_unit_kept {sql : String} (level : UnsupportedLevel)
    (h : Dialect.generic.parseExpr sql = .ok (.dateAdd a n unit)) (ha : a.isTerm = true)
    (hn : n.isTerm = true) :
    ∃ r, (Expr.dateAdd a n unit).render .generic ⟨level, false⟩ = .ok r ∧ r.diagnostics = [] ∧
      (Dialect.generic.parseExpr r.sql = .ok (.dateAdd a n (unit.map upper)) ↔
        ∀ u ∈ unit, Bare (upper u)) := by
  have hterms : ∀ c ∈ (Expr.dateAdd a n unit).children, c.isTerm = true := by
    simp [Expr.children, ha, hn]
  have hproper := (@parseExpr_proper .generic _ _ h).1
  have hloose : ∀ c ∈ (Expr.dateAdd a n unit).children,
      Loose .generic (tokensOf .generic false c) c := fun c hc =>
    loose_of_isTerm (hterms c hc) (hproper.child hc).self
  have hla := hloose a (by simp [Expr.children])
  have hln := hloose n (by simp [Expr.children])
  have hwell : (Expr.dateAdd a n unit).WellFormed :=
    .node rfl fun c hc => Expr.wellFormed_of_isTerm (hterms c hc)
  have hquiet : ((style .generic false).fragment (.dateAdd a n unit)).diagnostics = [] := by
    rw [fragment_generic, Style.diagnostics_base]
    exact List.flatMap_eq_nil_iff.2 fun c hc => diagnostics_of_isTerm (hterms c hc)
  refine ⟨_, hwell.render_quiet hquiet, rfl, fun hread => ?_, fun hunit => ?_⟩
  · rintro u ⟨⟩
    exact bare_of_parseExpr hla hln (Expr.isLeaf_of_isTerm ha) (Expr.isLeaf_of_isTerm hn) hread
  · exact (loose_dateAdd hla hln hunit).parseExpr

/-- A column moved by one of a unit. -/
def movedDate (unit : String) : Expr :=
  .dateAdd (.column none ⟨"d", false⟩) (.literal (.int 1)) (some unit)

theorem date_unit_kept_day :
    Dialect.generic.parseExpr "DATE_ADD(d, 1, 'day')" = .ok (movedDate "day") ∧
      (Expr.column none ⟨"d", false⟩).isTerm = true ∧
      (Expr.literal (.int 1)).isTerm = true ∧
      ∃ r, (movedDate "day").render .generic ⟨.raise, false⟩ = .ok r ∧
        Dialect.generic.parseExpr r.sql = .ok (movedDate "DAY") := by
  have hread : Dialect.generic.parseExpr "DATE_ADD(d, 1, 'day')" = .ok (movedDate "day") := by cbv
  have hupper : upper "day" = "DAY" := by decide
  have hbare : Bare "DAY" := by decide
  obtain ⟨r, hrender, -, hagain⟩ := date_unit_kept .raise hread rfl rfl
  simp only [Option.map_some, Option.mem_some_iff, forall_eq', hupper] at hagain
  exact ⟨hread, rfl, rfl, r, hrender, hagain.2 hbare⟩

/-- The text of a unit is no text any more when it is printed. -/
example :
    Dialect.generic.parseExpr "DATE_ADD(d, 1, 'day) or (x')" = .ok (movedDate "day) or (x") ∧
      (movedDate "day) or (x").render .generic {} = .ok ⟨"DATE_ADD(d, 1, DAY) OR (X)", []⟩ ∧
      Dialect.generic.parseExpr "DATE_ADD(d, 1, DAY) OR (X)" =
        .ok (.binaryOp .or (movedDate "DAY") (.paren (.column none ⟨"X", false⟩))) := by
  refine ⟨?_, ?_, ?_⟩ <;> cbv

end SqlDialect
