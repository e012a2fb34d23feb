import Mathlib
import SqlDialect.Dialect.Builtin
import SqlDialect.Dialect.Change
import SqlDialect.Proofs.Grammar.Leaf
import SqlDialect.Proofs.Lexeme.Alone

/-!
# SqlDialect.Proofs.Grammar.Identifier

The names of what is read.

* `Ident.Alone` -- a name that is one lexeme by itself, a word or a keyword that
  is not reserved.
* `identOf?_alone` -- a name without delimiters is such a word already where it
  is read.
* `bare_names_stay_lexemes` -- so are all names without delimiters of all trees.
-/

namespace SqlDialect

open Grammar

variable {d : Dialect} {sql : String} {e : Expr}

/-- A name that a dialect scans, by itself, as one lexeme, which is a word or a
keyword that is not reserved. -/
def Ident.Alone (d : Dialect) (i : Ident) : Prop :=
  ∃ kind, d.scan i.name = .ok [⟨kind, i.name, 0⟩] ∧
    (kind = .word ∨ ∃ k : Keyword, kind = .keyword k ∧ k.isReserved = false)

/-- A name without delimiters is the text of a lexeme that is a word or a keyword
that is not reserved. -/
theorem identOf?_bare {t : Lexeme} {i : Ident} (h : identOf? t = some i)
    (hq : i.quoted = false) :
    i.name = t.text ∧ (t.kind = .word ∨ ∃ k : Keyword, t.kind = .keyword k ∧ k.isReserved = false) := by
  unfold identOf? at h
  split at h
  case h_1 hk =>
    cases h
    exact ⟨rfl, .inl hk⟩
  case h_2 =>
    cases h
    cases hq
  case h_3 k hk =>
    split at h
    case isTrue => cases h
    case isFalse hr =>
      cases h
      exact ⟨rfl, .inr ⟨k, hk, Bool.eq_false_iff.2 hr⟩⟩
  case h_4 => cases h

/-- What a lexeme of a scan stands for, unless it was delimited, is one lexeme by
itself. -/
theorem identOf?_alone {ls : List Lexeme} (hscan : d.scan sql = .ok ls) {t : Lexeme} (ht : t ∈ ls)
    {i : Ident} (h : identOf? t = some i) (hq : i.quoted = false) : i.Alone d := by
  obtain ⟨hname, hkind⟩ := identOf?_bare h hq
  have hbare : t.kind.isBare = true := by
    rcases hkind with hk | ⟨k, hk, -⟩ <;> rw [hk] <;> rfl
  refine ⟨t.kind, ?_, hkind⟩
  rw [hname]
  exact scan_alone hscan t ht hbare

/-- Every name of a tree that is read without delimiters, in a dialect that knows
the usual functions only, is one lexeme when it is scanned by itself, all of it,
and this lexeme is a word or a keyword that is not reserved.  So such a name can
be written as it stands, in whatever dialect it was read, also where marks and
delimiters are letters. -/
theorem bare_names_stay_lexemes (hd : d.UsualFunctions)
    (h : d.parseExpr sql = .ok e ∨ ∃ es, d.parse sql = .ok es ∧ e ∈ es) :
    e.All fun n => ∀ i ∈ n.names, i.quoted = false → i.Alone d := by
  have hmeans {ls us : List Lexeme} (hscan : d.scan sql = .ok ls) (hsub : ∀ t ∈ us, t ∈ ls) :
      Means (fun _ => True) (fun i => i.quoted = false → i.Alone d) us :=
    fun t ht => ⟨fun _ _ => trivial, fun i hi hq => identOf?_alone hscan (hsub t ht) hi hq⟩
  have hleaves : e.Leaves (fun _ => True) fun i => i.quoted = false → i.Alone d := by
    rcases h with h | ⟨es, h, he⟩
    · obtain ⟨ls, hscan, hexpr⟩ := parseExpr_eq_ok_iff.1 h
      exact hexpr.leaves hd (hmeans hscan fun _ ht => ht)
    · obtain ⟨ls, hscan, hs⟩ := parse_sound h
      obtain ⟨us, hsub, hstatement⟩ := hs e he
      exact hstatement.leaves hd (hmeans hscan hsub)
  exact hleaves.imp fun n hn => hn.2

/-- Where integers in base 16 start with `b`, binary strings with `xb` and
delimited identifiers with `q`, a name still starts with `b` unless a digit
comes next, and one that is a keyword there is a name as well. -/
theorem bare_names_stay_lexemes_marked :
    let d := Dialect.generic.applyAll
      [.hexStrings [("b", ""), ("xb", "$")], .identifiers [('q', 'q')], .keyword "all" .NEXT]
    d.check = .ok () ∧ d.UsualFunctions ∧
      d.parseExpr "bx.all" = .ok (.column (some ⟨"bx", false⟩) ⟨"all", false⟩) ∧
      d.parseExpr "b0" = .ok (.literal (.hexNumber "0")) ∧
      Ident.Alone d ⟨"bx", false⟩ ∧ Ident.Alone d ⟨"all", false⟩ := by
  intro d
  have hread : d.parseExpr "bx.all" = .ok (.column (some ⟨"bx", false⟩) ⟨"all", false⟩) := by cbv
  have husual : d.UsualFunctions := Builtin.usualFunctions .generic
  have hnames := (bare_names_stay_lexemes husual (.inl hread)).self
  refine ⟨by cbv, husual, hread, by cbv, hnames _ ?_ rfl, hnames _ ?_ rfl⟩
  · simp [Expr.names]
  · simp [Expr.names]

/-- The dialect with a function `COL` that makes a column of the text that it is
called with. -/
def columnDialect : Dialect :=
  Dialect.generic.applyAll [.function "COL" fun
    | [.literal (.string name)] => .ok (.column none ⟨name, false⟩)
    | args => .ok (.function "COL" args)]

/-- A constructor of one's own may make a name up that was no lexeme, and is none
by itself. -/
theorem constructed_name_splits :
    columnDialect.check = .ok () ∧
      columnDialect.parseExpr "COL('a b')" = .ok (.column none ⟨"a b", false⟩) ∧
      columnDialect.scan "a b" = .ok [⟨.word, "a", 0⟩, ⟨.word, "b", 2⟩] ∧
      ¬ (Expr.column none ⟨"a b", false⟩).All fun n =>
        ∀ i ∈ n.names, i.quoted = false → i.Alone columnDialect := by
  have hscan : columnDialect.scan "a b" = .ok [⟨.word, "a", 0⟩, ⟨.word, "b", 2⟩] := by cbv
  refine ⟨by cbv, by cbv, hscan, fun hall => ?_⟩
  obtain ⟨kind, halone, -⟩ := hall.self ⟨"a b", false⟩ (by simp [Expr.names]) rfl
  rw [hscan] at halone
  simp at halone

end SqlDialect
