import Mathlib
import SqlDialect.Dialect.Builtin
import SqlDialect.Dialect.Change
import SqlDialect.Proofs.Grammar.Complaint
import SqlDialect.Proofs.Lexeme.Layout

/-!
# SqlDialect.Proofs.Grammar.Pointing

Complaints point into the text that is complained about.

* `ParseError.PointsInto` -- the offset of a complaint is in front of a character
  of the text, and what the complaint names stands there.
* `scan_pointsInto`, `parse_pointsInto`, `parseExpr_pointsInto` -- so it is for
  every complaint of the scan, and for every one of the grammar, which is about
  a lexeme that the scan laid out.
* `complaints_point_at_source` -- the three together.
-/

namespace SqlDialect

open Grammar Text

variable {d : Dialect} {sql : String} {ls : List Lexeme} {e : ParseError}

/-- A complaint points into a text: its offset, if it has one, is in front of a
character, and the text behind it is as the complaint says. -/
def ParseError.PointsInto (d : Dialect) (sql : String) (e : ParseError) : Prop :=
  ∀ offset ∈ e.offset?, String.Pos.Raw.IsValid sql ⟨offset⟩ ∧ offset < sql.utf8ByteSize ∧
    ∃ pre post, sql.toList = pre ++ post ∧ offset = byteLength pre ∧ e.Marks d post

/-- A complaint about what stands behind the front of a text points into it. -/
theorem ParseError.PointsInto.of_split {pre post : List Char} (hsplit : sql.toList = pre ++ post)
    (hne : post ≠ []) (hoffset : e.offset? = some (byteLength pre)) (hmarks : e.Marks d post) :
    e.PointsInto d sql := by
  intro offset ho
  obtain rfl : byteLength pre = offset := by simpa [hoffset] using ho
  refine ⟨isValid_of_append hsplit, ?_, pre, post, hsplit, rfl, hmarks⟩
  have hpos : 0 < byteLength post := by
    obtain ⟨c, cs, rfl⟩ := List.exists_cons_of_ne_nil hne
    exact byteLength_cons_pos c cs
  rw [← byteLength_toList, hsplit, byteLength_append]
  omega

/-- A lexeme that is laid out has a text. -/
theorem Layout.text_ne {offset : Nat} {cs : List Char} (h : Layout offset cs ls) :
    ∀ t ∈ ls, t.text.toList ≠ [] := by
  induction h with
  | last => simp
  | lexeme _ hne _ _ ih =>
    rw [List.forall_mem_cons]
    exact ⟨fun hnil => hne (String.toList_eq_nil_iff.1 hnil), ih⟩

/-- A complaint about a lexeme of a scan points into the text. -/
theorem Grammar.About.pointsInto (hscan : d.scan sql = .ok ls) (h : About ls e) :
    e.PointsInto d sql := by
  have hlayout := scanFrom_layout hscan
  have hplace {t : Lexeme} (ht : t ∈ ls) : ∃ pre post, sql.toList = pre ++ post ∧ post ≠ [] ∧
      t.offset = byteLength pre ∧ t.text.toList <+: post := by
    obtain ⟨pre, post, hsplit, hoffset⟩ := hlayout.split t ht
    refine ⟨pre, t.text.toList ++ post, by rw [hsplit, List.append_assoc], ?_, ?_,
      List.prefix_append _ _⟩
    · exact List.append_ne_nil_of_left_ne_nil (hlayout.text_ne t ht) post
    · rw [hoffset, Nat.zero_add]
  cases h with
  | token ht =>
    obtain ⟨pre, post, hsplit, hne, hoffset, htext⟩ := hplace ht
    exact .of_split hsplit hne (congrArg some hoffset) htext
  | number ht =>
    obtain ⟨pre, post, hsplit, hne, hoffset, htext⟩ := hplace ht
    exact .of_split hsplit hne (congrArg some hoffset) htext
  | nowhere he =>
    intro offset ho
    rw [he] at ho
    cases ho

/-- A complaint of the scan points into the text. -/
theorem scan_pointsInto (h : d.scan sql = .error e) : e.PointsInto d sql := by
  obtain ⟨pre, post, hsplit, hne, hoffset, hmarks⟩ := scanFrom_complaint h
  rw [Nat.zero_add] at hoffset
  exact .of_split hsplit hne hoffset hmarks

section

variable (hd : d.UsualFunctions)
include hd

/-- A complaint about a script is one of the scan or about a lexeme. -/
theorem parse_pointsInto (h : d.parse sql = .error e) : e.PointsInto d sql := by
  unfold Dialect.parse at h
  cases hscan : d.scan sql with
  | error f =>
    rw [hscan] at h
    cases h
    exact scan_pointsInto hscan
  | ok ls =>
    rw [hscan] at h
    exact (script_about hd ls (List.Subset.refl ls) e h).pointsInto hscan

/-- A complaint about an expression is one of the scan or about a lexeme; the
last one is that something is left. -/
theorem parseExpr_pointsInto (h : d.parseExpr sql = .error e) : e.PointsInto d sql := by
  unfold Dialect.parseExpr at h
  cases hscan : d.scan sql with
  | error f =>
    rw [hscan] at h
    cases h
    exact scan_pointsInto hscan
  | ok ls =>
    obtain ⟨herror, hok⟩ := expression_fair hd .loose ls (List.Subset.refl ls)
    rw [hscan] at h
    simp only [bind, Except.bind] at h
    cases hread : expression d .loose ls with
    | error f =>
      rw [hread] at h
      cases h
      exact (herror e hread).pointsInto hscan
    | ok r =>
      have hrest := hok r hread
      rw [hread] at h
      obtain ⟨a, rest, hlt⟩ := r
      cases rest with
      | nil => cases h
      | cons t rest =>
        cases h
        exact (unexpected_about .endOfInput hrest).pointsInto hscan

end

/-- Whatever the scan of any dialect complains about stands in the text, and so
does what the reading of a script or of an expression complains about where the
dialect knows the usual functions only: the offset, wherever there is one, is
between two characters of the text or at its start, and the text behind it starts
with the character, number or lexeme that the complaint names, with a mark that it
says is not closed, or with a mark and the digits between it and the closing one. -/
theorem complaints_point_at_source
    (h : d.scan sql = .error e ∨
      d.UsualFunctions ∧ (d.parse sql = .error e ∨ d.parseExpr sql = .error e)) :
    e.PointsInto d sql := by
  rcases h with hscan | ⟨hd, hscript | hexpr⟩
  · exact scan_pointsInto hscan
  · exact parse_pointsInto hd hscript
  · exact parseExpr_pointsInto hd hexpr

/-- Behind characters of several bytes: a mark of a dialect, digits that are none,
and a lexeme that stands behind a `NOT` that is looked past. -/
theorem complaints_point_at_source_wide :
    let d := Dialect.generic.applyAll [.hexStrings [("é«", "»")]]
    d.check = .ok () ∧ d.UsualFunctions ∧
      d.scan "'ü' é«0g»" = .error (.invalidHexString "0g" 5) ∧
      (ParseError.invalidHexString "0g" 5).PointsInto d "'ü' é«0g»" ∧
      d.parseExpr "'ü' NOT IN x" = .error (.unexpectedToken "x" .openParen 12) ∧
      (ParseError.unexpectedToken "x" .openParen 12).PointsInto d "'ü' NOT IN x" := by
  intro d
  have hscan : d.scan "'ü' é«0g»" = .error (.invalidHexString "0g" 5) := by cbv
  have hread : d.parseExpr "'ü' NOT IN x" = .error (.unexpectedToken "x" .openParen 12) := by cbv
  have husual : d.UsualFunctions := Builtin.usualFunctions .generic
  exact ⟨by cbv, husual, hscan, complaints_point_at_source (.inl hscan), hread,
    complaints_point_at_source (.inr ⟨husual, .inr hread⟩)⟩

/-- The dialect with a function `F` that stands for a text of its own, in which an
operator is missing. -/
def templateDialect : Dialect :=
  Dialect.generic.applyAll [.function "F" fun _ => Dialect.generic.parseExpr "a b"]

/-- A constructor of one's own may complain about another text, and the complaint
is handed on as it is. -/
theorem constructed_complaint_points_elsewhere :
    templateDialect.check = .ok () ∧
      templateDialect.parseExpr "F(x)" = .error (.unexpectedToken "b" .endOfInput 2) ∧
      ¬ (ParseError.unexpectedToken "b" .endOfInput 2).PointsInto templateDialect "F(x)" := by
  refine ⟨by cbv, by cbv, fun hpoints => ?_⟩
  obtain ⟨-, -, pre, post, hsplit, hoffset, hmarks⟩ := hpoints 2 rfl
  have hpost : post = ['x', ')'] := by
    have hlist : "F(x)".toList = ['F', '('] ++ ['x', ')'] := rfl
    exact (append_inj_of_byteLength (hsplit.symm.trans hlist) hoffset.symm).2
  rw [hpost] at hmarks
  simp [ParseError.Marks] at hmarks

end SqlDialect
