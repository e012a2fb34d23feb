import Mathlib.Algebra.Group.Nat.Defs
import SqlDialect.Proofs.Decimal.Readback
import SqlDialect.Proofs.Grammar.Derivation
import SqlDialect.Proofs.Rendering.Written

/-!
# SqlDialect.Proofs.Rendering.Leaf

The leaves of a tree as they are written: identifiers, operators and literals.

* `Written.ident`, `Written.qualified` -- names.
* `Written.operator` -- operators between operands.
* `Written.literal` -- literals.
-/

namespace SqlDialect

open Text Grammar

variable {b : Builtin} {i : Bool} {us : List Token} {P Q : List Lexeme → Prop}

/-- How a built-in dialect is written. -/
def style (b : Builtin) (identify : Bool) : Style := ⟨b.dialect, identify⟩

/-! ## names -/

/-- The identifier as it is written: delimited, if every identifier is. -/
def Ident.marked (identify : Bool) (i : Ident) : Ident := ⟨i.name, i.quoted || identify⟩

@[simp] theorem Ident.marked_false (i : Ident) : i.marked false = i := by
  simp [Ident.marked]

/-- The text of an identifier. -/
def identText (identify : Bool) (i : Ident) : String :=
  if i.quoted || identify then quoteWith '"' '"' i.name else i.name

theorem tokens_identifier (b : Builtin) (identify : Bool) (i : Ident) :
    ((style b identify).identifier i).tokens = [.raw (identText identify i)] := by
  unfold Style.identifier identText style
  rw [identifierPair_eq]
  split <;> rfl

/-- The lexeme of an identifier. -/
def IsIdent (b : Builtin) (i : Ident) (t : Lexeme) : Prop := identOf? t = some i ∧ Genuine b.dialect t

theorem scans_ident {x : Ident} (hx : Named x) :
    Scans b.dialect Breaks (identText i x).toList fun ls => ∃ t, ls = [t] ∧ IsIdent b (x.marked i) t := by
  unfold identText
  split
  case isTrue hq =>
    refine ((scans_quotedIdent x.name).mono fun rest hr hc => ?_).imp ?_
    · have := hr _ hc
      simp at this
    · rintro _ ⟨t, rfl, hkind, -⟩
      refine ⟨t, rfl, ?_, ?_⟩
      · simp [identOf?, hkind, Ident.marked, hq]
      · simp [Genuine, hkind]
  case isFalse hq =>
    simp only [Bool.or_eq_true, not_or, Bool.not_eq_true] at hq
    have hbare : Bare x.name := hx.resolve_left (by simp [hq.1])
    refine (scans_word hbare.1).imp ?_
    rintro _ ⟨t, rfl, hkind, htext⟩
    refine ⟨t, rfl, ?_, ?_⟩
    · rw [hbare.identOf? hkind htext, Ident.marked, hq.1, hq.2]
      rfl
    · unfold Genuine
      rw [hkind, wordKind, ← htext]
      cases b.dialect.keyword? t.text <;> exact ⟨by rw [htext]; exact hbare.1, rfl⟩

theorem Written.ident {x : Ident} (hx : Named x) (hu : Splits us)
    (hk : ∀ t, IsIdent b (x.marked i) t → Written b us fun ls => Q (t :: ls)) :
    Written b (.raw (identText i x) :: us) Q := by
  refine .cons (scans_ident hx) (fun _ hr => hu.breaks hr) ?_
  rintro _ ⟨t, rfl, ht⟩
  exact hk t ht

/-- The text of an identifier starts with no digit. -/
theorem identText_head {x : Ident} (hx : Named x) (rest : List Char) :
    ((identText i x).toList ++ rest).head?.any Char.isDigit = false := by
  unfold identText
  split
  case isTrue => rw [toList_quoteWith]; rfl
  case isFalse hq =>
    simp only [Bool.or_eq_true, not_or, Bool.not_eq_true] at hq
    have hbare : Bare x.name := hx.resolve_left (by simp [hq.1])
    have hword := hbare.1
    unfold isWord at hword
    split at hword
    case h_1 => cases hword
    case h_2 c cs hcs =>
      rw [hcs]
      rw [Bool.and_eq_true] at hword
      have := startsNumber_of_startsWord hword.1 []
      simp only [startsNumber, Bool.or_eq_false_iff] at this
      simpa using this.1

theorem toList_text_dot (d : Dialect) : ((Token.raw ".").text d).toList = ['.'] := by
  simp [Token.text]

theorem toList_text_dotStar (d : Dialect) : ((Token.raw ".*").text d).toList = ['.', '*'] := by
  simp [Token.text]

/-- A name behind another one and a point. -/
theorem Written.dotted {x y : Ident} (hx : Named x) (hy : Named y) (hu : Splits us)
    (hk : ∀ t u v : Lexeme, IsIdent b (x.marked i) t → u.kind = .dot → IsIdent b (y.marked i) v →
      Written b us fun ls => Q (t :: u :: v :: ls)) :
    Written b (.raw (identText i x) :: .raw "." :: .raw (identText i y) :: us) Q := by
  refine .cons (scans_ident hx) (fun _ _ => ?_) ?_
  · rw [toList_spell_cons, toList_text_dot]
    exact .cons (by decide) _
  · rintro _ ⟨t, rfl, ht⟩
    refine .one (F := fun rest => rest.head?.any Char.isDigit = false) (k := .dot) "." ?_
      (fun rest _ => ?_) fun u hu' _ => ?_
    · rw [toList_text_dot]
      exact scans_dot fun _ hr => hr
    · rw [toList_spell_cons, List.append_assoc]
      exact identText_head hy _
    · exact .ident hy hu fun v hv => hk t u v ht hu' hv

/-- All columns behind a name and a point. -/
theorem Written.dottedStar {x : Ident} (hx : Named x)
    (hk : ∀ t u v : Lexeme, IsIdent b (x.marked i) t → u.kind = .dot → v.kind = .star →
      Written b us fun ls => Q (t :: u :: v :: ls)) :
    Written b (.raw (identText i x) :: .raw ".*" :: us) Q := by
  refine .cons (scans_ident hx) (fun _ _ => ?_) ?_
  · rw [toList_spell_cons, toList_text_dotStar]
    exact .cons (by decide) _
  · rintro _ ⟨t, rfl, ht⟩
    have hstar : Scans b.dialect (fun _ => True) ((Token.raw ".*").text b.dialect).toList
        fun ls => ∃ u v : Lexeme, ls = [u, v] ∧ u.kind = .dot ∧ v.kind = .star := by
      rw [toList_text_dotStar]
      refine Scans.cons (scans_dot (F := fun rest => rest.head? = some '*') ?_) (fun _ _ => rfl) ?_
      · intro rest hr
        rw [hr]
        rfl
      · rintro _ ⟨u, rfl, hu, -⟩
        refine scans_star.imp ?_
        rintro _ ⟨v, rfl, hv, -⟩
        exact ⟨u, v, rfl, hu, hv⟩
    refine .cons hstar (fun _ _ => trivial) ?_
    rintro _ ⟨u, v, rfl, hu, hv⟩
    exact hk t u v ht hu hv

/-! ## operators -/

/-- The lexeme of an operator. -/
def operatorKind : BinaryOperator → LexemeKind
  | .eq => .eq
  | .ne => .ne
  | .lt => .lt
  | .gt => .gt
  | .lte => .lte
  | .gte => .gte
  | .and => .keyword .AND
  | .or => .keyword .OR
  | .plus => .plus
  | .minus => .minus
  | .mul => .star
  | .div => .slash
  | .mod => .percent
  | .concat => .concat

theorem spaced_space (us : List Token) (rest : List Char) :
    Spaced ((b.dialect.spell (.space :: us)).toList ++ rest) := by
  rw [toList_spell_cons, toList_text_space]
  rfl

/-- A symbol with a space behind it. -/
theorem Written.symbol {c : Char} {cs : List Char} {k : LexemeKind} {s : String}
    (hs : s = String.ofList (c :: cs))
    (h : ∀ offset rest, frontPiece b.dialect offset c (cs ++ ' ' :: rest) =
      .ok (.ofKind k cs.length))
    (hk : ∀ t : Lexeme, t.kind = k → Written b us fun ls => Q (t :: ls)) :
    Written b (.raw s :: .space :: us) Q := by
  refine .one (t := .raw s) (k := k) s ?_ (fun rest _ => spaced_space us rest) fun t ht _ => ?_
  · change Scans b.dialect _ s.toList _
    rw [hs, String.toList_ofList]
    exact scans_spaced h
  · exact .space (hk t ht)

theorem Written.operator (op : BinaryOperator)
    (hk : ∀ t : Lexeme, t.kind = operatorKind op → Written b us fun ls => Q (t :: ls)) :
    Written b (Style.operator op :: .space :: us) Q := by
  cases op with
  | and => exact .spacedKeyword hk
  | or => exact .spacedKeyword hk
  | _ =>
    refine .symbol rfl (fun offset rest => ?_) hk
    cases b <;> rfl

/-- The JSON arrows. -/
theorem Written.arrow (hk : ∀ t : Lexeme, t.kind = .arrow → Written b us fun ls => Q (t :: ls)) :
    Written b (.raw "->" :: .space :: us) Q := by
  refine .symbol rfl (fun offset rest => ?_) hk
  cases b <;> rfl

theorem Written.doubleArrow
    (hk : ∀ t : Lexeme, t.kind = .doubleArrow → Written b us fun ls => Q (t :: ls)) :
    Written b (.raw "->>" :: .space :: us) Q := by
  refine .symbol rfl (fun offset rest => ?_) hk
  cases b <;> rfl

/-! ## literals -/

theorem Ended.unquoted {closing : Char} {rest : List Char} (h : Ended rest)
    (hc : closing ∉ [' ', ',', ')']) : Unquoted closing rest := fun heq => hc (h closing heq)

theorem Written.number {s : String} (hs : NumberText s.toList) (hu : Ends us)
    (hk : ∀ t : Lexeme, t.kind = .number → t.text = s → Written b us fun ls => Q (t :: ls)) :
    Written b (.raw s :: us) Q := by
  refine .one (t := .raw s) s ?_ (fun _ hr => hu.ended hr) hk
  have := scans_number (b := b) hs
  rwa [String.ofList_toList] at this

theorem Written.string {v : String} (hu : Ends us)
    (hk : ∀ t : Lexeme, t.kind = .string v → Written b us fun ls => Q (t :: ls)) :
    Written b (.raw (quoteString v) :: us) Q :=
  .one (t := .raw (quoteString v)) _ (scans_string v)
    (fun _ hr => (hu.ended hr).unquoted (by decide)) fun t ht _ => hk t ht

/-- A number with a minus sign in front of it. -/
theorem Written.negative {cs : List Char} {s : String} (hs : s = String.ofList ('-' :: cs))
    (hcs : NumberText cs) (hu : Ends us)
    (hk : ∀ t u : Lexeme, t.kind = .minus → u.kind = .number → u.text = String.ofList cs →
      Written b us fun ls => Q (t :: u :: ls)) : Written b (.raw s :: us) Q := by
  refine .cons (P := fun ls => ∃ t u : Lexeme, ls = [t, u] ∧ t.kind = .minus ∧ u.kind = .number ∧
    u.text = String.ofList cs) (F := Ended) ?_ (fun _ hr => hu.ended hr) ?_
  · change Scans b.dialect _ s.toList _
    rw [hs, String.toList_ofList]
    refine Scans.cons (scans_minus (F := fun rest => rest.head? ≠ some '-' ∧ rest.head? ≠ some '>') fun _ hr => hr)
      (fun rest _ => ?_) ?_
    · have hdigit : ∃ c ds, cs = c :: ds ∧ c.isDigit = true := by
        cases hcs with
        | whole hne hd =>
          obtain ⟨c, ds, rfl⟩ := List.exists_cons_of_ne_nil hne
          exact ⟨c, _, rfl, hd c List.mem_cons_self⟩
        | point hne hd =>
          obtain ⟨c, ds, rfl⟩ := List.exists_cons_of_ne_nil hne
          exact ⟨c, _, rfl, hd c List.mem_cons_self⟩
      obtain ⟨c, ds, rfl, hc⟩ := hdigit
      constructor <;> intro heq <;> cases heq <;> revert hc <;> decide
    · rintro _ ⟨t, rfl, ht, -⟩
      refine (scans_number hcs).imp ?_
      rintro _ ⟨u, rfl, hu, htext⟩
      exact ⟨t, u, rfl, ht, hu, htext⟩
  · rintro _ ⟨t, u, rfl, ht, hu, htext⟩
    exact hk t u ht hu htext

/-- The digits of a natural number are a number. -/
theorem numberText_toDigits (n : Nat) : NumberText (Nat.toDigits 10 n) := by
  rw [← List.append_nil (Nat.toDigits 10 n)]
  exact .whole Nat.toDigits_ne_nil (fun c hc => Nat.isDigit_of_mem_toDigits (by decide) (by decide) hc)
    .none

theorem decimalValue_toDigits (n : Nat) : decimalValue (Nat.toDigits 10 n) = n :=
  Nat.ofDigitChars_ten_toDigits

/-- Digits are no word for a special value, so they are a decimal. -/
theorem ofText?_digits {cs : List Char} (hne : cs ≠ []) (hd : Digits cs) :
    ∃ f, Decimal.Binary64.ofText? (String.ofList cs) = some f := by
  obtain ⟨c, ds, rfl⟩ := List.exists_cons_of_ne_nil hne
  have hc : c.isDigit = true := hd c List.mem_cons_self
  have hlower : c.toLower ≠ 'i' ∧ c.toLower ≠ 'n' := by
    have hall : ∀ c ∈ delimiters, c.toLower ≠ 'i' ∧ c.toLower ≠ 'n' :=
      forall_mem_of_all (by decide)
    exact hall c (mem_delimiters_of_isDigit hc)
  have hword (w : String) {d : Char} (hw : w.toList.head? = some d) (hd : c.toLower ≠ d) :
      String.ofList ((c :: ds).map Char.toLower) ≠ w := by
    intro heq
    rw [← heq, String.toList_ofList] at hw
    cases hw
    exact hd rfl
  have htake : (c :: ds).takeWhile Char.isDigit = c :: ds := by
    have htake : (c :: ds ++ []).takeWhile Char.isDigit = c :: ds :=
      takeWhile_append hd fun _ h => nomatch h
    rwa [List.append_nil] at htake
  have hdrop : (c :: ds).dropWhile Char.isDigit = [] := List.dropWhile_eq_nil_iff.2 hd
  have hunsigned : ∃ f, Decimal.Binary64.ofUnsigned? false (c :: ds) = some f := by
    unfold Decimal.Binary64.ofUnsigned?
    simp only [hword "inf" rfl hlower.1, hword "infinity" rfl hlower.1, hword "nan" rfl hlower.2,
      or_self, if_false]
    unfold Decimal.Scientific.ofChars?
    simp [htake, hdrop, Decimal.exponentOfChars?]
  have hminus : c ≠ '-' := by rintro rfl; revert hc; decide
  have hplus : c ≠ '+' := by rintro rfl; revert hc; decide
  unfold Decimal.Binary64.ofText?
  rw [String.toList_ofList]
  split
  case h_1 heq => cases heq; exact absurd rfl hminus
  case h_2 heq => cases heq; exact absurd rfl hplus
  case h_3 => exact hunsigned

/-- The value that the digits of a natural number are read as: an integer of 64
bits, or else a float. -/
theorem literalOf?_natural (n : Nat) :
    ∃ v, (n < 2 ^ 63 → v = .int (Int64.ofNat n)) ∧ (2 ^ 63 ≤ n → ∃ f, v = .float f) ∧
      ∀ t : Lexeme, t.kind = .number → t.text = String.ofList (Nat.toDigits 10 n) →
        literalOf? t = some v := by
  have hall : (Nat.toDigits 10 n).all Char.isDigit = true :=
    List.all_eq_true.2 fun c hc => Nat.isDigit_of_mem_toDigits (by decide) (by decide) hc
  by_cases hn : n < 0x8000000000000000
  · refine ⟨_, fun _ => rfl, fun h => absurd hn (Nat.not_lt.2 h), fun t hkind htext => ?_⟩
    unfold literalOf? numberOf
    simp only [hkind, htext, String.toList_ofList, hall, decimalValue_toDigits, true_and, if_pos hn]
    rfl
  · obtain ⟨f, hf⟩ := @ofText?_digits (Nat.toDigits 10 n) Nat.toDigits_ne_nil
      (List.all_eq_true.1 hall)
    refine ⟨.float f, fun h => absurd h hn, fun _ => ⟨f, rfl⟩, fun t hkind htext => ?_⟩
    unfold literalOf? numberOf
    simp only [hkind, htext, String.toList_ofList, hall, decimalValue_toDigits, true_and, if_neg hn,
      hf]
    rfl

/-- The text of a binary string. -/
def blobText (b : Builtin) (digits : String) : String :=
  String.ofList (blobMark b :: '\x27' :: (digits.toList ++ ['\x27']))

theorem Written.hexString {digits : String} (hd : HexDigits digits)
    (hk : ∀ t : Lexeme, t.kind = .hexString digits → Written b us fun ls => Q (t :: ls)) :
    Written b (.raw (blobText b digits) :: us) Q := by
  refine .one (F := fun _ => True) (blobText b digits) ?_ (fun _ _ => trivial) fun t ht _ => hk t ht
  change Scans b.dialect _ (blobText b digits).toList _
  have hscan := scans_hexString (b := b) (F := fun _ => True) hd
  rw [String.ofList_toList] at hscan
  rw [blobText, String.toList_ofList]
  exact hscan

theorem Written.hexNumber {digits : String} (hne : digits ≠ "") (hd : HexDigits digits)
    (hu : Ends us)
    (hk : ∀ t : Lexeme, t.kind = .hexNumber digits → Written .sqlite us fun ls => Q (t :: ls)) :
    Written .sqlite (.raw ("0x" ++ digits) :: us) Q := by
  have htext : "0x" ++ digits = String.ofList ('0' :: 'x' :: digits.toList) := by
    rw [← String.toList_inj, String.toList_append, String.toList_ofList]
    simp
  refine .one (F := Ended) (k := .hexNumber digits) ("0x" ++ digits) ?_
    (fun _ hr => hu.ended hr) fun t ht _ => hk t ht
  change Scans Dialect.sqlite _ ("0x" ++ digits).toList _
  have hdigits : digits.toList ≠ [] := fun h => hne (String.toList_eq_nil_iff.1 h)
  have hscan := scans_hexNumber hdigits hd
  rw [String.ofList_toList] at hscan
  rw [htext, String.toList_ofList]
  exact hscan

end SqlDialect
