import SqlDialect.Proofs.Rendering.Operator

/-!
# SqlDialect.Proofs.Rendering.Primary

The texts of names and literals.

* `shown_column`, `shown_star` -- names.
* `shown_literal` -- literals.
-/

namespace SqlDialect

open Text Grammar

variable {b : Builtin} {i : Bool} {e e' : Expr}

/-! ## names -/

/-- The lexeme of an identifier is no star, and a word for rows only if the
name is. -/
theorem IsIdent.kind {x : Ident} {t : Lexeme} (h : IsIdent b x t) :
    t.kind ≠ .star ∧ ((!x.quoted && Expr.isRowsWord x.name) = false →
      t.kind ≠ .keyword .ROW ∧ t.kind ≠ .keyword .ROWS) := by
  obtain ⟨hident, hgenuine⟩ := h
  unfold Genuine at hgenuine
  unfold identOf? at hident
  split at hident
  case h_1 hk => simp [hk]
  case h_2 hk => simp [hk]
  case h_3 k hk =>
    rw [hk] at hgenuine
    split at hident
    · cases hident
    · cases hident
      refine ⟨by simp [hk], fun hr => ?_⟩
      simp only [Bool.not_false, Bool.true_and, Expr.isRowsWord, Bool.or_eq_false_iff,
        decide_eq_false_iff_not] at hr
      rcases keyword?_eq_some hgenuine.2 with rfl | hspelling
      · simp [hk]
      · rw [hspelling] at hr
        rw [hk]
        simpa using hr
  case h_4 => cases hident

theorem toList_text_raw (d : Dialect) (s : String) : ((Token.raw s).text d).toList = s.toList := rfl

theorem undashed_ident {x : Ident} (hx : Named x) {d : Dialect} {ts : List Token} :
    Undashed (d.spell (.raw (identText i x) :: ts)).toList := by
  refine undashed_cons ?_
  rw [toList_text_raw]
  unfold identText
  split
  case isTrue =>
    rw [toList_quoteWith]
    exact ⟨_, _, rfl, by decide, by decide⟩
  case isFalse hq =>
    simp only [Bool.or_eq_true, not_or, Bool.not_eq_true] at hq
    exact undashed_word (hx.resolve_left (by simp [hq.1])).1

/-- Delimiting a name does not make it a word for rows. -/
theorem marked_rows {x : Ident} (h : (!x.quoted && Expr.isRowsWord x.name) = false) :
    (!(x.marked i).quoted && Expr.isRowsWord (x.marked i).name) = false := by
  simp only [Ident.marked, Bool.and_eq_false_iff, Bool.not_eq_false', Bool.or_eq_true] at h ⊢
  exact h.imp .inl id

/-- A node that is one lexeme or more, the first of which is an identifier. -/
theorem readAs_ident {x : Ident} {t : Lexeme} {ls : List Lexeme}
    (hd : Derives b.dialect (.expr (e.tier b) e') (t :: ls)) (ht : IsIdent b (x.marked i) t)
    (hr : (e.core b).namesRows = (!x.quoted && Expr.isRowsWord x.name)) :
    ReadAs b e e' (t :: ls) := by
  obtain ⟨hstar, hrows⟩ := ht.kind
  refine ⟨hd, fun u hu hk => ?_, fun _ h u hu => ?_⟩
  · cases hu
    exact absurd hk hstar
  · cases hu
    rw [hr] at h
    exact hrows (marked_rows h)

theorem tokens_qualified (t : Option Ident) (n : Ident) :
    ((style b i).qualified t n).tokens =
      (t.elim [] fun t => [.raw (identText i t), .raw "."]) ++ [.raw (identText i n)] := by
  cases t <;> simp [Style.qualified, tokens_identifier, Fragment.raw, Fragment.ofTokens]

theorem shown_column {t : Option Ident} {n : Ident} (hw : Writable (.column t n)) :
    Shown b i (.column t n) := by
  have htokens : tokensOf b i (.column t n) =
      (t.elim [] fun t => [.raw (identText i t), .raw "."]) ++ [.raw (identText i n)] := by
    rw [tokensOf_base (by cases b <;> rfl)]
    exact tokens_qualified t n
  have htier : (Expr.column t n).tier b = 0 := by cases b <;> rfl
  refine ⟨⟨.column (t.map (Ident.marked i)) (n.marked i), ?_, fun _ => ?_⟩, fun _ _ => ?_⟩
  · rw [htokens]
    cases t with
    | none =>
      refine Written.ident hw.2 (by simp) fun u hu => ?_
      refine .nil (readAs_ident ?_ hu (by cases b <;> rfl))
      rw [htier]
      exact .column hu.1
    | some t =>
      refine Written.dotted (hw.1 t rfl) hw.2 (by simp) fun u v w hu hv hw => ?_
      refine .nil (readAs_ident ?_ hu (by cases b <;> rfl))
      rw [htier]
      exact .columnOf hu.1 hv hw.1
  · rw [Expr.settled_eq]
    cases b <;> rfl
  · rw [htokens]
    cases t with
    | none => exact undashed_ident hw.2
    | some t => exact undashed_ident (hw.1 t rfl)

theorem tokensOf_star (t : Option Ident) :
    tokensOf b i (.star t) = t.elim [.raw "*"] fun t => [.raw (identText i t), .raw ".*"] := by
  rw [tokensOf_base (by cases b <;> rfl)]
  cases t <;> simp [Style.base, tokens_identifier, Fragment.raw, Fragment.ofTokens]

theorem toList_text_star (d : Dialect) : ((Token.raw "*").text d).toList = ['*'] := by
  simp [Token.text]

theorem shown_star {t : Option Ident} (hw : Writable (.star t)) : Shown b i (.star t) := by
  have htier : (Expr.star t).tier b = 0 := by cases b <;> rfl
  refine ⟨⟨.star (t.map (Ident.marked i)), ?_, fun _ => ?_⟩, fun _ _ => ?_⟩
  · rw [tokensOf_star]
    cases t with
    | none =>
      refine Written.one (F := fun _ => True) (k := .star) "*" ?_ (fun _ _ => trivial)
        fun u hu _ => ?_
      · rw [toList_text_star]
        exact scans_star
      · have hread : ReadAs b (.star none) (.star none) [u] := by
          refine ⟨?_, fun _ _ _ => by cases b <;> rfl, fun _ _ v hv => ?_⟩
          · rw [htier]
            exact .star hu
          · cases hv
            simp [hu]
        exact .nil hread
    | some t =>
      refine Written.dottedStar (hw t rfl) fun u v w hu hv hw => ?_
      refine .nil (readAs_ident ?_ hu (by cases b <;> rfl))
      rw [htier]
      exact .starOf hu.1 hv hw
  · rw [Expr.settled_eq]
    cases b <;> rfl
  · rw [tokensOf_star]
    cases t with
    | none =>
      refine undashed_cons ?_
      rw [toList_text_star]
      exact ⟨_, _, rfl, by decide, by decide⟩
    | some t => exact undashed_ident (hw t rfl)

/-! ## literals -/

theorem literalOf?_kind {t : Lexeme} {v : Literal} (h : literalOf? t = some v) :
    t.kind ∉ [.star, .keyword .ROW, .keyword .ROWS] := by
  intro hk
  unfold literalOf? at h
  simp only [List.mem_cons, List.not_mem_nil, or_false] at hk
  rcases hk with hk | hk | hk <;> rw [hk] at h <;> cases h

/-- A literal that is one lexeme. -/
theorem shown_value {v : Literal} (v' : Literal) {ts : List Token} (htokens : tokensOf b i (.literal v) = ts)
    (hw : Written b ts fun ls => ∃ t, ls = [t] ∧ literalOf? t = some v')
    (htier : (Expr.literal v).tier b = 0) (hstart : Undashed (b.dialect.spell ts).toList)
    (hf : Faithful b (.literal v) → v' = v) : Shown b i (.literal v) := by
  refine ⟨⟨.literal v', ?_, fun h => ?_⟩, fun _ _ => htokens ▸ hstart⟩
  · rw [htokens]
    refine hw.imp ?_
    rintro _ ⟨t, rfl, ht⟩
    refine .first ?_ (literalOf?_kind ht)
    rw [htier]
    exact .literal ht
  · rw [hf h.self, Expr.settled_eq]
    cases b <;> rfl

theorem tokensOf_literal (v : Literal) :
    tokensOf b i (.literal v) = ((style b i).literal v).tokens := by
  rw [tokensOf_base (by cases b <;> rfl)]
  rfl

/-- Digits do not fuse with a minus sign. -/
theorem undashed_number {cs : List Char} (h : NumberText cs) : Undashed cs := by
  have hdigit {c : Char} {ds : List Char} (hc : c.isDigit = true) : Undashed (c :: ds) := by
    refine ⟨c, ds, rfl, ?_, ?_⟩ <;> rintro rfl <;> revert hc <;> decide
  cases h with
  | whole hne hd =>
    obtain ⟨c, ds, rfl⟩ := List.exists_cons_of_ne_nil hne
    exact hdigit (hd c List.mem_cons_self)
  | point hne hd =>
    obtain ⟨c, ds, rfl⟩ := List.exists_cons_of_ne_nil hne
    exact hdigit (hd c List.mem_cons_self)

/-- An integer without a sign is one number. -/
theorem natural_written {m : Nat} (hm : m < 2 ^ 63) :
    Undashed (b.dialect.spell [.raw (toString (Int64.ofNat m).toInt)]).toList ∧
      Written b [.raw (toString (Int64.ofNat m).toInt)] fun ls =>
        ∃ t, ls = [t] ∧ literalOf? t = some (.int (Int64.ofNat m)) := by
  have htext : toString (Int64.ofNat m).toInt = String.ofList (Nat.toDigits 10 m) := by
    rw [Int64.toInt_ofNat_of_lt hm, ← Nat.toString_eq_ofList_toDigits]
    rfl
  have hnumber : NumberText (toString (Int64.ofNat m).toInt).toList := by
    rw [htext, String.toList_ofList]
    exact numberText_toDigits m
  refine ⟨undashed_cons (undashed_number hnumber), ?_⟩
  obtain ⟨v, hint, -, hv⟩ := literalOf?_natural m
  refine Written.number hnumber (by simp) fun t ht htext' => ?_
  refine .nil ⟨t, rfl, ?_⟩
  rw [hv t ht (htext'.trans htext), hint hm]

theorem shown_int {n : Int64} (hn : 0 ≤ n.toInt) : Shown b i (.literal (.int n)) := by
  obtain ⟨m, hm⟩ := Int.eq_ofNat_of_zero_le hn
  have hlt := n.toInt_lt
  have hn : n = Int64.ofNat m := by rw [← Int64.ofInt_toInt n, hm, Int64.ofInt_eq_ofNat]
  subst hn
  obtain ⟨hstart, hw⟩ := @natural_written b m (by omega)
  exact shown_value _ (tokensOf_literal _) hw (by cases b <;> rfl) hstart fun _ => rfl

theorem shown_float {f : Decimal.Binary64} (hw : Writable (.literal (.float f)))
    (hc : Clear b (.literal (.float f))) (hf : f.isFinite = true) : Shown b i (.literal (.float f)) := by
  match f, hf with
  | .finite s m, _ =>
    have hs := hw s m rfl
    subst hs
    obtain ⟨hnumber, ⟨c, hc, hdigit⟩, hvalue⟩ : m.ReadsBack := hc.2 m rfl
    have htext : (Decimal.Binary64.text (.finite false m)) = String.ofList m.chars := rfl
    have hnumber' : NumberText (Decimal.Binary64.text (.finite false m)).toList := by
      rwa [htext, String.toList_ofList]
    refine shown_value (.float (.finite false m)) (tokensOf_literal _) ?_
      (by cases b <;> rfl) (undashed_cons (undashed_number hnumber')) fun _ => rfl
    refine Written.number hnumber' (by simp) fun t ht htext' => ?_
    refine .nil ⟨t, rfl, ?_⟩
    have hnot : ¬m.chars.all Char.isDigit = true := by
      rw [List.all_eq_true]
      intro hall
      rw [hall c hc] at hdigit
      cases hdigit
    unfold literalOf? numberOf
    rw [htext', htext]
    simp only [ht, String.toList_ofList, hnot, hvalue]
    rfl

theorem shown_string {s : String} : Shown b i (.literal (.string s)) := by
  refine shown_value (.string s) (tokensOf_literal _) ?_ (by cases b <;> rfl)
    (undashed_cons ?_) fun _ => rfl
  · exact Written.string (by simp) fun t ht => .nil ⟨t, rfl, by rw [literalOf?, ht]⟩
  · rw [toList_text_raw, quoteString, toList_quoteWith]
    exact ⟨_, _, rfl, by decide, by decide⟩

theorem hexDigits_of_fault {digits : String} (h : isHexLiteral digits = true) :
    digits ≠ "" ∧ HexDigits digits := by
  simp only [isHexLiteral, Bool.and_eq_true, Bool.not_eq_true', List.isEmpty_eq_false_iff,
    List.all_eq_true] at h
  exact ⟨fun heq => h.1 (by simp [heq]), h.2⟩

theorem blobText_eq (b : Builtin) (digits : String) :
    (b.dialect.blobPair?.getD ("X'", "'")).1 ++ digits ++
      (b.dialect.blobPair?.getD ("X'", "'")).2 = blobText b digits := by
  rw [blobPair?_eq, ← String.toList_inj]
  simp [blobText]

/-- A binary literal is printed with a whole number of bytes. -/
theorem tokensOf_hexString {digits : String} (hd : isHexLiteral digits = true) : ∃ whole,
    tokensOf b i (.literal (.hexString digits)) = [.raw (blobText b whole)] ∧ HexDigits whole ∧
      (digits.length % 2 = 0 → whole = digits) := by
  obtain ⟨-, hd⟩ := hexDigits_of_fault hd
  by_cases hodd : digits.length % 2 = 1
  · refine ⟨"0" ++ digits, ?_, ?_, by omega⟩
    · rw [tokensOf_literal, ← blobText_eq]
      simp [Style.literal, Style.hexBlob, hodd, style, Fragment.remark, Fragment.raw,
        Fragment.ofTokens]
    · intro c hc
      rw [String.toList_append, List.mem_append] at hc
      rcases hc with hc | hc
      · have : c = '0' := by simpa using hc
        rw [this]
        decide
      · exact hd c hc
  · refine ⟨digits, ?_, hd, fun _ => rfl⟩
    rw [tokensOf_literal, ← blobText_eq]
    simp [Style.literal, Style.hexBlob, hodd, style, Fragment.raw, Fragment.ofTokens]

theorem shown_hexString {digits : String} (hd : isHexLiteral digits = true) :
    Shown b i (.literal (.hexString digits)) := by
  obtain ⟨whole, hwhole, hwd, heq⟩ := tokensOf_hexString (b := b) (i := i) hd
  refine shown_value (.hexString whole) hwhole ?_ (by cases b <;> rfl)
    (undashed_cons ?_) fun hf => ?_
  · exact Written.hexString hwd fun t ht => .nil ⟨t, rfl, by rw [literalOf?, ht]⟩
  · rw [toList_text_raw, blobText, String.toList_ofList]
    cases b <;> exact ⟨_, _, rfl, by decide, by decide⟩
  · rw [heq hf]

theorem tokensOf_hexNumber_sqlite (digits : String) :
    tokensOf .sqlite i (.literal (.hexNumber digits)) = [.raw ("0x" ++ digits)] := by
  rw [tokensOf_literal]
  simp [Style.literal, Style.hexNumber, style, Builtin.dialect, hexNumberMark?_sqlite,
    Fragment.raw, Fragment.ofTokens]

theorem shown_hexNumber_sqlite {digits : String} (hd : isHexLiteral digits = true) :
    Shown .sqlite i (.literal (.hexNumber digits)) := by
  obtain ⟨hne, hd⟩ := hexDigits_of_fault hd
  refine shown_value (.hexNumber digits) (tokensOf_hexNumber_sqlite digits) ?_ rfl (undashed_cons ?_) fun _ => rfl
  · exact Written.hexNumber hne hd (by simp) fun t ht => .nil ⟨t, rfl, by rw [literalOf?, ht]⟩
  · rw [toList_text_raw, String.toList_append]
    exact ⟨'0', 'x' :: digits.toList, by simp, by decide, by decide⟩

/-- The text of an integer with a sign. -/
theorem toString_negative {n : Nat} (h₁ : 2 ^ 63 ≤ n) (h₂ : n < 2 ^ 64) :
    toString (Int64.ofNat n).toInt = String.ofList ('-' :: Nat.toDigits 10 (2 ^ 64 - n)) := by
  have hvalue : (Int64.ofNat n).toInt = -((2 ^ 64 - n : Nat) : Int) := by
    rw [Int64.toInt_ofNat']
    have hsize : (Int64.size : Int) = 2 ^ 64 := rfl
    rw [Int.bmod_def, hsize]
    omega
  obtain ⟨m, hm⟩ : ∃ m, 2 ^ 64 - n = m + 1 := ⟨2 ^ 64 - n - 1, by omega⟩
  rw [hvalue, hm, ← String.toList_inj, String.toList_ofList]
  change ("-" ++ Nat.repr (m + 1)).toList = _
  have hrepr : Nat.repr (m + 1) = String.ofList (Nat.toDigits 10 (m + 1)) :=
    Nat.toString_eq_ofList_toDigits
  rw [String.toList_append, hrepr, String.toList_ofList]
  simp

/-- Without a mark, an integer in base 16 is printed in base 10. -/
theorem tokensOf_hexNumber_generic {digits : String} (h : hexValue digits.toList < 2 ^ 64) :
    tokensOf .generic i (.literal (.hexNumber digits)) =
      [.raw (toString (Int64.ofNat (hexValue digits.toList)).toInt)] := by
  have hsize : hexValue digits.toList < UInt64.size := h
  rw [tokensOf_literal]
  simp [Style.literal, Style.hexNumber, style, Builtin.dialect, hexNumberMark?_generic, hsize,
    Fragment.raw, Fragment.ofTokens]

theorem shown_hexNumber_generic {digits : String} (hc : Clear .generic (.literal (.hexNumber digits))) :
    Shown .generic i (.literal (.hexNumber digits)) := by
  have hlt : hexValue digits.toList < 2 ^ 64 := hc.2 rfl
  have htokens := tokensOf_hexNumber_generic (i := i) hlt
  by_cases hwraps : Expr.wraps digits = true
  · have hge : 2 ^ 63 ≤ hexValue digits.toList := by simpa [Expr.wraps] using hwraps
    have htier : (Expr.literal (.hexNumber digits)).tier .generic = 1 := by
      simp [Expr.level, hwraps]
    obtain ⟨v, -, -, hv⟩ := literalOf?_natural (2 ^ 64 - hexValue digits.toList)
    refine ⟨⟨.unaryOp .minus (.literal v), ?_, fun hf => ?_⟩, fun _ h => ?_⟩
    · rw [htokens]
      refine Written.negative (toString_negative hge hlt) (numberText_toDigits _) (by simp)
        fun t u ht hu htext => ?_
      refine .nil (.first ?_ (by simp [ht]))
      rw [htier]
      exact .minus ht ((Derives.literal (hv u hu htext)).raise (Nat.zero_le 1) (by decide))
    · cases (hf.self : Builtin.generic = .sqlite)
    · simp [Expr.dashed, hwraps] at h
  · have hlt' : hexValue digits.toList < 2 ^ 63 := by simpa [Expr.wraps] using hwraps
    obtain ⟨hstart, hw⟩ := @natural_written .generic _ hlt'
    exact shown_value _ htokens hw (by simp [Expr.level, hwraps]) hstart
      fun hf => by cases (hf : Builtin.generic = .sqlite)

theorem tokensOf_keyword {v : Literal} {k : Keyword}
    (h : (style b i).literal v = .keyword k) : tokensOf b i (.literal v) = [.keyword k] := by
  rw [tokensOf_literal, h]
  rfl

/-- A literal that is a keyword. -/
theorem shown_keyword {v : Literal} {k : Keyword} (h : (style b i).literal v = .keyword k)
    (hk : ∀ t : Lexeme, t.kind = .keyword k → literalOf? t = some v)
    (htier : (Expr.literal v).tier b = 0) : Shown b i (.literal v) := by
  refine shown_value _ (tokensOf_keyword h) ?_ htier undashed_keyword fun _ => rfl
  exact Written.keyword (by simp) fun t ht => .nil ⟨t, rfl, hk t ht⟩

theorem shown_literal {v : Literal} (hw : Writable (.literal v)) (hv : v.fault? = none)
    (hc : Clear b (.literal v)) : Shown b i (.literal v) := by
  cases v with
  | int n => exact shown_int hw
  | float f =>
    refine shown_float hw hc ?_
    cases f <;> first | rfl | cases hv
  | string s => exact shown_string
  | hexString digits =>
    refine shown_hexString (by_contra fun h => ?_)
    simp [Literal.fault?, h] at hv
  | hexNumber digits =>
    cases b with
    | generic => exact shown_hexNumber_generic hc
    | sqlite =>
      refine shown_hexNumber_sqlite (by_contra fun h => ?_)
      simp [Literal.fault?, h] at hv
  | bool value =>
    cases value with
    | true =>
      exact shown_keyword (k := .TRUE) rfl (fun t ht => by rw [literalOf?, ht]) (by cases b <;> rfl)
    | false =>
      exact shown_keyword (k := .FALSE) rfl (fun t ht => by rw [literalOf?, ht]) (by cases b <;> rfl)
  | null => exact shown_keyword (k := .NULL) rfl (fun t ht => by rw [literalOf?, ht]) (by cases b <;> rfl)

end SqlDialect
