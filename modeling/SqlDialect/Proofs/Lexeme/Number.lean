import SqlDialect.Proofs.Lexeme.Piece

/-!
# SqlDialect.Proofs.Lexeme.Number

The texts of numbers and of hexadecimal literals.

* `NumberText` -- digits, perhaps a point and more digits, perhaps an exponent.
* `scans_number` -- such a text is one lexeme.
* `scans_hexString`, `scans_hexNumber` -- hexadecimal literals.
-/

namespace SqlDialect

open Text

/-- Decimal digits only. -/
def Digits (cs : List Char) : Prop := ∀ c ∈ cs, c.isDigit = true

/-- An exponent, if there is one. -/
inductive ExponentText : List Char → Prop where
  | none : ExponentText []
  | plain {ds : List Char} (hne : ds ≠ []) (hd : Digits ds) : ExponentText ('e' :: ds)
  | minus {ds : List Char} (hne : ds ≠ []) (hd : Digits ds) : ExponentText ('e' :: '-' :: ds)

/-- A number as it is written: it starts with a digit. -/
inductive NumberText : List Char → Prop where
  | whole {ds es : List Char} (hne : ds ≠ []) (hd : Digits ds) (he : ExponentText es) :
      NumberText (ds ++ es)
  | point {ds ps es : List Char} (hne : ds ≠ []) (hd : Digits ds) (hp : Digits ps)
      (he : ExponentText es) : NumberText (ds ++ '.' :: (ps ++ es))

/-! ## digits -/

/-- What ends a number: neither a digit, nor a point, nor a mark. -/
def NumberEnds (rest : List Char) : Prop :=
  ∀ c ∈ rest.head?, c.isDigit = false ∧ c ∉ ['.', 'e', 'E', 'x', 'X']

theorem Ended.numberEnds {rest : List Char} (h : Ended rest) : NumberEnds rest := by
  intro c hc
  have := h c hc
  simp only [List.mem_cons, List.not_mem_nil, or_false] at this
  rcases this with rfl | rfl | rfl <;> decide

theorem digitsLength_append {ds rest : List Char} (hd : Digits ds)
    (hr : ∀ c ∈ rest.head?, c.isDigit = false) : digitsLength (ds ++ rest) = ds.length := by
  rw [digitsLength, takeWhile_append hd hr]

theorem ExponentText.head {es rest : List Char} (h : ExponentText es) (hr : NumberEnds rest) :
    ∀ c ∈ (es ++ rest).head?, c.isDigit = false ∧ c ≠ '.' ∧ c ≠ 'x' ∧ c ≠ 'X' := by
  intro c hc
  cases h with
  | none =>
    have := hr c hc
    simp_all
  | plain => cases hc; decide
  | minus => cases hc; decide

/-- The digits of a number in front of its exponent. -/
theorem mantissaLength_whole {ds es rest : List Char} (hd : Digits ds) (he : ExponentText es)
    (hr : NumberEnds rest) : mantissaLength (ds ++ (es ++ rest)) = ds.length := by
  have hhead := he.head hr
  rw [mantissaLength, digitsLength_append hd fun c hc => (hhead c hc).1, List.drop_left]
  split
  case h_1 heq => exact absurd rfl ((hhead '.' (by rw [heq]; rfl)).2.1)
  case h_2 => rfl

theorem mantissaLength_point {ds ps es rest : List Char} (hd : Digits ds) (hp : Digits ps)
    (he : ExponentText es) (hr : NumberEnds rest) :
    mantissaLength (ds ++ '.' :: (ps ++ (es ++ rest))) = ds.length + 1 + ps.length := by
  have hdot : ∀ c ∈ ('.' :: (ps ++ (es ++ rest))).head?, c.isDigit = false := by
    intro c hc
    cases hc
    decide
  rw [mantissaLength, digitsLength_append hd hdot, List.drop_left]
  simp only [digitsLength_append hp fun c hc => (he.head hr c hc).1]

/-- The mark of an exponent and its digits. -/
theorem exponent_lengths {es rest : List Char} (he : ExponentText es) (hr : NumberEnds rest) :
    exponentMarkLength (es ++ rest) +
        digitsLength ((es ++ rest).drop (exponentMarkLength (es ++ rest))) = es.length ∧
      ¬ (exponentMarkLength (es ++ rest) ≠ 0 ∧
        digitsLength ((es ++ rest).drop (exponentMarkLength (es ++ rest))) = 0) := by
  have hdigit : ∀ c ∈ rest.head?, c.isDigit = false := fun c hc => (hr c hc).1
  cases he with
  | none =>
    have hmark : exponentMarkLength rest = 0 := by
      unfold exponentMarkLength
      split <;> first
        | rfl
        | exact absurd (hr _ rfl).2 (by decide)
    rw [List.nil_append, hmark, List.drop_zero, show digitsLength rest = 0 from
      @digitsLength_append [] rest (fun _ h => nomatch h) hdigit]
    simp
  | @plain ds hne hd =>
    obtain ⟨c, cs, rfl⟩ := List.exists_cons_of_ne_nil hne
    have hc : c.isDigit = true := hd c List.mem_cons_self
    have hmark : exponentMarkLength ('e' :: (c :: cs) ++ rest) = 1 := by
      have hplus : c ≠ '+' := by rintro rfl; cases hc
      have hminus : c ≠ '-' := by rintro rfl; cases hc
      simp [exponentMarkLength, hplus, hminus]
    rw [hmark, List.cons_append, List.drop_succ_cons, List.drop_zero,
      digitsLength_append hd hdigit]
    simp only [List.length_cons]
    omega
  | @minus ds hne hd =>
    have hmark : exponentMarkLength ('e' :: '-' :: ds ++ rest) = 2 := rfl
    have hpos : 0 < ds.length := List.length_pos_iff.2 hne
    rw [hmark, List.cons_append, List.cons_append, List.drop_succ_cons, List.drop_succ_cons,
      List.drop_zero, digitsLength_append hd hdigit]
    simp only [List.length_cons]
    omega

/-! ## numbers -/

variable {b : Builtin} {F : List Char → Prop}

/-- A number of so many characters in front of its exponent. -/
theorem number_ok (offset : Nat) {c : Char} {cs ms es rest : List Char}
    (h : startsNumber c (cs ++ rest) = true) (hcs : c :: cs = ms ++ es)
    (hm : mantissaLength (ms ++ (es ++ rest)) = ms.length) (he : ExponentText es)
    (hr : NumberEnds rest) :
    ∃ p, number offset c (cs ++ rest) h = .ok p ∧ p.kind? = some .number ∧
      p.length = cs.length + 1 := by
  obtain ⟨hlength, hdigits⟩ := exponent_lengths he hr
  have hall : c :: (cs ++ rest) = ms ++ (es ++ rest) := by
    rw [← List.cons_append, hcs, List.append_assoc]
  have hcount : cs.length + 1 = ms.length + es.length := by
    rw [← List.length_cons, hcs, List.length_append]
  refine ⟨⟨some .number, cs.length + 1, Nat.succ_pos _⟩, ?_, rfl, rfl⟩
  have hdrop (n : Nat) : (ms ++ (es ++ rest)).drop (ms.length + n) = (es ++ rest).drop n := by
    rw [← List.drop_drop, List.drop_left]
  unfold number
  simp only [hall, hm, List.drop_left, hdrop]
  rw [if_neg hdigits]
  congr 2
  omega

/-- A number in front of what may follow one. -/
theorem scans_number {cs : List Char} (h : NumberText cs) :
    Scans b.dialect Ended cs (One .number (String.ofList cs)) := by
  obtain ⟨c, ds, ms, es, hcs, hms, hc, he, hx, hm⟩ : ∃ c ds ms es, cs = c :: ds ∧
      c :: ds = ms ++ es ∧ c.isDigit = true ∧ ExponentText es ∧
      (∀ rest, NumberEnds rest → (ds ++ rest).head? ≠ some 'x' ∧ (ds ++ rest).head? ≠ some 'X') ∧
      ∀ rest, NumberEnds rest → mantissaLength (ms ++ (es ++ rest)) = ms.length := by
    cases h with
    | @whole ds es hne hd he =>
      obtain ⟨c, cs, rfl⟩ := List.exists_cons_of_ne_nil hne
      refine ⟨c, cs ++ es, c :: cs, es, rfl, rfl, hd c List.mem_cons_self, he, fun rest hr => ?_,
        fun rest hr => mantissaLength_whole hd he hr⟩
      cases cs with
      | nil =>
        have hhead := he.head hr
        exact ⟨fun hc => (hhead _ hc).2.2.1 rfl, fun hc => (hhead _ hc).2.2.2 rfl⟩
      | cons d cs =>
        have hdigit := hd d (by simp)
        constructor <;> intro hc <;> cases hc <;> revert hdigit <;> decide
    | @point ds ps es hne hd hp he =>
      obtain ⟨c, cs, rfl⟩ := List.exists_cons_of_ne_nil hne
      refine ⟨c, cs ++ '.' :: (ps ++ es), c :: cs ++ '.' :: ps, es, rfl, by simp,
        hd c List.mem_cons_self, he, fun rest hr => ?_, fun rest hr => ?_⟩
      · cases cs with
        | nil => constructor <;> intro hc <;> cases hc
        | cons d cs =>
          have hdigit := hd d (by simp)
          constructor <;> intro hc <;> cases hc <;> revert hdigit <;> decide
      · rw [List.append_assoc]
        refine (mantissaLength_point hd hp he hr).trans ?_
        simp only [List.length_append, List.length_cons]
        omega
  subst hcs
  refine .one fun offset rest hr => ?_
  have hends := hr.numberEnds
  have hstart : startsNumber c (ds ++ rest) = true := by simp [startsNumber, hc]
  obtain ⟨p, hp, hkind, hlength⟩ := number_ok offset hstart hms (hm rest hends) he hends
  refine ⟨p, ?_, hkind, hlength⟩
  have hdelimiter : ∀ d, d.isDigit = false → c ≠ d := by
    rintro d hd rfl
    rw [hc] at hd
    cases hd
  have hblank : isBlank c = false := by
    have hall : ∀ n ∈ blanks, (Char.ofNat n).isDigit = false := by decide
    cases hb : isBlank c
    · rfl
    · have := hall _ (toNat_mem_blanks hb)
      rw [Char.ofNat_toNat, hc] at this
      cases this
  have hunmarked : Unmarked b c (ds ++ rest) := by
    intro q hq hcq hhead
    have hsecond : c = q.1 → q.2 = 'x' ∨ q.2 = 'X' := by
      rintro rfl
      revert hc
      revert q
      cases b <;> simp [hexStarts]
    rcases hsecond hcq with h | h <;> rw [h] at hhead
    · exact (hx rest hends).1 hhead
    · exact (hx rest hends).2 hhead
  have hopening : c ∉ openings b := by
    intro hmem
    have hall : ∀ d ∈ openings b, d.isDigit = false :=
      forall_mem_of_all (by cases b <;> decide)
    exact hdelimiter c (hall c hmem) rfl
  rw [frontPiece_eq_plainLexeme hblank (fun h => absurd h (hdelimiter '-' (by decide)))
    (fun h => absurd h (hdelimiter '/' (by decide))) hunmarked, plainLexeme,
    identifiers_find? hopening]
  simp only [if_neg (hdelimiter '\x27' (by decide))]
  rw [dif_pos hstart, hp]

/-! ## hexadecimal literals -/

/-- The first place of a quote behind digits. -/
theorem indexOf?_digits {ds rest : List Char} (hd : ∀ c ∈ ds, isHexDigit c = true) :
    indexOf? ['\x27'] (ds ++ '\x27' :: rest) = some ds.length := by
  induction ds with
  | nil => simp [indexOf?]
  | cons d ds ih =>
    have hne : d ≠ '\x27' := by
      rintro rfl
      have := hd '\x27' List.mem_cons_self
      revert this
      decide
    rw [List.cons_append, indexOf?, if_neg (by simp [List.isPrefixOf, hne.symm]),
      ih fun c hc => hd c (List.mem_cons_of_mem _ hc)]
    rfl

/-- A mark of a hexadecimal literal starts neither a gap nor a word. -/
theorem frontPiece_of_hexLiteral {d : Dialect} {offset : Nat} {c : Char} {cs : List Char}
    {p : Piece} (hc : isBlank c = false ∧ c ≠ '-' ∧ c ≠ '/')
    (h : hexLiteral? offset (c :: cs) d.lexis.hexStrings = .ok (some p)) :
    frontPiece d offset c cs = .ok p := by
  rw [frontPiece, gap?_eq_none hc.1 (fun h => absurd h hc.2.1) (fun h => absurd h hc.2.2), h]
  rfl

/-- The pair of marks that a dialect writes around a binary string. -/
def blobMark : Builtin → Char
  | .generic => 'X'
  | .sqlite => 'x'

theorem blobPair?_eq (b : Builtin) :
    b.dialect.blobPair? = some (String.ofList [blobMark b, '\x27'], "'") := by
  cases b <;> rfl

/-- A binary string. -/
theorem scans_hexString {ds : List Char} (hd : ∀ c ∈ ds, isHexDigit c = true) :
    Scans b.dialect F (blobMark b :: '\x27' :: (ds ++ ['\x27']))
      (One (.hexString (String.ofList ds))
        (String.ofList (blobMark b :: '\x27' :: (ds ++ ['\x27'])))) := by
  refine .one fun offset rest _ => ?_
  obtain ⟨pairs, hpairs⟩ : ∃ pairs, b.dialect.lexis.hexStrings =
      (String.ofList [blobMark b, '\x27'], "'") :: pairs := by cases b <;> exact ⟨_, rfl⟩
  have hprefix : (String.ofList [blobMark b, '\x27']).toList.isPrefixOf?
      (blobMark b :: ('\x27' :: (ds ++ ['\x27']) ++ rest)) = some (ds ++ '\x27' :: rest) := by
    rw [String.toList_ofList]
    simp
  refine ⟨⟨some (.hexString (String.ofList ds)), ds.length + 3, Nat.succ_pos _⟩,
    frontPiece_of_hexLiteral (by cases b <;> decide) ?_, rfl, by simp⟩
  rw [hpairs, hexLiteral?, hprefix]
  simp only [show ("'" : String).toList = ['\x27'] from rfl, List.cons_ne_nil, dif_neg,
    not_false_eq_true, indexOf?_digits hd, List.take_left, List.all_eq_true.2 hd, if_true,
    String.toList_ofList]
  congr 2
  simp only [Piece.mk.injEq, true_and, List.length_cons, List.length_nil]
  omega

theorem hexNumberMark?_sqlite : Dialect.sqlite.hexNumberMark? = some "0x" := rfl

theorem hexNumberMark?_generic : Dialect.generic.hexNumberMark? = none := rfl

/-- An integer in base 16, as SQLite writes it. -/
theorem scans_hexNumber {ds : List Char} (hne : ds ≠ []) (hd : ∀ c ∈ ds, isHexDigit c = true) :
    Scans Dialect.sqlite Ended ('0' :: 'x' :: ds)
      (One (.hexNumber (String.ofList ds)) (String.ofList ('0' :: 'x' :: ds))) := by
  refine .one fun offset rest hr => ?_
  have htake : (ds ++ rest).takeWhile isHexDigit = ds :=
    takeWhile_append hd (hr.not_of_list (by decide))
  refine ⟨⟨some (.hexNumber (String.ofList ds)), ds.length + 2, Nat.succ_pos _⟩,
    frontPiece_of_hexLiteral (by decide) ?_, rfl, rfl⟩
  have hpairs : Dialect.sqlite.lexis.hexStrings =
      [("x'", "'"), ("X'", "'"), ("0x", ""), ("0X", "")] := rfl
  have hfirst : ("x'" : String).toList.isPrefixOf? ('0' :: ('x' :: ds ++ rest)) = none := rfl
  have hsecond : ("X'" : String).toList.isPrefixOf? ('0' :: ('x' :: ds ++ rest)) = none := rfl
  have hthird : ("0x" : String).toList.isPrefixOf? ('0' :: ('x' :: ds ++ rest)) =
      some (ds ++ rest) := rfl
  rw [hpairs, hexLiteral?, hfirst]
  dsimp only
  rw [hexLiteral?, hsecond]
  dsimp only
  rw [hexLiteral?, hthird]
  simp only [show ("" : String).toList = [] from rfl, dif_pos, htake, hne, dif_neg,
    not_false_eq_true]
  congr 2
  simp only [Piece.mk.injEq, true_and]
  exact Nat.add_comm _ _

end SqlDialect
