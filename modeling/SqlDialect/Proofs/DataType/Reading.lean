import Mathlib
import SqlDialect.Proofs.DataType.Spelling
import SqlDialect.Proofs.Grammar.Parse
import SqlDialect.Proofs.Lexeme.Name

/-!
# SqlDialect.Proofs.DataType.Reading

Types read from a text of their own and types read from the lexemes of a cast.

* `nameWords` -- the words of a name, which in every case of its letters are
  words and no keywords, except for `WITH`.
* `TypeText.scans_plain`, `TypeText.scans_zoned` -- the lexemes of a spelling.
* `castParts_cut`, `expression_error` -- a cast whose type ends too early, and a
  complaint about the first operand of an expression.
* `cast_type_of_spelling` -- both ways of reading give the same type, except that
  the keyword `WITH` ends a type in a cast.
-/

namespace SqlDialect

open Text Grammar

/-! ## the words of a name -/

/-- The words of a name. -/
def nameWords (s : String) : List String := (splitOn ' ' s.toList).map String.ofList

theorem nameWords_eq_cons (s : String) : ∃ word words, nameWords s = word :: words :=
  ⟨_, _, rfl⟩

theorem intercalate_nameWords (s : String) : " ".intercalate (nameWords s) = s := by
  have hjoin (part : List Char) (parts : List (List Char)) :
      [' '].intercalate (part :: parts) = part ++ parts.flatMap (' ' :: ·) := by
    induction parts generalizing part with
    | nil => simp
    | cons next parts ih => simp [List.intercalate_cons_cons, ih]
  have hback : (nameWords s).map String.toList = splitOn ' ' s.toList := by
    simp [nameWords]
  rw [← String.toList_inj, String.toList_intercalate, hback]
  exact (hjoin _ _).trans (splitAround_flatMap ' ' s.toList)

theorem nameWords_lower (s : String) : nameWords (lower s) = (nameWords s).map lower := by
  have hspace : ∀ u ∈ upperLetters, u ≠ ' ' ∧ u.toLower ≠ ' ' := forall_mem_of_all (by decide)
  rw [nameWords, nameWords, toList_lower, splitOn_map_toLower hspace, List.map_map, List.map_map]
  refine List.map_congr_left fun part _ => ?_
  rw [Function.comp_apply, Function.comp_apply, lower, String.toList_ofList]

/-- A word is one in any case. -/
theorem isWord_lower (s : String) : isWord (lower s) = isWord s := by
  have hletter (c : Char) :
      startsWord c.toLower = startsWord c ∧ continuesWord c.toLower = continuesWord c := by
    rcases toLower_cases c with h | h
    · rw [h]
      exact ⟨rfl, rfl⟩
    · have hall : ∀ c ∈ upperLetters, startsWord c.toLower = startsWord c ∧
          continuesWord c.toLower = continuesWord c := forall_mem_of_all (by decide)
      exact hall c h
  unfold isWord
  rw [toList_lower]
  cases s.toList with
  | nil => rfl
  | cons c cs =>
    simp only [List.map_cons, List.all_map, (hletter c).1]
    congr 2
    funext d
    exact (hletter d).2

/-- A keyword of the base dialect is one in any case. -/
theorem wordKind_lower (s : String) :
    wordKind Dialect.generic (lower s) = wordKind Dialect.generic s := by
  have hspelling : Keyword.ofSpelling? (lower s) = Keyword.ofSpelling? s := by
    unfold Keyword.ofSpelling?
    simp only [sameWord, lower_lower]
  rw [wordKind, wordKind, keyword?_generic, keyword?_generic, hspelling]

theorem wordKind_of_lower {w l : String} (h : lower w = l) :
    wordKind Dialect.generic w = wordKind Dialect.generic l := by
  rw [← wordKind_lower, h]

/-- The name of a type that has a keyword in it. -/
def zonedName : String := "timestamp with time zone"

/-- The words of the name of a type are words, and only one of them is a
keyword. -/
theorem typeName_words {name : String} {kind : TypeKind}
    (h : DataType.kindOfAlias? (lower name) = some kind) : ∀ w ∈ nameWords name,
      isWord w = true ∧ (lower name ≠ zonedName → wordKind Dialect.generic w = .word) := by
  have hall : ∀ n ∈ typeNames, ∀ w ∈ nameWords n, isWord w = true ∧
      (n ≠ zonedName → wordKind Dialect.generic w = .word) := by decide
  intro w hw
  have hlow := hall _ (mem_typeNames h) (lower w)
    (by rw [nameWords_lower]; exact List.mem_map_of_mem hw)
  rwa [isWord_lower, wordKind_lower] at hlow

/-- The first two words of that name. -/
theorem nameWords_zoned {name : String} (h : lower name = zonedName) :
    ∃ first second others, nameWords name = first :: second :: others ∧
      lower first = "timestamp" ∧ lower second = "with" := by
  have hwords := nameWords_lower name
  rw [h, show nameWords zonedName = ["timestamp", "with", "time", "zone"] by decide]
    at hwords
  obtain ⟨first, rest, hrest, hfirst, hother⟩ := List.map_eq_cons_iff.1 hwords.symm
  obtain ⟨second, others, rfl, hsecond, -⟩ := List.map_eq_cons_iff.1 hother
  exact ⟨first, second, others, hrest, hfirst, hsecond⟩

/-! ## lexemes -/

section

variable {name s : String} {kind : TypeKind} {ps : List UInt32}

/-- The lexemes of a spelling by any name but that one are a type. -/
theorem TypeText.scans_plain (h : TypeText name ps s)
    (hname : DataType.kindOfAlias? (lower name) = some kind) (hne : lower name ≠ zonedName) :
    Scans Dialect.generic Ended s.toList (TypeOf ⟨kind, ps⟩) := by
  obtain ⟨word, words, hsplit⟩ := nameWords_eq_cons name
  have hjoin := intercalate_nameWords name
  have hwords := typeName_words hname
  rw [hsplit] at hjoin hwords
  exact h.scans_typeOf (b := .generic) hname
    (fun w hw => ⟨(hwords w hw).1, (hwords w hw).2 hne⟩) hjoin

/-- The lexemes of a spelling by that name are a type without a time zone and the
keyword behind it. -/
theorem TypeText.scans_zoned (h : TypeText name ps s)
    (hname : DataType.kindOfAlias? (lower name) = some kind) (hzoned : lower name = zonedName) :
    Scans Dialect.generic Ended s.toList fun ls => ∃ t u rest, ls = t :: u :: rest ∧
      TypeOf ⟨.timestamp, []⟩ [t] ∧ u.kind = .keyword .WITH ∧ lower u.text = "with" := by
  obtain ⟨first, second, others, hsplit, hfirst, hsecond⟩ := nameWords_zoned hzoned
  have hjoin := intercalate_nameWords name
  have hwords := typeName_words hname
  rw [hsplit] at hjoin hwords
  refine (h.scans (b := .generic) (fun w hw => (hwords w hw).1) hjoin).imp ?_
  rintro _ ⟨ws, us, rfl, htexts, hkinds, -⟩
  obtain ⟨t, ws, rfl, ht, htexts⟩ := List.map_eq_cons_iff.1 htexts
  obtain ⟨u, ws, rfl, hu, -⟩ := List.map_eq_cons_iff.1 htexts
  simp only [List.map_cons, List.cons.injEq] at hkinds
  have htkind : t.kind = .word :=
    hkinds.1.trans ((wordKind_of_lower hfirst).trans (by decide))
  have hukind : u.kind = .keyword .WITH :=
    hkinds.2.1.trans ((wordKind_of_lower hsecond).trans (by decide))
  refine ⟨t, u, ws ++ us, rfl, .plain (by simpa using htkind) ?_, hukind, by rw [hu, hsecond]⟩
  rw [typeName, List.map_singleton, String.intercalate_singleton, ht]
  exact ofText?_name (by rw [hfirst]; rfl)

end

/-! ## complaints -/

namespace Grammar

variable {d : Dialect} {n : Nat} {e : ParseError}

/-- A reading whose second part complains. -/
theorem Gives.bind_error {α β : Type} {m : Nat} {a : α} {rest : List Lexeme} {x : Reading α m}
    {f : Read α m → Reading β n} (hx : Gives x a rest) (hf : ∀ h, f ⟨a, rest, h⟩ = .error e) :
    (x >>= f) = .error e := by
  obtain ⟨h, rfl⟩ := hx
  exact hf h

/-- A cast whose type ends in front of a keyword. -/
theorem castParts_cut {u v w : Lexeme} {a : Expr} {type : DataType} {k : Keyword}
    {ls₁ ls₂ : List Lexeme} (hu : u.kind = .lparen) (ha : Reads d (.expr 8 a) ls₁)
    (hv : v.kind = .keyword .AS) (hT : TypeOf type ls₂) (hw : w.kind = .keyword k)
    (rest : List Lexeme) (h) :
    castParts (within d n) (u :: (ls₁ ++ v :: (ls₂ ++ w :: rest))) h =
      .error (.unexpectedToken w.text .closeParen w.offset) := by
  unfold castParts
  refine (expect_gives _ hu _).bind_error fun h₁ => ?_
  refine (ha.loose (.cons (by rw [hv]; decide)) _).bind_error fun h₂ => ?_
  refine (expectKeyword_gives hv _).bind_error fun h₃ => ?_
  refine (hT.gives (.cons (by rw [hw]; simp)) (.cons (by rw [hw]; simp))).bind_error fun h₄ => ?_
  dsimp only
  rw [expect, if_neg (by rw [hw]; simp)]
  rfl

/-- A complaint about an expression of a level is one about the next looser
level. -/
theorem readAt_error_succ {sub : Below n} {k : Nat} {ts : List Lexeme} {h : ts.length ≤ n}
    (hk : k < 8) (hfirst : Leads k ts) (he : readAt d sub k ts h = .error e) :
    readAt d sub (k + 1) ts h = .error e := by
  have hleft {item : (ts : List Lexeme) → ts.length ≤ n → Reading Expr ts.length}
      {operator? : LexemeKind → Option (Expr → Expr → Expr)} (he : item ts h = .error e) :
      leftAssoc item operator? ts h = .error e := by
    rw [leftAssoc, he]
    rfl
  obtain rfl | rfl | rfl | rfl | rfl | rfl | rfl | rfl :
    k = 0 ∨ k = 1 ∨ k = 2 ∨ k = 3 ∨ k = 4 ∨ k = 5 ∨ k = 6 ∨ k = 7 := by omega
  case inl =>
    obtain ⟨t, us, rfl, ht⟩ := hfirst
    have hne : t.kind ≠ .minus := fun heq => by rw [heq] at ht; exact absurd ht (by decide)
    simp only [readAt]
    rw [signed, if_neg hne]
    exact he
  case inr.inr.inr.inr.inl =>
    have he : sum d sub ts h = .error e := he
    change comparison d sub ts h = .error e
    rw [comparison, he]
    rfl
  case inr.inr.inr.inr.inr.inl =>
    obtain ⟨t, us, rfl, ht⟩ := hfirst
    have hne : t.kind ≠ .keyword .NOT := fun heq => by rw [heq] at ht; exact absurd ht (by decide)
    simp only [readAt]
    rw [negation, if_neg hne]
    exact he
  all_goals exact hleft he

/-- A complaint about the first operand is one about the expression. -/
theorem expression_error {ts : List Lexeme} (hfirst : Leads 0 ts)
    (he : ∀ h, primary d (within d ts.length) ts h = .error e) :
    expression d .loose ts = .error e := by
  have hlevel (k : Nat) (hk : k ≤ 8) : readAt d (within d ts.length) k ts (Nat.le_refl _) =
      .error e := by
    induction k with
    | zero => exact he _
    | succ k ih => exact readAt_error_succ hk (hfirst.mono (Nat.zero_le k)) (ih (by omega))
  rw [expression]
  exact hlevel 8 (Nat.le_refl 8)

end Grammar

/-! ## casts -/

/-- The lexemes of a cast of the column `x`, by those of the type. -/
inductive CastOf (P : List Lexeme → Prop) : List Lexeme → Prop where
  | mk {t u v w x : Lexeme} {ls : List Lexeme} (ht : t.kind = .keyword .CAST)
      (hu : u.kind = .lparen) (hv : identOf? v = some ⟨"x", false⟩) (hw : w.kind = .keyword .AS)
      (hls : P ls) (hx : x.kind = .rparen) : CastOf P (t :: u :: v :: w :: (ls ++ [x]))

/-- A cast to a type that is spelled in some way. -/
theorem scans_castOf {s : String} {P : List Lexeme → Prop}
    (h : Scans Dialect.generic Ended s.toList P) :
    Scans Dialect.generic Ended ("CAST(x AS " ++ s ++ ")").toList (CastOf P) := by
  have htext : ("CAST(x AS " ++ s ++ ")").toList = "CAST".toList ++
      '(' :: ("x".toList ++ ' ' :: ("AS".toList ++ ' ' :: (s.toList ++ [')']))) := by simp
  have hword {word : String} (hw : isWord word = true) :
      Scans Dialect.generic Breaks word.toList (One (wordKind Dialect.generic word) word) :=
    scans_word (b := .generic) hw
  have hspace : Scans Dialect.generic (fun _ => True) [' '] fun ls => ls = [] :=
    scans_space (b := .generic) rfl
  rw [htext]
  refine (hword (by decide)).append (fun _ _ => .cons (by decide) _) ?_
  rintro _ ⟨t, rfl, ht, -⟩
  refine (scans_lparen (b := .generic) (F := fun _ => True)).cons (fun _ _ => trivial) ?_
  rintro _ ⟨u, rfl, hu, -⟩
  refine (hword (by decide)).append (fun _ _ => .cons (by decide) _) ?_
  rintro _ ⟨v, rfl, hv, hname⟩
  refine hspace.cons (fun _ _ => trivial) ?_
  rintro _ rfl
  refine (hword (by decide)).append (fun _ _ => .cons (by decide) _) ?_
  rintro _ ⟨w, rfl, hw, -⟩
  refine hspace.cons (fun _ _ => trivial) ?_
  rintro _ rfl
  refine h.append (fun _ _ => .cons (by decide) _) fun ls hls => ?_
  refine (scans_rparen (b := .generic) (F := Ended)).imp ?_
  rintro _ ⟨x, rfl, hx, -⟩
  have hcast : t.kind = .keyword .CAST := by
    rw [ht]
    decide
  have hident : identOf? v = some ⟨"x", false⟩ := by
    rw [identOf?, hv, hname]
    decide
  have has : w.kind = .keyword .AS := by
    rw [hw]
    decide
  exact .mk hcast hu hident has hls hx

/-- What is read of a cast whose type ends in front of a keyword. -/
theorem parseExpr_castCut {sql : String} {t u v w y z : Lexeme} {i : Ident} {type : DataType}
    {k : Keyword} {rest : List Lexeme}
    (hscan : Dialect.generic.scan sql = .ok (t :: u :: v :: w :: y :: z :: rest))
    (ht : t.kind = .keyword .CAST) (hu : u.kind = .lparen) (hv : identOf? v = some i)
    (hw : w.kind = .keyword .AS) (hT : TypeOf type [y]) (hz : z.kind = .keyword k) :
    Dialect.generic.parseExpr sql = .error (.unexpectedToken z.text .closeParen z.offset) := by
  have hcolumn : Reads Dialect.generic (.expr 8 (.column none i)) [v] :=
    ((Derives.column hv).raise (Nat.zero_le 8) (Nat.le_refl 8)).reads
  have hread : expression Dialect.generic .loose (t :: u :: v :: w :: y :: z :: rest) =
      .error (.unexpectedToken z.text .closeParen z.offset) := by
    refine expression_error (.cons (by rw [ht]; decide)) fun h => ?_
    have hcut := castParts_cut hu hcolumn hw hT hz rest (Front.tail_lt_of_le h)
    simp only [List.singleton_append] at hcut
    rw [primary, ht]
    simp only [hcut]
    rfl
  rw [Dialect.parseExpr, hscan]
  simp only [bind, Except.bind, hread]

/-- A type is read alike from its own text and from a cast, unless its name has
the keyword `WITH` in it, which ends a type in a cast. -/
theorem cast_type_of_spelling {name s : String} {kind : TypeKind} {ps : List UInt32}
    (hname : DataType.kindOfAlias? (lower name) = some kind) (h : TypeText name ps s) :
    DataType.ofText? s = some ⟨kind, ps⟩ ∧
      (lower name ≠ zonedName → Dialect.generic.parseExpr ("CAST(x AS " ++ s ++ ")") =
        .ok (.cast (.column none ⟨"x", false⟩) ⟨kind, ps⟩)) ∧
      (lower name = zonedName → ∃ found offset, lower found = "with" ∧
        Dialect.generic.parseExpr ("CAST(x AS " ++ s ++ ")") =
          .error (.unexpectedToken found .closeParen offset)) := by
  refine ⟨h.ofText? hname, fun hne => ?_, fun hzoned => ?_⟩
  · obtain ⟨_, ⟨ht, hu, hv, hw, hls, hx⟩, hscan⟩ :=
      (scans_castOf (h.scans_plain hname hne)).scan .nil
    have hcolumn := (Derives.column (d := Dialect.generic) hv).raise (Nat.zero_le 8) (Nat.le_refl 8)
    have hcast := (Derives.cast ht rfl hu hcolumn hw hls hx).raise (Nat.zero_le 8) (Nat.le_refl 8)
    exact parseExpr_eq_ok_iff.2 ⟨_, hscan, by simpa using hcast⟩
  · obtain ⟨_, ⟨ht, hu, hv, hw, ⟨y, z, rest, rfl, hy, hz, hfound⟩, -⟩, hscan⟩ :=
      (scans_castOf (h.scans_zoned hname hzoned)).scan .nil
    exact ⟨z.text, z.offset, hfound, parseExpr_castCut hscan ht hu hv hw hy hz⟩

theorem cast_type_of_spelling_numeric :
    Dialect.generic.parseExpr ("CAST(x AS " ++ "NUMERIC (10, 2)" ++ ")") =
        .ok (.cast (.column none ⟨"x", false⟩) ⟨.decimal, [10, 2]⟩) ∧
      DataType.ofText? zonedName = some ⟨.timestampTz, []⟩ ∧
      ∃ found offset, lower found = "with" ∧
        Dialect.generic.parseExpr ("CAST(x AS " ++ zonedName ++ ")") =
          .error (.unexpectedToken found .closeParen offset) := by
  have hten : ParamText 10 ['1', '0'] := .digits (by simp) (by simp [Digits]) (by decide)
  have htwo : ParamText 2 ['2'] := .digits (by simp) (by simp [Digits]) (by decide)
  have hparams : ParamsText [10, 2] ['1', '0', ',', ' ', '2'] :=
    .more hten ((ParamsText.one htwo).spaced Spaces.single)
  have htext : "NUMERIC" ++ String.ofList ([' '] ++ '(' :: (['1', '0', ',', ' ', '2'] ++ [')'])) =
      "NUMERIC (10, 2)" := by decide
  have hnumeric : TypeText "NUMERIC" [10, 2] "NUMERIC (10, 2)" := by
    rw [← htext]
    exact .withParams Spaces.single hparams
  have hdecimal : DataType.kindOfAlias? (lower "NUMERIC") = some .decimal := by decide
  have hzoned : DataType.kindOfAlias? (lower zonedName) = some .timestampTz := by decide
  have hplain := cast_type_of_spelling hdecimal hnumeric
  have hcut := cast_type_of_spelling hzoned .plain
  exact ⟨hplain.2.1 (by decide), hcut.1, hcut.2.2 (by decide +kernel)⟩

end SqlDialect
